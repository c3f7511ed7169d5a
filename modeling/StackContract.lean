import StackContract.Contract.Build
import StackContract.Machine.Trace
import StackContract.Source.Printer
import StackContract.Source.Reader
import StackContract.Proofs.ArgumentOrder
import StackContract.Proofs.ArrayLiterals
import StackContract.Proofs.Bracketing
import StackContract.Proofs.Circles
import StackContract.Proofs.Codec
import StackContract.Proofs.ComparedBranches
import StackContract.Proofs.ConstantPushes
import StackContract.Proofs.CoreRuns
import StackContract.Proofs.Dictionaries
import StackContract.Proofs.FoldedCode
import StackContract.Proofs.HashText
import StackContract.Proofs.Independence
import StackContract.Proofs.IndexedStores
import StackContract.Proofs.Initialization
import StackContract.Proofs.InitializerOrder
import StackContract.Proofs.Integrity
import StackContract.Proofs.Interchange
import StackContract.Proofs.Isolation
import StackContract.Proofs.JoinedInitializers
import StackContract.Proofs.KeyLookups
import StackContract.Proofs.LocalPass
import StackContract.Proofs.MapKeys
import StackContract.Proofs.ObjectFields
import StackContract.Proofs.PrimitiveItems
import StackContract.Proofs.Rearrangements
import StackContract.Proofs.RunLimits
import StackContract.Proofs.Searches
import StackContract.Proofs.Shifts
import StackContract.Proofs.StaticAccess
import StackContract.Proofs.StaticStorage
import StackContract.Proofs.StoredStructs
import StackContract.Proofs.Surface
import StackContract.Proofs.SwitchDispatch
import StackContract.Proofs.TwosComplement
