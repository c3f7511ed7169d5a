import StackContract.Digest.Sha256
import StackContract.Number.LittleEndian
import StackContract.Text.Utf8
/-!
# Interop services

A system call names a service by a 32-bit identifier: the first four bytes of the SHA-256 digest of
its dotted name, least significant first.
-/

namespace StackContract.Script

/-- The identifier of the service with this name. -/
def serviceId (name : String) : UInt32 :=
  UInt32.ofNat (Number.natOfBytes ((Digest.sha256 (Text.utf8 name)).take 4))

/-- The bytes of a service's identifier, least significant first. -/
def serviceIdBytes (name : String) : List UInt8 :=
  (Digest.sha256 (Text.utf8 name)).take 4

/-- The services that are known by name. -/
inductive Service
  | contractCall | log | notify
deriving DecidableEq, Repr

namespace Service

def name : Service → String
  | .contractCall => "System.Contract.Call"
  | .log => "System.Runtime.Log"
  | .notify => "System.Runtime.Notify"

/-- Every known service with its identifier. -/
def identifiers : List (UInt32 × Service) :=
  [.contractCall, .log, .notify].map fun service => (serviceId service.name, service)

/-- The known service with this identifier. -/
def ofId? (id : UInt32) : Option Service :=
  identifiers.lookup id

end Service

end StackContract.Script
