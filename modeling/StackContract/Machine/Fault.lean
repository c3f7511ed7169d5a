import StackContract.Machine.Item
import StackContract.Script.Instruction
import StackContract.Script.Service
import StackContract.Script.Slot
/-!
# Faults

The causes that end a run, and their wording.
-/

namespace StackContract.Machine

open Script

/-- What an item was expected to be: of a kind, or text. -/
inductive Expectation
  | kind (kind : ItemKind)
  | text
deriving DecidableEq, Repr

def Expectation.name : Expectation → String
  | .kind expected => expected.name
  | .text => "String"

/-- Why a run ends before its entry frame returns. -/
inductive Fault
  | executionLimit (limit : Nat)
  | recursionLimit (limit : Nat)
  | stackLimit (limit : Nat)
  | stackUnderflow (address : Nat)
  | decode (error : DecodeError)
  | invalidType (expected : Expectation) (found : ItemKind)
  | overflow
  | divideByZero
  | indexOutOfRange (index : Int) (length : Nat)
  /-- A map has no such key, which is given by its text. -/
  | keyNotFound (key : String)
  | unsupported (opcode : Opcode)
  | unknownService (id : UInt32)
  | unavailableService (service : Service)
  | invalidSlot (area : SlotArea) (index : UInt8)
  | staticsAlreadyAllocated
  | invalidEntry (address : Nat)
  | thrown (text : String)
  | aborted (message : Option String)
  | assertFailed (message : Option String)
  /-- The machine itself breaks down: a place in the stack has no number of 64 bits, or a buffer is to be
  read while it is held. -/
  | breakdown
deriving DecidableEq, Repr

/-- A colon and the message, if there is one. -/
def afterColon : Option String → String
  | some message => ": " ++ message
  | none => ""

/-- The name of a slot area in messages. -/
def areaName : SlotArea → String
  | .static => "static"
  | .locals => "local"
  | .arguments => "argument"

def Fault.message : Fault → String
  | .executionLimit limit =>
    "runtime execution limit exceeded (" ++ toString limit ++ " instructions)"
  | .recursionLimit limit => "runtime recursion limit exceeded (" ++ toString limit ++ " frames)"
  | .stackLimit limit => "evaluation stack limit exceeded (" ++ toString limit ++ " items)"
  | .stackUnderflow address => "evaluation stack underflow at " ++ Text.decimal4 address
  | .decode error => error.message
  | .invalidType expected found => "expected " ++ expected.name ++ ", found " ++ found.name
  | .overflow => "integer overflow"
  | .divideByZero => "division by zero"
  | .indexOutOfRange index length =>
    "index " ++ toString index ++ " out of range for length " ++ toString length
  | .keyNotFound key => "key not found: " ++ key
  | .unsupported opcode => "unsupported instruction " ++ opcode.name
  | .unknownService id => "unknown syscall 0x" ++ Text.hex8 id.toNat
  | .unavailableService service =>
    "syscall " ++ service.name ++ " is not available in this executor"
  | .invalidSlot area index =>
    areaName area ++ " slot " ++ toString index.toNat ++ " is not initialized"
  | .staticsAlreadyAllocated => "static slots are already initialized"
  | .invalidEntry address => "no method entry at " ++ Text.decimal4 address
  | .thrown text => "exception thrown: " ++ text
  | .aborted message => "execution aborted" ++ afterColon message
  | .assertFailed message => "assertion failed" ++ afterColon message
  | .breakdown => "the machine has broken down"

/-- The fault of an item that is not what was expected. -/
def Item.invalid (item : Item) (expected : Expectation) : Fault :=
  .invalidType expected item.kind

end StackContract.Machine
