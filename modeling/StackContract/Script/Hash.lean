import StackContract.Digest.Ripemd160
import StackContract.Digest.Sha256
import StackContract.Text.Hex
/-!
# Script hashes

A script is identified by the RIPEMD-160 digest of its SHA-256 digest. The text of a hash is `0x` and
the digits of its bytes in reverse; `parse` reads that text, with or without its `0x`.
-/

namespace StackContract.Script

/-- The twenty bytes that identify a script, in the order of the digest. -/
structure Hash where
  bytes : List UInt8
  length_bytes : bytes.length = 20

/-- Why a text is no script hash. -/
inductive HashError
  | hex (error : Text.HexError)
  | length (actual : Nat)
deriving DecidableEq, Repr

def HashError.message : HashError → String
  | .hex error => "invalid hex in script hash: " ++ error.message
  | .length actual => "script hash must be 20 bytes, got " ++ toString actual

namespace Hash

/-- The hash of a script. -/
def ofScript (script : List UInt8) : Hash :=
  ⟨Digest.ripemd160 (Digest.sha256 script), Digest.length_ripemd160 _⟩

/-- `0x` and the digits of the bytes in reverse. -/
def text (hash : Hash) : String :=
  "0x" ++ Text.hexOfBytes hash.bytes.reverse

/-- The digits of a hash: its text without the `0x` in front, if there is one. -/
def digitsOf (text : String) : String :=
  match text.toList with
  | '0' :: 'x' :: digits => String.ofList digits
  | _ => text

/-- Reads the text of a hash; its `0x` is optional. -/
def parse (text : String) : Except HashError Hash :=
  match Text.bytesOfHex (digitsOf text) with
  | .error e => .error (.hex e)
  | .ok bytes =>
    if h : bytes.length = 20 then .ok ⟨bytes.reverse, by simpa using h⟩
    else .error (.length bytes.length)

end Hash

end StackContract.Script
