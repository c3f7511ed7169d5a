import StackContract.Number.Int128
import StackContract.Text.Quoted
/-!
# Constants of static fields

The values to which the initializers of readonly static fields are evaluated at compile time.
-/

namespace StackContract.Compile

open Number

/-- The value of a readonly static field. -/
inductive Constant
  | integer (v : Int128)
  | boolean (b : Bool)
  | string (s : String)
  | bytes (data : List UInt8)
  | strings (items : List String)
deriving DecidableEq, Repr

/-- The text of a constant in traces. -/
def Constant.text : Constant → String
  | .integer v => toString v.val
  | .boolean b => if b then "true" else "false"
  | .string s => Text.quoted s
  | .bytes data => "0x" ++ Text.hexOfBytes data
  | .strings items => "[" ++ String.intercalate ", " (items.map Text.quoted) ++ "]"

end StackContract.Compile
