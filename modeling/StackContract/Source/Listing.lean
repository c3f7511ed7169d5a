import StackContract.Source.Op
import StackContract.Text.Digits
import StackContract.Text.Quoted
/-!
# Source listings

The mnemonic and the text of an operation, as error messages and listings show it.
-/

namespace StackContract.Source

/-- A source offset in listings. -/
def offsetText (offset : UInt32) : String :=
  "IL_" ++ Text.hex4 offset.toNat

def Condition.mnemonic : Condition → String
  | .always => "br" | .leave => "leave" | .ifTrue => "brtrue" | .ifFalse => "brfalse"
  | .equal => "beq" | .notEqual => "bne.un" | .less => "blt" | .lessUnsigned => "blt.un"
  | .lessEqual => "ble" | .lessEqualUnsigned => "ble.un" | .greater => "bgt"
  | .greaterUnsigned => "bgt.un" | .greaterEqual => "bge" | .greaterEqualUnsigned => "bge.un"

def Arithmetic.mnemonic : Arithmetic → String
  | .add => "add" | .sub => "sub" | .mul => "mul" | .div => "div" | .divUnsigned => "div.un"
  | .rem => "rem" | .remUnsigned => "rem.un" | .neg => "neg" | .complement => "not"
  | .and => "and" | .or => "or" | .xor => "xor" | .shl => "shl" | .shr => "shr"
  | .shrUnsigned => "shr.un"

def Comparison.mnemonic : Comparison → String
  | .equal => "ceq" | .greater => "cgt" | .greaterUnsigned => "cgt.un" | .less => "clt"
  | .lessUnsigned => "clt.un"

def PointerOp.mnemonic : PointerOp → String
  | .loadIndirect => "ldind" | .storeIndirect => "stind" | .elementAddress => "ldelema"
  | .allocate => "localloc" | .callIndirect => "calli" | .sizeOf => "sizeof"
  | .token => "ldtoken" | .virtualFunction => "ldvirtftn" | .newMultiArray => "newobj.mdarray"
  | .endFinally => "endfinally"

/-- The name of an intrinsic. -/
def Intrinsic.tag : Intrinsic → String
  | .stringHash => "StringHash" | .stringEquals => "StringEquals"
  | .stringConcat => "StringConcat" | .stringLength => "StringLength"

/-- The callee of a call, as listings show it. -/
def Callee.text : Callee → String
  | .method name => name
  | .intrinsic kind => kind.tag
  | .event => "event.Invoke"
  | .delegate _ => "delegate.Invoke"

namespace Op

/-- The mnemonic of an operation. -/
def mnemonic : Op → String
  | .nop => "nop" | .pop => "pop" | .dup => "dup" | .ret => "ret" | .throw => "throw"
  | .loadNull => "ldnull" | .literal32 _ => "ldc.i4" | .literal64 _ => "ldc.i8"
  | .loadString _ => "ldstr"
  | .load .locals _ => "ldloc" | .store .locals _ => "stloc" | .address .locals _ => "ldloca"
  | .load .arguments _ => "ldarg" | .store .arguments _ => "starg"
  | .address .arguments _ => "ldarga"
  | .loadStatic _ => "ldsfld" | .storeStatic _ => "stsfld"
  | .loadField _ => "ldfld" | .storeField _ => "stfld"
  | .newArray _ => "newarr" | .initArray _ => "initarray" | .length => "ldlen"
  | .loadElement => "ldelem" | .storeElement => "stelem"
  | .newObject _ _ => "newobj" | .newDelegate => "newobj.delegate" | .initObject _ => "initobj"
  | .branch condition _ => condition.mnemonic | .switch _ => "switch"
  | .arithmetic operation => operation.mnemonic | .compare comparison => comparison.mnemonic
  | .convert _ => "conv" | .call _ => "call" | .loadFunction _ => "ldftn"
  | .box _ => "box" | .unbox _ => "unbox" | .unboxAny _ => "unbox.any"
  | .isInstance _ => "isinst" | .castClass _ => "castclass"
  | .pointerOp operation => operation.mnemonic

/-- The operand of an operation, if listings show one. -/
def operandText? : Op → Option String
  | .literal32 v => some (toString v.toInt)
  | .literal64 v => some (toString v.toInt)
  | .loadString s => some (Text.quoted s)
  | .load _ index | .store _ index | .address _ index | .loadField index | .storeField index =>
    some (toString index.toNat)
  | .loadStatic field | .storeStatic field => some field.key
  | .newArray type | .box type | .unbox type | .unboxAny type | .isInstance type
  | .castClass type => some type.text
  | .call callee => some callee.text
  | .loadFunction name => some name
  | .branch _ target => some (offsetText target)
  | _ => none

/-- The line of an operation in listings. -/
def text (op : Op) : String :=
  match op.operandText? with
  | some operand => op.mnemonic ++ " " ++ operand
  | none => op.mnemonic

end Op

end StackContract.Source
