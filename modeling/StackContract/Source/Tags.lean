import StackContract.Source.Listing
import StackContract.Source.Module
/-!
# Tags of the interchange format

The names under which the interchange format of modules writes the enumerations of the source language.
Each enumeration lists its values in `all`; `ofTag?` finds the value of a tag among them.
-/

namespace StackContract.Source

/-- The first of `values` whose tag is `text`. -/
def findTag {α : Type} (tag : α → String) (values : List α) (text : String) : Option α :=
  values.find? fun value => tag value = text

namespace Intrinsic

def all : List Intrinsic :=
  [.stringHash, .stringEquals, .stringConcat, .stringLength]

def ofTag? : String → Option Intrinsic := findTag tag all

end Intrinsic

namespace Conversion

def ofTag? : String → Option Conversion := findTag tag all

end Conversion

namespace ValueType

/-- The type without arguments that a tag names. -/
def ofTag? : String → Option ValueType := findTag tag plain

end ValueType

namespace Condition

def all : List Condition :=
  [.always, .leave, .ifTrue, .ifFalse, .equal, .notEqual, .less, .lessUnsigned, .lessEqual,
    .lessEqualUnsigned, .greater, .greaterUnsigned, .greaterEqual, .greaterEqualUnsigned]

def tag : Condition → String
  | .always => "Br" | .leave => "Leave" | .ifTrue => "BrTrue" | .ifFalse => "BrFalse"
  | .equal => "Beq" | .notEqual => "BneUn" | .less => "Blt" | .lessUnsigned => "BltUn"
  | .lessEqual => "Ble" | .lessEqualUnsigned => "BleUn" | .greater => "Bgt"
  | .greaterUnsigned => "BgtUn" | .greaterEqual => "Bge" | .greaterEqualUnsigned => "BgeUn"

def ofTag? : String → Option Condition := findTag tag all

end Condition

namespace Arithmetic

def all : List Arithmetic :=
  [.add, .sub, .mul, .div, .divUnsigned, .rem, .remUnsigned, .neg, .complement, .and, .or, .xor,
    .shl, .shr, .shrUnsigned]

def tag : Arithmetic → String
  | .add => "Add" | .sub => "Sub" | .mul => "Mul" | .div => "Div" | .divUnsigned => "DivUn"
  | .rem => "Rem" | .remUnsigned => "RemUn" | .neg => "Neg" | .complement => "Not"
  | .and => "And" | .or => "Or" | .xor => "Xor" | .shl => "Shl" | .shr => "Shr"
  | .shrUnsigned => "ShrUn"

end Arithmetic

namespace Comparison

def all : List Comparison :=
  [.equal, .greater, .greaterUnsigned, .less, .lessUnsigned]

def tag : Comparison → String
  | .equal => "Ceq" | .greater => "Cgt" | .greaterUnsigned => "CgtUn" | .less => "Clt"
  | .lessUnsigned => "CltUn"

end Comparison

namespace PointerOp

def all : List PointerOp :=
  [.loadIndirect, .storeIndirect, .elementAddress, .allocate, .callIndirect, .sizeOf, .token,
    .virtualFunction, .newMultiArray, .endFinally]

def tag : PointerOp → String
  | .loadIndirect => "Ldind" | .storeIndirect => "Stind" | .elementAddress => "Ldelema"
  | .allocate => "Localloc" | .callIndirect => "Calli" | .sizeOf => "Sizeof"
  | .token => "Ldtoken" | .virtualFunction => "Ldvirtftn" | .newMultiArray => "NewMultiArray"
  | .endFinally => "Endfinally"

end PointerOp

namespace Op

/-- The operations without an operand. -/
def plain : List Op :=
  [.nop, .pop, .dup, .ret, .throw, .loadNull, .length, .loadElement, .storeElement, .newDelegate]
    ++ Arithmetic.all.map .arithmetic ++ Comparison.all.map .compare
    ++ PointerOp.all.map .pointerOp

def tag : Op → String
  | .nop => "Nop" | .pop => "Pop" | .dup => "Dup" | .ret => "Ret" | .throw => "Throw"
  | .loadNull => "LdNull" | .literal32 _ => "LdcI4" | .literal64 _ => "LdcI8"
  | .loadString _ => "LdStr"
  | .load .locals _ => "LdLoc" | .store .locals _ => "StLoc" | .address .locals _ => "LdLocA"
  | .load .arguments _ => "LdArg" | .store .arguments _ => "StArg"
  | .address .arguments _ => "LdArgA"
  | .loadStatic _ => "LdSFld" | .storeStatic _ => "StSFld"
  | .loadField _ => "LdFld" | .storeField _ => "StFld"
  | .newArray _ => "NewArr" | .initArray _ => "InitArray" | .length => "LdLen"
  | .loadElement => "LdElem" | .storeElement => "StElem"
  | .newObject _ _ => "NewObj" | .newDelegate => "NewDelegate" | .initObject _ => "InitObj"
  | .branch condition _ => condition.tag | .switch _ => "Switch"
  | .arithmetic operation => operation.tag | .compare comparison => comparison.tag
  | .convert _ => "Conv" | .call _ => "Call" | .loadFunction _ => "Ldftn"
  | .box _ => "Box" | .unbox _ => "Unbox" | .unboxAny _ => "UnboxAny"
  | .isInstance _ => "IsInst" | .castClass _ => "CastClass"
  | .pointerOp operation => operation.tag

/-- The operation without an operand that a tag names. -/
def ofTag? : String → Option Op := findTag tag plain

end Op

namespace TypeRole

def all : List TypeRole :=
  [.contract, .helper, .synthesized]

def tag : TypeRole → String
  | .contract => "Contract" | .helper => "Helper" | .synthesized => "Synthesized"

def ofTag? : String → Option TypeRole := findTag tag all

end TypeRole

namespace MethodRole

def all : List MethodRole :=
  [.normal, .constructor, .staticConstructor, .eventAccessor]

def tag : MethodRole → String
  | .normal => "Normal" | .constructor => "Constructor"
  | .staticConstructor => "StaticConstructor" | .eventAccessor => "EventAccessor"

def ofTag? : String → Option MethodRole := findTag tag all

end MethodRole

end StackContract.Source
