/-!
# Opcodes

The instruction set of the stack machine: one byte for each opcode, its assembly name, and the shape
of the operand behind it. `ofByte?_byte` and `byte_of_ofByte?` say that bytes and opcodes determine
each other.
-/

namespace StackContract.Script

/-- What follows the opcode byte of an instruction. -/
inductive Operand
  | none
  /-- Exactly this many bytes. -/
  | fixed (size : Nat)
  /-- A little-endian length of this many bytes, then as many bytes as it says. -/
  | prefixed (width : Nat)
deriving DecidableEq, Repr

/-- The operations of the machine. A name ending in L takes four bytes where the plain one takes a
single byte. -/
inductive Opcode
  | pushInt8 | pushInt16 | pushInt32 | pushInt64 | pushInt128 | pushInt256 | pushT | pushF
  | pushA | pushNull | pushData1 | pushData2 | pushData4 | pushM1 | push0 | push1 | push2 | push3
  | push4 | push5 | push6 | push7 | push8 | push9 | push10 | push11 | push12 | push13 | push14
  | push15 | push16 | nop | jmp | jmpL | jmpIf | jmpIfL | jmpIfNot | jmpIfNotL | jmpEq | jmpEqL
  | jmpNe | jmpNeL | jmpGt | jmpGtL | jmpGe | jmpGeL | jmpLt | jmpLtL | jmpLe | jmpLeL | call
  | callL | callA | callT | abort | assert | throw | tryBlock | tryBlockL | endTry | endTryL
  | endFinally | ret | syscall | depth | drop | nip | xDrop | clear | dup | over | pick | tuck
  | swap | rot | roll | reverse3 | reverse4 | reverseN | initSSlot | initSlot | ldSFld0 | ldSFld1
  | ldSFld2 | ldSFld3 | ldSFld4 | ldSFld5 | ldSFld6 | ldSFld | stSFld0 | stSFld1 | stSFld2
  | stSFld3 | stSFld4 | stSFld5 | stSFld6 | stSFld | ldLoc0 | ldLoc1 | ldLoc2 | ldLoc3 | ldLoc4
  | ldLoc5 | ldLoc6 | ldLoc | stLoc0 | stLoc1 | stLoc2 | stLoc3 | stLoc4 | stLoc5 | stLoc6
  | stLoc | ldArg0 | ldArg1 | ldArg2 | ldArg3 | ldArg4 | ldArg5 | ldArg6 | ldArg | stArg0
  | stArg1 | stArg2 | stArg3 | stArg4 | stArg5 | stArg6 | stArg | newBuffer | memCpy | cat
  | substr | left | right | invert | and | or | xor | equal | notEqual | sign | abs | negate
  | inc | dec | add | sub | mul | div | mod | pow | sqrt | modMul | modPow | shl | shr | not
  | boolAnd | boolOr | nz | numEqual | numNotEqual | lt | le | gt | ge | min | max | within
  | packMap | packStruct | pack | unpack | newArray0 | newArray | newArrayT | newStruct0
  | newStruct | newMap | size | hasKey | keys | values | pickItem | append | setItem
  | reverseItems | remove | clearItems | popItem | isNull | isType | convert | abortMsg
  | assertMsg
deriving DecidableEq, Repr, Inhabited

namespace Opcode

/-- The byte that stands for an opcode. -/
def byte : Opcode → UInt8
  | .pushInt8 => 0x00 | .pushInt16 => 0x01 | .pushInt32 => 0x02 | .pushInt64 => 0x03
  | .pushInt128 => 0x04 | .pushInt256 => 0x05 | .pushT => 0x08 | .pushF => 0x09 | .pushA => 0x0a
  | .pushNull => 0x0b | .pushData1 => 0x0c | .pushData2 => 0x0d | .pushData4 => 0x0e
  | .pushM1 => 0x0f | .push0 => 0x10 | .push1 => 0x11 | .push2 => 0x12 | .push3 => 0x13
  | .push4 => 0x14 | .push5 => 0x15 | .push6 => 0x16 | .push7 => 0x17 | .push8 => 0x18
  | .push9 => 0x19 | .push10 => 0x1a | .push11 => 0x1b | .push12 => 0x1c | .push13 => 0x1d
  | .push14 => 0x1e | .push15 => 0x1f | .push16 => 0x20 | .nop => 0x21 | .jmp => 0x22
  | .jmpL => 0x23 | .jmpIf => 0x24 | .jmpIfL => 0x25 | .jmpIfNot => 0x26 | .jmpIfNotL => 0x27
  | .jmpEq => 0x28 | .jmpEqL => 0x29 | .jmpNe => 0x2a | .jmpNeL => 0x2b | .jmpGt => 0x2c
  | .jmpGtL => 0x2d | .jmpGe => 0x2e | .jmpGeL => 0x2f | .jmpLt => 0x30 | .jmpLtL => 0x31
  | .jmpLe => 0x32 | .jmpLeL => 0x33 | .call => 0x34 | .callL => 0x35 | .callA => 0x36
  | .callT => 0x37 | .abort => 0x38 | .assert => 0x39 | .throw => 0x3a | .tryBlock => 0x3b
  | .tryBlockL => 0x3c | .endTry => 0x3d | .endTryL => 0x3e | .endFinally => 0x3f | .ret => 0x40
  | .syscall => 0x41 | .depth => 0x43 | .drop => 0x45 | .nip => 0x46 | .xDrop => 0x48
  | .clear => 0x49 | .dup => 0x4a | .over => 0x4b | .pick => 0x4d | .tuck => 0x4e | .swap => 0x50
  | .rot => 0x51 | .roll => 0x52 | .reverse3 => 0x53 | .reverse4 => 0x54 | .reverseN => 0x55
  | .initSSlot => 0x56 | .initSlot => 0x57 | .ldSFld0 => 0x58 | .ldSFld1 => 0x59
  | .ldSFld2 => 0x5a | .ldSFld3 => 0x5b | .ldSFld4 => 0x5c | .ldSFld5 => 0x5d | .ldSFld6 => 0x5e
  | .ldSFld => 0x5f | .stSFld0 => 0x60 | .stSFld1 => 0x61 | .stSFld2 => 0x62 | .stSFld3 => 0x63
  | .stSFld4 => 0x64 | .stSFld5 => 0x65 | .stSFld6 => 0x66 | .stSFld => 0x67 | .ldLoc0 => 0x68
  | .ldLoc1 => 0x69 | .ldLoc2 => 0x6a | .ldLoc3 => 0x6b | .ldLoc4 => 0x6c | .ldLoc5 => 0x6d
  | .ldLoc6 => 0x6e | .ldLoc => 0x6f | .stLoc0 => 0x70 | .stLoc1 => 0x71 | .stLoc2 => 0x72
  | .stLoc3 => 0x73 | .stLoc4 => 0x74 | .stLoc5 => 0x75 | .stLoc6 => 0x76 | .stLoc => 0x77
  | .ldArg0 => 0x78 | .ldArg1 => 0x79 | .ldArg2 => 0x7a | .ldArg3 => 0x7b | .ldArg4 => 0x7c
  | .ldArg5 => 0x7d | .ldArg6 => 0x7e | .ldArg => 0x7f | .stArg0 => 0x80 | .stArg1 => 0x81
  | .stArg2 => 0x82 | .stArg3 => 0x83 | .stArg4 => 0x84 | .stArg5 => 0x85 | .stArg6 => 0x86
  | .stArg => 0x87 | .newBuffer => 0x88 | .memCpy => 0x89 | .cat => 0x8b | .substr => 0x8c
  | .left => 0x8d | .right => 0x8e | .invert => 0x90 | .and => 0x91 | .or => 0x92 | .xor => 0x93
  | .equal => 0x97 | .notEqual => 0x98 | .sign => 0x99 | .abs => 0x9a | .negate => 0x9b
  | .inc => 0x9c | .dec => 0x9d | .add => 0x9e | .sub => 0x9f | .mul => 0xa0 | .div => 0xa1
  | .mod => 0xa2 | .pow => 0xa3 | .sqrt => 0xa4 | .modMul => 0xa5 | .modPow => 0xa6
  | .shl => 0xa8 | .shr => 0xa9 | .not => 0xaa | .boolAnd => 0xab | .boolOr => 0xac | .nz => 0xb1
  | .numEqual => 0xb3 | .numNotEqual => 0xb4 | .lt => 0xb5 | .le => 0xb6 | .gt => 0xb7
  | .ge => 0xb8 | .min => 0xb9 | .max => 0xba | .within => 0xbb | .packMap => 0xbe
  | .packStruct => 0xbf | .pack => 0xc0 | .unpack => 0xc1 | .newArray0 => 0xc2
  | .newArray => 0xc3 | .newArrayT => 0xc4 | .newStruct0 => 0xc5 | .newStruct => 0xc6
  | .newMap => 0xc8 | .size => 0xca | .hasKey => 0xcb | .keys => 0xcc | .values => 0xcd
  | .pickItem => 0xce | .append => 0xcf | .setItem => 0xd0 | .reverseItems => 0xd1
  | .remove => 0xd2 | .clearItems => 0xd3 | .popItem => 0xd4 | .isNull => 0xd8 | .isType => 0xd9
  | .convert => 0xdb | .abortMsg => 0xe0 | .assertMsg => 0xe1

/-- The name of an opcode in assembly. -/
def name : Opcode → String
  | .pushInt8 => "PUSHINT8" | .pushInt16 => "PUSHINT16" | .pushInt32 => "PUSHINT32"
  | .pushInt64 => "PUSHINT64" | .pushInt128 => "PUSHINT128" | .pushInt256 => "PUSHINT256"
  | .pushT => "PUSHT" | .pushF => "PUSHF" | .pushA => "PUSHA" | .pushNull => "PUSHNULL"
  | .pushData1 => "PUSHDATA1" | .pushData2 => "PUSHDATA2" | .pushData4 => "PUSHDATA4"
  | .pushM1 => "PUSHM1" | .push0 => "PUSH0" | .push1 => "PUSH1" | .push2 => "PUSH2"
  | .push3 => "PUSH3" | .push4 => "PUSH4" | .push5 => "PUSH5" | .push6 => "PUSH6"
  | .push7 => "PUSH7" | .push8 => "PUSH8" | .push9 => "PUSH9" | .push10 => "PUSH10"
  | .push11 => "PUSH11" | .push12 => "PUSH12" | .push13 => "PUSH13" | .push14 => "PUSH14"
  | .push15 => "PUSH15" | .push16 => "PUSH16" | .nop => "NOP" | .jmp => "JMP" | .jmpL => "JMP_L"
  | .jmpIf => "JMPIF" | .jmpIfL => "JMPIF_L" | .jmpIfNot => "JMPIFNOT"
  | .jmpIfNotL => "JMPIFNOT_L" | .jmpEq => "JMPEQ" | .jmpEqL => "JMPEQ_L" | .jmpNe => "JMPNE"
  | .jmpNeL => "JMPNE_L" | .jmpGt => "JMPGT" | .jmpGtL => "JMPGT_L" | .jmpGe => "JMPGE"
  | .jmpGeL => "JMPGE_L" | .jmpLt => "JMPLT" | .jmpLtL => "JMPLT_L" | .jmpLe => "JMPLE"
  | .jmpLeL => "JMPLE_L" | .call => "CALL" | .callL => "CALL_L" | .callA => "CALLA"
  | .callT => "CALLT" | .abort => "ABORT" | .assert => "ASSERT" | .throw => "THROW"
  | .tryBlock => "TRY" | .tryBlockL => "TRY_L" | .endTry => "ENDTRY" | .endTryL => "ENDTRY_L"
  | .endFinally => "ENDFINALLY" | .ret => "RET" | .syscall => "SYSCALL" | .depth => "DEPTH"
  | .drop => "DROP" | .nip => "NIP" | .xDrop => "XDROP" | .clear => "CLEAR" | .dup => "DUP"
  | .over => "OVER" | .pick => "PICK" | .tuck => "TUCK" | .swap => "SWAP" | .rot => "ROT"
  | .roll => "ROLL" | .reverse3 => "REVERSE3" | .reverse4 => "REVERSE4" | .reverseN => "REVERSEN"
  | .initSSlot => "INITSSLOT" | .initSlot => "INITSLOT" | .ldSFld0 => "LDSFLD0"
  | .ldSFld1 => "LDSFLD1" | .ldSFld2 => "LDSFLD2" | .ldSFld3 => "LDSFLD3" | .ldSFld4 => "LDSFLD4"
  | .ldSFld5 => "LDSFLD5" | .ldSFld6 => "LDSFLD6" | .ldSFld => "LDSFLD" | .stSFld0 => "STSFLD0"
  | .stSFld1 => "STSFLD1" | .stSFld2 => "STSFLD2" | .stSFld3 => "STSFLD3" | .stSFld4 => "STSFLD4"
  | .stSFld5 => "STSFLD5" | .stSFld6 => "STSFLD6" | .stSFld => "STSFLD" | .ldLoc0 => "LDLOC0"
  | .ldLoc1 => "LDLOC1" | .ldLoc2 => "LDLOC2" | .ldLoc3 => "LDLOC3" | .ldLoc4 => "LDLOC4"
  | .ldLoc5 => "LDLOC5" | .ldLoc6 => "LDLOC6" | .ldLoc => "LDLOC" | .stLoc0 => "STLOC0"
  | .stLoc1 => "STLOC1" | .stLoc2 => "STLOC2" | .stLoc3 => "STLOC3" | .stLoc4 => "STLOC4"
  | .stLoc5 => "STLOC5" | .stLoc6 => "STLOC6" | .stLoc => "STLOC" | .ldArg0 => "LDARG0"
  | .ldArg1 => "LDARG1" | .ldArg2 => "LDARG2" | .ldArg3 => "LDARG3" | .ldArg4 => "LDARG4"
  | .ldArg5 => "LDARG5" | .ldArg6 => "LDARG6" | .ldArg => "LDARG" | .stArg0 => "STARG0"
  | .stArg1 => "STARG1" | .stArg2 => "STARG2" | .stArg3 => "STARG3" | .stArg4 => "STARG4"
  | .stArg5 => "STARG5" | .stArg6 => "STARG6" | .stArg => "STARG" | .newBuffer => "NEWBUFFER"
  | .memCpy => "MEMCPY" | .cat => "CAT" | .substr => "SUBSTR" | .left => "LEFT"
  | .right => "RIGHT" | .invert => "INVERT" | .and => "AND" | .or => "OR" | .xor => "XOR"
  | .equal => "EQUAL" | .notEqual => "NOTEQUAL" | .sign => "SIGN" | .abs => "ABS"
  | .negate => "NEGATE" | .inc => "INC" | .dec => "DEC" | .add => "ADD" | .sub => "SUB"
  | .mul => "MUL" | .div => "DIV" | .mod => "MOD" | .pow => "POW" | .sqrt => "SQRT"
  | .modMul => "MODMUL" | .modPow => "MODPOW" | .shl => "SHL" | .shr => "SHR" | .not => "NOT"
  | .boolAnd => "BOOLAND" | .boolOr => "BOOLOR" | .nz => "NZ" | .numEqual => "NUMEQUAL"
  | .numNotEqual => "NUMNOTEQUAL" | .lt => "LT" | .le => "LE" | .gt => "GT" | .ge => "GE"
  | .min => "MIN" | .max => "MAX" | .within => "WITHIN" | .packMap => "PACKMAP"
  | .packStruct => "PACKSTRUCT" | .pack => "PACK" | .unpack => "UNPACK"
  | .newArray0 => "NEWARRAY0" | .newArray => "NEWARRAY" | .newArrayT => "NEWARRAY_T"
  | .newStruct0 => "NEWSTRUCT0" | .newStruct => "NEWSTRUCT" | .newMap => "NEWMAP"
  | .size => "SIZE" | .hasKey => "HASKEY" | .keys => "KEYS" | .values => "VALUES"
  | .pickItem => "PICKITEM" | .append => "APPEND" | .setItem => "SETITEM"
  | .reverseItems => "REVERSEITEMS" | .remove => "REMOVE" | .clearItems => "CLEARITEMS"
  | .popItem => "POPITEM" | .isNull => "ISNULL" | .isType => "ISTYPE" | .convert => "CONVERT"
  | .abortMsg => "ABORTMSG" | .assertMsg => "ASSERTMSG"

/-- The shape of an opcode's operand. -/
def operand : Opcode → Operand
  | .pushInt8 | .jmp | .jmpIf | .jmpIfNot | .jmpEq | .jmpNe | .jmpGt | .jmpGe | .jmpLt | .jmpLe
  | .call | .endTry | .initSSlot | .ldSFld | .stSFld | .ldLoc | .stLoc | .ldArg | .stArg
  | .newArrayT | .isType | .convert
    => .fixed 1
  | .pushInt16 | .callT | .tryBlock | .initSlot
    => .fixed 2
  | .pushInt32 | .pushA | .jmpL | .jmpIfL | .jmpIfNotL | .jmpEqL | .jmpNeL | .jmpGtL | .jmpGeL
  | .jmpLtL | .jmpLeL | .callL | .endTryL | .syscall
    => .fixed 4
  | .pushInt64 | .tryBlockL
    => .fixed 8
  | .pushInt128
    => .fixed 16
  | .pushInt256
    => .fixed 32
  | .pushData1
    => .prefixed 1
  | .pushData2
    => .prefixed 2
  | .pushData4
    => .prefixed 4
  | _ => .none

/-- Every opcode, by ascending byte. -/
def all : List Opcode := [
  .pushInt8, .pushInt16, .pushInt32, .pushInt64, .pushInt128, .pushInt256, .pushT, .pushF,
  .pushA, .pushNull, .pushData1, .pushData2, .pushData4, .pushM1, .push0, .push1, .push2, .push3,
  .push4, .push5, .push6, .push7, .push8, .push9, .push10, .push11, .push12, .push13, .push14,
  .push15, .push16, .nop, .jmp, .jmpL, .jmpIf, .jmpIfL, .jmpIfNot, .jmpIfNotL, .jmpEq, .jmpEqL,
  .jmpNe, .jmpNeL, .jmpGt, .jmpGtL, .jmpGe, .jmpGeL, .jmpLt, .jmpLtL, .jmpLe, .jmpLeL, .call,
  .callL, .callA, .callT, .abort, .assert, .throw, .tryBlock, .tryBlockL, .endTry, .endTryL,
  .endFinally, .ret, .syscall, .depth, .drop, .nip, .xDrop, .clear, .dup, .over, .pick, .tuck,
  .swap, .rot, .roll, .reverse3, .reverse4, .reverseN, .initSSlot, .initSlot, .ldSFld0, .ldSFld1,
  .ldSFld2, .ldSFld3, .ldSFld4, .ldSFld5, .ldSFld6, .ldSFld, .stSFld0, .stSFld1, .stSFld2,
  .stSFld3, .stSFld4, .stSFld5, .stSFld6, .stSFld, .ldLoc0, .ldLoc1, .ldLoc2, .ldLoc3, .ldLoc4,
  .ldLoc5, .ldLoc6, .ldLoc, .stLoc0, .stLoc1, .stLoc2, .stLoc3, .stLoc4, .stLoc5, .stLoc6,
  .stLoc, .ldArg0, .ldArg1, .ldArg2, .ldArg3, .ldArg4, .ldArg5, .ldArg6, .ldArg, .stArg0,
  .stArg1, .stArg2, .stArg3, .stArg4, .stArg5, .stArg6, .stArg, .newBuffer, .memCpy, .cat,
  .substr, .left, .right, .invert, .and, .or, .xor, .equal, .notEqual, .sign, .abs, .negate,
  .inc, .dec, .add, .sub, .mul, .div, .mod, .pow, .sqrt, .modMul, .modPow, .shl, .shr, .not,
  .boolAnd, .boolOr, .nz, .numEqual, .numNotEqual, .lt, .le, .gt, .ge, .min, .max, .within,
  .packMap, .packStruct, .pack, .unpack, .newArray0, .newArray, .newArrayT, .newStruct0,
  .newStruct, .newMap, .size, .hasKey, .keys, .values, .pickItem, .append, .setItem,
  .reverseItems, .remove, .clearItems, .popItem, .isNull, .isType, .convert, .abortMsg,
  .assertMsg]

/-- The opcode of each byte. -/
def byteTable : Array (Option Opcode) :=
  Array.ofFn fun i : Fin 256 => all.find? fun op => op.byte.toNat = i.val

/-- The opcode that a byte stands for. -/
def ofByte? (b : UInt8) : Option Opcode :=
  byteTable.getD b.toNat none

/-- The opcode that pushes a number from -1 to 16 without an operand. -/
def ofSmall? (v : Int) : Option Opcode :=
  if v = -1 then some .pushM1
  else if 0 ≤ v ∧ v ≤ 16 then ofByte? (push0.byte + UInt8.ofNat v.toNat)
  else none

/-- The number that an opcode pushes without an operand. -/
def small? (op : Opcode) : Option Int :=
  if op = .pushM1 then some (-1)
  else if push0.byte ≤ op.byte ∧ op.byte ≤ push16.byte then
    some (op.byte.toNat - push0.byte.toNat)
  else none

/-- Whether the operand is a signed displacement from the instruction's own address. -/
def isRelative : Opcode → Bool
  | .jmp | .jmpL | .jmpIf | .jmpIfL | .jmpIfNot | .jmpIfNotL | .jmpEq | .jmpEqL | .jmpNe
  | .jmpNeL | .jmpGt | .jmpGtL | .jmpGe | .jmpGeL | .jmpLt | .jmpLtL | .jmpLe | .jmpLeL | .call
  | .callL | .pushA | .endTry | .endTryL
    => true
  | _ => false

/-- Whether control never falls through to the next instruction. -/
def isTerminator : Opcode → Bool
  | .ret | .throw | .abort | .abortMsg | .jmp | .jmpL
    => true
  | _ => false

/-- The size of an instruction whose length prefix, if it has one, announces `dataLength` bytes. -/
def encodedSize (op : Opcode) (dataLength : Nat) : Nat :=
  match op.operand with
  | .none => 1
  | .fixed n => 1 + n
  | .prefixed width => 1 + width + dataLength

theorem ofByte?_eq_find? (b : UInt8) :
    ofByte? b = all.find? fun op => op.byte.toNat = b.toNat := by
  simp [ofByte?, byteTable, b.toNat_lt]

theorem byte_of_ofByte? {b : UInt8} {op : Opcode} (h : ofByte? b = some op) : op.byte = b := by
  rw [ofByte?_eq_find?] at h
  have := List.find?_some h
  exact UInt8.toNat_inj.mp (by simpa using this)

theorem ofByte?_byte (op : Opcode) : ofByte? op.byte = some op := by
  rw [ofByte?_eq_find?]
  cases op <;> decide +kernel

end Opcode

end StackContract.Script
