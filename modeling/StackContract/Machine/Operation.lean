import StackContract.Machine.Arithmetic
import StackContract.Machine.Bytes
import StackContract.Machine.Compound
import StackContract.Machine.Shuffle
/-!
# Operations

What each opcode does, apart from its encoding: opcodes that differ only in the width of their operand
or in a detail share an operation. The simple operations are those on the stack and the heap alone.
-/

namespace StackContract.Machine

open Script

/-- An operation on the stack and the heap alone. -/
inductive SimpleOp
  /-- Pushes the integer of the instruction. -/
  | pushInteger
  | pushBoolean (b : Bool)
  | pushNull
  /-- Pushes the data of the instruction. -/
  | pushData
  | nop
  | shuffle (op : Shuffle)
  | unary (op : UnaryOp)
  | binary (op : BinaryOp)
  /-- Compares the top two integers. -/
  | numeric (relation : Relation)
  /-- Compares the top two items, null being in no order. -/
  | ordered (relation : Relation)
  | within
  /-- Whether the top two items are equal, or differ. -/
  | equal (expected : Bool)
  | not
  /-- A conjunction or a disjunction. -/
  | join (conjunction : Bool)
  | nonzero
  | bytes (op : ByteOp)
  | compound (op : CompoundOp)
  /-- An array of the defaults of the kind in the operand. -/
  | newDefaults
  | isNull
  /-- Whether the top item is of the kind in the operand. -/
  | isType
  /-- Converts the top item to the kind in the operand. -/
  | convert
deriving DecidableEq, Repr

/-- An operation of the machine. -/
inductive Operation
  | simple (op : SimpleOp)
  /-- Pushes the target of the instruction. -/
  | pushAddress
  | jump
  /-- Jumps if the top truth value is as expected. -/
  | jumpIf (expected : Bool)
  /-- Jumps if a relation holds between the top two integers. -/
  | jumpCompare (relation : Relation)
  | call
  /-- Calls the address on the stack. -/
  | callPointer
  | ret
  | abort (hasMessage : Bool)
  | assert (hasMessage : Bool)
  | raise
  | service
  /-- Makes room for the static fields. -/
  | initStatics
  /-- Makes room for locals and takes the arguments off the stack. -/
  | initSlots
  | slot
  | unsupported
deriving DecidableEq, Repr

/-- The operation of an opcode on the stack and the heap alone. -/
def simpleOp? : Opcode → Option SimpleOp
  | .pushInt8 | .pushInt16 | .pushInt32 | .pushInt64 | .pushInt128 | .pushInt256 | .pushM1
  | .push0 | .push1 | .push2 | .push3 | .push4 | .push5 | .push6 | .push7 | .push8 | .push9
  | .push10 | .push11 | .push12 | .push13 | .push14 | .push15 | .push16 => some .pushInteger
  | .pushT => some (.pushBoolean true)
  | .pushF => some (.pushBoolean false)
  | .pushNull => some .pushNull
  | .pushData1 | .pushData2 | .pushData4 => some .pushData
  | .nop => some .nop
  | .depth => some (.shuffle .depth)
  | .drop => some (.shuffle .drop)
  | .nip => some (.shuffle .nip)
  | .xDrop => some (.shuffle .dropAt)
  | .clear => some (.shuffle .clear)
  | .dup => some (.shuffle .dup)
  | .over => some (.shuffle .over)
  | .pick => some (.shuffle .pick)
  | .tuck => some (.shuffle .tuck)
  | .swap => some (.shuffle .swap)
  | .rot => some (.shuffle .rotate)
  | .roll => some (.shuffle .roll)
  | .reverse3 => some (.shuffle (.reverse 3))
  | .reverse4 => some (.shuffle (.reverse 4))
  | .reverseN => some (.shuffle .reverseCount)
  | .newBuffer => some (.bytes .newBuffer)
  | .cat => some (.bytes .concatenate)
  | .substr => some (.bytes .slice)
  | .left => some (.bytes .left)
  | .right => some (.bytes .right)
  | .invert => some (.unary .complement)
  | .and => some (.binary .and)
  | .or => some (.binary .or)
  | .xor => some (.binary .xor)
  | .equal => some (.equal true)
  | .notEqual => some (.equal false)
  | .sign => some (.unary .sign)
  | .abs => some (.unary .abs)
  | .negate => some (.unary .negate)
  | .inc => some (.unary .increment)
  | .dec => some (.unary .decrement)
  | .add => some (.binary .add)
  | .sub => some (.binary .sub)
  | .mul => some (.binary .mul)
  | .div => some (.binary .div)
  | .mod => some (.binary .mod)
  | .pow => some (.binary .pow)
  | .sqrt => some (.unary .sqrt)
  | .shl => some (.binary .shl)
  | .shr => some (.binary .shr)
  | .not => some .not
  | .boolAnd => some (.join true)
  | .boolOr => some (.join false)
  | .nz => some .nonzero
  | .numEqual => some (.numeric .eq)
  | .numNotEqual => some (.numeric .ne)
  | .lt => some (.ordered .lt)
  | .le => some (.ordered .le)
  | .gt => some (.ordered .gt)
  | .ge => some (.ordered .ge)
  | .min => some (.binary .min)
  | .max => some (.binary .max)
  | .within => some .within
  | .packMap => some (.compound .packMap)
  | .packStruct => some (.compound (.pack true))
  | .pack => some (.compound (.pack false))
  | .unpack => some (.compound .unpack)
  | .newArray0 => some (.compound (.newEmpty false))
  | .newArray => some (.compound (.newNulls false))
  | .newArrayT => some .newDefaults
  | .newStruct0 => some (.compound (.newEmpty true))
  | .newStruct => some (.compound (.newNulls true))
  | .newMap => some (.compound .newMap)
  | .size => some (.compound .size)
  | .hasKey => some (.compound .hasKey)
  | .keys => some (.compound .keys)
  | .values => some (.compound .values)
  | .pickItem => some (.compound .pickItem)
  | .append => some (.compound .append)
  | .setItem => some (.compound .setItem)
  | .reverseItems => some (.compound .reverseItems)
  | .remove => some (.compound .remove)
  | .clearItems => some (.compound .clearItems)
  | .popItem => some (.compound .popItem)
  | .isNull => some .isNull
  | .isType => some .isType
  | .convert => some .convert
  | _ => none

/-- The operation of an opcode. -/
def operation (opcode : Opcode) : Operation :=
  match simpleOp? opcode with
  | some op => .simple op
  | none =>
    if opcode.slotArea?.isSome then .slot
    else match opcode with
      | .pushA => .pushAddress
      | .jmp | .jmpL => .jump
      | .jmpIf | .jmpIfL => .jumpIf true
      | .jmpIfNot | .jmpIfNotL => .jumpIf false
      | .jmpEq | .jmpEqL => .jumpCompare .eq
      | .jmpNe | .jmpNeL => .jumpCompare .ne
      | .jmpGt | .jmpGtL => .jumpCompare .gt
      | .jmpGe | .jmpGeL => .jumpCompare .ge
      | .jmpLt | .jmpLtL => .jumpCompare .lt
      | .jmpLe | .jmpLeL => .jumpCompare .le
      | .call | .callL => .call
      | .callA => .callPointer
      | .ret => .ret
      | .abort => .abort false
      | .abortMsg => .abort true
      | .assert => .assert false
      | .assertMsg => .assert true
      | .throw => .raise
      | .syscall => .service
      | .initSSlot => .initStatics
      | .initSlot => .initSlots
      | _ => .unsupported

/-- The kind in the operand of an instruction. -/
def operandKind (i : Instruction) : Except Fault ItemKind :=
  match i.operand.head?.bind ItemKind.ofByte? with
  | some kind => .ok kind
  | none => .error (.unsupported i.opcode)

/-- Carries out a simple operation. -/
def SimpleOp.run (i : Instruction) : SimpleOp → Eval Unit
  | .pushInteger =>
    match i.integer? with
    | some v => Eval.pushInteger v
    | none => throw .overflow
  | .pushBoolean b => Eval.pushBoolean b
  | .pushNull => Eval.push .null
  | .pushData => Eval.push (.byteString i.data)
  | .nop => return ()
  | .shuffle op => op.run
  | .unary op => op.run
  | .binary op => op.run
  | .numeric relation => do Eval.pushBoolean (← relation.test)
  | .ordered relation => relation.compare
  | .within => Machine.within
  | .equal expected => compareItems expected
  | .not => negateBoolean
  | .join conjunction => joinBooleans conjunction
  | .nonzero => isNonzero
  | .bytes op => op.run
  | .compound op => op.run
  | .newDefaults => (CompoundOp.newDefaults (i.operand.headD 0)).run
  | .isNull => do Eval.pushBoolean (← Eval.pop).isNull
  | .isType => do
    let kind ← Eval.orFault (operandKind i)
    Eval.pushBoolean ((← Eval.pop).kind = kind)
  | .convert => do
    let kind ← Eval.orFault (operandKind i)
    Eval.push (← Compound.convert kind (← Eval.pop))

end StackContract.Machine
