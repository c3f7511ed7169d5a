import StackContract.Compile.Event
import StackContract.Compile.Folding
import StackContract.Compile.Limits
import StackContract.Source.Module
/-!
# Static fields

Mutable static fields get slots. Readonly ones never do: their initializers are evaluated and every
read becomes the constant. Literal fields need neither.

A static initializer is split at its stores into statements. Statements that store to readonly fields
are folded; the others, and the code behind the last store, are kept. The kept code of all types makes
up one body, in which the offsets of each type are moved behind those of the types before it.
-/

namespace StackContract.Compile

open Source (FieldRef Field TypeDecl Module Op)

/-- Where the static fields of a module live. -/
structure StaticLayout where
  /-- The slots of mutable fields, by key, in slot order. -/
  slots : Table String UInt8 := {}
  /-- The values of readonly fields, by key. -/
  folded : Table String Constant := {}
  /-- The initializer code that is kept. -/
  init : List Source.Instruction := []
  /-- The number of statements in `init`. -/
  statements : Nat := 0

instance : Inhabited StaticLayout := ⟨{}⟩

/-- Whether anything is left to do when the contract starts. -/
def StaticLayout.needsInitializer (layout : StaticLayout) : Bool :=
  !layout.slots.entries.isEmpty || !layout.init.isEmpty

/-! ## Statements -/

/-- Code that ends with a store to a static field. -/
structure Statement where
  /-- The code in front of the store. -/
  code : List Source.Instruction
  store : Source.Instruction
  target : FieldRef

/-- All instructions of a statement. -/
def Statement.instructions (statement : Statement) : List Source.Instruction :=
  statement.code ++ [statement.store]

/-- Splits code into statements and what is left behind the last of them. `code` is the code since the
last store, last instruction first. -/
def splitStatements (code : List Source.Instruction) :
    List Source.Instruction → List Statement × List Source.Instruction
  | [] => ([], code.reverse)
  | i :: rest =>
    match i.op with
    | .storeStatic target =>
      let (statements, trailing) := splitStatements [] rest
      (⟨code.reverse, i, target⟩ :: statements, trailing)
    | _ => splitStatements (i :: code) rest

/-- Splitting loses no instruction and keeps their order. -/
theorem splitStatements_join (code body : List Source.Instruction) :
    (splitStatements code body).1.flatMap Statement.instructions ++ (splitStatements code body).2 =
      code.reverse ++ body := by
  induction body generalizing code with
  | nil => simp [splitStatements]
  | cons i rest ih =>
    unfold splitStatements
    split
    · have := ih []
      simp_all [Statement.instructions]
    · simp [ih]

/-- Whether an instruction counts when it stands behind the last statement. -/
def isKeptBehind (i : Source.Instruction) : Bool :=
  match i.op with
  | .ret | .nop => false
  | _ => true

/-! ## Slots -/

/-- The static fields of the compiled types by key. -/
def staticFields (module : Module) : Table String Field :=
  Table.ofList (module.compiledTypes.flatMap fun type =>
    (type.fields.filter (·.isStatic)).map fun field => (type.keyOf field.name, field))

/-- The keys of the fields that need slots. -/
def mutableKeys (fields : Table String Field) : List String :=
  (fields.entries.filter fun (_, field) => !field.isReadonly && !field.isLiteral).map Prod.fst

/-- Assigns slots from zero on to keys. -/
def assignSlots (keys : List String) : Table String UInt8 :=
  ⟨keys.zipIdx.map fun (key, slot) => (key, UInt8.ofNat slot)⟩

/-! ## Initializers -/

/-- Folds or keeps one statement. -/
def placeStatement (fields : Table String Field) (scope : String) (shift : UInt32)
    (layout : StaticLayout) (statement : Statement) : Progress Error StaticLayout := do
  let key := statement.target.key
  match fields.find? key with
  | none => throw (.inconsistent scope (.unknownStatic statement.target))
  | some field =>
    if field.isReadonly then
      match Folding.evaluate statement.code field.type with
      | .error problem => throw (.unsupportedFold key problem)
      | .ok value =>
        Progress.report (.folded key value)
        return { layout with folded := layout.folded.insert key value }
    else
      return { layout with
        init := layout.init ++ statement.instructions.map (·.shift shift)
        statements := layout.statements + 1 }

/-- Places the initializer of one type, its offsets moved up by `shift`. -/
def placeType (fields : Table String Field) (shift : UInt32) (layout : StaticLayout)
    (type : TypeDecl) : Progress Error StaticLayout := do
  let (statements, trailing) := splitStatements [] type.staticInit
  let layout ← statements.foldlM (placeStatement fields (type.name ++ "::.cctor") shift) layout
  let kept := trailing.filter isKeptBehind
  if kept.isEmpty then return layout
  return { layout with
    init := layout.init ++ kept.map (·.shift shift)
    statements := layout.statements + 1 }

/-- The first offset behind an initializer that starts at `shift`. -/
def shiftBehind (shift : UInt32) (type : TypeDecl) : UInt32 :=
  match type.staticInit.getLast? with
  | some last => shift + last.offset + 1
  | none => shift

/-- Places the initializers of types one behind the other. -/
def placeTypes (fields : Table String Field) (shift : UInt32) (layout : StaticLayout) :
    List TypeDecl → Progress Error StaticLayout
  | [] => return layout
  | type :: rest => do
    let layout ← placeType fields shift layout type
    placeTypes fields (shiftBehind shift type) layout rest

/-- Readonly fields that no statement gives a value. -/
def unfoldedKeys (fields : Table String Field) (layout : StaticLayout) : List String :=
  (fields.entries.filter fun (key, field) =>
    field.isReadonly && !field.isLiteral && !layout.folded.contains key).map Prod.fst

/-- Gives every static field of a module its slot or its value. -/
def StaticLayout.ofModule (module : Module) (max : UInt8) : Progress Error StaticLayout := do
  let fields := staticFields module
  let keys := mutableKeys fields
  let _ ← Progress.ofExcept (checkLimit "module" .staticFields keys.length max)
  let slots := assignSlots keys
  for (key, slot) in slots.entries do
    Progress.report (.slot key slot)
  let layout ← placeTypes fields 0 { slots } module.compiledTypes
  match (unfoldedKeys fields layout).head? with
  | some key => throw (.unsupportedFold key .noInitializer)
  | none => return layout

end StackContract.Compile
