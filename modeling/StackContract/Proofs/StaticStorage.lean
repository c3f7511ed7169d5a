import StackContract.Proofs.Twins
/-!
# Where static fields live

Mutable static fields have slots by their keys, numbered from zero on in the order in which the keys come
(`storedByKey_of_build`), with none left out (`StoredByKey.exists_key_iff`). A key is that of one field
only, as long as there are no colons in the names of types (`FieldRef.eq_of_key`).

A contract has an initializer if there is anything to prepare, which is its last method, or else if its
module declares a method of that name (`initializer?_of_build`).
-/

namespace StackContract.Source

/-- What is in front of the first separator, and what is behind it. -/
theorem append_cons_inj {α : Type} {x : α} {xs ys zs ws : List α} (hxs : x ∉ xs) (hys : x ∉ ys)
    (h : xs ++ x :: zs = ys ++ x :: ws) : xs = ys ∧ zs = ws := by
  induction xs generalizing ys with
  | nil =>
    cases ys with
    | nil => exact ⟨rfl, (List.cons.inj h).2⟩
    | cons y ys => exact absurd (List.mem_cons.mpr (.inl (List.cons.inj h).1)) hys
  | cons a xs ih =>
    cases ys with
    | nil => exact absurd (List.mem_cons.mpr (.inl (List.cons.inj h).1.symm)) hxs
    | cons y ys =>
      obtain ⟨hhead, htail⟩ := List.cons.inj h
      rw [List.mem_cons, not_or] at hxs hys
      obtain ⟨hfront, hbehind⟩ := ih hxs.2 hys.2 htail
      exact ⟨congrArg₂ List.cons hhead hfront, hbehind⟩

/-- Fields of types without colons in their names have keys of their own. -/
theorem FieldRef.eq_of_key {field other : FieldRef} (hfield : ':' ∉ field.owner.toList)
    (hother : ':' ∉ other.owner.toList) (h : field.key = other.key) : field = other := by
  have hkeys : ∀ f : FieldRef, f.key.toList = f.owner.toList ++ ':' :: ':' :: f.name.toList := by
    intro f
    unfold key
    rw [String.toList_append, String.toList_append, List.append_assoc]
    rfl
  have hlists := congrArg String.toList h
  rw [hkeys, hkeys] at hlists
  obtain ⟨howner, hrest⟩ := append_cons_inj hfield hother hlists
  obtain ⟨owner, name⟩ := field
  obtain ⟨owner', name'⟩ := other
  obtain rfl : owner = owner' := String.toList_inj.mp howner
  obtain rfl : name = name' := String.toList_inj.mp (List.cons.inj hrest).2
  rfl

-- with a colon, a key is not that of one field
example : (FieldRef.mk "A::b" "c").key = (FieldRef.mk "A" "b::c").key := by
  decide

end StackContract.Source

namespace StackContract.Compile

open Source (Field Module)

/-! ## Slots -/

theorem nodup_mutableKeys (module : Module) : (mutableKeys (staticFields module)).Nodup :=
  (Table.nodup_keys_ofList _).sublist (List.filter_sublist.map Prod.fst)

theorem keys_assignSlots (keys : List String) : (assignSlots keys).keys = keys := by
  unfold assignSlots Table.keys
  rw [List.map_map]
  exact List.zipIdx_map_fst 0 keys

/-- A key has the slot of its place. -/
theorem find?_assignSlots {keys : List String} (hnodup : keys.Nodup) (hlength : keys.length ≤ 255)
    {key : String} {slot : UInt8} :
    (assignSlots keys).find? key = some slot ↔ keys[slot.toNat]? = some key := by
  have hkeys : ((assignSlots keys).entries.map Prod.fst).Nodup := by
    have hsame := keys_assignSlots keys
    unfold Table.keys at hsame
    rw [hsame]
    exact hnodup
  unfold Table.find?
  rw [Table.findIn_eq_some_iff hkeys]
  unfold assignSlots
  constructor
  · intro hmem
    obtain ⟨⟨other, n⟩, hthere, heq⟩ := List.mem_map.mp hmem
    cases heq
    have hget := List.mk_mem_zipIdx_iff_getElem?.mp hthere
    obtain ⟨hn, -⟩ := List.getElem?_eq_some_iff.mp hget
    rwa [UInt8.toNat_ofNat', Nat.mod_eq_of_lt (by omega)]
  · intro hget
    refine List.mem_map.mpr ⟨(key, slot.toNat), List.mk_mem_zipIdx_iff_getElem?.mpr hget, ?_⟩
    dsimp only
    rw [UInt8.ofNat_toNat]

end StackContract.Compile

namespace StackContract.Contract

open Compile Script
open Source (TypeDecl Module Field FieldRef)

/-- The slots of a program are numbered by the keys of the mutable static fields. -/
structure StoredByKey (limits : Limits) (module : Module) (program : Program) : Prop where
  keys : program.fields.keys = mutableKeys (staticFields module)
  nodup : program.fields.keys.Nodup
  count : program.fields.keys.length ≤ limits.staticFields.toNat
  slots : ∀ key slot, program.fields.find? key = some slot
    ↔ program.fields.keys[slot.toNat]? = some key

section

variable {limits : Limits} {module : Module} {program : Program} {contract : Contract}

/-- Slots are shared by the fields of one key only. -/
theorem StoredByKey.slot_eq_iff (h : StoredByKey limits module program) {key key' : String}
    {slot slot' : UInt8} (hslot : program.fields.find? key = some slot)
    (hslot' : program.fields.find? key' = some slot') : slot = slot' ↔ key = key' := by
  constructor
  · intro heq
    rw [heq] at hslot
    exact Option.some.inj (((h.slots _ _).mp hslot).symm.trans ((h.slots _ _).mp hslot'))
  · intro heq
    rw [heq] at hslot
    exact Option.some.inj (hslot.symm.trans hslot')

/-- The slots in use are those below the number of keys. -/
theorem StoredByKey.exists_key_iff (h : StoredByKey limits module program) (slot : UInt8) :
    (∃ key, program.fields.find? key = some slot) ↔ slot.toNat < program.fields.keys.length := by
  constructor
  · intro ⟨key, hkey⟩
    exact (List.getElem?_eq_some_iff.mp ((h.slots _ _).mp hkey)).1
  · intro hlt
    exact ⟨_, (h.slots _ _).mpr (List.getElem?_eq_getElem hlt)⟩

theorem storedByKey_of_build (hbuild : build limits module = .ok contract) :
    StoredByKey limits module contract.program := by
  obtain ⟨⟨image⟩, -⟩ := image_of_build hbuild
  obtain ⟨events, events', hstatics⟩ := image.statics_eq
  obtain ⟨hslots, hlength, -⟩ := ofModule_spec hstatics
  have hmax := limits.staticFields.toNat_lt
  have hfields : contract.program.fields = assignSlots (mutableKeys (staticFields module)) :=
    image.fields.trans hslots
  have hkeys := keys_assignSlots (mutableKeys (staticFields module))
  refine ⟨?_, ?_, ?_, ?_⟩
  · rw [hfields, hkeys]
  · rw [hfields, hkeys]
    exact nodup_mutableKeys module
  · rw [hfields, hkeys]
    exact hlength
  · intro key slot
    rw [hfields, hkeys]
    exact find?_assignSlots (nodup_mutableKeys module) (by omega)

/-- A compiled type declares a static field. -/
def DeclaresStatic (module : Module) (f : FieldRef) (field : Field) : Prop :=
  ∃ type ∈ module.compiledTypes, type.name = f.owner ∧ field ∈ type.fields ∧ field.name = f.name
    ∧ field.isStatic = true

theorem mem_staticFields_iff {key : String} {field : Field} :
    (key, field) ∈ (module.compiledTypes.flatMap fun type =>
      (type.fields.filter (·.isStatic)).map fun field => (type.keyOf field.name, field))
      ↔ ∃ f : FieldRef, f.key = key ∧ DeclaresStatic module f field := by
  rw [List.mem_flatMap]
  constructor
  · intro ⟨type, htype, hmem⟩
    obtain ⟨other, hother, heq⟩ := List.mem_map.mp hmem
    cases heq
    rw [List.mem_filter] at hother
    exact ⟨⟨type.name, field.name⟩, rfl, type, htype, rfl, hother.1, rfl, hother.2⟩
  · intro ⟨f, hkey, type, htype, howner, hfield, hname, hstatic⟩
    refine ⟨type, htype, List.mem_map.mpr ⟨field, List.mem_filter.mpr ⟨hfield, hstatic⟩, ?_⟩⟩
    rw [← hkey]
    unfold TypeDecl.keyOf
    rw [howner, hname]

/-- A mutable static field has a slot, unless another field has its key. -/
theorem StoredByKey.exists_slot (h : StoredByKey limits module program) {f : FieldRef} {field : Field}
    (hdeclares : DeclaresStatic module f field)
    (honce : ∀ other field', DeclaresStatic module other field' → other.key = f.key → field' = field)
    (hmutable : field.isReadonly = false) (hliteral : field.isLiteral = false) :
    ∃ slot, program.fields.find? f.key = some slot := by
  have hfind : (staticFields module).find? f.key = some field := by
    refine Table.find?_ofList (mem_staticFields_iff.mpr ⟨f, rfl, hdeclares⟩) fun field' hmem => ?_
    obtain ⟨other, hkey, hother⟩ := mem_staticFields_iff.mp hmem
    exact honce other field' hother hkey
  have hmem : f.key ∈ mutableKeys (staticFields module) := by
    refine List.mem_map.mpr ⟨(f.key, field), List.mem_filter.mpr ⟨Table.mem_of_findIn hfind, ?_⟩, rfl⟩
    dsimp only
    rw [hmutable, hliteral]
    rfl
  rw [← h.keys] at hmem
  exact Option.isSome_iff_exists.mp (Table.isSome_findIn hmem)

/-- Mutable static fields have slots of their own, if no type has a colon in its name and declares two
static fields of one name. -/
theorem StoredByKey.slots_apart (h : StoredByKey limits module program)
    (hplain : ∀ type ∈ module.compiledTypes, ':' ∉ type.name.toList)
    (honce : ∀ f field field', DeclaresStatic module f field → DeclaresStatic module f field' →
      field = field') {f g : FieldRef} {field field' : Field} (hne : f ≠ g)
    (hf : DeclaresStatic module f field) (hg : DeclaresStatic module g field')
    (hmutable : field.isReadonly = false ∧ field.isLiteral = false)
    (hmutable' : field'.isReadonly = false ∧ field'.isLiteral = false) :
    ∃ slot slot', program.fields.find? f.key = some slot ∧ program.fields.find? g.key = some slot'
      ∧ slot ≠ slot' := by
  have hsame : ∀ {f g : FieldRef} {field field' : Field}, DeclaresStatic module f field →
      DeclaresStatic module g field' → f.key = g.key → f = g := by
    intro f g field field' ⟨type, htype, howner, _⟩ ⟨type', htype', howner', _⟩ hkey
    refine FieldRef.eq_of_key ?_ ?_ hkey
    · rw [← howner]
      exact hplain type htype
    · rw [← howner']
      exact hplain type' htype'
  have hexists : ∀ {f : FieldRef} {field : Field}, DeclaresStatic module f field →
      field.isReadonly = false ∧ field.isLiteral = false →
      ∃ slot, program.fields.find? f.key = some slot := by
    intro f field hdeclares hmutable
    refine h.exists_slot hdeclares (fun other field' hother hkey => ?_) hmutable.1 hmutable.2
    rw [hsame hother hdeclares hkey] at hother
    exact honce f field' field hother hdeclares
  obtain ⟨slot, hslot⟩ := hexists hf hmutable
  obtain ⟨slot', hslot'⟩ := hexists hg hmutable'
  refine ⟨slot, slot', hslot, hslot', fun heq => hne ?_⟩
  exact hsame hf hg ((h.slot_eq_iff hslot hslot').mp heq)

/-! ## Initializers -/

/-- There is something to do when a contract of the module starts. -/
def NeedsInitializer (module : Module) : Prop :=
  mutableKeys (staticFields module) ≠ [] ∨ keptInit (staticFields module) 0 module.compiledTypes ≠ []

theorem Image.needsInitializer_iff (image : Image limits module program) :
    image.statics.needsInitializer = true ↔ NeedsInitializer module := by
  obtain ⟨events, events', hstatics⟩ := image.statics_eq
  obtain ⟨hslots, -, -, hinit, -⟩ := ofModule_spec hstatics
  have hentries : image.statics.slots.entries = [] ↔ mutableKeys (staticFields module) = [] := by
    rw [hslots, ← List.map_eq_nil_iff (f := Prod.fst)]
    show (assignSlots (mutableKeys (staticFields module))).keys = [] ↔ _
    rw [keys_assignSlots]
  unfold StaticLayout.needsInitializer NeedsInitializer
  rw [Bool.or_eq_true, Bool.not_eq_true', Bool.not_eq_true', List.isEmpty_eq_false_iff,
    List.isEmpty_eq_false_iff, hinit, ne_eq, hentries]

/-- The method that prepares the static fields is the last one. -/
theorem Image.getLast_of_needs (image : Image limits module program)
    (hneeds : image.statics.needsInitializer = true) :
    ∃ method, program.methods.getLast? = some method ∧ method.signature = .initializer
      ∧ program.initializer? = some method.base := by
  have hlast := image.last
  rw [if_pos hneeds] at hlast
  obtain ⟨routine, heq, hroutine⟩ := hlast
  have hresident := List.forall₂_reverse_iff.mpr image.resident
  unfold all at hresident
  rw [heq, List.reverse_append] at hresident
  generalize hmethods : program.methods.reverse = methods at hresident
  cases hresident with
  | @cons _ method _ others hfirst _ =>
    have hhead : program.methods.getLast? = some method := by
      rw [← List.head?_reverse, hmethods]
      rfl
    have hsignature : method.signature = .initializer := hfirst.linked.signature.trans hroutine.signature
    have hbase := image.baseOf?_eq (List.mem_of_getLast? hhead)
    rw [hsignature] at hbase
    exact ⟨method, hhead, hsignature, hbase⟩

/-- A contract has an initializer if there is anything to prepare, and then it is the last method; apart
from that it has one if its module declares a method with that name. -/
theorem initializer?_of_build (hbuild : build limits module = .ok contract) :
    (NeedsInitializer module → initializerName ∉ (declaredBodies module).map (·.2.name)
      ∧ ∃ method, contract.program.methods.getLast? = some method ∧ method.signature = .initializer
        ∧ contract.initializer? = some method.base)
    ∧ (¬ NeedsInitializer module →
      (contract.initializer? ≠ none ↔ initializerName ∈ (declaredBodies module).map (·.2.name))) := by
  obtain ⟨⟨image⟩, -⟩ := image_of_build hbuild
  rw [← image.needsInitializer_iff]
  constructor
  · intro hneeds
    exact ⟨image.name_free hneeds, image.getLast_of_needs hneeds⟩
  · intro hneeds
    have hnames := image.mem_names initializerName
    rw [or_iff_left fun h => hneeds h.1] at hnames
    rw [← hnames, ne_eq]
    exact (not_congr image.initializer?_eq_none_iff).trans not_not

end

end StackContract.Contract
