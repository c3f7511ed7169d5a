import StackContract.Proofs.StraightCode
/-!
# Code by itself

A body without references is a script of its own. If what stands in front of its return works on the
memory alone (`Performs`), a machine with that script runs to the end and leaves what is on the stack
then (`Performs.leaves`).
-/

namespace StackContract.Contract

open Assembly Compile Script Lowering Machine Number

/-! ## Machines for a body -/

/-- A machine whose script is a body. Its limits are large enough for code that runs straight on: every
instruction takes a byte of the script, and pushes at most one item. -/
structure Ready (body : Body) (s : State) : Prop where
  script : s.script = body.encode.toArray
  initializer : s.initializer = none
  small : body.size ≤ maxScriptSize
  execution : body.size ≤ s.limits.execution
  stack : body.size ≤ s.limits.stack

/-- A machine runs its script from the start to the end, and leaves one item. -/
def Leaves (s : State) (item : Item) (heap : Heap) : Prop :=
  ∃ t, invoke 0 [] s = .ok [item] t ∧ t.memory.heap = heap

/-! ## Bodies without references -/

/-- A directive that stands for itself: it is no reference, and can be read back from a script. -/
def Inline : Directive → Prop
  | .mark _ => True
  | .instruction i => i.size ≤ 256 ^ 4 → i.fits = true
  | .reference _ _ => False

theorem inline_ret : Inline (.op .ret) :=
  fun _ => Instruction.fits_plain rfl

/-- Behind a return there is at most another one. -/
theorem closing_ret (first : List Directive) : ∃ rest, closing (first ++ [.op .ret])
    = first ++ .op .ret :: rest ∧ ∀ d ∈ rest, Inline d := by
  rcases closing_eq (first ++ [.op .ret]) with hclosing | hclosing
  · exact ⟨[], hclosing, nofun⟩
  · refine ⟨[.op .ret], hclosing.trans (List.append_assoc ..), fun d hd => ?_⟩
    rw [List.mem_singleton.mp hd]
    exact inline_ret

/-- Without references there is nothing to fill in. -/
theorem listing_of_inline {code : List Directive} (h : ∀ d ∈ code, Inline d) (fill : Filling)
    (address : Nat) : listing fill address code = listing placeholders address code := by
  induction code generalizing address with
  | nil => rfl
  | cons d rest ih =>
    have hrest := ih fun d hd => h d (List.mem_cons_of_mem _ hd)
    cases d with
    | mark source => exact hrest address
    | instruction i => exact congrArg ((address, i) :: ·) (hrest (address + i.size))
    | reference opcode target => exact (h _ (List.mem_cons_self ..)).elim

section

variable {body : Body} {fill : Filling} {code : List Directive}

theorem size_of_inline (hentries : body.code.entries = listing fill 0 code)
    (hinline : ∀ d ∈ code, Inline d) : body.size = extent code := by
  rw [listing_of_inline hinline] at hentries
  exact size_of_entries (fun _ _ => rfl) hentries

/-- The code of a body without references stands in the script that the body is. -/
theorem loaded_of_inline (hentries : body.code.entries = listing fill 0 code)
    (hinline : ∀ d ∈ code, Inline d) (hsmall : body.size ≤ maxScriptSize)
    (bases : String → Option Nat) : Loaded body.encode.toArray bases 0 code := by
  have hsize := size_of_inline hentries hinline
  rw [listing_of_inline hinline] at hentries
  constructor
  · intro before i after hcode
    have hmem : .instruction i ∈ code := hcode ▸ List.mem_append_right _ (List.mem_cons_self ..)
    have hfits : i.fits = true := by
      refine hinline _ hmem (Nat.le_trans (size_le_extent hmem) ?_)
      rw [← hsize]
      exact Nat.le_trans hsmall (by decide)
    -- the script, cut at the instruction
    have hbytes : body.encode
        = ((listing placeholders 0 before).map Prod.snd).flatMap Instruction.encode ++ (i.encode
          ++ ((listing placeholders (0 + extent before + i.size) after).map Prod.snd).flatMap
            Instruction.encode) := by
      unfold Body.encode Body.instructions Table.values
      rw [hentries, hcode, listing_append, List.map_append, List.flatMap_append]
      rfl
    have hdecode := decode_encode (((listing placeholders 0 before).map Prod.snd).flatMap
      Instruction.encode) (((listing placeholders (0 + extent before + i.size) after).map
        Prod.snd).flatMap Instruction.encode) i hfits
    rw [← hbytes, length_encode_listing _ (fun _ _ => rfl)] at hdecode
    rw [Nat.zero_add]
    exact hdecode
  · intro before opcode source after hcode
    exact (hinline (.reference opcode (.source source))
      (hcode ▸ List.mem_append_right _ (List.mem_cons_self ..))).elim
  · intro before opcode name after hcode
    exact (hinline (.reference opcode (.method name))
      (hcode ▸ List.mem_append_right _ (List.mem_cons_self ..))).elim
  · have hend : 0 + extent code = body.encode.toArray.size := by
      rw [List.size_toArray, Body.length_encode, hsize, Nat.zero_add]
    exact Nat.le_of_eq hend

end

/-! ## Code on the memory -/

/-- Code without references changes the memory from one to another one, and needs no more room on the
stack than it has bytes. -/
structure Performs (code : List Directive) (m m' : Memory) : Prop where
  inline : ∀ d ∈ code, Inline d
  room : m'.stack.size ≤ m.stack.size + extent code
  carries : extent code ≤ maxScriptSize → Carries (m.stack.size + extent code) code m m'

namespace Performs

variable {first second : List Directive} {m m' m'' : Memory} {stack : Stack Item} {heap : Heap}

theorem nil : Performs [] m m where
  inline := nofun
  room := Nat.le_refl _
  carries _ := .nil

theorem append (h : Performs first m m') (h' : Performs second m' m'') :
    Performs (first ++ second) m m'' := by
  have hextent := extent_append first second
  have hroom := h.room
  have hroom' := h'.room
  refine ⟨fun d hd => ?_, by omega, fun hsmall => ?_⟩
  · rcases List.mem_append.mp hd with hd | hd
    · exact h.inline d hd
    · exact h'.inline d hd
  · exact ((h.carries (by omega)).mono (by omega)).append ((h'.carries (by omega)).mono (by omega))

theorem cons {d : Directive} (h : Performs [d] m m') (h' : Performs second m' m'') :
    Performs (d :: second) m m'' :=
  h.append h'

theorem mark (source : UInt32) : Performs [.mark source] m m := by
  refine ⟨fun d hd => ?_, Nat.le_add_right .., fun _ => .mark source⟩
  rw [List.mem_singleton.mp hd]
  trivial

/-- An instruction that works on the memory alone, and pushes at most one item. -/
theorem instruction {i : Instruction} (op : SimpleOp) (hop : operation i.opcode = .simple op)
    (hfits : i.size ≤ 256 ^ 4 → i.fits = true) (hrun : ∀ address, op.run i address m = .ok () m')
    (hroom : m'.stack.size ≤ m.stack.size + 1) : Performs [.instruction i] m m' := by
  have hextent : extent [.instruction i] = i.size := rfl
  have hpos := i.size_pos
  refine ⟨fun d hd => ?_, by omega, fun _ => .simple op hop hrun (by omega)⟩
  rw [List.mem_singleton.mp hd]
  exact hfits

/-- An opcode without operand that works on the memory alone. -/
theorem op {opcode : Opcode} (op : SimpleOp) (hop : operation opcode = .simple op)
    (hoperand : opcode.operand = .none) (hrun : ∀ address, op.run ⟨opcode, []⟩ address m = .ok () m')
    (hroom : m'.stack.size ≤ m.stack.size + 1) : Performs [.op opcode] m m' :=
  .instruction op hop (fun _ => Instruction.fits_plain hoperand) hrun hroom

theorem pushInteger (v : Int128) :
    Performs [.pushInteger v] ⟨stack, heap⟩ ⟨stack.push (.integer v), heap⟩ := by
  obtain ⟨i, op, hi, hop, hrun, -, -⟩ := (Pushes.integer v).run_eq
  cases hi
  exact .instruction op hop (fun _ => Instruction.fits_pushInteger v)
    (fun address => by rw [hrun]; rfl) (Nat.le_refl _)

theorem pushBoolean (b : Bool) :
    Performs [.pushBoolean b] ⟨stack, heap⟩ ⟨stack.push (.boolean b), heap⟩ := by
  obtain ⟨i, op, hi, hop, hrun, -, -⟩ := (Pushes.boolean b).run_eq
  cases hi
  exact .instruction op hop (fun _ => by cases b <;> exact Instruction.fits_plain rfl)
    (fun address => by rw [hrun]; rfl) (Nat.le_refl _)

/-- In a script that is small enough, data are pushed as they are. -/
theorem pushData (bytes : List UInt8) :
    Performs [.pushData bytes] ⟨stack, heap⟩ ⟨stack.push (.byteString bytes), heap⟩ := by
  have hsize := Instruction.size_pushData bytes
  have hextent : extent [.pushData bytes] = (Instruction.pushData bytes).size := rfl
  refine ⟨fun d hd => ?_, ?_, fun hsmall => ?_⟩
  · rw [List.mem_singleton.mp hd]
    exact fun hle => Instruction.fits_pushData (Nat.lt_of_lt_of_le hsize hle)
  · show stack.size + 1 ≤ stack.size + _
    omega
  · have hbytes : bytes.length < 256 ^ 4 :=
      Nat.lt_of_lt_of_le hsize (Nat.le_trans (hextent ▸ hsmall) (by decide))
    refine .pushes (.byteString hbytes) stack heap ?_
    show stack.size < stack.size + _
    omega

/-- A machine runs a body to its first return, and leaves what the code in front of it leaves. -/
theorem leaves {body : Body} {fill : Filling} {s : State} {item : Item} (hready : Ready body s)
    (hentries : body.code.entries = listing fill 0 (closing (first ++ [.op .ret])))
    (h : Performs first ⟨.empty, s.memory.heap⟩ m') (hstack : m'.stack.toList = [item]) :
    Leaves s item m'.heap := by
  obtain ⟨rest, hclosing, hrest⟩ := closing_ret first
  rw [hclosing] at hentries
  have hinline : ∀ d ∈ first ++ .op .ret :: rest, Inline d := by
    intro d hd
    rcases List.mem_append.mp hd with hd | hd
    · exact h.inline d hd
    · rcases List.mem_cons.mp hd with rfl | hd
      · exact inline_ret
      · exact hrest d hd
  have hsize : body.size = extent first + (1 + extent rest) :=
    (size_of_inline hentries hinline).trans (extent_append ..)
  obtain ⟨hscript, hinitializer, hsmall, hexecution, hlimit⟩ := hready
  obtain ⟨t, hinit, ht, hmemory, hlimits⟩ := exists_ready_of_none hinitializer
  rw [← hlimits] at hexecution hlimit
  have hfacing : Facing ⟨body.encode.toArray, fun _ => none, 0, first ++ .op .ret :: rest, []⟩
      [] (first ++ .op .ret :: rest) ⟨.empty, s.memory.heap⟩ { returnTo := none } (t.start 0 []) :=
    ⟨ht.trans hscript, loaded_of_inline hentries hinline hsmall _, rfl, rfl,
      congrArg (Memory.mk _ ·.heap) hmemory, rfl⟩
  obtain ⟨n, u, hn, hadvances, rfl⟩ := h.carries (by omega) hfacing (by
    show 0 + extent first ≤ t.limits.stack
    omega)
  -- the return ends the run
  obtain ⟨v, hreturns, hleft⟩ := (hfacing.behind m').ret.2 rfl
  have hone : m'.stack.size = 1 := by rw [m'.stack.size_eq, hstack, List.length_singleton]
  have hstep := hreturns.step.resolve_right fun hexceeds => by
    have hlt : t.limits.stack < v.memory.stack.size := hexceeds.2
    rw [hleft, hone] at hlt
    omega
  have hcount := Nat.le_trans hn (instructionCount_le_extent first)
  have hinside : ¬ t.script.size ≤ 0 := by
    rw [ht, hscript, List.size_toArray, Body.length_encode]
    omega
  have hrun : invoke 0 [] s
      = .ok v.memory.stack.toList { v with memory := { v.memory with stack := .empty } } := by
    rw [invoke_eq, hinit]
    dsimp only
    rw [run_eq, if_neg hinside]
    exact hadvances.loop_returns hstep (by omega)
  rw [hleft, hstack] at hrun
  exact ⟨_, hrun, rfl⟩

end Performs

end StackContract.Contract
