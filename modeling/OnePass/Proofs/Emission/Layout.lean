import OnePass.Proofs.Emission.Program
set_option autoImplicit false

/-!
# Slots of parameters

The function of a procedure starts by storing the parameters of its header in slots, numbered from one
on.  All lines that are added to a function later on are storage of variables, which have names, and the
end of the function.  So a function has the slots of its parameters and no others, whatever is declared
in it and however the declarations end (`slottedCode_of_parse_ok`).
-/

namespace OnePass.Program

open OnePass.Tree (slotLines ofProcedure_eq)

/-- The parameters in the header of a function. -/
def formalsOf : Ir.Line → List Ir.Formal
  | .procedure _ formals => formals
  | _ => []

/-- Whether a line reserves a numbered slot. -/
def isSlot : Ir.Line → Bool
  | .alloca (.slot _) _ _ => true
  | _ => false

/-- Whether a function stores the parameters of its header in slots first, and has no other slots. -/
def Slotted (f : Ir.Function) : Prop :=
  ∃ ls, f.body = slotLines 1 (formalsOf f.header) ++ ls ∧ ∀ l ∈ ls, isSlot l = false

/-- Whether all functions of a builder are such functions. -/
structure SlottedCode (b : Ir.Builder) : Prop where
  finished : ∀ f ∈ b.finished, Slotted f
  parked : ∀ f ∈ b.parked, Slotted f
  current : Slotted b.current

/-! ## Functions -/

theorem slotted_start {header : Ir.Line} (h : formalsOf header = []) :
    Slotted (.start header) := by
  refine ⟨[], ?_, List.forall_mem_nil _⟩
  rw [Ir.Function.start, h]
  rfl

theorem slotted_ofProcedure (name : Bytes) (formals : List Ir.Formal) :
    Slotted (.ofProcedure name formals) := by
  rw [ofProcedure_eq]
  exact ⟨[], (List.append_nil _).symm, List.forall_mem_nil _⟩

theorem Slotted.push {f : Ir.Function} (h : Slotted f) {l : Ir.Line} (hl : isSlot l = false) :
    Slotted (f.push l) := by
  obtain ⟨ls, hbody, hls⟩ := h
  refine ⟨ls ++ [l], ?_, ?_⟩
  · rw [Ir.Function.push, hbody, List.append_assoc]
  · rw [List.forall_mem_append]
    exact ⟨hls, List.forall_mem_singleton.mpr hl⟩

theorem isSlot_of_declaration {name : Bytes} {sym : Symbol} {line : Ir.Line}
    (h : Ir.declaration name sym = .ok line) : isSlot line = false := by
  obtain ⟨storage, rfl⟩ := declaration_eq_ok h
  split <;> rfl

/-! ## Builders -/

section Steps

variable {b b' : Ir.Builder}

theorem slottedCode_new (target : Target) : SlottedCode (.new target) where
  finished := List.forall_mem_nil _
  parked := List.forall_mem_nil _
  current := slotted_start rfl

theorem SlottedCode.openProcedure (h : SlottedCode b) {name : Bytes} {sym : Symbol}
    (hopen : b.openProcedure name sym = .ok b') : SlottedCode b' := by
  obtain ⟨formals, -, rfl⟩ := Ir.Builder.openProcedure_eq_ok hopen
  exact ⟨h.finished, List.forall_mem_cons.mpr ⟨h.current, h.parked⟩, slotted_ofProcedure _ _⟩

theorem SlottedCode.closeProcedure (h : SlottedCode b) (hclose : b.closeProcedure = .ok b') :
    SlottedCode b' := by
  have hparked := h.parked
  obtain ⟨outer, rest, heq, rfl⟩ := Ir.Builder.closeProcedure_eq_ok hclose
  rw [heq, List.forall_mem_cons] at hparked
  refine ⟨?_, hparked.2, hparked.1⟩
  rw [List.forall_mem_append]
  have hended : Slotted ((b.current.push .returnVoid).push .close) :=
    (h.current.push rfl).push rfl
  exact ⟨h.finished, List.forall_mem_singleton.mpr hended⟩

theorem SlottedCode.discardProcedure (h : SlottedCode b) (hdiscard : b.discardProcedure = .ok b') :
    SlottedCode b' := by
  have hparked := h.parked
  obtain ⟨outer, rest, heq, rfl⟩ := Ir.Builder.discardProcedure_eq_ok hdiscard
  rw [heq, List.forall_mem_cons] at hparked
  exact ⟨h.finished, hparked.2, hparked.1⟩

theorem SlottedCode.step (h : SlottedCode b) (hstep : BuildStep b b') : SlottedCode b' := by
  cases hstep with
  | program => exact { h with current := slotted_start rfl }
  | storage hline =>
    have hslot := isSlot_of_declaration hline
    split
    · exact ⟨h.finished, h.parked, h.current⟩
    · exact { h with current := h.current.push hslot }
  | opening hopen => exact h.openProcedure hopen
  | leaving kept hleave =>
    cases kept with
    | true => exact h.closeProcedure hleave
    | false => exact h.discardProcedure hleave

end Steps

/-! ## Runs -/

/-- No step of a run gives a function another slot. -/
theorem slottedCode_frame :
    WideFrame fun s s' => SlottedCode s.builder → SlottedCode s'.builder where
  refl _ h := h
  trans h h' hs := h' (h hs)
  next _ h := h
  skip _ _ h := h
  report _ _ h := h
  note _ _ h := h
  nest _ _ h := h
  table _ _ h := h
  builder _ _ hstep h := h.step hstep

/-- The functions of a recognised program have the slots of their parameters and no others. -/
theorem slottedCode_of_parse_ok {file source : Bytes} {table : Table} {builder : Ir.Builder}
    {p : Program} (hok : (parse file source table builder).result = .ok p)
    (hbuilder : SlottedCode builder) :
    SlottedCode (parse file source table builder).state.builder :=
  (slottedCode_frame.keeps made_program).of_ok (program_of_parse_ok hok) hbuilder

end OnePass.Program
