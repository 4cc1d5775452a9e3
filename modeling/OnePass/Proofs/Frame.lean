import OnePass.Proofs.Course
set_option autoImplicit false

/-!
# What productions leave alone

A relation between states that holds of every single step of reading holds between the beginning
and the end of every production that is made of such steps, however it ends.  `Frame` lists the
steps of reading tokens, reporting and tracing; `WideFrame` adds the steps that change the symbol
table and the emitted code (`BuildStep`).  Statements are made of the former alone.  Either is a
course that takes every stop for a success, and keeps what is made of its steps (`Frame.keeps`,
`WideFrame.keeps`).

The two relations that most of the rest uses are `Reads`, of statements, and `Proceeds`, of
everything.
-/

namespace OnePass.Program

/-- A relation that every step of reading keeps. -/
structure Frame (R : State → State → Prop) : Prop where
  refl (s : State) : R s s
  trans {s s' s'' : State} : R s s' → R s' s'' → R s s''
  next (s : State) : R s { s with cursor := s.cursor.next }
  skip (s : State) (n : Nat) : R s { s with cursor := s.cursor.skip n }
  report (s : State) (ds : List Diagnostic) : R s { s with diagnostics := s.diagnostics ++ ds }
  note (s : State) (line : Bytes) : R s { s with trace := s.trace ++ [line] }
  nest (s : State) (n : Nat) : R s { s with nesting := n }

/-- A relation that every step keeps, those that declare and emit included. -/
structure WideFrame (R : State → State → Prop) : Prop extends Frame R where
  table (s : State) (actions : List Table.Action) : R s { s with table := s.table.run actions }
  builder (s : State) {b : Ir.Builder} (h : BuildStep s.builder b) : R s { s with builder := b }

/-- A production after which the state stands in a relation to the one before, however it ends. -/
def Keeps {α : Type} (R : State → State → Prop) (p : Parser α) : Prop :=
  ∀ s, Ends p s (fun _ s' => R s s') (fun _ s' => R s s')

/-! ## Reading -/

section Reading

variable {α : Type} {R : State → State → Prop} (hR : Frame R)

include hR

theorem Frame.course : LongCourse R fun _ => R where
  refl := hR.refl
  trans := hR.trans
  stop := hR.trans
  next := hR.next
  note := hR.note
  reject s d := hR.report s [d]
  giveUp s _ := hR.refl s
  report := hR.report
  skip := hR.skip
  resume h := h

theorem Frame.keeps {p : Parser α} (h : Made (fun _ p => Keeps R p) false true p) : Keeps R p :=
  h.leads hR.course (fun hfalse => Bool.noConfusion hfalse) fun _ => hR.nest

end Reading

/-! ## Declaring -/

section Declaring

variable {R : State → State → Prop} (hW : WideFrame R)

include hW

theorem WideFrame.course : WideCourse R fun _ => R where
  toLongCourse := hW.toFrame.course
  table := hW.table
  leave actions h := hW.trans h (hW.table _ actions)
  builder := hW.builder

theorem WideFrame.keeps {α : Type} {p : Parser α} (h : Made (fun _ p => Keeps R p) true true p) :
    Keeps R p :=
  hW.course.leads hW.nest h

end Declaring

/-! ## The relations in use -/

/-- How a production goes on from one state to another, whatever it declares and emits: the file
and the end of the tokens stay, tokens are only passed, and what was reported and traced stays. -/
structure Proceeds (s s' : State) : Prop where
  file : s'.file = s.file
  eof : s'.cursor.eof = s.cursor.eof
  ahead : s'.cursor.ahead <:+ s.cursor.ahead
  diagnostics : s.diagnostics <+: s'.diagnostics
  trace : s.trace <+: s'.trace

/-- How a production goes on that declares and emits nothing. -/
structure Reads (s s' : State) : Prop extends Proceeds s s' where
  table : s'.table = s.table
  builder : s'.builder = s.builder

theorem Proceeds.refl (s : State) : Proceeds s s :=
  ⟨rfl, rfl, List.suffix_refl _, List.prefix_refl _, List.prefix_refl _⟩

theorem Proceeds.trans {s s' s'' : State} (h : Proceeds s s') (h' : Proceeds s' s'') :
    Proceeds s s'' where
  file := h'.file.trans h.file
  eof := h'.eof.trans h.eof
  ahead := h'.ahead.trans h.ahead
  diagnostics := h.diagnostics.trans h'.diagnostics
  trace := h.trace.trans h'.trace

theorem Proceeds.withBuilder (s : State) (b : Ir.Builder) : Proceeds s { s with builder := b } :=
  { Proceeds.refl s with }

theorem Proceeds.withTable (s : State) (t : Table) : Proceeds s { s with table := t } :=
  { Proceeds.refl s with }

theorem Proceeds.wideFrame : WideFrame Proceeds where
  refl := Proceeds.refl
  trans := Proceeds.trans
  next s := { Proceeds.refl s with ahead := List.tail_suffix _ }
  skip s n := { Proceeds.refl s with ahead := List.drop_suffix n _ }
  report s ds := { Proceeds.refl s with diagnostics := List.prefix_append _ ds }
  note s line := { Proceeds.refl s with trace := List.prefix_append _ [line] }
  nest s _ := { Proceeds.refl s with }
  table s _ := Proceeds.withTable s _
  builder s _ _ := Proceeds.withBuilder s _

theorem Reads.frame : Frame Reads where
  refl s := ⟨.refl s, rfl, rfl⟩
  trans h h' := ⟨h.toProceeds.trans h'.toProceeds, h'.table.trans h.table, h'.builder.trans h.builder⟩
  next s := ⟨Proceeds.wideFrame.next s, rfl, rfl⟩
  skip s n := ⟨Proceeds.wideFrame.skip s n, rfl, rfl⟩
  report s ds := ⟨Proceeds.wideFrame.report s ds, rfl, rfl⟩
  note s line := ⟨Proceeds.wideFrame.note s line, rfl, rfl⟩
  nest s n := ⟨Proceeds.wideFrame.nest s n, rfl, rfl⟩

/-- Of the state, an optional word changes the cursor at most. -/
theorem optionalIs_reads {s : State} {Q : Unit → State → Prop} {E : Stop → State → Prop}
    (h : ∀ c, Reads s { s with cursor := c } → Q () { s with cursor := c }) :
    Ends optionalIs s Q E := by
  rw [ends_optionalIs]
  split
  · exact h _ (Reads.frame.next s)
  · exact h _ (Reads.frame.refl s)

end OnePass.Program
