import OnePass.Proofs.Likeness.Declaration
import OnePass.Proofs.Scoping.Program
set_option autoImplicit false

/-!
# Targets differ in the spelling of pointers

A source is recognised in the same way for every target, and only the text of the lines depends on it
(`parse_respells_pointers`).  The lines are plain: they are made of words, as the names of scopes and
parameters are those of tokens.
-/

namespace OnePass.Program

/-! ## Targets -/

/-- No bytes are folded; the first target has typed pointers, and the second one untyped ones. -/
def ofPointers (first second : Option Version) : Likeness where
  fold := id
  first := ⟨first, .typed⟩
  second := ⟨second, .untyped⟩
  lower_eq h := by
    rw [List.map_id, List.map_id] at h
    rw [h]

section Targets

variable {first second : Option Version}

theorem eq_of_sameText {a b : Bytes} (h : (ofPointers first second).SameText a b) : b = a := by
  unfold Likeness.SameText at h
  rw [ofPointers, List.map_id, List.map_id] at h
  exact h.symm

theorem eq_of_sameDiagnostic {d d' : Diagnostic}
    (h : (ofPointers first second).SameDiagnostic d d') : d = d' := by
  cases d
  cases d'
  rw [Diagnostic.mk.injEq]
  exact ⟨h.code.symm, (eq_of_sameText h.message).symm, (eq_of_sameText h.lexeme).symm,
    h.position.symm, h.level.symm, h.category.symm⟩

theorem sameToken_refl (t : Token) : (ofPointers first second).SameToken t t :=
  ⟨rfl, rfl, rfl, rfl, fun _ => rfl⟩

theorem sameState_start (file source : Bytes) :
    (ofPointers first second).SameState (.start file source .empty (.new ⟨first, .typed⟩))
      (.start file source .empty (.new ⟨second, .untyped⟩)) :=
  ⟨rfl, ⟨List.forall₂_same.mpr fun t _ => sameToken_refl t, sameToken_refl _⟩, rfl, ⟨rfl, rfl⟩, .nil,
    rfl⟩

/-- Programs are the same but for the spelling of pointers, and errors are the same. -/
theorem result_eq_of_sameResult {builder : Ir.Builder} {r r' : Except Error Program}
    (hbuilder : builder.IsWorded) (h : SameResult (ofPointers first second) builder r r') :
    r' = r.map fun p => { p with lines := p.lines.map Ir.respell } := by
  cases h with
  | ok hfinish hname =>
    have hlines := hbuilder.finish hfinish
    rw [eq_of_sameText hname, Except.map, List.map_map]
    refine congrArg (fun lines => Except.ok (Program.mk _ lines)) (List.map_congr_left fun l hl => ?_)
    exact (Ir.Line.respell_render (hlines l hl).isPlain).symm
  | unexpectedEnd => rfl
  | malformed hlexeme =>
    rw [eq_of_sameText hlexeme]
    rfl
  | unfinished e => rfl

end Targets

/-- A source is recognised for a target with untyped pointers as for one with typed pointers: with the
same diagnostics and the same symbols, and with the same error or the same program.  The lines of the
program are the same but for the pointer types, which are all written as `ptr`. -/
theorem parse_respells_pointers (file source : Bytes) (first second : Option Version) :
    let typed := parse file source .empty (.new ⟨first, .typed⟩)
    let untyped := parse file source .empty (.new ⟨second, .untyped⟩)
    untyped.state.diagnostics = typed.state.diagnostics ∧
      untyped.state.table = typed.state.table ∧
      untyped.result = typed.result.map fun p => { p with lines := p.lines.map Ir.respell } := by
  obtain ⟨hstate, hresult⟩ := sameResult_parse
    (L := ofPointers first second) (sameState_start file source)
  have hwords := (parse_leavesTree file source (.new ⟨first, .typed⟩)).code
    (Ir.Builder.isWorded_new ⟨first, .typed⟩)
  refine ⟨?_, hstate.table, result_eq_of_sameResult hwords hresult⟩
  have hsame := hstate.diagnostics.imp fun _ _ => eq_of_sameDiagnostic
  rw [List.forall₂_eq_eq_eq] at hsame
  exact hsame.symm

end OnePass.Program
