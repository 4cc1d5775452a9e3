import OnePass.Proofs.Acceptance.Program
import OnePass.Proofs.Emission.Program
import OnePass.Proofs.Reporting.Declaration
import OnePass.Proofs.Reporting.Position
set_option autoImplicit false

/-!
# The diagnostics of a source

What is reported while a source is read follows the source from its beginning to its end and names
no token twice (`diagnostics_in_source_order`).  A source that has no program breaks off at its end
or at a token that has no place, and the last diagnostics tell which (`broken_iff_diagnostics`).
-/

namespace OnePass.Program

/-! ## Runs from the beginning -/

section Runs

variable {file source : Bytes} {table : Table} {builder : Ir.Builder}

theorem start_delimited : (State.start file source table builder).Delimited :=
  ⟨TokenStream.kind_eof _ _, fun _ ht => TokenStream.kind_ne_eof_of_mem ht⟩

/-- A source is read to its end, or given up. -/
theorem program_run (file source : Bytes) (table : Table) (builder : Ir.Builder) :
    (∃ name s ts, program (.start file source table builder) = .ok name s ∧
      Reports ts (.start file source table builder) s) ∨
    ∃ e s, program (.start file source table builder) = .error (.fatal e) s ∧
      Breaks (.start file source table builder) s e := by
  have hsteady := program_steady (s := .start file source table builder) start_delimited
  unfold Steady Ends at hsteady
  cases hrun : program (.start file source table builder) with
  | ok name s =>
    rw [hrun] at hsteady
    obtain ⟨⟨ts, hreports⟩, -⟩ := hsteady
    exact .inl ⟨name, s, ts, rfl, hreports⟩
  | error stop s =>
    rw [hrun] at hsteady
    obtain ⟨e, rfl, hbreaks⟩ := hsteady
    exact .inr ⟨e, s, rfl, hbreaks⟩

/-- What a run from the beginning reported and passed. -/
theorem Reports.of_start {ts : List Token} {s : State}
    (h : Reports ts (.start file source table builder) s) :
    ts.Sublist (TokenStream.ofSource source).toList ∧ About file ts s.diagnostics := by
  obtain ⟨w, hw, hsub⟩ := h.stream
  obtain ⟨ds, hds, habout⟩ := h.diagnostics
  constructor
  · change (TokenStream.ofSource source).toList = _ at hw
    rw [hw]
    exact hsub.trans (List.sublist_append_left w _)
  · change s.diagnostics = [] ++ ds at hds
    rw [hds]
    exact habout

end Runs

/-! ## The order of diagnostics -/

/-- The diagnostics of a source are about tokens in their order, and then about the end. -/
theorem exists_about_diagnostics (file source : Bytes) (table : Table) (builder : Ir.Builder) :
    ∃ ts ds n, ts.Sublist (TokenStream.ofSource source).toList ∧ About file ts ds ∧
      (parse file source table builder).state.diagnostics = ds ++ List.replicate n .scanEnd := by
  rcases program_run file source table builder with ⟨name, s, ts, hrun, h⟩ | ⟨e, s, hrun, h⟩
  · obtain ⟨horder, habout⟩ := h.of_start
    refine ⟨ts, s.diagnostics, 0, horder, habout, ?_⟩
    rw [parse_of_ok hrun]
    simp
  · rw [parse_of_fatal hrun]
    cases h with
    | unexpectedEnd ts ds n horder habout _ hds => exact ⟨ts, ds, n, horder, habout, hds⟩
    | malformed ts ds t horder habout hkind hds =>
      refine ⟨ts ++ [t], _, 0, horder, habout.append (about_misplaced hkind), ?_⟩
      rw [List.replicate_zero, List.append_nil]
      exact hds

/-- Diagnostics about tokens of a source in their order are in the order of their positions. -/
theorem About.pairwise_before {file source : Bytes} {ts : List Token} {ds : List Diagnostic}
    (h : About file ts ds) (horder : ts.Sublist (TokenStream.ofSource source).toList) :
    ds.Pairwise fun d e => d.position.Before e.position := by
  rw [← List.pairwise_map (R := Position.Before), h.positions, List.pairwise_map]
  refine List.Pairwise.imp ?_ ((TokenStream.pairwise_before .start source).sublist horder)
  intro t u htu
  exact (Token.before_position_iff file).mpr htu

theorem About.exists_token {file source : Bytes} {ts : List Token} {ds : List Diagnostic}
    (h : About file ts ds) (horder : ts.Sublist (TokenStream.ofSource source).toList)
    {d : Diagnostic} (hd : d ∈ ds) :
    ∃ t ∈ (TokenStream.ofSource source).toList, d.position = t.position file := by
  have hposition : d.position ∈ ds.map Diagnostic.position := List.mem_map_of_mem hd
  rw [h.positions] at hposition
  obtain ⟨t, ht, heq⟩ := List.mem_map.mp hposition
  exact ⟨t, horder.subset ht, heq.symm⟩

theorem isValid_position {source : Bytes} {t : Token}
    (ht : t ∈ (TokenStream.ofSource source).toList) (file : Bytes) :
    (t.position file).isValid = true := by
  have hline := TokenStream.line_pos_of_mem ht
  exact decide_eq_true (Int.natCast_pos.mpr hline)

/-- The diagnostics that carry a position are in the strict order of their positions, each of which is
that of a token; and only the end of the source is reported without one. -/
theorem diagnostics_in_source_order (file source : Bytes) (table : Table) (builder : Ir.Builder) :
    ((parse file source table builder).state.diagnostics.filter (·.position.isValid)).Pairwise
      (fun d e => d.position.Before e.position) ∧
    ∀ d ∈ (parse file source table builder).state.diagnostics,
      if d.position.isValid then
        ∃ t ∈ (TokenStream.ofSource source).toList, d.position = t.position file
      else d = .scanEnd := by
  obtain ⟨ts, ds, n, horder, habout, hds⟩ := exists_about_diagnostics file source table builder
  rw [hds]
  constructor
  · have hend : (List.replicate n Diagnostic.scanEnd).filter (·.position.isValid) = [] := by
      simp [Diagnostic.scanEnd, Position.unknown, Position.isValid]
    rw [List.filter_append, hend, List.append_nil]
    exact (habout.pairwise_before horder).filter _
  · intro d hd
    rcases List.mem_append.mp hd with hd | hd
    · obtain ⟨t, ht, hposition⟩ := habout.exists_token horder hd
      rw [hposition, if_pos (isValid_position ht file)]
      exact ⟨t, ht, rfl⟩
    · obtain rfl := List.eq_of_mem_replicate hd
      rw [if_neg (by decide)]

/-! ## How a source is broken -/

theorem notMem_scanEnd_of_about {file : Bytes} {ts : List Token} {ds : List Diagnostic}
    (h : About file ts ds) :
    ¬∃ d ∈ ds, d.code = Diagnostic.scanEndCode ∧ d.position.isValid = false := by
  rintro ⟨d, hd, hcode, -⟩
  exact h.located d hd hcode

/-- A token that is reported is found by its line and its text. -/
theorem misplaced_carries {file : Bytes} {t : Token} (h : t.kind ≠ .eof) :
    (misplaced file t).position.line = t.line ∧ (misplaced file t).lexeme = t.literal := by
  unfold misplaced
  split
  · exact ⟨rfl, rfl⟩
  · next heof => exact absurd heof h
  · exact ⟨rfl, rfl⟩

/-- From scratch, a source that is read to its end has a program. -/
theorem exists_finish {file source : Bytes} {target : Target} {name : Bytes} {s : State}
    (h : program (.start file source .empty (.new target)) = .ok name s) :
    ∃ p, finish name s = .ok p := by
  obtain ⟨d, hd⟩ := (ends_of_ok h).mp (program_start_emits file source target)
  have hparked := congrArg Ir.Builder.parked hd.builder
  rw [finish, finishedText_of_parked hparked]
  exact ⟨_, rfl⟩

/-- A source has a program, or it ends too early, or a token breaks its structure.  It ends too early
exactly if the end was reported, and then the end was reported once or twice and nothing behind it.
If a token breaks the structure, that token was reported last. -/
theorem broken_iff_diagnostics (file source : Bytes) (target : Target) :
    let o := parse file source .empty (.new target)
    ((∃ p, o.result = .ok p) ∨ o.result = .error (.broken .unexpectedEnd) ∨
      ∃ line lexeme, o.result = .error (.broken (.malformed line lexeme))) ∧
    (o.result = .error (.broken .unexpectedEnd) ↔
      ∃ d ∈ o.state.diagnostics, d.code = Diagnostic.scanEndCode ∧ d.position.isValid = false) ∧
    (o.result = .error (.broken .unexpectedEnd) →
      ∃ ds n, (n = 1 ∨ n = 2) ∧ o.state.diagnostics = ds ++ List.replicate n .scanEnd ∧
        ∀ d ∈ ds, d.code ≠ Diagnostic.scanEndCode) ∧
    ∀ line lexeme, o.result = .error (.broken (.malformed line lexeme)) →
      ∃ d, o.state.diagnostics.getLast? = some d ∧ d.position.line = line ∧ d.lexeme = lexeme := by
  rcases program_run file source .empty (.new target) with ⟨name, s, ts, hrun, h⟩ | ⟨e, s, hrun, h⟩
  · obtain ⟨p, hp⟩ := exists_finish hrun
    obtain ⟨-, habout⟩ := h.of_start
    rw [parse_of_ok hrun, hp]
    refine ⟨.inl ⟨p, rfl⟩, ⟨?_, ?_⟩, ?_, ?_⟩
    · intro hresult
      cases hresult
    · intro hend
      exact absurd hend (notMem_scanEnd_of_about habout)
    · intro hresult
      cases hresult
    · intro line lexeme hresult
      cases hresult
  · rw [parse_of_fatal hrun]
    cases h with
    | unexpectedEnd ts ds n _ habout htimes hds =>
      change s.diagnostics = ds ++ List.replicate n .scanEnd at hds
      refine ⟨.inr (.inl rfl), ⟨?_, fun _ => rfl⟩, ?_, ?_⟩
      · intro _
        refine ⟨.scanEnd, ?_, rfl, rfl⟩
        rw [hds, List.mem_append, List.mem_replicate]
        exact .inr ⟨by omega, rfl⟩
      · intro _
        exact ⟨ds, n, htimes, hds, habout.located⟩
      · intro line lexeme hresult
        cases hresult
    | malformed ts ds t _ habout hkind hds =>
      have habout' := habout.append (about_misplaced hkind)
      change s.diagnostics = ds ++ [misplaced file t] at hds
      refine ⟨.inr (.inr ⟨t.line, t.literal, rfl⟩), ⟨?_, ?_⟩, ?_, ?_⟩
      · intro hresult
        cases hresult
      · intro hend
        rw [hds] at hend
        exact absurd hend (notMem_scanEnd_of_about habout')
      · intro hresult
        cases hresult
      · rintro line lexeme hresult
        cases hresult
        refine ⟨misplaced file t, ?_, ?_⟩
        · rw [hds, List.getLast?_concat]
        · exact misplaced_carries hkind

end OnePass.Program
