import OnePass.Proofs.Progress.Declaration
import OnePass.Proofs.Progress.Skipping
import OnePass.Proofs.Reporting.Program
set_option autoImplicit false

/-!
# Reading a source comes to an end

A source is read from its first token on, each token once, and its end is never stepped over
(`parse_halts_within_tokens`).  Every loop of the grammar passes a token in each of its rounds,
however the round ends (`RoundsConsume`).  The bounds that the productions carry are never reached:
the grammar unrolled more often than there are tokens ahead is the same production, whatever stands
where the unrolling is cut off (`Halts`).
-/

namespace OnePass

/-- How many tokens have been read from the source when the cursor keeps two of them in view. -/
def Cursor.reads (c : Cursor) : Nat := c.passed.length + 2

namespace Program

/-! ## Whole programs -/

section Programs

variable {s : State} {n : Nat}

theorem programOpening_paces (hs : s.Delimited) (hn : s.cursor.remaining < n) :
    Paces n programOpening s fun _ _ => True := by
  -- Wherever the program is given up, no more tokens are left than at its beginning.
  have hleft {c : Cursor} (h : s.cursor.Crosses c) : c.remaining < n :=
    Nat.lt_of_le_of_lt h.remaining_le hn
  refine (paces_mustCurrent hn _).bind fun _ s₁ h₁ _ => ?_
  refine (paces_mustPeek (h₁.delimited hs) (hleft h₁) (by simp)).bind fun _ s₂ h₂ _ => ?_
  have h₂ := h₁.trans h₂
  rw [strides_bind_current]
  refine (paces_modifyTable _).bind fun _ s₃ h₃ _ => ?_
  have h₃ := h₂.trans h₃
  refine (paces_mustPeek (h₃.delimited hs) (hleft h₃) (by simp)).bind fun _ s₄ _ hpos₄ => ?_
  refine (paces_commit _).bind fun _ s₅ _ hs₅ => ?_
  refine Strides.bind (P := fun _ c => c = s₅.cursor) (paces_of_still ⟨rfl, rfl⟩) ?_
  intro _ s₆ _ hs₆
  refine (paces_note (Q := fun _ c => c = s₆.cursor) _ rfl).bind fun _ s₇ _ hs₇ => ?_
  have hpos₇ : 0 < s₇.cursor.remaining := by
    rw [hs₇, hs₆, hs₅]
    exact hpos₄
  exact (paces_advance hpos₇).bind fun _ _ _ _ => paces_pure trivial

theorem program_paces (hs : s.Delimited) (hn : s.cursor.remaining < n) :
    Paces n program s fun _ _ => True := by
  have hleft {c : Cursor} (h : s.cursor.Crosses c) : c.remaining < n :=
    Nat.lt_of_le_of_lt h.remaining_le hn
  refine (programOpening_paces hs hn).bind fun _ s₁ h₁ _ => ?_
  refine (body_paces (h₁.delimited hs) (hleft h₁) (by simp)).bind fun _ s₂ h₂ _ => ?_
  have h₂ := h₁.trans h₂
  refine (paces_mustPeek (h₂.delimited hs) (hleft h₂) (by simp)).bind fun _ s' _ _ => ?_
  refine (paces_modifyTable _).bind fun _ s'' _ _ => ?_
  exact (paces_note (Q := fun _ _ => True) _ trivial).bind fun _ _ _ _ => paces_pure trivial

/-- However a source is read, the cursor has crossed tokens only. -/
theorem parse_crosses (file source : Bytes) (table : Table) (builder : Ir.Builder) :
    (State.start file source table builder).cursor.Crosses
      (parse file source table builder).state.cursor := by
  have hprogram := (program_paces (s := .start file source table builder) start_delimited
    (Nat.lt_add_one _)).2
  exact (hprogram.mono (fun _ _ h => h.1) fun _ _ h => h.1).state_parse

end Programs

/-! ## Rounds -/

/-- Whether a production passes a token, however it ends. -/
def Consuming {α : Type} (p : Parser α) (s : State) : Prop :=
  Ends p s (fun _ s' => s.cursor.Consumes s'.cursor) fun _ s' => s.cursor.Consumes s'.cursor

/-- What each loop of the grammar does in a round: it passes a token, whether the round succeeds, is
rejected or gives the program up.  Only at the end of the source a round of skipping passes none, and
it gives the program up. -/
structure RoundsConsume (s : State) : Prop where
  declarations : startsDeclaration s.cursor.current s.cursor.peek →
    Consuming (declarationRound (body .kwProcedure)) s
  statements : startsStatement s.cursor.current → Consuming (terminated statements) s
  parameters : s.cursor.current.kind ≠ .eof → Consuming parameterRound s
  arguments : s.cursor.current.kind ≠ .eof → ∀ expected, Consuming (argumentRound expected) s
  skipping : s.cursor.current.kind ≠ .eof → ∀ depth,
    ¬(depth ≤ 0 ∧ s.cursor.current.kind = .semicolon) → Consuming (skipRound depth) s
  skippingEnd : s.cursor.current.kind = .eof → ∀ depth,
    Ends (skipRound depth) s (fun _ _ => False)
      fun stop s' => stop = .fatal .unexpectedEnd ∧ s'.cursor = s.cursor

section Rounds

variable {α : Type} {s : State} {p : Parser α}

/-- A round that succeeds only behind a token, is never rejected, and gives the program up with fewer
tokens left. -/
theorem Strides.consuming {p p' : Parser α} (h : Strides s.cursor.remaining p p' s
      fun _ c => c.remaining < s.cursor.remaining)
    (hreject : Ends p s (fun _ _ => True) fun stop _ => stop ≠ .reject) : Consuming p s := by
  refine (h.2.and hreject).mono ?_ ?_
  · rintro a s' ⟨⟨hcrosses, hlt⟩, -⟩
    exact ⟨hcrosses, hlt⟩
  · rintro stop s' ⟨⟨hcrosses, hlt⟩, hstop⟩
    exact ⟨hcrosses, hlt hstop⟩

/-- A round that starts with a step. -/
theorem Paces.consuming_advance (hpos : 0 < s.cursor.remaining) {Q : α → Cursor → Prop}
    (h : Paces 0 p { s with cursor := s.cursor.next } Q) : Consuming (do advance; p) s := by
  have hstep : s.cursor.Consumes s.cursor.next := by
    refine ⟨Cursor.crosses_next hpos, ?_⟩
    rw [Cursor.remaining_next]
    omega
  unfold Consuming
  rw [ends_bind, ends_advance]
  refine h.2.mono ?_ ?_
  · rintro a s' ⟨hcrosses, -⟩
    exact hstep.trans_crosses hcrosses
  · rintro stop s' ⟨hcrosses, -⟩
    exact hstep.trans_crosses hcrosses

theorem declarationRound_consuming (hs : s.Delimited)
    (hstarts : startsDeclaration s.cursor.current s.cursor.peek) :
    Consuming (declarationRound (body .kwProcedure)) s := by
  have hpos := remaining_pos_of_startsDeclaration hs hstarts
  refine (declarationRound_strides (fun s' hs' hlt => body_paces hs' hlt (by simp)) hs hpos
    (Nat.le_refl _)).consuming ?_
  have hbody (s' : State) (hs' : s'.Delimited) (_ : s'.cursor.remaining < s.cursor.remaining) :
      Steady (body .kwProcedure) s' fun _ s'' => s''.cursor.current.kind ≠ .semicolon := by
    refine (body_steady hs' .kwProcedure).mono ?_ fun _ _ hstop => hstop
    rintro _ s'' ⟨hreports, hlast⟩
    exact ⟨hreports, by simp [hlast]⟩
  refine Ends.mono (separated_steady hbody hs (Nat.le_refl _)) (fun _ _ _ => trivial) ?_
  rintro _ _ ⟨e, rfl, -⟩
  simp

theorem terminated_consuming (hs : s.Delimited) (hstarts : startsStatement s.cursor.current) :
    Consuming (terminated statements) s := by
  have hpos : 0 < s.cursor.remaining := by
    refine remaining_pos hs fun heof => ?_
    simp [startsStatement, heof] at hstarts
  have hinner (s' : State) (hs' : s'.Delimited) (_ : s'.cursor.remaining < s.cursor.remaining) :
      Paces 1 statements s' fun _ _ => True :=
    (statements_strides hs' (Nat.lt_add_one _) exhausted).self
  refine ((terminated_strides hinner hs (Nat.le_refl _)).mono hpos fun _ _ h => h).consuming ?_
  have hsteady := terminated_steady (fun s' hs' (_ : s'.cursor.remaining < s.cursor.remaining) =>
    statements_steady hs') hs (Nat.le_refl _)
  refine Ends.mono hsteady (fun _ _ _ => trivial) ?_
  rintro _ _ ⟨e, rfl, -⟩
  simp

theorem skipRound_consuming {depth : Int} (hs : s.Delimited) (hpos : 0 < s.cursor.remaining)
    (hstay : ¬(depth ≤ 0 ∧ s.cursor.current.kind = .semicolon)) :
    Consuming (skipRound depth) s := by
  obtain ⟨depth', k, hk, -, hrun, -⟩ := skipRound_run hs hpos hstay
  refine (ends_of_ok hrun).mpr ⟨Cursor.crosses_skip k, ?_⟩
  change (s.cursor.skip k).remaining < s.cursor.remaining
  rw [Cursor.remaining_skip]
  omega

theorem State.Delimited.roundsConsume (hs : s.Delimited) : RoundsConsume s where
  declarations := declarationRound_consuming hs
  statements := terminated_consuming hs
  parameters hkind :=
    have hs₁ := (Reports.next s).delimited hs
    (item_paces hs₁ (parameter_paces hs₁)).consuming_advance (remaining_pos hs hkind)
  arguments hkind expected :=
    have hs₁ := (Reports.next s).delimited hs
    (item_paces hs₁ (argument_paces hs₁ expected)).consuming_advance (remaining_pos hs hkind)
  skipping hkind _ hstay := skipRound_consuming hs (remaining_pos hs hkind) hstay
  skippingEnd hkind depth := by simp [skipRound, hkind, StructureError.at]

end Rounds

/-! ## Halting -/

/-- What the recursions of the grammar do when they are unrolled more often than there are tokens
ahead: the same as the productions, whatever `cut` stands where the unrolling ends.  A list of
arguments or parameters starts on a token. -/
structure Halts (s : State) : Prop where
  expressions : ∀ n cut level ctx, s.cursor.remaining < n →
    Nat.repeat atLevel n cut level ctx s = expressionAt level ctx s
  arguments : s.cursor.current.kind ≠ .eof → ∀ n cut expected, s.cursor.remaining < n →
    Nat.repeat argumentsStep n cut expected s = argumentsWithin (s.cursor.remaining + 1) expected s
  statements : ∀ n cut, s.cursor.remaining < n →
    Nat.repeat statementsStep n cut s = Program.statements s
  parameters : s.cursor.current.kind ≠ .eof → ∀ n cut, s.cursor.remaining < n →
    Nat.repeat parametersStep n cut s = parametersWithin (s.cursor.remaining + 1) s
  declarations : ∀ n cut, s.cursor.remaining < n →
    Nat.repeat declarationsStep n cut s = declarationsWithin (s.cursor.remaining + 1) s
  recovering : ∀ n cut mark depth, s.cursor.remaining < n →
    (do
      if (← reported) = mark then unexpected (← current)
      Nat.repeat skipStep n cut depth : Parser Unit) s = recover mark depth s

theorem State.Delimited.halts {s : State} (hs : s.Delimited) : Halts s where
  expressions n cut level ctx hn := (expressionAt_strides hs hn cut level ctx).1
  arguments hkind n cut expected hn :=
    (argumentsWithin_strides cut _ n expected s hs (remaining_pos hs hkind) (Nat.lt_add_one _) hn).1
  statements n cut hn := (statements_strides hs hn cut).1
  parameters hkind n cut hn :=
    (parametersWithin_strides cut _ n s hs (remaining_pos hs hkind) (Nat.lt_add_one _) hn).1
  declarations n cut hn := (declarationsWithin_strides cut _ n s hs (Nat.lt_add_one _) hn).1
  recovering n cut mark depth hn := by
    rw [recover_run]
    refine run_eq_of_ends fun Q E h => ?_
    have hskips (d : List Diagnostic) := repeat_skipStep_run cut n depth
      { s with diagnostics := d } ⟨hs.marked, hs.proper⟩ hn
    by_cases hmark : s.diagnostics.length = mark
    · simp only [ends_bind, ends_reported, hmark, if_true, ends_current, ends_unexpected] at h ⊢
      unfold Ends at h ⊢
      rw [hskips]
      exact h
    · simp only [ends_bind, ends_reported, hmark, if_false] at h ⊢
      unfold Ends at h ⊢
      rw [hskips s.diagnostics]
      exact h

/-- Whatever the source, the table and the code emitted so far, the tokens that were passed and those
that are ahead when reading ends are the tokens of the source, so its end was never stepped over and
at most two tokens more than it has were read.  Wherever in the source a state stands, every recursion
of the grammar halts from there, and every round of a loop passes a token. -/
theorem parse_halts_within_tokens (file source : Bytes) (table : Table) (builder : Ir.Builder) :
    let c := (parse file source table builder).state.cursor
    let tokens := (TokenStream.ofSource source).tokens
    c.passed.reverse ++ c.ahead = tokens ∧ (∀ t ∈ c.passed, t.kind ≠ .eof) ∧
      c.reads ≤ tokens.length + 2 ∧
      ∀ s : State, (Cursor.ofStream (.ofSource source)).Crosses s.cursor →
        Halts s ∧ RoundsConsume s := by
  intro c tokens
  obtain ⟨w, hahead, hpassed⟩ := (parse_crosses file source table builder).passed
  change tokens = w ++ c.ahead at hahead
  change c.passed = w.reverse ++ [] at hpassed
  rw [List.append_nil] at hpassed
  refine ⟨?_, ?_, ?_, ?_⟩
  · rw [hpassed, List.reverse_reverse, hahead]
  · intro t ht
    rw [hpassed, List.mem_reverse] at ht
    have hmem : t ∈ tokens := by
      rw [hahead]
      exact List.mem_append_left _ ht
    exact TokenStream.kind_ne_eof_of_mem hmem
  · rw [Cursor.reads, hpassed, List.length_reverse, hahead, List.length_append]
    omega
  · intro s hcrosses
    have hs : s.Delimited :=
      Cursor.Crosses.delimited (s := .start file source table builder) hcrosses start_delimited
    exact ⟨hs.halts, hs.roundsConsume⟩

end Program

end OnePass
