import OnePass.Proofs.Reporting.Expression
set_option autoImplicit false

/-!
# What statements report

Calls and assignments are quiet.  A statement with statements inside is orderly: what it reports
itself comes behind what the statements inside report.  A list of statements is steady, since
every statement that is rejected is recovered from, and recovering passes a token.
-/

namespace OnePass.Program

/-! ## Calls -/

section Calls

variable {s s' : State}

/-- Checking an argument that started in `s` reports a token of the argument. -/
theorem checkArgument_ends (h : Reports [] s s') {operand : Operand} (hspans : Spans s operand s')
    (p : Parameter) :
    Ends (checkArgument s.cursor.current p operand) s' (fun _ s'' => s'' = s')
      fun stop s'' => stop = .reject ∧ Refuses [] s s'' := by
  unfold checkArgument
  split
  · next t =>
    obtain rfl := hspans.name t rfl
    simp only [lookup?, ends_bind, ends_get, ends_pure]
    split
    · rfl
    · exact ⟨rfl, h.refuses_start (about_argument _) rfl rfl rfl⟩
  · split
    · exact ⟨rfl, h.refuses_start (about_argument _) rfl rfl rfl⟩
    · rfl

theorem argument_quiet (hs : s.Delimited) (expected : Option (List Parameter)) :
    Quiet (argument expected) s fun _ s' => s'.cursor.current.kind ≠ .semicolon := by
  unfold argument
  rw [quiet_bind_current]
  split
  · refine (expression_quiet hs _).bind fun _ s₁ _ hspans => ?_
    exact quiet_pure hspans.last
  · exact ⟨rfl, (Reports.refl s).refuses_start (about_argument _) rfl rfl rfl⟩
  · unfold Quiet
    rw [ends_bind]
    refine Ends.mono (expression_quiet hs _) ?_ fun _ _ hstop => hstop
    rintro operand s₁ ⟨h₁, hspans⟩
    rw [ends_bind]
    refine Ends.mono (checkArgument_ends h₁ hspans _) ?_ fun _ _ hstop => hstop
    rintro _ _ rfl
    exact ⟨h₁, hspans.last⟩

theorem argumentsWithin_quiet (count : Nat) :
    ∀ expected s, s.Delimited → s.cursor.remaining < count →
      Quiet (argumentsWithin count expected) s fun _ s' => s'.cursor.current.kind ≠ .semicolon := by
  induction count with
  | zero =>
    intro expected s hs hcount
    omega
  | succ count ih =>
    intro expected s hs hcount
    unfold argumentsWithin
    refine (quiet_advance s).bind fun _ s₁ h₁ _ => ?_
    refine (argument_quiet (h₁.delimited hs) expected).bind fun left s₂ h₂ hlast => ?_
    have h₂ := h₁.trans h₂
    rw [quiet_bind_peekIs]
    split
    · next hcomma =>
      have hahead := one_lt_remaining (h₂.delimited hs) (by simp [of_decide_eq_true hcomma])
      have hle := h₂.remaining_le
      refine (quiet_advance s₂).bind fun _ s₃ h₃ hs₃ => ?_
      refine ih left s₃ ((h₂.trans h₃).delimited hs) ?_
      rw [hs₃, Cursor.remaining_next]
      omega
    · exact quiet_pure hlast

theorem callArguments_quiet (hs : s.Delimited) (hopen : s.cursor.current.kind ≠ .semicolon)
    (expected : Option (List Parameter)) :
    Quiet (callArguments expected) s fun _ s' => s'.cursor.current.kind ≠ .semicolon := by
  have hclose {s₁ : State} (hs₁ : s₁.Delimited) (hlast : s₁.cursor.current.kind ≠ .semicolon)
      (left : Option (List Parameter)) :
      Quiet (do
        expectPeek .rightParen
        if left.any (! ·.isEmpty) then rejectToken (← current) : Parser Unit) s₁
        fun _ s' => s'.cursor.current.kind ≠ .semicolon := by
    refine (quiet_expectPeek hs₁ hlast).bind fun _ s₂ h₂ hparen => ?_
    split
    · exact ⟨rfl, refuses_current (h₂.delimited hs₁)⟩
    · exact quiet_pure (by simp [hparen.current])
  unfold callArguments
  rw [quiet_bind_peekIs]
  split
  · exact hclose hs hopen expected
  · rw [quiet_bind_remaining]
    refine (argumentsWithin_quiet _ _ s hs (Nat.lt_succ_self _)).bind fun left s₁ h₁ hlast => ?_
    exact hclose (h₁.delimited hs) hlast left

theorem builtinCall_quiet (hs : s.Delimited) (hcallee : s.cursor.current.kind ≠ .semicolon) :
    Quiet builtinCall s fun _ _ => True := by
  unfold builtinCall
  rw [quiet_bind_current, quiet_bind_get]
  dsimp only
  split
  · exact quiet_rejectCurrent hs
  · refine (quiet_expectPeek hs hcallee).bind fun _ s₁ h₁ hopen => ?_
    refine (callArguments_quiet (h₁.delimited hs) (by simp [hopen.current]) _).bind ?_
    intro _ s₂ _ _
    exact ⟨.of_eq rfl rfl rfl, trivial⟩

theorem procedureCall_quiet (hs : s.Delimited) (hopen : s.cursor.peek.kind = .leftParen)
    (found : Option Symbol) : Quiet (procedureCall s.cursor.current found) s fun _ _ => True := by
  unfold procedureCall
  split
  · exact ⟨rfl, refuses_current hs⟩
  · refine (quiet_advance s).bind fun _ s₁ h₁ hs₁ => ?_
    refine (callArguments_quiet (h₁.delimited hs) ?_ _).bind ?_
    · simp [hs₁, hopen]
    · intro _ s₂ _ _
      exact ⟨.of_eq rfl rfl rfl, trivial⟩

end Calls

/-! ## Assignments -/

section Assignments

variable {s : State}

theorem assignmentContext_quiet (hs : s.Delimited) :
    Quiet (assignmentContext s.cursor.current) s fun _ s' => s' = s := by
  unfold assignmentContext lookup?
  simp only [bind_assoc, pure_bind]
  rw [quiet_bind_get]
  split
  · split
    · exact quiet_pure rfl
    · exact quiet_rejectCurrent hs
  · exact quiet_pure rfl

theorem assignmentTail_quiet (hs : s.Delimited) (hname : s.cursor.current.kind ≠ .semicolon)
    (ctx : Context) :
    Quiet (assignmentTail ctx) s fun _ s' => s'.cursor.current.kind ≠ .semicolon := by
  have hvalue {s₁ : State} (hs₁ : s₁.Delimited) (hlast : s₁.cursor.current.kind ≠ .semicolon) :
      Quiet (do
        expectPeek .assign
        advance
        let _ ← expression ctx : Parser Unit) s₁
        fun _ s' => s'.cursor.current.kind ≠ .semicolon := by
    refine (quiet_expectPeek hs₁ hlast).bind fun _ s₂ h₂ _ => ?_
    refine (quiet_advance s₂).bind fun _ s₃ h₃ _ => ?_
    refine (expression_quiet ((h₂.trans h₃).delimited hs₁) ctx).bind fun _ s₄ _ hspans => ?_
    exact quiet_pure hspans.last
  unfold assignmentTail
  rw [quiet_bind_peekIs]
  split
  · refine (quiet_advance s).bind fun _ s₁ h₁ _ => (quiet_advance s₁).bind fun _ s₂ h₂ _ => ?_
    have h₂ := h₁.trans h₂
    refine (expression_quiet (h₂.delimited hs) _).bind fun _ s₃ h₃ hspans => ?_
    have h₃ := h₂.trans h₃
    refine (quiet_expectPeek (h₃.delimited hs) hspans.last).bind fun _ s₄ h₄ hclose => ?_
    exact hvalue ((h₃.trans h₄).delimited hs) (by simp [hclose.current])
  · exact hvalue hs hname

theorem assignment_quiet (hs : s.Delimited) (hname : s.cursor.current.kind ≠ .semicolon) :
    Quiet (assignment s.cursor.current) s fun _ _ => True := by
  refine (assignmentContext_quiet hs).bind ?_
  rintro ctx _ _ rfl
  refine (assignmentTail_quiet hs hname ctx).bind fun _ s₁ _ _ => ?_
  exact ⟨.of_eq rfl rfl rfl, trivial⟩

theorem nameStatement_quiet (hs : s.Delimited) (hname : s.cursor.current.kind ≠ .semicolon) :
    Quiet nameStatement s fun _ _ => True := by
  unfold nameStatement
  rw [quiet_bind_current, quiet_bind_peekIs]
  split
  · next hopen =>
    unfold lookup?
    simp only [bind_assoc, pure_bind]
    rw [quiet_bind_get]
    exact procedureCall_quiet hs (of_decide_eq_true hopen) _
  · exact assignment_quiet hs hname

end Assignments

/-! ## Statements with statements inside -/

section Blocks

variable {s : State}

theorem blockEnd_quiet (hs : s.Delimited) (word : TokenKind) :
    Quiet (blockEnd word) s fun _ _ => True := by
  unfold blockEnd
  rw [quiet_bind_currentIs]
  split
  · next hend =>
    refine (quiet_expectPeek hs (by simp [of_decide_eq_true hend])).bind fun _ s₁ _ _ => ?_
    exact ⟨.of_eq rfl rfl rfl, trivial⟩
  · exact ⟨rfl, refuses_current hs⟩

variable {inner : Parser Nat} {bound : Nat}
  (hinner : ∀ s, s.Delimited → s.cursor.remaining < bound → Steady inner s fun _ _ => True)

include hinner

theorem branch_orderly (hs : s.Delimited) (hbound : s.cursor.remaining < bound) :
    Orderly (branch inner) s fun _ _ => True := by
  unfold branch
  refine (quiet_advance s).orderly.bind fun _ s₁ _ h₁ _ => ?_
  have hbound₁ := Nat.lt_of_le_of_lt h₁.remaining_le hbound
  refine (hinner s₁ (h₁.delimited hs) hbound₁).orderly.bind fun n s₂ _ h₂ _ => ?_
  split
  · exact ⟨[], refuses_current (h₂.delimited (h₁.delimited hs))⟩
  · exact (quiet_pure trivial).orderly

theorem ifStatement_orderly (hs : s.Delimited) (hbound : s.cursor.remaining ≤ bound)
    (hword : s.cursor.current.kind = .kwIf) :
    Orderly (ifStatement inner) s fun _ _ => True := by
  have hend {s₁ : State} (hs₁ : s₁.Delimited) :
      Orderly (do
        blockEnd .kwIf
        note (text "if") : Parser Unit) s₁ fun _ _ => True := by
    refine ((blockEnd_quiet hs₁ _).bind fun _ s₂ _ _ => ?_).orderly
    exact ⟨.of_eq rfl rfl rfl, trivial⟩
  have hpos := remaining_pos hs (by simp [hword])
  unfold ifStatement
  refine (quiet_expectPeek hs (by simp [hword])).orderly.bind fun _ s₁ _ h₁ hopen => ?_
  have hbound₁ : s₁.cursor.remaining < bound := by
    rw [hopen.remaining]
    omega
  refine Orderly.bind (P := fun _ _ => True) ⟨⟨[], .of_eq rfl rfl rfl⟩, trivial⟩ ?_
  intro _ s₂ _ h₂ _
  refine (quiet_advance s₂).orderly.bind fun _ s₃ _ h₃ _ => ?_
  have h₃ := h₂.trans h₃
  refine (expression_quiet (h₃.delimited (h₁.delimited hs)) _).orderly.bind ?_
  intro _ s₄ _ h₄ hspans
  have h₄ := h₃.trans h₄
  refine (quiet_expectPeek (h₄.delimited (h₁.delimited hs)) hspans.last).orderly.bind ?_
  intro _ s₅ _ h₅ hclose
  have h₅ := h₄.trans h₅
  refine (quiet_expectPeek (h₅.delimited (h₁.delimited hs)) (by simp [hclose.current])).orderly.bind ?_
  intro _ s₆ _ h₆ _
  have h₆ := h₅.trans h₆
  have hs₆ := h₆.delimited (h₁.delimited hs)
  have hbound₆ := Nat.lt_of_le_of_lt h₆.remaining_le hbound₁
  refine (branch_orderly hinner hs₆ hbound₆).bind fun _ s₇ _ h₇ _ => ?_
  have hs₇ := h₇.delimited hs₆
  refine Orderly.bind (P := fun _ s' => s' = s₇) ⟨⟨[], .refl s₇⟩, rfl⟩ ?_
  rintro b _ _ _ rfl
  split
  · have hbound₇ := Nat.lt_of_le_of_lt h₇.remaining_le hbound₆
    refine (branch_orderly hinner hs₇ hbound₇).bind fun _ s₈ _ h₈ _ => ?_
    exact hend (h₈.delimited hs₇)
  · exact hend hs₇

theorem forStatement_orderly (hs : s.Delimited) (hbound : s.cursor.remaining ≤ bound)
    (hword : s.cursor.current.kind = .kwFor) :
    Orderly (forStatement inner) s fun _ _ => True := by
  have hpos := remaining_pos hs (by simp [hword])
  unfold forStatement
  refine (quiet_expectPeek hs (by simp [hword])).orderly.bind fun _ s₁ _ h₁ hopen => ?_
  have hs₁ := h₁.delimited hs
  have hbound₁ : s₁.cursor.remaining < bound := by
    rw [hopen.remaining]
    omega
  refine Orderly.bind (P := fun _ s' => s'.cursor = s₁.cursor)
    ⟨⟨[], .of_eq rfl rfl rfl⟩, rfl⟩ ?_
  intro _ s₂ _ h₂ hs₂
  refine (quiet_expectPeek (h₂.delimited hs₁) (by simp [hs₂, hopen.current])).orderly.bind ?_
  intro _ s₃ _ h₃ hname
  have h₃ := h₂.trans h₃
  change Orderly (assignmentContext s₃.cursor.current >>= _) s₃ _
  refine (assignmentContext_quiet (h₃.delimited hs₁)).orderly.bind ?_
  rintro ctx _ _ _ rfl
  refine (assignmentTail_quiet (h₃.delimited hs₁) (by simp [hname.current]) ctx).orderly.bind ?_
  intro _ s₄ _ h₄ hlast
  have h₄ := h₃.trans h₄
  refine (quiet_expectPeek (h₄.delimited hs₁) hlast).orderly.bind fun _ s₅ _ h₅ _ => ?_
  refine (quiet_advance s₅).orderly.bind fun _ s₆ _ h₆ _ => ?_
  have h₆ := (h₄.trans h₅).trans h₆
  refine (expression_quiet (h₆.delimited hs₁) _).orderly.bind fun _ s₇ _ h₇ hspans => ?_
  have h₇ := h₆.trans h₇
  refine (quiet_expectPeek (h₇.delimited hs₁) hspans.last).orderly.bind fun _ s₈ _ h₈ _ => ?_
  refine (quiet_advance s₈).orderly.bind fun _ s₉ _ h₉ _ => ?_
  have h₉ := (h₇.trans h₈).trans h₉
  have hbound₉ := Nat.lt_of_le_of_lt h₉.remaining_le hbound₁
  refine (hinner s₉ (h₉.delimited hs₁) hbound₉).orderly.bind fun _ s' _ h' _ => ?_
  refine ((blockEnd_quiet ((h₉.trans h').delimited hs₁) _).bind fun _ s₂ _ _ => ?_).orderly
  exact ⟨.of_eq rfl rfl rfl, trivial⟩

theorem statement_orderly (hs : s.Delimited) (hbound : s.cursor.remaining ≤ bound) :
    Orderly (statement inner) s fun _ _ => True := by
  unfold Orderly statement
  rw [ends_bind, ends_current]
  split
  · exact ⟨⟨[], .of_eq rfl rfl rfl⟩, trivial⟩
  · next hkind => exact (builtinCall_quiet hs (by simp [hkind])).orderly
  · next hkind => exact (nameStatement_quiet hs (by simp [hkind])).orderly
  · next hkind => exact ifStatement_orderly hinner hs hbound hkind
  · next hkind => exact forStatement_orderly hinner hs hbound hkind
  · exact (quiet_rejectCurrent hs).orderly

/-- A statement that is behind its semicolon, or was recovered from, has passed a token. -/
theorem terminated_steady (hs : s.Delimited) (hbound : s.cursor.remaining ≤ bound) :
    Steady (terminated inner) s fun _ s' => s'.cursor.remaining < s.cursor.remaining := by
  have hrecover {ts : List Token} {s₁ : State} (h₁ : Refuses ts s s₁) :
      Ends (recoverFrom s.diagnostics.length s.nesting) s₁
        (fun _ s' => (∃ ts, Reports ts s s') ∧ s'.cursor.remaining < s.cursor.remaining)
        fun stop s' => ∃ e, stop = .fatal e ∧ Breaks s s' e := by
    rw [ends_recoverFrom]
    refine Ends.mono (h₁.ends_recover hs _) ?_ fun _ _ hstop => hstop
    rintro _ s₂ ⟨⟨ts', h₂⟩, hlt⟩
    exact ⟨⟨ts' ++ [], h₂.trans (.of_eq rfl rfl rfl)⟩, Nat.lt_of_lt_of_le hlt h₁.remaining_le⟩
  unfold Steady terminated
  rw [ends_bind, ends_reported, ends_bind, ends_get, ends_bind, ends_succeeds]
  refine Ends.mono (statement_orderly hinner hs hbound) ?_ ?_
  · rintro _ s₁ ⟨⟨ts, h₁⟩, -⟩
    have hs₁ := h₁.delimited hs
    rw [endStatement, ends_bind, ends_peekIs, Bool.true_and]
    split
    · next hsemicolon =>
      have hahead := one_lt_remaining hs₁ (by simp [of_decide_eq_true hsemicolon])
      have hle := h₁.remaining_le
      refine ⟨⟨_, (h₁.trans (.next s₁)).trans (.next _)⟩, ?_⟩
      simp only [Cursor.remaining_next]
      omega
    · exact hrecover ((h₁.trans (.next s₁)).refuses (refuses_current ((Reports.next s₁).delimited hs₁)))
  · intro stop s₁ hstops
    cases stop with
    | reject =>
      obtain ⟨ts, h₁⟩ := hstops
      exact hrecover h₁
    | fatal e => exact ⟨e, rfl, hstops⟩

end Blocks

theorem statementsWithin_steady (depth : Nat) :
    ∀ s, s.Delimited → s.cursor.remaining < depth →
      Steady (statementsWithin depth) s fun _ _ => True := by
  induction depth with
  | zero =>
    intro s hs hdepth
    omega
  | succ depth ih =>
    intro s hs hdepth
    unfold statementsWithin
    change Steady (if startsStatement s.cursor.current then _ else _) s _
    split
    · refine (terminated_steady ih hs (Nat.le_of_lt_succ hdepth)).bind fun _ s₁ _ h₁ hlt => ?_
      refine (ih s₁ (h₁.delimited hs) (by omega)).bind fun _ s₂ _ _ _ => ?_
      exact ⟨⟨[], .refl s₂⟩, trivial⟩
    · exact ⟨⟨[], .refl s⟩, trivial⟩

/-- Statements are recognised with all their reports in order, or the program is given up. -/
theorem statements_steady {s : State} (hs : s.Delimited) : Steady statements s fun _ _ => True :=
  statementsWithin_steady _ s hs (Nat.lt_succ_self _)

end OnePass.Program
