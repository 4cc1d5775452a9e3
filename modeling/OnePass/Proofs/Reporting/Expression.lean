import OnePass.Proofs.Reporting.Basic
set_option autoImplicit false

/-!
# What expressions report

Expressions are quiet.  Every recurrence of the grammar passes a token, so the bound on recurrences
that is taken from the number of tokens ahead is never reached, and an expression is either
recognised or rejected.
-/

namespace OnePass.Program

/-- What holds behind an expression: the cursor stands on no semicolon, and an operand that is a
single name is the token that the expression starts with. -/
structure Spans (s : State) (operand : Operand) (s' : State) : Prop where
  last : s'.cursor.current.kind ≠ .semicolon
  name : ∀ t, operand = .name t → t = s.cursor.current

theorem spans_compound {s s' : State} (h : s'.cursor.current.kind ≠ .semicolon) :
    Spans s .compound s' :=
  ⟨h, by simp⟩

/-! ## Levels -/

section Levels

variable {s : State}

theorem joined_quiet (level : Level) {operand again : ExpressionParser} (hs : s.Delimited)
    (hoperand : ∀ ctx, Quiet (operand ctx) s fun r => Spans s r.1)
    (hagain : ∀ ctx s', s'.Delimited → s'.cursor.remaining < s.cursor.remaining →
      Quiet (again ctx) s' fun r => Spans s' r.1) (ctx : Context) :
    Quiet (joined level operand again ctx) s fun r => Spans s r.1 := by
  refine (hoperand ctx).bind ?_
  rintro ⟨left, ctx₁⟩ s₁ h₁ hspans
  have hs₁ := h₁.delimited hs
  rw [quiet_bind_peek]
  split
  · next hjoins =>
    obtain ⟨o, ho, -⟩ := exists_of_joinsAt hjoins
    have hahead := one_lt_remaining hs₁ (by simp [ho])
    have hle := h₁.remaining_le
    refine (quiet_advance s₁).bind fun _ s₂ h₂ hs₂ => (quiet_advance s₂).bind fun _ s₃ h₃ hs₃ => ?_
    refine (hagain ctx₁ s₃ ((h₂.trans h₃).delimited hs₁) ?_).bind ?_
    · rw [hs₃, hs₂, Cursor.remaining_next, Cursor.remaining_next]
      omega
    · intro r s₄ _ hright
      exact quiet_pure (spans_compound hright.last)
  · exact quiet_pure hspans

variable {again : Level → ExpressionParser} {bound : Nat} (hs : s.Delimited)
  (hbound : s.cursor.remaining ≤ bound)
  (hagain : ∀ level ctx s', s'.Delimited → s'.cursor.remaining < bound →
    Quiet (again level ctx) s' fun r => Spans s' r.1)

include hs hbound hagain

theorem reference_quiet (hname : s.cursor.current.kind = .identifier) :
    Quiet (reference again) s (Spans s) := by
  have hplain : s.cursor.current.kind ≠ .semicolon := by simp [hname]
  unfold reference
  rw [quiet_bind_current, quiet_bind_peekIs]
  split
  · next hbracket =>
    have hahead := one_lt_remaining hs (by simp [of_decide_eq_true hbracket])
    refine (quiet_advance s).bind fun _ s₁ h₁ hs₁ => (quiet_advance s₁).bind fun _ s₂ h₂ hs₂ => ?_
    have h₂ := h₁.trans h₂
    refine (hagain _ _ s₂ (h₂.delimited hs) ?_).bind ?_
    · rw [hs₂, hs₁, Cursor.remaining_next, Cursor.remaining_next]
      omega
    · intro r s₃ h₃ hindex
      refine (quiet_expectPeek ((h₂.trans h₃).delimited hs) hindex.last).bind ?_
      intro _ s₄ _ hclose
      refine quiet_pure ⟨?_, ?_⟩
      · simp [hclose.current]
      · simp
  · refine quiet_pure ⟨hplain, ?_⟩
    simp

theorem factor_quiet (ctx : Context) : Quiet (factor again ctx) s fun r => Spans s r.1 := by
  -- Whatever starts with a token of its own goes on behind it.
  have hagain' (h : s.cursor.current.kind ≠ .eof) {s₁ : State} (h₁ : Reports [] s s₁)
      (hs₁ : s₁.cursor = s.cursor.next) (level : Level) :
      Quiet (again level ctx) s₁ fun r => Spans s₁ r.1 := by
    have hpos := remaining_pos hs h
    refine hagain level ctx s₁ (h₁.delimited hs) ?_
    rw [hs₁, Cursor.remaining_next]
    omega
  unfold factor
  rw [quiet_bind_current]
  split
  · next l hl =>
    split
    · refine quiet_pure ⟨by simp [hl], by simp⟩
    · exact ⟨rfl, (Reports.refl s).refuses_start (about_argument _) rfl rfl rfl⟩
  · next hminus =>
    refine (quiet_advance s).bind fun _ s₁ h₁ hs₁ => ?_
    refine (hagain' (by simp [hminus]) h₁ hs₁ _).bind ?_
    rintro ⟨inner, ctx₁⟩ s₂ _ hinner
    refine quiet_pure ⟨hinner.last, ?_⟩
    cases inner <;> simp [Operand.negate]
  · next hopen =>
    refine (quiet_advance s).bind fun _ s₁ h₁ hs₁ => ?_
    refine (hagain' (by simp [hopen]) h₁ hs₁ _).bind ?_
    rintro ⟨inner, ctx₁⟩ s₂ h₂ hinner
    refine (quiet_expectPeek ((h₁.trans h₂).delimited hs) hinner.last).bind ?_
    intro _ s₃ _ hclose
    exact quiet_pure (spans_compound (by simp [hclose.current]))
  · next hname =>
    refine (reference_quiet hs hbound hagain hname).bind ?_
    intro operand s₂ _ hspans
    exact quiet_pure hspans
  · exact quiet_rejectCurrent hs

theorem term_quiet (ctx : Context) : Quiet (term again ctx) s fun r => Spans s r.1 :=
  joined_quiet .multiplicative hs (factor_quiet hs hbound hagain)
    (fun ctx s' hs' h => hagain _ ctx s' hs' (Nat.lt_of_lt_of_le h hbound)) ctx

theorem relation_quiet (ctx : Context) : Quiet (relation again ctx) s fun r => Spans s r.1 :=
  joined_quiet .relational hs (term_quiet hs hbound hagain)
    (fun ctx s' hs' h => hagain _ ctx s' hs' (Nat.lt_of_lt_of_le h hbound)) ctx

theorem sum_quiet (ctx : Context) : Quiet (sum again ctx) s fun r => Spans s r.1 :=
  joined_quiet .additive hs (relation_quiet hs hbound hagain)
    (fun ctx s' hs' h => hagain _ ctx s' hs' (Nat.lt_of_lt_of_le h hbound)) ctx

theorem whole_quiet (ctx : Context) : Quiet (whole again ctx) s fun r => Spans s r.1 := by
  unfold whole
  rw [quiet_bind_currentIs]
  split
  · refine (quiet_advance s).bind fun _ s₁ h₁ _ => ?_
    have hbound₁ := Nat.le_trans h₁.remaining_le hbound
    refine (sum_quiet (h₁.delimited hs) hbound₁ hagain ctx).bind ?_
    rintro ⟨inner, ctx₁⟩ s₂ _ hinner
    exact quiet_pure (spans_compound hinner.last)
  · exact joined_quiet .logical hs (sum_quiet hs hbound hagain)
      (fun ctx s' hs' h => hagain _ ctx s' hs' (Nat.lt_of_lt_of_le h hbound)) ctx

theorem atLevel_quiet (level : Level) (ctx : Context) :
    Quiet (atLevel again level ctx) s fun r => Spans s r.1 := by
  cases level with
  | logical => exact whole_quiet hs hbound hagain ctx
  | additive => exact sum_quiet hs hbound hagain ctx
  | relational => exact relation_quiet hs hbound hagain ctx
  | multiplicative => exact term_quiet hs hbound hagain ctx
  | factor => exact factor_quiet hs hbound hagain ctx

end Levels

theorem levelWithin_quiet (depth : Nat) :
    ∀ level ctx s, s.Delimited → s.cursor.remaining < depth →
      Quiet (levelWithin depth level ctx) s fun r => Spans s r.1 := by
  induction depth with
  | zero =>
    intro level ctx s hs hdepth
    omega
  | succ depth ih =>
    intro level ctx s hs hdepth
    exact atLevel_quiet hs (Nat.le_of_lt_succ hdepth) ih level ctx

/-- An expression is recognised without a report, or rejected with exactly one. -/
theorem expression_quiet {s : State} (hs : s.Delimited) (ctx : Context) :
    Quiet (expression ctx) s (Spans s) := by
  unfold expression expressionAt
  refine Quiet.bind (P := fun r => Spans s r.1) ?_ ?_
  · rw [quiet_bind_remaining]
    exact levelWithin_quiet _ _ _ s hs (Nat.lt_succ_self _)
  · rintro ⟨operand, ctx₁⟩ s₁ _ hspans
    exact quiet_pure hspans

end OnePass.Program
