import OnePass.Proofs.Progress.Basic
set_option autoImplicit false

/-!
# How expressions go over tokens

An expression that is recognised ends on a token of its own, so whatever follows has a token to step
over.  Every recurrence of the grammar starts behind a token that the expression has passed; cut off
anywhere deeper than the number of tokens ahead, the recursion does not notice.
-/

namespace OnePass.Program

/-! ## Levels -/

section Levels

variable {s : State}

theorem joined_strides (level : Level) {operand operand' again again' : ExpressionParser}
    (hs : s.Delimited)
    (hoperand : ∀ ctx, Strides 0 (operand ctx) (operand' ctx) s fun _ c => 0 < c.remaining)
    (hagain : ∀ ctx s', s'.Delimited → s'.cursor.remaining < s.cursor.remaining →
      Strides 0 (again ctx) (again' ctx) s' fun _ c => 0 < c.remaining) (ctx : Context) :
    Strides 0 (joined level operand again ctx) (joined level operand' again' ctx) s
      fun _ c => 0 < c.remaining := by
  refine (hoperand ctx).bind ?_
  rintro ⟨left, ctx₁⟩ s₁ h₁ hpos
  rw [strides_bind_peek]
  split
  · next hjoins =>
    obtain ⟨o, ho, -⟩ := exists_of_joinsAt hjoins
    have hahead := one_lt_remaining (h₁.delimited hs) (by simp [ho])
    have hle := h₁.remaining_le
    refine (paces_advance hpos).bind fun _ s₂ h₂ hs₂ => ?_
    have hpos₂ : 0 < s₂.cursor.remaining := by
      rw [hs₂, Cursor.remaining_next]
      omega
    refine (paces_advance hpos₂).bind fun _ s₃ h₃ hs₃ => ?_
    have h₃ := (h₁.trans h₂).trans h₃
    refine (hagain ctx₁ s₃ (h₃.delimited hs) ?_).bind ?_
    · rw [hs₃, hs₂, Cursor.remaining_next, Cursor.remaining_next]
      omega
    · intro r s₄ _ hright
      exact paces_pure hright
  · exact paces_pure hpos

variable {again again' : Level → ExpressionParser} {bound : Nat} (hs : s.Delimited)
  (hbound : s.cursor.remaining ≤ bound)
  (hagain : ∀ level ctx s', s'.Delimited → s'.cursor.remaining < bound →
    Strides 0 (again level ctx) (again' level ctx) s' fun _ c => 0 < c.remaining)

include hs hbound hagain

theorem reference_strides (hname : s.cursor.current.kind = .identifier) :
    Strides 0 (reference again) (reference again') s fun _ c => 0 < c.remaining := by
  have hpos := remaining_pos hs (by simp [hname])
  unfold reference
  rw [strides_bind_current, strides_bind_peekIs]
  split
  · next hbracket =>
    have hahead := one_lt_remaining hs (by simp [of_decide_eq_true hbracket])
    refine (paces_advance hpos).bind fun _ s₁ h₁ hs₁ => ?_
    have hpos₁ : 0 < s₁.cursor.remaining := by
      rw [hs₁, Cursor.remaining_next]
      omega
    refine (paces_advance hpos₁).bind fun _ s₂ h₂ hs₂ => ?_
    have h₂ := h₁.trans h₂
    refine (hagain _ _ s₂ (h₂.delimited hs) ?_).bind ?_
    · rw [hs₂, hs₁, Cursor.remaining_next, Cursor.remaining_next]
      omega
    · intro r s₃ h₃ _
      refine (paces_expectPeek ((h₂.trans h₃).delimited hs) (by simp)).bind ?_
      intro _ s₄ _ hclose
      exact paces_pure hclose.2.1
  · exact paces_pure hpos

theorem factor_strides (ctx : Context) :
    Strides 0 (factor again ctx) (factor again' ctx) s fun _ c => 0 < c.remaining := by
  -- Whatever starts with a token of its own goes on behind it.
  have hagain' (h : s.cursor.current.kind ≠ .eof) {s₁ : State} (h₁ : s.cursor.Crosses s₁.cursor)
      (hs₁ : s₁.cursor = s.cursor.next) (level : Level) :
      Strides 0 (again level ctx) (again' level ctx) s₁ fun _ c => 0 < c.remaining := by
    have hpos := remaining_pos hs h
    refine hagain level ctx s₁ (h₁.delimited hs) ?_
    rw [hs₁, Cursor.remaining_next]
    omega
  unfold factor
  rw [strides_bind_current]
  split
  · next l hl =>
    split
    · exact paces_pure (remaining_pos hs (by simp [hl]))
    · exact paces_rejectArgument _
  · next hminus =>
    refine (paces_advance (remaining_pos hs (by simp [hminus]))).bind fun _ s₁ h₁ hs₁ => ?_
    refine (hagain' (by simp [hminus]) h₁ hs₁ _).bind ?_
    rintro ⟨inner, ctx₁⟩ s₂ _ hinner
    exact paces_pure hinner
  · next hopen =>
    refine (paces_advance (remaining_pos hs (by simp [hopen]))).bind fun _ s₁ h₁ hs₁ => ?_
    refine (hagain' (by simp [hopen]) h₁ hs₁ _).bind ?_
    rintro ⟨inner, ctx₁⟩ s₂ h₂ _
    refine (paces_expectPeek ((h₁.trans h₂).delimited hs) (by simp)).bind ?_
    intro _ s₃ _ hclose
    exact paces_pure hclose.2.1
  · next hname =>
    refine (reference_strides hs hbound hagain hname).bind ?_
    intro operand s₂ _ hpos
    exact paces_pure hpos
  · exact paces_rejectToken _

theorem term_strides (ctx : Context) :
    Strides 0 (term again ctx) (term again' ctx) s fun _ c => 0 < c.remaining :=
  joined_strides .multiplicative hs (factor_strides hs hbound hagain)
    (fun ctx s' hs' h => hagain _ ctx s' hs' (Nat.lt_of_lt_of_le h hbound)) ctx

theorem relation_strides (ctx : Context) :
    Strides 0 (relation again ctx) (relation again' ctx) s fun _ c => 0 < c.remaining :=
  joined_strides .relational hs (term_strides hs hbound hagain)
    (fun ctx s' hs' h => hagain _ ctx s' hs' (Nat.lt_of_lt_of_le h hbound)) ctx

theorem sum_strides (ctx : Context) :
    Strides 0 (sum again ctx) (sum again' ctx) s fun _ c => 0 < c.remaining :=
  joined_strides .additive hs (relation_strides hs hbound hagain)
    (fun ctx s' hs' h => hagain _ ctx s' hs' (Nat.lt_of_lt_of_le h hbound)) ctx

theorem whole_strides (ctx : Context) :
    Strides 0 (whole again ctx) (whole again' ctx) s fun _ c => 0 < c.remaining := by
  unfold whole
  rw [strides_bind_currentIs]
  split
  · next hnot =>
    have hpos := remaining_pos hs (by simp [of_decide_eq_true hnot])
    refine (paces_advance hpos).bind fun _ s₁ h₁ _ => ?_
    have hbound₁ := Nat.le_trans h₁.remaining_le hbound
    refine (sum_strides (h₁.delimited hs) hbound₁ hagain ctx).bind ?_
    rintro ⟨inner, ctx₁⟩ s₂ _ hinner
    exact paces_pure hinner
  · exact joined_strides .logical hs (sum_strides hs hbound hagain)
      (fun ctx s' hs' h => hagain _ ctx s' hs' (Nat.lt_of_lt_of_le h hbound)) ctx

theorem atLevel_strides (level : Level) (ctx : Context) :
    Strides 0 (atLevel again level ctx) (atLevel again' level ctx) s
      fun _ c => 0 < c.remaining := by
  cases level with
  | logical => exact whole_strides hs hbound hagain ctx
  | additive => exact sum_strides hs hbound hagain ctx
  | relational => exact relation_strides hs hbound hagain ctx
  | multiplicative => exact term_strides hs hbound hagain ctx
  | factor => exact factor_strides hs hbound hagain ctx

end Levels

/-! ## Expressions -/

/-- Bounded by more than the number of tokens ahead, an expression is the same as the grammar
unrolled more often than that, whatever is put where it is cut off. -/
theorem levelWithin_strides (cut : Level → ExpressionParser) (depth : Nat) :
    ∀ n level ctx s, s.Delimited → s.cursor.remaining < depth → s.cursor.remaining < n →
      Strides 0 (levelWithin depth level ctx) (Nat.repeat atLevel n cut level ctx) s
        fun _ c => 0 < c.remaining := by
  induction depth with
  | zero =>
    intro n level ctx s hs hdepth
    omega
  | succ depth ih =>
    intro n level ctx s hs hdepth hn
    cases n with
    | zero => omega
    | succ n =>
      refine atLevel_strides hs (Nat.le_refl _) ?_ level ctx
      intro level' ctx' s' hs' hlt
      exact ih n level' ctx' s' hs' (by omega) (by omega)

theorem expressionAt_strides {s : State} (hs : s.Delimited) {n : Nat}
    (hn : s.cursor.remaining < n) (cut : Level → ExpressionParser) (level : Level) (ctx : Context) :
    Strides 0 (expressionAt level ctx) (Nat.repeat atLevel n cut level ctx) s
      fun _ c => 0 < c.remaining :=
  levelWithin_strides cut _ n level ctx s hs (Nat.lt_succ_self _) hn

/-- An expression is recognised and ends on a token, or it is rejected. -/
theorem expression_paces {s : State} (hs : s.Delimited) (ctx : Context) :
    Paces 0 (expression ctx) s fun _ c => 0 < c.remaining := by
  have hat := expressionAt_strides hs (Nat.lt_succ_self _) (fun _ _ => exhausted) .logical ctx
  unfold expression
  refine hat.self.bind ?_
  rintro ⟨operand, ctx₁⟩ s₁ _ hpos
  exact paces_pure hpos

end OnePass.Program
