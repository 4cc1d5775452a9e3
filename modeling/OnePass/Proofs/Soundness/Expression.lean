import OnePass.Proofs.Frame
import OnePass.Proofs.Grammar
set_option autoImplicit false

/-!
# Recognised expressions are expressions of the grammar

Whatever the production of expressions steps over when it succeeds is an expression.  Between two
states of a run the tokens that were passed are what `Spelled` speaks of; a production that starts
on its first token and ends on its last one passes from the tokens ahead of the first state to those
behind the current token of the last.
-/

namespace OnePass.Program

open OnePass.Grammar

/-! ## Runs that succeed -/

section Runs

variable {α β : Type} {s s' : State}

theorem ok_iff_ends {p : Parser α} {a : α} :
    p s = .ok a s' ↔ Ends p s (fun b t => b = a ∧ t = s') (fun _ _ => False) := by
  unfold Ends
  cases p s <;> simp

theorem unit_ok_iff_ends {p : Parser Unit} {u : Unit} :
    p s = .ok u s' ↔ Ends p s (fun _ t => t = s') (fun _ _ => False) := by
  rw [ok_iff_ends]
  exact ⟨fun h => h.mono (fun _ _ hu => hu.2) fun _ _ hu => hu,
    fun h => h.mono (fun _ _ hu => ⟨rfl, hu⟩) fun _ _ hu => hu⟩

/-- A sequence succeeds if both its parts do; the first part stays a run of its own. -/
theorem ends_bind_ok {p : Parser β} {f : β → Parser α} {Q : α → State → Prop} :
    Ends (p >>= f) s Q (fun _ _ => False) ↔
      ∃ b t, p s = .ok b t ∧ Ends (f b) t Q (fun _ _ => False) := by
  rw [ends_bind]
  constructor
  · intro h
    cases hp : p s with
    | ok b t => exact ⟨b, t, rfl, (ends_of_ok hp).mp h⟩
    | error stop t => exact ((ends_of_error hp).mp h).elim
  · rintro ⟨b, t, hp, h⟩
    exact (ends_of_ok hp).mpr h

theorem Keeps.of_ok {R : State → State → Prop} {p : Parser α} {a : α} (hp : Keeps R p)
    (h : p s = .ok a s') : R s s' := (ends_of_ok h).mp (hp s)

end Runs

/-! ## Tokens that were passed -/

/-- Whether the token behind the last one is of the kind that marks the end. -/
def State.Marked (s : State) : Prop := s.cursor.eof.kind = .eof

theorem Proceeds.marked {s s' : State} (h : Proceeds s s') (hs : s.Marked) : s'.Marked := by
  unfold State.Marked
  rw [h.eof]
  exact hs

/-- Whether tokens begin with the tokens of some word of a category, and `rest` follows them. -/
def Spelled (G : List TokenKind → Prop) (ts rest : List Token) : Prop :=
  ∃ w, G w ∧ Spells w ts rest

/-- A token of a kind is there, unless the kind is that of the end. -/
theorem spells_head {ts : List Token} {eof : Token} {k : TokenKind} (heof : eof.kind = .eof)
    (h : (ts.headD eof).kind = k) (hk : decide (k = .eof) = false) : Spells [k] ts ts.tail := by
  cases ts with
  | nil => exact absurd (h.symm.trans heof) (of_decide_eq_false hk)
  | cons t ts => exact ⟨t, ts, rfl, h, rfl⟩

theorem spells_append {v w : List TokenKind} {ts middle rest : List Token}
    (hv : Spells v ts middle) (hw : Spells w middle rest) : Spells (v ++ w) ts rest :=
  fills_append.mpr ⟨middle, hv, hw⟩

/-- A production that starts on the first token of a word of a category and ends on its last one,
whenever it succeeds. -/
def Sound {α : Type} (G : List TokenKind → Prop) (p : Parser α) : Prop :=
  ∀ ⦃s a s'⦄, p s = .ok a s' → s.Marked →
    s'.Marked ∧ Spelled G s.cursor.ahead s'.cursor.ahead.tail

/-- A production that starts on the token before a word of a category and ends on the last token of
the word, whenever it succeeds. -/
def SoundBehind {α : Type} (G : List TokenKind → Prop) (p : Parser α) : Prop :=
  ∀ ⦃s a s'⦄, p s = .ok a s' → s.Marked →
    s'.Marked ∧ Spelled G s.cursor.ahead.tail s'.cursor.ahead.tail

/-! ## Levels -/

section Levels

theorem exists_of_joinsAt {level : Level} {t : Token} (h : joinsAt level t = true) :
    ∃ o, t.kind = .op o ∧ levelOf o = level := by
  unfold joinsAt at h
  split at h
  · next o ho => exact ⟨o, ho, of_decide_eq_true h⟩
  · cases h

theorem joined_sound (level : Level) {operand again : ExpressionParser} (hlevel : level ≠ .factor)
    (hoperand : ∀ ctx, Sound (Expression (tighter level)) (operand ctx))
    (hagain : ∀ ctx, Sound (Expression level) (again ctx)) (ctx : Context) :
    Sound (Expression level) (joined level operand again ctx) := by
  intro s a s' h hs
  rw [ok_iff_ends, joined, ends_bind_ok] at h
  obtain ⟨⟨left, ctx₁⟩, s₁, hleft, h⟩ := h
  obtain ⟨hs₁, v, hv, hspells⟩ := hoperand ctx hleft hs
  simp only [ends_bind, ends_peek] at h
  split at h
  · next hjoins =>
    obtain ⟨o, ho, holevel⟩ := exists_of_joinsAt hjoins
    rw [ends_bind, ends_advance, ends_bind, ends_advance, ends_bind_ok] at h
    obtain ⟨⟨right, ctx₂⟩, s₂, hright, rfl, rfl⟩ := h
    obtain ⟨hs₂, w, hw, hspells'⟩ := hagain ctx₁ hright hs₁
    have hsign : Spells [.op o] s₁.cursor.ahead.tail s₁.cursor.next.next.ahead :=
      spells_head hs₁ ho rfl
    exact ⟨hs₂, _, .joined holevel hv hw, spells_append hspells (spells_append hsign hspells')⟩
  · obtain ⟨rfl, rfl⟩ := h
    exact ⟨hs₁, v, .operand hlevel hv, hspells⟩

variable {again : Level → ExpressionParser}
  (hagain : ∀ level ctx, Sound (Expression level) (again level ctx))

include hagain

omit hagain in
/-- An index in brackets, from the token before it on. -/
theorem spells_index {s s₁ : State} {w : List TokenKind} (hs : s.Marked) (hs₁ : s₁.Marked)
    (hopen : s.cursor.peek.kind = .leftBracket)
    (hspells : Spells w s.cursor.next.next.ahead s₁.cursor.ahead.tail)
    (hclose : s₁.cursor.peek.kind = .rightBracket) :
    Spells (.leftBracket :: (w ++ [.rightBracket])) s.cursor.ahead.tail
      s₁.cursor.next.ahead.tail := by
  have hfirst : Spells [.leftBracket] s.cursor.ahead.tail s.cursor.next.next.ahead :=
    spells_head hs hopen rfl
  have hlast : Spells [.rightBracket] s₁.cursor.ahead.tail s₁.cursor.next.ahead.tail :=
    spells_head hs₁ hclose rfl
  exact spells_append hfirst (spells_append hspells hlast)

theorem reference_sound {s s' : State} {operand : Operand}
    (h : reference again s = .ok operand s') (hs : s.Marked)
    (hname : s.cursor.current.kind = .identifier) :
    s'.Marked ∧ Spelled (Expression .factor) s.cursor.ahead s'.cursor.ahead.tail := by
  have hfirst : Spells [.identifier] s.cursor.ahead s.cursor.ahead.tail :=
    spells_head hs hname rfl
  simp only [ok_iff_ends, reference, ends_bind, ends_current, ends_peekIs] at h
  split at h
  · next hbracket =>
    rw [ends_bind, ends_advance, ends_bind, ends_advance, ends_bind_ok] at h
    obtain ⟨_, s₁, hindex, h⟩ := h
    obtain ⟨hs₁, w, hw, hspells⟩ := hagain _ _ hindex hs
    simp only [ends_bind, ends_expectPeek, ends_pure, if_false_right] at h
    obtain ⟨hclose, -, rfl⟩ := h
    have hindex := spells_index hs hs₁ (of_decide_eq_true hbracket) hspells hclose
    exact ⟨hs₁, _, .element hw, spells_append hfirst hindex⟩
  · obtain ⟨-, rfl⟩ := h
    exact ⟨hs, _, .name, hfirst⟩

theorem factor_sound (ctx : Context) : Sound (Expression .factor) (factor again ctx) := by
  intro s a s' h hs
  simp only [ok_iff_ends, factor, ends_bind, ends_current] at h
  split at h
  case h_1 l hl =>
    split at h
    · obtain ⟨-, rfl⟩ := h
      exact ⟨hs, _, .literal l, spells_head hs hl rfl⟩
    · exact h.elim
  case h_2 hminus =>
    rw [ends_bind, ends_advance, ends_bind_ok] at h
    obtain ⟨⟨inner, ctx₁⟩, s₁, hinner, -, rfl⟩ := h
    obtain ⟨hs₁, w, hw, hspells⟩ := hagain _ _ hinner hs
    exact ⟨hs₁, _, .negative hw, spells_append (spells_head hs hminus rfl) hspells⟩
  case h_3 hopen =>
    rw [ends_bind, ends_advance, ends_bind_ok] at h
    obtain ⟨⟨inner, ctx₁⟩, s₁, hinner, h⟩ := h
    obtain ⟨hs₁, w, hw, hspells⟩ := hagain _ _ hinner hs
    simp only [ends_bind, ends_expectPeek, ends_pure, if_false_right] at h
    obtain ⟨hclose, -, rfl⟩ := h
    refine ⟨hs₁, _, .parens hw, spells_append (spells_head hs hopen rfl) ?_⟩
    exact spells_append hspells (spells_head hs₁ hclose rfl)
  case h_4 hname =>
    rw [ends_bind_ok] at h
    obtain ⟨operand, s₁, href, -, rfl⟩ := h
    exact reference_sound hagain href hs hname
  case h_5 => exact h.elim

theorem term_sound (ctx : Context) : Sound (Expression .multiplicative) (term again ctx) :=
  joined_sound .multiplicative (by simp) (factor_sound hagain) (hagain _) ctx

theorem relation_sound (ctx : Context) : Sound (Expression .relational) (relation again ctx) :=
  joined_sound .relational (by simp) (term_sound hagain) (hagain _) ctx

theorem sum_sound (ctx : Context) : Sound (Expression .additive) (sum again ctx) :=
  joined_sound .additive (by simp) (relation_sound hagain) (hagain _) ctx

theorem whole_sound (ctx : Context) : Sound (Expression .logical) (whole again ctx) := by
  intro s a s' h hs
  simp only [ok_iff_ends, whole, ends_bind, ends_currentIs] at h
  split at h
  · next hnot =>
    rw [ends_bind, ends_advance, ends_bind_ok] at h
    obtain ⟨⟨inner, ctx₁⟩, s₁, hinner, -, rfl⟩ := h
    obtain ⟨hs₁, w, hw, hspells⟩ := sum_sound hagain ctx hinner hs
    have hfirst : Spells [.kwNot] s.cursor.ahead s.cursor.next.ahead :=
      spells_head hs (of_decide_eq_true hnot) rfl
    exact ⟨hs₁, _, .negation hw, spells_append hfirst hspells⟩
  · exact joined_sound .logical (by simp) (sum_sound hagain) (hagain _) ctx (ok_iff_ends.mpr h) hs

theorem atLevel_sound (level : Level) (ctx : Context) :
    Sound (Expression level) (atLevel again level ctx) := by
  cases level with
  | logical => exact whole_sound hagain ctx
  | additive => exact sum_sound hagain ctx
  | relational => exact relation_sound hagain ctx
  | multiplicative => exact term_sound hagain ctx
  | factor => exact factor_sound hagain ctx

end Levels

theorem levelWithin_sound (depth : Nat) :
    ∀ level ctx, Sound (Expression level) (levelWithin depth level ctx) := by
  induction depth with
  | zero =>
    intro level ctx s a s' h hs
    cases h
  | succ depth ih => exact atLevel_sound ih

/-- What the production of expressions steps over when it succeeds is an expression. -/
theorem expression_sound (ctx : Context) : Sound (Expression .logical) (expression ctx) := by
  intro s operand s' h hs
  rw [ok_iff_ends, expression, ends_bind_ok] at h
  obtain ⟨⟨o, ctx₁⟩, s₁, hrun, -, rfl⟩ := h
  rw [ok_iff_ends, expressionAt, ends_bind, ends_remaining] at hrun
  exact levelWithin_sound _ _ ctx (ok_iff_ends.mpr hrun) hs

end OnePass.Program
