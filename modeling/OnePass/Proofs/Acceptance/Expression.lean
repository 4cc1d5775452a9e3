import OnePass.Proofs.Exactness.Expression
import OnePass.Proofs.Recovery
set_option autoImplicit false

/-!
# Expressions of the grammar are taken whole

On the tokens of an expression of the grammar, the production of expressions either succeeds on the
last of them or is rejected at one of them, because of a literal that does not fit; it never looks
beyond (`expression_covers`).
-/

namespace OnePass.Program

open OnePass.Grammar

/-! ## Places before the rest of the tokens -/

/-- The state stands on the last token before `rest`, a plain one. -/
def OnLast (rest : List Token) (s : State) : Prop :=
  ∃ t, Plain t.kind ∧ s.cursor.ahead = t :: rest

/-- The state stands on a token before `rest`, with nothing but plain tokens up to there. -/
def Short (rest : List Token) (s : State) : Prop :=
  ∃ us, us ≠ [] ∧ (∀ t ∈ us, Plain t.kind) ∧ s.cursor.ahead = us ++ rest

/-- A production covers the tokens before `rest`: it succeeds on the last of them, or it is rejected
before `rest`.  Either way no block is left open. -/
def Covers {α : Type} (p : Parser α) (s : State) (rest : List Token) : Prop :=
  Ends p s (fun _ s' => OnLast rest s' ∧ s'.nesting = s.nesting)
    (fun stop s' => stop = .reject ∧ Short rest s' ∧ s'.nesting = s.nesting)

theorem OnLast.peek {t : Token} {rest : List Token} {s : State} (h : OnLast (t :: rest) s) :
    s.cursor.peek = t := by
  obtain ⟨u, _, hu⟩ := h
  exact Cursor.peek_of_ahead hu

theorem OnLast.short {rest : List Token} {s : State} (h : OnLast rest s) : Short rest s := by
  obtain ⟨t, ht, hs⟩ := h
  exact ⟨[t], by simp, by simpa using ht, by simpa using hs⟩

theorem Short.of_spells {w : List TokenKind} {rest rest' : List Token} {s : State}
    (h : Short rest s) (hw : ∀ k ∈ w, Plain k) (hrest : Spells w rest rest') : Short rest' s := by
  obtain ⟨us, hne, hus, hs⟩ := h
  obtain ⟨vs, rfl, rfl⟩ := spells_iff.mp hrest
  refine ⟨us ++ vs, List.append_ne_nil_of_left_ne_nil hne vs, ?_, by simpa using hs⟩
  intro t ht
  rcases List.mem_append.mp ht with ht | ht
  · exact hus t ht
  · exact hw _ (List.mem_map_of_mem ht)

/-! ## Composition -/

section Composition

variable {α β : Type} {s : State} {t : Token} {middle rest : List Token}

theorem OnLast.next (h : OnLast (t :: rest) s) (ht : Plain t.kind) :
    OnLast rest { s with cursor := s.cursor.next } := by
  obtain ⟨u, _, hs⟩ := h
  exact ⟨t, ht, by simp [hs]⟩

theorem covers_pure (a : α) (h : OnLast rest s) : Covers (pure a) s rest := ⟨h, rfl⟩

theorem covers_note (words : Bytes) (h : OnLast rest s) : Covers (note words) s rest := ⟨h, rfl⟩

theorem covers_rejectToken (u : Token) (h : Short rest s) :
    Covers (rejectToken u : Parser α) s rest := ⟨rfl, h, rfl⟩

theorem covers_rejectArgument (u : Token) (h : Short rest s) :
    Covers (rejectArgument u : Parser α) s rest := ⟨rfl, h, rfl⟩

/-- A production that covers the tokens before `middle`, and then one that covers those up to
`rest`. -/
theorem Covers.bind {p : Parser β} {f : β → Parser α} (hp : Covers p s middle)
    (hshort : ∀ s', Short middle s' → Short rest s')
    (hf : ∀ b s', OnLast middle s' → Covers (f b) s' rest) : Covers (p >>= f) s rest := by
  unfold Covers
  rw [ends_bind]
  refine Ends.mono hp ?_ ?_
  · rintro b s' ⟨hlast, hnesting⟩
    have h := hf b s' hlast
    unfold Covers at h
    rwa [hnesting] at h
  · rintro stop s' ⟨hstop, hs', hnesting⟩
    exact ⟨hstop, hshort s' hs', hnesting⟩

theorem covers_advance {f : Unit → Parser α}
    (h : Covers (f ()) { s with cursor := s.cursor.next } rest) :
    Covers (advance >>= f) s rest := by
  unfold Covers at h ⊢
  rwa [ends_bind, ends_advance]

theorem covers_expectPeek {k : TokenKind} {f : Unit → Parser α} (hlast : OnLast (t :: middle) s)
    (ht : t.kind = k)
    (h : Covers (f ()) { s with cursor := s.cursor.next } rest) :
    Covers (expectPeek k >>= f) s rest := by
  unfold Covers at h ⊢
  rwa [ends_bind, ends_expectPeek, if_pos (by rw [hlast.peek, ht])]

end Composition

/-! ## Expressions -/

/-- On the tokens of an expression, with neither an operator nor an index behind them, the
production of expressions succeeds on the last one or is rejected before what follows. -/
theorem expression_covers {w : List TokenKind} (hw : Grammar.Expression .logical w) (ctx : Context)
    {s : State} {rest : List Token} (hs : Spells w s.cursor.ahead rest)
    (hfollows : Follows .logical rest) : Covers (expression ctx) s rest := by
  obtain ⟨form, hchecked, -⟩ := exists_checkedAt hw
  obtain ⟨ts, hahead, rfl⟩ := spells_iff.mp hs
  have hplain (t : Token) (ht : t ∈ ts) : Plain t.kind :=
    plain_of_mem_expression hw _ (List.mem_map_of_mem ht)
  have hends : Follows .logical [rest.headD s.cursor.eof] := by
    obtain ⟨t, more, rfl, hkind⟩ := hfollows
    exact ⟨t, [], rfl, hkind⟩
  have hsplit {before after : List Token} {t : Token} (hts : ts = before ++ t :: after) :
      (s.past before.length).cursor.ahead = t :: after ++ rest := by
    rw [ahead_past, hahead, hts, List.append_assoc, List.drop_left]
  cases hsettle : settle ctx 0 (ts.map Token.kind) with
  | ok ctx₁ =>
    have hne : ts ≠ [] := mt List.map_eq_nil_iff.mpr (expression_ne_nil hw)
    have hlast := hsplit (List.dropLast_concat_getLast hne).symm
    refine (ends_of_ok (expression_of_settle hchecked hs hends hsettle)).mpr ⟨?_, rfl⟩
    rw [List.length_map, ← List.length_dropLast]
    exact ⟨ts.getLast hne, hplain _ (List.getLast_mem hne), hlast⟩
  | error n =>
    obtain ⟨v, l, u, hword, rfl, -⟩ := settle_error hsettle
    obtain ⟨before, behind, hts, rfl, hbehind⟩ := List.map_eq_append_iff.mp hword
    obtain ⟨t, after, rfl, -⟩ := List.map_eq_cons_iff.mp hbehind
    refine (ends_of_error (expression_of_settle_error hchecked hs hends hsettle)).mpr ⟨rfl, ?_, rfl⟩
    refine ⟨t :: after, List.cons_ne_nil t after, fun t' ht' => hplain t' ?_, ?_⟩
    · rw [hts]
      exact List.mem_append_right before ht'
    · rw [List.length_map]
      exact hsplit hts

end OnePass.Program
