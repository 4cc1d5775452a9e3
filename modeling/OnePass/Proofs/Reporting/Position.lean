import OnePass.Proofs.Lexical
set_option autoImplicit false

/-!
# Where tokens stand

Every token of a source stands behind the one before it, by line and then by column, and the end
stands behind them all.
-/

namespace OnePass

namespace Place

/-- Strict order: by line, then by column. -/
def Before (p q : Place) : Prop := p.line < q.line ∨ (p.line = q.line ∧ p.column < q.column)

theorem Before.trans {p q r : Place} (h : p.Before q) (h' : q.Before r) : p.Before r := by
  unfold Before at *
  omega

theorem before_step (p : Place) (b : UInt8) : p.Before (p.step b) := by
  unfold step
  split
  · exact .inl (Nat.lt_succ_self _)
  · exact .inr ⟨rfl, Nat.lt_succ_self _⟩

theorem eq_or_before_advance (p : Place) (s : Bytes) : p.advance s = p ∨ p.Before (p.advance s) := by
  induction s generalizing p with
  | nil => exact .inl rfl
  | cons b s ih =>
    have hfirst := before_step p b
    rcases ih (p.step b) with h | h
    · exact .inr (h.symm ▸ hfirst)
    · exact .inr (hfirst.trans h)

theorem before_advance (p : Place) {s : Bytes} (h : s ≠ []) : p.Before (p.advance s) := by
  cases s with
  | nil => exact absurd rfl h
  | cons b s =>
    have hfirst := before_step p b
    rcases eq_or_before_advance (p.step b) s with h | h
    · exact h.symm ▸ hfirst
    · exact hfirst.trans h

/-- A place in the line of another one or in a later line. -/
theorem Before.line_le {p q : Place} (h : p.Before q) : p.line ≤ q.line := by
  unfold Before at h
  omega

end Place

/-- The place of a token. -/
def Token.place (t : Token) : Place := ⟨t.line, t.column⟩

theorem Token.before_position_iff {t u : Token} (file : Bytes) :
    (t.position file).Before (u.position file) ↔ t.place.Before u.place := by
  have hfile : (t.position file).file = (u.position file).file := rfl
  rw [Position.before_iff_of_file_eq hfile]
  simp only [Token.position, Token.place, Place.Before]
  omega

namespace TokenStream

/-- The tokens of a text stand where the text starts, or behind. -/
theorem eq_or_before_of_mem {place : Place} {s : Bytes} {t : Token}
    (ht : t ∈ (scan place s).toList) : t.place = place ∨ place.Before t.place := by
  induction place, s using scan_induction with
  | nil place s hsplit =>
    rw [scan_nil hsplit] at ht
    obtain rfl := List.mem_singleton.mp ht
    exact place.eq_or_before_advance _
  | cons place s a rest hsplit ih =>
    have hgap := place.eq_or_before_advance (Gap.split s).1
    rw [scan_cons hsplit] at ht
    rcases List.mem_cons.mp ht with rfl | ht
    · exact hgap
    · have hfirst := (place.advance (Gap.split s).1).before_advance (Lexeme.read_raw_ne_nil a rest)
      have hbehind : (place.advance (Gap.split s).1).Before t.place := by
        rcases ih ht with h | h
        · exact h.symm ▸ hfirst
        · exact hfirst.trans h
      rcases hgap with h | h
      · exact .inr (h ▸ hbehind)
      · exact .inr (h.trans hbehind)

/-- Every token stands behind all those before it. -/
theorem pairwise_before (place : Place) (s : Bytes) :
    (scan place s).toList.Pairwise fun t u => t.place.Before u.place := by
  induction place, s using scan_induction with
  | nil place s hsplit =>
    rw [scan_nil hsplit]
    exact List.pairwise_singleton _ _
  | cons place s a rest hsplit ih =>
    rw [scan_cons hsplit]
    refine List.pairwise_cons.mpr ⟨fun u hu => ?_, ih⟩
    have hfirst := (place.advance (Gap.split s).1).before_advance (Lexeme.read_raw_ne_nil a rest)
    rcases eq_or_before_of_mem hu with h | h
    · exact h.symm ▸ hfirst
    · exact hfirst.trans h

theorem line_pos_of_mem {s : Bytes} {t : Token} (ht : t ∈ (ofSource s).toList) : 0 < t.line := by
  have hstart : 1 ≤ t.place.line := by
    rcases eq_or_before_of_mem ht with h | h
    · rw [h]
      exact Nat.le_refl _
    · exact h.line_le
  exact hstart

end TokenStream

end OnePass
