import OnePass.Proofs.Reporting.Basic
import OnePass.Proofs.Run
set_option autoImplicit false

/-!
# Reading in front of a seam

Two streams of tokens may be the same up to a place and go on differently behind it.  A production
looks at the current token and at the next one, so as long as both stand in front of that place it
cannot tell the streams apart.  Nor does it see what was passed, reported, traced and opened earlier,
which may differ as well.

`Mirrors` says so of a production in a state: if it succeeds or is rejected and the place is still
ahead, then it does the same on the other stream.  Tokens are only passed, so the place was ahead all the
time.  A production that mirrors itself in every state is `Local`, if it leaves the blocks open that it
finds open: a block that is closed must have been opened on both streams.
-/

namespace OnePass

/-- What was passed, reported, traced and opened earlier, and the code if that is another one. -/
structure Earlier where
  passed : List Token := []
  diagnostics : List Diagnostic := []
  trace : List Bytes := []
  nesting : Nat := 0
  builder : Option Ir.Builder := none

/-- A place up to which two streams of tokens are the same: the tokens behind it in the first stream,
the rest of the second one, and what the second one has earlier. -/
structure Seam where
  first : List Token
  second : TokenStream
  earlier : Earlier := {}
  /-- The number of tokens ahead is a bound for the second stream if it is one for the first. -/
  bounded : (second.eof.kind = .eof ∧ ∀ t ∈ second.tokens, t.kind ≠ .eof) ∨
    first.length ≤ second.tokens.length

namespace Seam

variable {J : Seam} {c c' : Cursor} {s s' : Program.State}

/-- Whether a cursor of the first stream stands on a token in front of the seam, and the next token
stands in front of it as well. -/
def Ahead (J : Seam) (c : Cursor) : Prop := ∃ t u w, c.ahead = t :: u :: (w ++ J.first)

/-- The same place in the second stream. -/
def cross (J : Seam) (c : Cursor) : Cursor where
  passed := c.passed ++ J.earlier.passed
  ahead := c.ahead.take (c.ahead.length - J.first.length) ++ J.second.tokens
  eof := J.second.eof

/-- The same state over the second stream. -/
def across (J : Seam) (s : Program.State) : Program.State where
  file := s.file
  cursor := J.cross s.cursor
  table := s.table
  builder := J.earlier.builder.getD s.builder
  diagnostics := J.earlier.diagnostics ++ s.diagnostics
  trace := J.earlier.trace ++ s.trace
  nesting := J.earlier.nesting + s.nesting

/-- With nothing earlier only the tokens differ. -/
theorem across_of_plain (h : J.earlier = {}) (s : Program.State) :
    J.across s = { s with cursor := J.cross s.cursor } := by
  simp [across, h]

theorem cross_of_append {w : List Token} (h : c.ahead = w ++ J.first) :
    J.cross c = ⟨c.passed ++ J.earlier.passed, w ++ J.second.tokens, J.second.eof⟩ := by
  simp [cross, h]

/-- A seam that is ahead was ahead before. -/
theorem Ahead.of_suffix (h : J.Ahead c') (hsuffix : c'.ahead <:+ c.ahead) : J.Ahead c := by
  obtain ⟨t, u, w, hahead⟩ := h
  obtain ⟨v, hv⟩ := hsuffix
  rw [hahead] at hv
  cases v with
  | nil => exact ⟨t, u, w, hv.symm⟩
  | cons x v =>
    cases v with
    | nil => exact ⟨x, t, u :: w, hv.symm⟩
    | cons y v => exact ⟨x, y, v ++ t :: u :: w, by simp [← hv]⟩

theorem Ahead.cross_current (h : J.Ahead c) : (J.cross c).current = c.current := by
  obtain ⟨t, u, w, hahead⟩ := h
  rw [cross_of_append (w := t :: u :: w) hahead, Cursor.current_of_ahead hahead]
  rfl

theorem Ahead.cross_peek (h : J.Ahead c) : (J.cross c).peek = c.peek := by
  obtain ⟨t, u, w, hahead⟩ := h
  rw [cross_of_append (w := t :: u :: w) hahead, Cursor.peek_of_ahead hahead]
  rfl

/-- Skipping in front of the seam, or up to it. -/
theorem cross_skip {n : Nat} {w : List Token} (h : c.ahead = w ++ J.first) (hn : n ≤ w.length) :
    (J.cross c).skip n = J.cross (c.skip n) := by
  have hskip : (c.skip n).ahead = w.drop n ++ J.first := by
    rw [Cursor.ahead_skip, h, List.drop_append_of_le_length hn]
  rw [cross_of_append h, cross_of_append hskip]
  simp only [Cursor.skip, h, List.take_append_of_le_length hn, List.drop_append_of_le_length hn,
    List.append_assoc]

/-- Tokens that are skipped stand in front of a seam that is ahead behind them. -/
theorem Ahead.skipped {n : Nat} (h : J.Ahead (c.skip n)) :
    ∃ w, c.ahead = w ++ J.first ∧ n ≤ w.length := by
  obtain ⟨t, u, w, hskip⟩ := h
  rw [Cursor.ahead_skip] at hskip
  refine ⟨c.ahead.take n ++ t :: u :: w, ?_, ?_⟩
  · rw [List.append_assoc, List.cons_append, List.cons_append, ← hskip]
    exact (List.take_append_drop n c.ahead).symm
  · have hlength := congrArg List.length hskip
    simp only [List.length_drop, List.length_cons] at hlength
    rw [List.length_append, List.length_take]
    omega

/-- The next token is in front of the seam, or the first one behind it. -/
theorem cross_next {t : Token} {w : List Token} (h : c.ahead = t :: (w ++ J.first)) :
    (J.cross c).next = J.cross c.next := by
  have hnext : c.next.ahead = w ++ J.first := by rw [Cursor.ahead_next, h, List.tail_cons]
  rw [cross_of_append (w := t :: w) h, cross_of_append hnext, Cursor.next, Cursor.next,
    Cursor.current_of_ahead h]
  rfl

theorem Ahead.cross_next (h : J.Ahead c.next) : (J.cross c).next = J.cross c.next := by
  obtain ⟨t, u, w, hnext⟩ := h
  rw [Cursor.ahead_next] at hnext
  cases hc : c.ahead with
  | nil => simp [hc] at hnext
  | cons x rest =>
    rw [hc, List.tail_cons] at hnext
    exact Seam.cross_next (w := t :: u :: w) (hc.trans (by rw [hnext]; rfl))

/-- What bounds reading the first stream bounds reading the second one. -/
theorem Ahead.bounded (h : J.Ahead s.cursor) (hs : s.Delimited) :
    (J.across s).Delimited ∨ s.cursor.remaining ≤ (J.across s).cursor.remaining := by
  obtain ⟨t, u, w, hahead⟩ := h
  have hcross := cross_of_append (w := t :: u :: w) hahead
  rcases J.bounded with ⟨hmarked, hproper⟩ | hlength
  · refine .inl ⟨hmarked, fun x hx => ?_⟩
    simp only [across, hcross, List.mem_append] at hx
    rcases hx with hx | hx
    · refine hs.proper x ?_
      rw [hahead]
      exact List.mem_append_left J.first hx
    · exact hproper x hx
  · refine .inr ?_
    simp only [across, hcross, Cursor.remaining, hahead, List.length_append, List.length_cons]
    omega

end Seam

namespace Program

/-- Productions of which the second does on the second stream what the first does on the first one,
as long as the seam is ahead. -/
def Mirrors (J : Seam) {α : Type} (p q : Parser α) (s : State) : Prop :=
  Ends p s
    (fun a s' => Proceeds s s' ∧ (J.Ahead s'.cursor → q (J.across s) = .ok a (J.across s')))
    fun stop s' => Proceeds s s' ∧
      (stop = .reject → J.Ahead s'.cursor → q (J.across s) = .error stop (J.across s'))

/-- A production that does the same on both streams as long as the seam is ahead, and leaves the blocks
open that it finds open. -/
structure Local (J : Seam) {α : Type} (p : Parser α) : Prop where
  run (s : State) (hs : s.Delimited) : Mirrors J p p s
  nesting : Keeps (fun s s' => s.nesting ≤ s'.nesting) p

/-! ## Composition -/

section Composition

variable {J : Seam} {α β : Type} {s s' : State}

theorem error_iff_ends {p : Parser α} {stop : Stop} :
    p s = .error stop s' ↔ Ends p s (fun _ _ => False) fun e t => e = stop ∧ t = s' := by
  unfold Ends
  cases p s <;> simp

theorem Mirrors.proceeds {p q : Parser α} {a : α} (h : Mirrors J p q s) (hrun : p s = .ok a s') :
    Proceeds s s' := by
  rw [Mirrors, ends_of_ok hrun] at h
  exact h.1

/-- One production and then another one.  The seam that is ahead in the end is ahead in between. -/
theorem Mirrors.bind {p q : Parser β} {f g : β → Parser α} (hp : Mirrors J p q s)
    (hf : ∀ b s', p s = .ok b s' → Mirrors J (f b) (g b) s') : Mirrors J (p >>= f) (q >>= g) s := by
  unfold Mirrors at hp ⊢
  cases hfirst : p s with
  | error stop s₁ =>
    rw [ends_of_error hfirst] at hp
    rw [ends_of_error (bind_run_of_error hfirst)]
    exact ⟨hp.1, fun hstop hahead => bind_run_of_error (hp.2 hstop hahead)⟩
  | ok b s₁ =>
    rw [ends_of_ok hfirst] at hp
    rw [ends_bind, ends_of_ok hfirst]
    refine Ends.mono (hf b s₁ hfirst) ?_ ?_
    · rintro a s₂ ⟨hproceeds, hrun⟩
      refine ⟨hp.1.trans hproceeds, fun hahead => ?_⟩
      rw [bind_run_of_ok (hp.2 (hahead.of_suffix hproceeds.ahead))]
      exact hrun hahead
    · rintro stop s₂ ⟨hproceeds, hrun⟩
      refine ⟨hp.1.trans hproceeds, fun hstop hahead => ?_⟩
      rw [bind_run_of_ok (hp.2 (hahead.of_suffix hproceeds.ahead))]
      exact hrun hstop hahead

/-- Productions that run like others. -/
theorem Mirrors.of_runs {p q p' q' : Parser α} (h : Mirrors J p' q' s) (hp : p s = p' s)
    (hq : J.Ahead s.cursor → q (J.across s) = q' (J.across s)) : Mirrors J p q s := by
  unfold Mirrors Ends at h ⊢
  rw [hp]
  revert h
  cases p' s with
  | ok a s' =>
    rintro ⟨hproceeds, hrun⟩
    refine ⟨hproceeds, fun hahead => ?_⟩
    rw [hq (hahead.of_suffix hproceeds.ahead)]
    exact hrun hahead
  | error stop s' =>
    rintro ⟨hproceeds, hrun⟩
    refine ⟨hproceeds, fun hstop hahead => ?_⟩
    rw [hq (hahead.of_suffix hproceeds.ahead)]
    exact hrun hstop hahead

theorem Mirrors.succeeds {p q : Parser Unit} (h : Mirrors J p q s) :
    Mirrors J (succeeds p) (succeeds q) s := by
  unfold Mirrors at h ⊢
  rw [ends_succeeds]
  refine Ends.mono h (fun _ s' hrun => ⟨hrun.1, fun hahead => ?_⟩) fun stop s' hrun => ?_
  · rw [ok_iff_ends, ends_succeeds, ends_of_ok (hrun.2 hahead)]
    exact ⟨rfl, rfl⟩
  · cases stop with
    | fatal e => exact ⟨hrun.1, fun hstop => Stop.noConfusion hstop⟩
    | reject =>
      refine ⟨hrun.1, fun hahead => ?_⟩
      rw [ok_iff_ends, ends_succeeds, ends_of_error (hrun.2 rfl hahead)]
      exact ⟨rfl, rfl⟩

theorem mirrors_modify {f g : State → State} (hf : Proceeds s (f s))
    (hcross : J.Ahead (f s).cursor → g (J.across s) = J.across (f s)) :
    Mirrors J (modify f) (modify g) s := by
  refine ⟨hf, fun hahead => ?_⟩
  change EStateM.Result.ok PUnit.unit (g (J.across s)) = _
  rw [hcross hahead]

theorem local_bind {p : Parser β} {f : β → Parser α} (hp : Local J p) (hf : ∀ b, Local J (f b)) :
    Local J (p >>= f) := by
  refine ⟨fun s hs => ?_, fun s => ?_⟩
  · have hfirst := hp.run s hs
    exact hfirst.bind fun b s' hrun => (hf b).run s' ((hfirst.proceeds hrun).delimited hs)
  · rw [ends_bind]
    refine (hp.nesting s).mono (fun b s₁ h₁ => ?_) fun _ _ h => h
    exact ((hf b).nesting s₁).mono (fun _ _ h => Nat.le_trans h₁ h) fun _ _ h => Nat.le_trans h₁ h

end Composition

end Program

end OnePass
