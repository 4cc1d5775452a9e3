import OnePass.Proofs.Reporting.Basic
import OnePass.Proofs.Run
set_option autoImplicit false

/-!
# How productions go over tokens

A cursor records every step that it makes, a step past the end included.  `Cursor.Crosses` says that
only tokens were stepped over, and `Strides` that this holds of a production however it ends.

Productions that recur are bounded by the number of tokens ahead.  `Strides` compares two productions
that differ in what happens where the bound is reached: they end alike, so neither gets there.
-/

namespace OnePass

namespace Cursor

/-- Whether a cursor leads to another one over tokens that are ahead, and never over the end. -/
structure Crosses (c c' : Cursor) : Prop where
  eof : c'.eof = c.eof
  passed : ∃ w, c.ahead = w ++ c'.ahead ∧ c'.passed = w.reverse ++ c.passed

/-- Whether a cursor leads to another one over at least one token. -/
structure Consumes (c c' : Cursor) : Prop extends Crosses c c' where
  remaining : c'.remaining < c.remaining

section Crosses

variable {c c' c'' : Cursor}

theorem Crosses.refl (c : Cursor) : c.Crosses c := ⟨rfl, [], rfl, rfl⟩

theorem Crosses.trans (h : c.Crosses c') (h' : c'.Crosses c'') : c.Crosses c'' := by
  obtain ⟨w, hahead, hpassed⟩ := h.passed
  obtain ⟨w', hahead', hpassed'⟩ := h'.passed
  refine ⟨h'.eof.trans h.eof, w ++ w', ?_, ?_⟩
  · rw [hahead, hahead', List.append_assoc]
  · rw [hpassed', hpassed, List.reverse_append, List.append_assoc]

theorem Crosses.remaining_le (h : c.Crosses c') : c'.remaining ≤ c.remaining := by
  obtain ⟨w, hahead, -⟩ := h.passed
  unfold remaining
  rw [hahead, List.length_append]
  omega

theorem crosses_next (h : 0 < c.remaining) : c.Crosses c.next := by
  unfold remaining at h
  cases hahead : c.ahead with
  | nil => simp [hahead] at h
  | cons t rest =>
    refine ⟨rfl, [t], ?_, ?_⟩
    · rw [hahead, ahead_next, hahead]
      rfl
    · simp [next, current_of_ahead hahead]

theorem crosses_skip (n : Nat) : c.Crosses (c.skip n) :=
  ⟨rfl, c.ahead.take n, (List.take_append_drop n c.ahead).symm, rfl⟩

theorem Consumes.trans_crosses (h : c.Consumes c') (h' : c'.Crosses c'') : c.Consumes c'' :=
  ⟨h.toCrosses.trans h', Nat.lt_of_le_of_lt h'.remaining_le h.remaining⟩

end Crosses

theorem Crosses.delimited {s s' : Program.State} (h : s.cursor.Crosses s'.cursor)
    (hs : s.Delimited) : s'.Delimited := by
  obtain ⟨w, hahead, -⟩ := h.passed
  exact hs.of_suffix h.eof ⟨w, hahead.symm⟩

end Cursor

namespace Program

/-! ## Striding productions -/

/-- Two productions that end alike, whichever way, and go over tokens only.  If they succeed, `Q` holds
of the value and the cursor; if they give the program up, fewer than `n` tokens are left. -/
def Strides {α : Type} (n : Nat) (p p' : Parser α) (s : State) (Q : α → Cursor → Prop) : Prop :=
  p' s = p s ∧
  Ends p s (fun a s' => s.cursor.Crosses s'.cursor ∧ Q a s'.cursor)
    fun stop s' => s.cursor.Crosses s'.cursor ∧ (stop ≠ .reject → s'.cursor.remaining < n)

/-- A production that goes over tokens only, compared with nothing else. -/
abbrev Paces {α : Type} (n : Nat) (p : Parser α) (s : State) (Q : α → Cursor → Prop) : Prop :=
  Strides n p p s Q

section Judgement

variable {α β : Type} {n m : Nat} {s : State} {p p' : Parser α} {Q Q' : α → Cursor → Prop}

theorem Strides.self (h : Strides n p p' s Q) : Paces n p s Q := ⟨rfl, h.2⟩

theorem Strides.mono (h : Strides n p p' s Q) (hnm : n ≤ m) (hQ : ∀ a c, Q a c → Q' a c) :
    Strides m p p' s Q' := by
  refine ⟨h.1, h.2.mono ?_ ?_⟩
  · rintro a s' ⟨hcrosses, ha⟩
    exact ⟨hcrosses, hQ a s'.cursor ha⟩
  · rintro stop s' ⟨hcrosses, hlt⟩
    exact ⟨hcrosses, fun hstop => Nat.lt_of_lt_of_le (hlt hstop) hnm⟩

theorem Strides.weaken (h : Strides 0 p p' s Q) : Strides n p p' s Q :=
  h.mono (Nat.zero_le n) fun _ _ hQ => hQ

/-- A production that starts with fewer than `n` tokens left ends so. -/
theorem Strides.below (h : Strides m p p' s Q) (hn : s.cursor.remaining < n) :
    Strides n p p' s Q := by
  refine ⟨h.1, h.2.mono (fun _ _ ha => ha) ?_⟩
  rintro stop s' ⟨hcrosses, -⟩
  exact ⟨hcrosses, fun _ => Nat.lt_of_le_of_lt hcrosses.remaining_le hn⟩

theorem paces_pure {a : α} (h : Q a s.cursor) : Paces n (pure a) s Q :=
  ⟨rfl, .refl _, h⟩

theorem Strides.bind {q q' : Parser β} {f f' : β → Parser α} {P : β → Cursor → Prop}
    (hq : Strides n q q' s P)
    (hf : ∀ b s', s.cursor.Crosses s'.cursor → P b s'.cursor → Strides n (f b) (f' b) s' Q) :
    Strides n (q >>= f) (q' >>= f') s Q := by
  obtain ⟨heq, hends⟩ := hq
  unfold Ends at hends
  cases hrun : q s with
  | error stop s' =>
    rw [hrun] at heq hends
    refine ⟨?_, (ends_of_error (bind_run_of_error hrun)).mpr hends⟩
    rw [bind_run_of_error hrun, bind_run_of_error heq]
  | ok b s' =>
    rw [hrun] at heq hends
    obtain ⟨hcrosses, hP⟩ := hends
    obtain ⟨heq', hends'⟩ := hf b s' hcrosses hP
    refine ⟨?_, ?_⟩
    · rw [bind_run_of_ok hrun, bind_run_of_ok heq, heq']
    · rw [ends_bind, ends_of_ok hrun]
      refine hends'.mono ?_ ?_
      · rintro a s'' ⟨hcrosses', ha⟩
        exact ⟨hcrosses.trans hcrosses', ha⟩
      · rintro stop s'' ⟨hcrosses', hlt⟩
        exact ⟨hcrosses.trans hcrosses', hlt⟩

/-- A production that leaves the cursor where it is, and does not give the program up. -/
theorem paces_of_still
    (h : Ends p s (fun a s' => s'.cursor = s.cursor ∧ Q a s.cursor)
      fun stop s' => stop = .reject ∧ s'.cursor = s.cursor) : Paces n p s Q := by
  refine ⟨rfl, h.mono ?_ ?_⟩
  · rintro a s' ⟨hcursor, ha⟩
    rw [hcursor]
    exact ⟨.refl _, ha⟩
  · rintro stop s' ⟨hstop, hcursor⟩
    rw [hcursor]
    exact ⟨.refl _, fun hne => absurd hstop hne⟩

/-- A production that is rejected is caught where it stands. -/
theorem Strides.caught {p p' : Parser Unit} {Q : Unit → Cursor → Prop} (h : Strides n p p' s Q) :
    Strides n (succeeds p) (succeeds p') s fun b c => b = true → Q () c := by
  refine ⟨tryCatch_run_congr _ (bind_run_congr _ h.1), ?_⟩
  rw [ends_succeeds]
  refine h.2.mono ?_ ?_
  · rintro _ s' ⟨hcrosses, ha⟩
    exact ⟨hcrosses, fun _ => ha⟩
  · rintro stop s' ⟨hcrosses, hlt⟩
    cases stop with
    | reject => exact ⟨hcrosses, fun h => absurd h Bool.false_ne_true⟩
    | fatal e => exact ⟨hcrosses, hlt⟩

theorem Strides.orDiscard (h : Strides n p p' s Q) : Strides n (orDiscard p) (orDiscard p') s Q := by
  refine ⟨tryCatch_run_congr _ h.1, ?_⟩
  rw [ends_orDiscard]
  exact h.2

/-- What is done to the table afterwards does not touch the cursor. -/
theorem Strides.andThenTable (f : Table → Table) (h : Strides n p p' s Q) :
    Strides n (andThenTable p f) (andThenTable p' f) s Q := by
  refine ⟨bind_run_congr _ (tryCatch_run_congr _ h.1), ?_⟩
  rw [ends_andThenTable]
  exact h.2

end Judgement

/-! ## Single steps -/

section Steps

variable {α : Type} {n : Nat} {s : State} {Q : α → Cursor → Prop} {kind : TokenKind}

theorem strides_bind_current {f f' : Token → Parser α} :
    Strides n (current >>= f) (current >>= f') s Q ↔
      Strides n (f s.cursor.current) (f' s.cursor.current) s Q := Iff.rfl

theorem strides_bind_peek {f f' : Token → Parser α} :
    Strides n (peek >>= f) (peek >>= f') s Q ↔
      Strides n (f s.cursor.peek) (f' s.cursor.peek) s Q := Iff.rfl

theorem strides_bind_currentIs {f f' : Bool → Parser α} :
    Strides n (currentIs kind >>= f) (currentIs kind >>= f') s Q ↔
      Strides n (f (s.cursor.current.kind = kind)) (f' (s.cursor.current.kind = kind)) s Q := Iff.rfl

theorem strides_bind_peekIs {f f' : Bool → Parser α} :
    Strides n (peekIs kind >>= f) (peekIs kind >>= f') s Q ↔
      Strides n (f (s.cursor.peek.kind = kind)) (f' (s.cursor.peek.kind = kind)) s Q := Iff.rfl

theorem strides_bind_remaining {f f' : Nat → Parser α} :
    Strides n (remaining >>= f) (remaining >>= f') s Q ↔
      Strides n (f s.cursor.remaining) (f' s.cursor.remaining) s Q := Iff.rfl

theorem strides_bind_reported {f f' : Nat → Parser α} :
    Strides n (reported >>= f) (reported >>= f') s Q ↔
      Strides n (f s.diagnostics.length) (f' s.diagnostics.length) s Q := Iff.rfl

theorem strides_bind_get {f f' : State → Parser α} :
    Strides n (get >>= f) (get >>= f') s Q ↔ Strides n (f s) (f' s) s Q := Iff.rfl

theorem paces_rejectToken (t : Token) :
    Paces n (rejectToken t : Parser α) s Q :=
  paces_of_still ⟨rfl, rfl⟩

theorem paces_rejectArgument (t : Token) :
    Paces n (rejectArgument t : Parser α) s Q :=
  paces_of_still ⟨rfl, rfl⟩

theorem paces_note (words : Bytes) {Q : Unit → Cursor → Prop} (h : Q () s.cursor) :
    Paces n (note words) s Q :=
  paces_of_still ⟨rfl, h⟩

theorem paces_advance (h : 0 < s.cursor.remaining) :
    Paces n advance s fun _ c => c = s.cursor.next :=
  ⟨rfl, Cursor.crosses_next h, rfl⟩

/-- A step onto a token. -/
theorem paces_onto (hs : s.Delimited) (hpeek : s.cursor.peek.kind ≠ .eof) :
    Paces n advance s fun _ c => 0 < c.remaining ∧ c.remaining + 1 = s.cursor.remaining := by
  have hahead := one_lt_remaining hs hpeek
  have hnext := Cursor.remaining_next s.cursor
  refine (paces_advance (by omega)).mono (Nat.le_refl n) ?_
  rintro _ c rfl
  omega

/-- A step, and a production that ends on a token. -/
theorem paces_stepped {p : Parser α} (hpos : 0 < s.cursor.remaining)
    (h : Paces n p { s with cursor := s.cursor.next } fun _ c => 0 < c.remaining) :
    Paces n (do advance; p) s
      fun _ c => 0 < c.remaining ∧ c.remaining < s.cursor.remaining := by
  have hnext := Cursor.remaining_next s.cursor
  refine ⟨rfl, ?_⟩
  rw [ends_bind, ends_advance]
  refine h.2.mono ?_ ?_
  · rintro a s' ⟨hcrosses, hlast⟩
    have hle : s'.cursor.remaining ≤ s.cursor.next.remaining := hcrosses.remaining_le
    exact ⟨(Cursor.crosses_next hpos).trans hcrosses, hlast, by omega⟩
  · rintro stop s' ⟨hcrosses, hlt⟩
    exact ⟨(Cursor.crosses_next hpos).trans hcrosses, hlt⟩

/-- Stepping onto a token of a kind needs two tokens, the current one and that one. -/
theorem paces_expectPeek (hs : s.Delimited) (hkind : kind ≠ .eof) :
    Paces n (expectPeek kind) s fun _ c =>
      c.current.kind = kind ∧ 0 < c.remaining ∧ c.remaining + 1 = s.cursor.remaining := by
  have honto := @paces_onto n s hs
  refine ⟨rfl, ?_⟩
  rw [ends_expectPeek]
  split
  · next hpeek =>
    obtain ⟨-, hcrosses, hremaining⟩ := honto (by rwa [hpeek])
    exact ⟨hcrosses, hpeek, hremaining⟩
  · exact ⟨.refl _, fun h => absurd rfl h⟩

/-- Recovering passes a token, or comes to the end and gives the program up there. -/
theorem paces_recover (mark : Nat) (depth : Int) (hn : 0 < n) :
    Paces n (recover mark depth) s
      fun _ c => c.remaining < s.cursor.remaining := by
  refine ⟨rfl, ?_⟩
  rw [ends_recover]
  split
  · next k hk =>
    obtain ⟨hpos, hle⟩ := skipLength_bounds hk
    refine ⟨Cursor.crosses_skip k, ?_⟩
    change (s.cursor.skip k).remaining < _
    rw [Cursor.remaining_skip]
    unfold Cursor.remaining
    omega
  · refine ⟨Cursor.crosses_skip _, fun _ => ?_⟩
    change (s.cursor.skip s.cursor.remaining).remaining < n
    rw [Cursor.remaining_skip]
    omega

end Steps

end Program

end OnePass
