import OnePass.Proofs.Progress.Basic
set_option autoImplicit false

/-!
# Skipping token by token

Recovering looks for its semicolon first and then goes there at once.  The same is done by a loop that
steps over one token or two in each round and counts the statements that are open on its way
(`recover_run`, `repeat_skipStep_run`).
-/

namespace OnePass.Program

/-- One round of the loop that skips tokens.  At the end of the source it gives the program up. -/
def skipRound (depth : Int) : Parser Int := do
  let t ← current
  let u ← peek
  if t.kind = .eof then fail t
  else if t.kind = .kwEnd ∧ opensBlock u then
    advance
    advance
    return depth - 1
  else if opensBlock t then
    advance
    return depth + 1
  else
    advance
    return depth

/-- The loop that skips tokens: up to a semicolon with no statement open, a round and `again`. -/
def skipStep (again : Int → Parser Unit) (depth : Int) : Parser Unit := do
  if depth ≤ 0 ∧ (← current).kind = .semicolon then advance
  else again (← skipRound depth)

/-- Recovering behind its report. -/
def skipping (depth : Int) : Parser Unit := do
  let c := (← get).cursor
  (skipLength depth c.ahead).elim
    (do
      modify fun s => { s with cursor := s.cursor.skip s.cursor.remaining }
      fail (← current))
    fun n => modify fun s => { s with cursor := s.cursor.skip n }

section Recovering

variable {s : State} {depth : Int}

theorem ends_skipping_of_some {Q : Unit → State → Prop} {E : Stop → State → Prop} {n : Nat}
    (h : skipLength depth s.cursor.ahead = some n) :
    Ends (skipping depth) s Q E ↔ Q () { s with cursor := s.cursor.skip n } := by
  simp [skipping, h]

theorem ends_skipping_of_none {Q : Unit → State → Prop} {E : Stop → State → Prop}
    (h : skipLength depth s.cursor.ahead = none) :
    Ends (skipping depth) s Q E ↔
      Ends (fail (s.cursor.skip s.cursor.remaining).current) 
        { s with cursor := s.cursor.skip s.cursor.remaining } Q E := by
  simp [skipping, h]

/-- Recovering is a report, if one is due, and the loop that skips tokens. -/
theorem recover_run (mark : Nat) (depth : Int) (s : State) :
    recover mark depth s =
      (do
        if (← reported) = mark then unexpected (← current)
        skipping depth : Parser Unit) s := by
  refine run_eq_of_ends fun Q E h => ?_
  rw [ends_recover]
  by_cases hmark : s.diagnostics.length = mark
  · cases hlength : skipLength depth s.cursor.ahead with
    | some n => simpa [overdue, hmark, ends_skipping_of_some, hlength] using h
    | none => simpa [overdue, hmark, ends_skipping_of_none, hlength] using h
  · cases hlength : skipLength depth s.cursor.ahead with
    | some n => simpa [overdue, hmark, ends_skipping_of_some, hlength] using h
    | none => simpa [overdue, hmark, ends_skipping_of_none, hlength] using h

/-- Where a round passes `k` tokens and skipping goes on behind them, it goes to the same place. -/
theorem skipping_skip {depth' : Int} {k : Nat} (hk : k ≤ s.cursor.remaining)
    (h : skipLength depth s.cursor.ahead =
      (skipLength depth' (s.cursor.skip k).ahead).map (· + k)) :
    skipping depth' { s with cursor := s.cursor.skip k } = skipping depth s := by
  refine run_eq_of_ends fun Q E hends => ?_
  cases hlength : skipLength depth' (s.cursor.skip k).ahead with
  | some n =>
    rw [hlength] at h
    rw [ends_skipping_of_some h] at hends
    rw [ends_skipping_of_some hlength]
    dsimp only
    rw [Cursor.skip_skip, Nat.add_comm]
    exact hends
  | none =>
    rw [hlength] at h
    rw [ends_skipping_of_none h] at hends
    rw [ends_skipping_of_none hlength]
    dsimp only
    rw [Cursor.skip_skip, Cursor.remaining_skip, Nat.add_sub_cancel' hk]
    exact hends

/-- A round in front of the semicolon passes one token or two, and skipping goes on behind them. -/
theorem skipRound_run (hs : s.Delimited) (hpos : 0 < s.cursor.remaining)
    (hstay : ¬(depth ≤ 0 ∧ s.cursor.current.kind = .semicolon)) :
    ∃ depth' k, 0 < k ∧ k ≤ s.cursor.remaining ∧
      skipRound depth s = .ok depth' { s with cursor := s.cursor.skip k } ∧
      skipLength depth s.cursor.ahead =
        (skipLength depth' (s.cursor.skip k).ahead).map (· + k) := by
  obtain ⟨t, rest, hahead⟩ := List.exists_cons_of_length_pos hpos
  have hcurrent := Cursor.current_of_ahead hahead
  have hproper : t.kind ≠ .eof := hs.proper t (by simp [hahead])
  rw [hcurrent] at hstay
  have hround : skipRound depth s =
      (if t.kind = .kwEnd ∧ opensBlock s.cursor.peek then do
        advance
        advance
        return depth - 1
      else if opensBlock t then do
        advance
        return depth + 1
      else do
        advance
        return depth : Parser Int) s := by
    change (if s.cursor.current.kind = .eof then _ else _ : Parser Int) s = _
    rw [hcurrent, if_neg hproper]
  have hone (depth' : Int) : (do advance; return depth' : Parser Int) s =
      .ok depth' { s with cursor := s.cursor.skip 1 } := by
    rw [← Cursor.next_eq_skip hahead]
    rfl
  rw [hround, hahead]
  by_cases hclose : t.kind = .kwEnd ∧ opensBlock s.cursor.peek
  · have hpeek : s.cursor.peek.kind ≠ .eof := by
      intro heof
      simp [opensBlock, heof] at hclose
    have hahead₂ := one_lt_remaining hs hpeek
    rw [Cursor.remaining, hahead] at hahead₂
    cases rest with
    | nil => simp at hahead₂
    | cons u rest =>
      have hbehind : s.cursor.next.ahead = u :: rest := congrArg List.tail hahead
      have hskip : s.cursor.next.next = s.cursor.skip 2 := by
        rw [Cursor.next_eq_skip hbehind, Cursor.next_eq_skip hahead, Cursor.skip_skip]
      refine ⟨depth - 1, 2, by omega, ?_, ?_, ?_⟩
      · simp [Cursor.remaining, hahead]
      · rw [if_pos hclose, ← hskip]
        rfl
      · rw [Cursor.peek_of_ahead hahead] at hclose
        rw [skipLength_of_closing hclose, Cursor.ahead_skip, hahead]
        rfl
  · have hlength : skipLength depth (t :: rest) =
        (skipLength (if opensBlock t then depth + 1 else depth) (s.cursor.skip 1).ahead).map
          (· + 1) := by
      rw [Cursor.ahead_skip, hahead]
      refine skipLength_cons hstay fun u hu => ?_
      obtain ⟨rest, rfl⟩ := List.head?_eq_some_iff.mp hu
      rw [← Cursor.peek_of_ahead hahead]
      exact hclose
    refine ⟨_, 1, Nat.one_pos, hpos, ?_, hlength⟩
    rw [if_neg hclose]
    split
    · exact hone _
    · exact hone _

theorem repeat_skipStep_run (cut : Int → Parser Unit) (n : Nat) :
    ∀ depth s, s.Delimited → s.cursor.remaining < n →
      Nat.repeat skipStep n cut depth s = skipping depth s := by
  induction n with
  | zero =>
    intro depth s hs hn
    omega
  | succ n ih =>
    intro depth s hs hn
    rw [Nat.repeat]
    by_cases hend : s.cursor.current.kind = .eof
    · have hahead := ahead_eq_nil hs hend
      have hlength : skipLength depth s.cursor.ahead = none := by rw [hahead, skipLength]
      have hskip : s.cursor.skip s.cursor.remaining = s.cursor := by
        rw [Cursor.remaining, hahead, List.length_nil, Cursor.skip_zero]
      refine run_eq_of_ends fun Q E h => ?_
      rw [ends_skipping_of_none hlength, hskip] at h
      simpa [skipStep, skipRound, hend] using h
    · have hpos := remaining_pos hs hend
      by_cases hstay : depth ≤ 0 ∧ s.cursor.current.kind = .semicolon
      · obtain ⟨t, rest, hahead⟩ := List.exists_cons_of_length_pos hpos
        have hlength : skipLength depth s.cursor.ahead = some 1 := by
          rw [Cursor.current_of_ahead hahead] at hstay
          rw [hahead, skipLength_of_semicolon hstay]
        refine run_eq_of_ends fun Q E h => ?_
        rw [ends_skipping_of_some hlength, ← Cursor.next_eq_skip hahead] at h
        simpa [skipStep, hstay] using h
      · obtain ⟨depth', k, hk, hle, hrun, hlength⟩ := skipRound_run hs hpos hstay
        have hstep : skipStep (Nat.repeat skipStep n cut) depth s =
            Nat.repeat skipStep n cut depth' { s with cursor := s.cursor.skip k } := by
          unfold skipStep
          change (if depth ≤ 0 ∧ s.cursor.current.kind = .semicolon then _ else _ : Parser Unit) s = _
          rw [if_neg hstay, bind_run_of_ok hrun]
        rw [hstep, ih, skipping_skip hle hlength]
        · exact (Cursor.crosses_skip k).delimited hs
        · change (s.cursor.skip k).remaining < n
          rw [Cursor.remaining_skip]
          omega

end Recovering

end OnePass.Program
