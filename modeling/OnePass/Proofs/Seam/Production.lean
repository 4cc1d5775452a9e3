import OnePass.Proofs.Progress.Declaration
import OnePass.Proofs.Seam.Basic
set_option autoImplicit false

/-!
# Productions in front of a seam

Every step that productions are made of is local, so every production is (`Made.isLocal`).  Where the
grammar recurs, a production is bounded by the number of tokens up to the end, which differs between
two streams; any bound above that number does.

What recovers counts the diagnostics and the open blocks, those from earlier included; only the
differences matter (`local_terminated`).  Declarations work on the table and on the code, which
do not depend on the tokens behind a seam.  The declaration of a variable remembers the token behind the
left bracket before it knows whether there is a bracket; if there is none, that token does not matter
(`local_bracketed`).
-/

namespace OnePass.Program

variable {J : Seam} {α : Type}

/-! ## Single steps -/

section Steps

theorem local_pure (a : α) : Local J (pure a) :=
  ⟨fun s _ => ⟨.refl s, fun _ => rfl⟩, fun s => Nat.le_refl s.nesting⟩

theorem local_throw (stop : Stop) : Local J (throw stop : Parser α) :=
  ⟨fun s _ => ⟨.refl s, fun _ _ => rfl⟩, fun s => Nat.le_refl s.nesting⟩

/-- A production that goes on with what it reads off the state, if that is the same on both
streams. -/
theorem local_get {f : State → Parser α} (hf : ∀ s, Local J (f s))
    (hcross : ∀ s, J.Ahead s.cursor → f (J.across s) = f s) : Local J (get >>= f) := by
  refine ⟨fun s hs => ((hf s).run s hs).of_runs rfl fun hahead => ?_, fun s => (hf s).nesting s⟩
  change f (J.across s) (J.across s) = _
  rw [hcross s hahead]

theorem local_modify {f : State → State} (hf : ∀ s, Proceeds s (f s))
    (hnesting : ∀ s, (f s).nesting = s.nesting)
    (hcross : ∀ s, J.Ahead (f s).cursor → f (J.across s) = J.across (f s)) :
    Local J (modify f) :=
  ⟨fun s _ => mirrors_modify (hf s) (hcross s), fun s => Nat.le_of_eq (hnesting s).symm⟩

theorem local_current : Local J current :=
  local_get (fun _ => local_pure _) fun _ hahead => congrArg pure hahead.cross_current

theorem local_peek : Local J peek :=
  local_get (fun _ => local_pure _) fun _ hahead => congrArg pure hahead.cross_peek

theorem local_advance : Local J advance := by
  refine local_modify Proceeds.wideFrame.next (fun _ => rfl) fun s hahead => ?_
  simp only [Seam.across, hahead.cross_next]

theorem local_report (d : Diagnostic) : Local J (report d) := by
  refine local_modify (fun s => Proceeds.wideFrame.report s [d]) (fun _ => rfl) fun s _ => ?_
  simp only [Seam.across, List.append_assoc]

theorem local_note (words : Bytes) : Local J (note words) := by
  refine local_modify (fun s => Proceeds.wideFrame.note s _) (fun _ => rfl) fun s hahead => ?_
  have hcurrent : (J.cross s.cursor).current = s.cursor.current := hahead.cross_current
  simp only [Seam.across, hcurrent, List.append_assoc]

theorem local_unexpected (t : Token) : Local J (unexpected t) :=
  local_get (fun _ => local_report _) fun _ _ => rfl

theorem local_rejectToken (t : Token) : Local J (rejectToken t : Parser α) :=
  local_bind (local_unexpected t) fun _ => local_throw _

theorem local_rejectArgument (t : Token) : Local J (rejectArgument t : Parser α) := by
  refine local_bind (local_get (fun _ => local_pure _) fun _ _ => rfl) fun position => ?_
  exact local_bind (local_report _) fun _ => local_throw _

theorem local_peekIs (kind : TokenKind) : Local J (peekIs kind) :=
  local_bind local_peek fun _ => local_pure _

theorem local_expectPeek (kind : TokenKind) : Local J (expectPeek kind) := by
  refine local_bind (local_peekIs kind) fun b => ?_
  split
  · exact local_advance
  · exact local_bind local_peek local_rejectToken

end Steps

/-! ## Loops -/

section Loops

variable {p : Nat → Parser α}

/-- A loop runs the same whatever it is bounded by, if only by more than the number of tokens
ahead. -/
theorem Loop.exists_run (h : Loop p) {s : State} (hs : s.Delimited)
    (hpos : 0 < s.cursor.remaining) : ∃ r, ∀ n, s.cursor.remaining < n → p n s = r := by
  have hlast := Nat.lt_add_one s.cursor.remaining
  cases h with
  | expression ctx =>
    have hcut := levelWithin_strides (fun _ _ => exhausted)
    exact ⟨_, fun n hn => (hcut n _ .logical ctx s hs hn hlast).1.symm⟩
  | arguments expected =>
    have hcut := argumentsWithin_strides (fun _ => exhausted)
    exact ⟨_, fun n hn => (hcut n _ expected s hs hpos hn hlast).1.symm⟩
  | parameters =>
    exact ⟨_, fun n hn => (parametersWithin_strides exhausted n _ s hs hpos hn hlast).1.symm⟩
  | statements =>
    exact ⟨_, fun n hn => (statementsWithin_strides exhausted n _ s hs hn hlast).1.symm⟩
  | declarations =>
    exact ⟨_, fun n hn => (declarationsWithin_strides exhausted n _ s hs hn hlast).1.symm⟩

/-- There is a bound that does on both streams. -/
theorem Loop.exists_bound (h : Loop p) {s : State} (hs : s.Delimited) (hahead : J.Ahead s.cursor) :
    ∃ n, p (s.cursor.remaining + 1) s = p n s ∧
      p ((J.across s).cursor.remaining + 1) (J.across s) = p n (J.across s) := by
  have hpos : 0 < s.cursor.remaining ∧ 0 < (J.across s).cursor.remaining := by
    obtain ⟨t, u, w, hc⟩ := hahead
    rw [Seam.across, Seam.cross_of_append (w := t :: u :: w) hc]
    simp [Cursor.remaining, hc]
  obtain ⟨r, hr⟩ := h.exists_run hs hpos.1
  rcases hahead.bounded hs with hdelimited | hle
  · obtain ⟨r', hr'⟩ := h.exists_run hdelimited hpos.2
    refine ⟨s.cursor.remaining + (J.across s).cursor.remaining + 1, ?_, ?_⟩
    · rw [hr _ (by omega), hr _ (by omega)]
    · rw [hr' _ (by omega), hr' _ (by omega)]
  · refine ⟨(J.across s).cursor.remaining + 1, ?_, rfl⟩
    rw [hr _ (by omega), hr _ (by omega)]

theorem local_loop (h : Loop p) (hp : ∀ n, Local J (p n)) : Local J (do p ((← remaining) + 1)) := by
  refine ⟨fun s hs => ?_, fun s => (hp _).nesting s⟩
  by_cases hahead : J.Ahead s.cursor
  · obtain ⟨n, hrun, hcross⟩ := h.exists_bound hs hahead
    exact ((hp n).run s hs).of_runs hrun fun _ => hcross
  · exact ((hp (s.cursor.remaining + 1)).run s hs).of_runs rfl fun h => absurd h hahead

end Loops

/-! ## Blocks -/

/-- A block is closed on both streams, since it was opened on both. -/
theorem local_block {p : Parser Unit} (hp : Local J p) (words : Bytes) :
    Local J (block p words) := by
  refine ⟨fun s hs => ?_, fun s => ?_⟩
  · have hfirst := (local_expectPeek (J := J) .leftParen).run s hs
    refine hfirst.bind fun _ s₁ hrun₁ => ?_
    have hs₁ := (hfirst.proceeds hrun₁).delimited hs
    have hopened : Mirrors J openBlock openBlock s₁ :=
      mirrors_modify (Proceeds.wideFrame.nest s₁ _) fun _ => rfl
    refine hopened.bind fun _ s₂ hrun₂ => ?_
    obtain rfl : { s₁ with nesting := s₁.nesting + 1 } = s₂ := (unit_ok_iff_ends.mp hrun₂)
    have hinside := hp.run { s₁ with nesting := s₁.nesting + 1 } ⟨hs₁.marked, hs₁.proper⟩
    refine hinside.bind fun _ s₃ hrun₃ => ?_
    have hs₃ := (hinside.proceeds hrun₃).delimited ⟨hs₁.marked, hs₁.proper⟩
    have hnesting : s₁.nesting + 1 ≤ s₃.nesting := hp.nesting.of_ok hrun₃
    have hclosed : Mirrors J closeBlock closeBlock s₃ := by
      refine mirrors_modify (Proceeds.wideFrame.nest s₃ _) fun _ => ?_
      simp only [Seam.across, Nat.add_sub_assoc (Nat.le_of_add_left_le hnesting)]
    refine hclosed.bind fun _ s₄ hrun₄ => (local_note words).run s₄ ?_
    exact (hclosed.proceeds hrun₄).delimited hs₃
  · simp only [block, ends_bind, ends_expectPeek, openBlock, closeBlock, ends_modify, ends_note]
    split
    · refine (hp.nesting _).mono (fun _ s' h => Nat.le_sub_of_add_le h) fun _ s' h => ?_
      exact Nat.le_of_succ_le h
    · exact Nat.le_refl _

/-! ## Recovering -/

section Recovering

/-- Skipping looks at nothing but the tokens that it passes. -/
theorem skipLength_of_take {depth : Int} {ts ts' : List Token} {n : Nat}
    (h : skipLength depth ts = some n) (htake : ts'.take n = ts.take n) :
    skipLength depth ts' = some n := by
  have hcons {u : Token} {k : Nat} {us rest : List Token}
      (h : us.take (k + 1) = (u :: rest).take (k + 1)) :
      ∃ rest', us = u :: rest' ∧ rest'.take k = rest.take k := by
    cases us with
    | nil => simp at h
    | cons x us =>
      obtain ⟨rfl, htail⟩ := List.cons.inj h
      exact ⟨us, rfl, htail⟩
  induction depth, ts using skipping_induction generalizing ts' n with
  | nil => cases h
  | semicolon depth t ts hend =>
    rw [skipLength_of_semicolon hend] at h
    cases h
    obtain ⟨rest, rfl, -⟩ := hcons htake
    exact skipLength_of_semicolon hend
  | closing depth t u ts hclose ih =>
    rw [skipLength_of_closing hclose] at h
    obtain ⟨m, hm, rfl⟩ := Option.map_eq_some_iff.mp h
    obtain ⟨_, rfl, hrest⟩ := hcons htake
    obtain ⟨_, rfl, hmore⟩ := hcons hrest
    rw [skipLength_of_closing hclose, ih hm hmore]
    rfl
  | passing depth t ts hstay hopen ih =>
    rw [skipLength_cons hstay hopen] at h
    obtain ⟨m, hm, rfl⟩ := Option.map_eq_some_iff.mp h
    obtain ⟨rest, rfl, hrest⟩ := hcons htake
    have hm₀ : m ≠ 0 := Nat.ne_of_gt (skipLength_bounds hm).1
    have hhead := congrArg List.head? hrest
    rw [List.head?_take, List.head?_take, if_neg hm₀, if_neg hm₀] at hhead
    rw [skipLength_cons hstay (hhead ▸ hopen), ih hm hrest]
    rfl

/-- Recovering in front of the seam, or up to it.  Diagnostics are counted with those from earlier on
the second stream. -/
theorem recover_across (mark : Nat) {n : Nat} {depth : Int} {s : State} {w : List Token}
    (hahead : s.cursor.ahead = w ++ J.first) (hskip : skipLength depth s.cursor.ahead = some n)
    (hn : n ≤ w.length) :
    recover (J.earlier.diagnostics.length + mark) depth (J.across s) = .ok () (J.across { s with
      cursor := s.cursor.skip n
      diagnostics := s.diagnostics ++ overdue mark s }) := by
  have hcross := Seam.cross_of_append hahead
  have hskip' : skipLength depth (J.across s).cursor.ahead = some n := by
    refine skipLength_of_take hskip ?_
    simp only [Seam.across, hcross, hahead, List.take_append_of_le_length hn]
  have hcurrent : (J.cross s.cursor).current = s.cursor.current := by
    obtain ⟨t, w', rfl⟩ : ∃ t w', w = t :: w' :=
      List.exists_cons_of_length_pos (Nat.lt_of_lt_of_le (skipLength_bounds hskip).1 hn)
    rw [hcross, Cursor.current_of_ahead hahead]
    rfl
  have hoverdue : overdue (J.earlier.diagnostics.length + mark) (J.across s) = overdue mark s := by
    simp only [overdue, Seam.across, hcurrent, List.length_append, Nat.add_left_cancel_iff]
  rw [unit_ok_iff_ends, ends_recover, hskip', hoverdue]
  simp only [Seam.across, Seam.cross_skip hahead hn, List.append_assoc]

theorem mirrors_recover (mark : Nat) (depth : Int) (s : State) :
    Mirrors J (recover mark depth) (recover (J.earlier.diagnostics.length + mark) depth) s := by
  have hproceeds := leads_recover Proceeds.wideFrame.toFrame.course mark depth s
  unfold Mirrors
  rw [ends_recover] at hproceeds ⊢
  cases hskip : skipLength depth s.cursor.ahead with
  | none =>
    rw [hskip] at hproceeds
    exact ⟨hproceeds, fun hstop => Stop.noConfusion hstop⟩
  | some n =>
    rw [hskip] at hproceeds
    refine ⟨hproceeds, fun hahead => ?_⟩
    obtain ⟨w, hw, hn⟩ := Seam.Ahead.skipped hahead
    exact recover_across mark hw hskip hn

/-- Open blocks are counted with those from earlier too; the difference is the same. -/
theorem mirrors_endStatement (mark base : Nat) (complete : Bool) {s : State} (hs : s.Delimited) :
    Mirrors J (endStatement mark base complete)
      (endStatement (J.earlier.diagnostics.length + mark) (J.earlier.nesting + base) complete) s := by
  have hrecover (s : State) : Mirrors J (recoverFrom mark base)
      (recoverFrom (J.earlier.diagnostics.length + mark) (J.earlier.nesting + base)) s := by
    have hdepth : ((J.earlier.nesting + s.nesting : Nat) : Int) - (J.earlier.nesting + base : Nat) =
        (s.nesting : Int) - base := by
      omega
    have hreset (s' : State) : Mirrors J (modify fun s => { s with nesting := base })
        (modify fun s => { s with nesting := J.earlier.nesting + base }) s' :=
      mirrors_modify (Proceeds.wideFrame.nest s' base) fun _ => rfl
    have hafter := (mirrors_recover mark ((s.nesting : Int) - base) s).bind fun _ s' _ => hreset s'
    rw [← hdepth] at hafter
    exact hafter.of_runs (by rw [hdepth]; rfl) fun _ => rfl
  unfold endStatement
  have hpeek := (local_peekIs (J := J) .semicolon).run s hs
  refine hpeek.bind fun b s₁ hrun₁ => ?_
  have hs₁ := (hpeek.proceeds hrun₁).delimited hs
  dsimp only
  split
  · exact (local_bind local_advance fun _ => local_advance).run s₁ hs₁
  · split
    · have hreport := (local_bind local_peek fun t => local_bind (local_unexpected t) fun _ =>
        local_advance).run (J := J) s₁ hs₁
      have hafter := hreport.bind fun _ s₂ _ => hrecover s₂
      simp only [bind_assoc] at hafter
      exact hafter
    · exact hrecover s₁

theorem endStatement_nesting (mark : Nat) {base : Nat} (complete : Bool) {s : State}
    (h : base ≤ s.nesting) : Ends (endStatement mark base complete) s
      (fun _ s' => base ≤ s'.nesting) fun _ s' => base ≤ s'.nesting := by
  have hrecover (s : State) (depth : Int) (h : base ≤ s.nesting) : Ends (recover mark depth) s
      (fun _ _ => base ≤ base) fun _ s' => base ≤ s'.nesting := by
    rw [ends_recover]
    split
    · exact Nat.le_refl base
    · exact h
  simp only [endStatement, ends_bind, ends_peekIs, ends_ite, ends_advance, ends_peek, ends_unexpected,
    ends_recoverFrom]
  split
  · exact h
  · split
    · exact hrecover _ _ h
    · exact hrecover _ _ h

theorem local_terminated {inner : Parser Nat} (h : Local J (statement inner)) :
    Local J (terminated inner) := by
  refine ⟨fun s hs => ?_, fun s => ?_⟩
  · have hfirst := (h.run s hs).succeeds
    have hafter := hfirst.bind fun complete s' hrun => mirrors_endStatement s.diagnostics.length
      s.nesting complete ((hfirst.proceeds hrun).delimited hs)
    rw [← List.length_append] at hafter
    exact hafter.of_runs rfl fun _ => rfl
  · rw [terminated, ends_bind, ends_reported, ends_bind, ends_get, ends_bind, ends_succeeds]
    refine (h.nesting s).mono (fun _ s' hs' => endStatement_nesting _ true hs') fun stop s' hs' => ?_
    cases stop with
    | reject => exact endStatement_nesting _ false hs'
    | fatal e => exact hs'

theorem local_orRecover {p : Parser Unit} (hp : Local J p) : Local J (orRecover p) := by
  refine ⟨fun s hs => ?_, fun s => ?_⟩
  · have hfirst := (hp.run s hs).succeeds
    have hafter : Mirrors J (do
        if ← succeeds p then advance
        else recover s.diagnostics.length 0)
        (do
        if ← succeeds p then advance
        else recover (J.earlier.diagnostics ++ s.diagnostics).length 0) s := by
      refine hfirst.bind fun b s' hrun => ?_
      split
      · exact local_advance.run s' ((hfirst.proceeds hrun).delimited hs)
      · rw [List.length_append]
        exact mirrors_recover _ 0 s'
    exact hafter.of_runs rfl fun _ => rfl
  · rw [orRecover, ends_bind, ends_reported, ends_bind, ends_succeeds]
    refine (hp.nesting s).mono (fun _ _ h => h) fun stop s' h => ?_
    cases stop with
    | fatal e => exact h
    | reject =>
      simp only [Bool.false_eq_true, if_false, ends_recover]
      split <;> exact h

end Recovering

/-! ## The steps of declarations -/

section Declaring

theorem local_modifyTable (f : Table → Table) : Local J (modifyTable f) :=
  local_modify (fun s => Proceeds.withTable s _) (fun _ => rfl) fun _ _ => rfl

theorem local_andThenTable {p : Parser α} (hp : Local J p) (f : Table → Table) :
    Local J (andThenTable p f) := by
  refine ⟨fun s hs => ?_, fun s => ?_⟩
  · unfold Mirrors
    rw [ends_andThenTable]
    refine (hp.run s hs).mono (fun a s' h => ⟨⟨h.1.1, h.1.2, h.1.3, h.1.4, h.1.5⟩, fun hahead => ?_⟩)
      fun stop s' h => ⟨⟨h.1.1, h.1.2, h.1.3, h.1.4, h.1.5⟩, fun hstop hahead => ?_⟩
    · rw [ok_iff_ends, ends_andThenTable, ends_of_ok (h.2 hahead)]
      exact ⟨rfl, rfl⟩
    · rw [error_iff_ends, ends_andThenTable, ends_of_error (h.2 hstop hahead)]
      exact ⟨rfl, rfl⟩
  · rw [ends_andThenTable]
    exact hp.nesting s

theorem local_orDiscard {p : Parser α} (hp : Local J p) : Local J (orDiscard p) := by
  refine ⟨fun s hs => ?_, fun s => ?_⟩
  · unfold Mirrors
    rw [ends_orDiscard]
    refine (hp.run s hs).mono (fun a s' h => ⟨h.1, fun hahead => ?_⟩)
      fun stop s' h => ⟨⟨h.1.1, h.1.2, h.1.3, h.1.4, h.1.5⟩, fun hstop hahead => ?_⟩
    · rw [ok_iff_ends, ends_orDiscard, ends_of_ok (h.2 hahead)]
      exact ⟨rfl, rfl⟩
    · rw [error_iff_ends, ends_orDiscard, ends_of_error (h.2 hstop hahead)]
      exact ⟨rfl, rfl⟩
  · rw [ends_orDiscard]
    exact hp.nesting s

theorem local_commit (place : Token) : Local J (commit place) := by
  have hproceeds := leads_commit Proceeds.wideFrame.course place
  refine ⟨fun s hs => ?_, fun s => ?_⟩
  · have hends := hproceeds s
    unfold Mirrors
    rw [ends_commit_table] at hends ⊢
    split at hends
    case isTrue hok =>
      rw [if_pos hok]
      refine ⟨hends, fun _ => ?_⟩
      rw [ok_iff_ends, ends_commit_table]
      exact (if_pos hok).mpr ⟨rfl, rfl⟩
    case isFalse hbound =>
      rw [if_neg hbound]
      refine ⟨hends, fun _ => ?_⟩
      rw [ok_iff_ends, ends_commit_table]
      exact (if_neg hbound).mpr ⟨rfl, by simp [Seam.across]⟩
  · rw [ends_commit_table]
    split
    · exact Nat.le_refl _
    · exact Nat.le_refl _

/-- Bounds that are there start behind a token, the left bracket. -/
theorem optionalBounds_passes (s : State) :
    Ends optionalBounds s (fun bounds? s' => bounds?.isSome → s'.cursor.ahead <:+ s.cursor.ahead.tail)
      fun _ _ => True := by
  unfold optionalBounds
  rw [ends_bind, ends_peekIs, ends_ite]
  split
  · rw [ends_bind, ends_advance, ends_bind]
    refine (Proceeds.wideFrame.keeps made_bounds _).mono (fun b s' h => ?_) fun _ _ _ => trivial
    exact fun _ => h.ahead
  · exact fun h => absurd h Bool.false_ne_true

theorem local_bracketed {f : Token → Option Bounds → Parser Unit} (hbounds : Local J optionalBounds)
    (hf : ∀ t bounds?, Local J (f t bounds?)) (hnone : ∀ t u, f t none = f u none) :
    Local J (do
      let start := (← get).cursor.next.peek
      f start (← orDiscard optionalBounds)) := by
  have hdiscard := local_orDiscard hbounds
  refine ⟨fun s hs => ?_, fun s => (local_bind hdiscard (hf s.cursor.next.peek)).nesting s⟩
  have hfirst := hdiscard.run s hs
  suffices hafter : Mirrors J (orDiscard optionalBounds >>= f s.cursor.next.peek)
      (orDiscard optionalBounds >>= f (J.cross s.cursor).next.peek) s from
    hafter.of_runs rfl fun _ => rfl
  refine hfirst.bind fun bounds? s' hrun => ?_
  have hrest := (hf s.cursor.next.peek bounds?).run s' ((hfirst.proceeds hrun).delimited hs)
  cases bounds? with
  | none =>
    rw [hnone s.cursor.next.peek (J.cross s.cursor).next.peek] at hrest ⊢
    exact hrest
  | some b =>
    refine hrest.of_runs rfl fun hahead => ?_
    have hpasses := (ends_orDiscard (E := fun _ _ => True) _).mpr (optionalBounds_passes s)
    rw [ends_of_ok hrun] at hpasses
    have hnext : J.Ahead s.cursor.next := hahead.of_suffix (hpasses rfl)
    rw [hnext.cross_next, hnext.cross_peek]

variable (hsame : J.earlier.builder = none)

include hsame

theorem local_modifyBuilder {f : State → State} (g : Ir.Builder → Ir.Builder)
    (hf : ∀ s, f s = { s with builder := g s.builder }) : Local J (modify f) := by
  refine local_modify (fun s => ?_) (fun s => ?_) fun s _ => ?_
  · rw [hf]
    exact Proceeds.withBuilder s _
  · rw [hf]
  · simp only [hf, Seam.across, hsame, Option.getD_none]

theorem local_leaveFunction (leave : Ir.Builder → Except Ir.Error Ir.Builder) :
    Local J (leaveFunction leave) := by
  refine local_modifyBuilder hsame (fun b => (leave b).toOption.getD b) fun s => ?_
  cases leave s.builder <;> rfl

/-- The state is written back with another builder, which does not depend on the tokens. -/
theorem local_openFunction (sym : Symbol) (name : Token) {inside : Ir.Builder → Parser Unit}
    (h : ∀ b, Local J (inside b)) : Local J (openFunction sym name inside) := by
  have hget (t : State) : (get : Parser State) t = .ok t t := rfl
  have hcross (s : State) : (J.across s).builder.openProcedure (J.across s).table.irName sym =
      s.builder.openProcedure s.table.irName sym := by
    simp only [Seam.across, hsame, Option.getD_none]
  unfold openFunction
  refine ⟨fun s hs => ?_, fun s => ?_⟩
  · cases hopen : s.builder.openProcedure s.table.irName sym with
    | error e =>
      refine ((local_rejectToken name).run s hs).of_runs ?_ fun _ => ?_
      · rw [bind_run_of_ok (hget s), hopen]
      · rw [bind_run_of_ok (hget _), hcross, hopen]
    | ok builder =>
      have hset := local_modifyBuilder hsame (fun _ => builder) fun _ => rfl
      refine ((local_bind hset fun _ => h builder).run s hs).of_runs ?_ fun _ => ?_
      · rw [bind_run_of_ok (hget s), hopen]
        rfl
      · rw [bind_run_of_ok (hget _), hcross, hopen]
        rfl
  · rw [ends_bind, ends_get]
    split
    · exact Nat.le_refl _
    · rw [ends_bind, ends_set]
      exact (h _).nesting _

end Declaring

/-! ## Productions -/

theorem Made.isLocal {p : Parser α} {w k : Bool} (h : Made (fun _ p => Local J p) w k p)
    (hsame : w = true → J.earlier.builder = none) : Local J p := by
  induction h with
  | given h => exact h
  | pure a => exact local_pure a
  | bind _ _ ihp ihf => exact local_bind (ihp hsame) fun b => ihf b hsame
  | look _ hf ihf =>
    refine local_get (fun s => ihf s hsame) fun s _ => hf s _ rfl fun hw => ?_
    simp only [Seam.across, hsame hw, Option.getD_none]
  | current => exact local_current
  | peek => exact local_peek
  | advance => exact local_advance
  | note words => exact local_note words
  | unexpected t => exact local_unexpected t
  | rejectToken t => exact local_rejectToken t
  | rejectArgument t => exact local_rejectArgument t
  | giveUp e => exact local_throw _
  | block _ words ihp => exact local_block (ihp hsame) words
  | terminated _ ih => exact local_terminated (ih hsame)
  | orRecover _ ihp => exact local_orRecover (ihp hsame)
  | loop hloop _ ihp => exact local_loop hloop fun n => ihp n hsame
  | modifyTable actions => exact local_modifyTable _
  | andThenTable _ actions ihp => exact local_andThenTable (ihp hsame) _
  | orDiscard _ ihp => exact local_orDiscard (ihp hsame)
  | commit place => exact local_commit place
  | @emitStorage _ _ sym line _ =>
    exact local_modifyBuilder (hsame rfl)
      (fun b => if sym.global then b.addGlobal line else b.addLocal line) fun _ => rfl
  | openProgram => exact local_modifyBuilder (hsame rfl) _ fun _ => rfl
  | openFunction sym name _ ih => exact local_openFunction (hsame rfl) sym name fun b => ih b hsame
  | leaveFunction kept => exact local_leaveFunction (hsame rfl) _
  | bracketed _ _ hnone ihbounds ihf =>
    exact local_bracketed (ihbounds hsame) (fun t bounds? => ihf t bounds? hsame) hnone

end OnePass.Program
