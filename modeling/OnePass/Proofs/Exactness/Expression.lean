import OnePass.Proofs.Exactness.Literals
import OnePass.Proofs.Run
import OnePass.Proofs.Soundness.Expression
set_option autoImplicit false

/-!
# Expressions are recognised and checked exactly

On the tokens of an expression of the grammar, the production of expressions does nothing but check
literals: it ends on the last token with the context that `settle` gives, or it reports the literal
that `settle` stops at (`Checks`).  The proof follows the derivation (`exists_checkedAt`).  What the
expression is when taken as a whole is read off its word as well (`exists_form`).  Together with
soundness this says exactly what is recognised (`expression_exact`).
-/

namespace OnePass.Program

open OnePass.Grammar

/-! ## Tokens that end an expression -/

/-- The levels in order, the loosest first. -/
def rank : Level → Nat
  | .logical => 0
  | .additive => 1
  | .relational => 2
  | .multiplicative => 3
  | .factor => 4

theorem rank_tighter {level : Level} (h : level ≠ .factor) : rank level < rank (tighter level) := by
  cases level <;> simp_all [rank, tighter]

theorem rank_le_tighter (level : Level) : rank level ≤ rank (tighter level) := by
  cases level <;> simp [rank, tighter]

/-- What follows an expression of a level: no index, and no operator of that level or of a tighter
one. -/
def Follows (level : Level) (rest : List Token) : Prop :=
  ∃ t more, rest = t :: more ∧ t.kind ≠ .leftBracket ∧
    ∀ o, t.kind = .op o → rank (levelOf o) < rank level

theorem Follows.of_kind {level : Level} {t : Token} {more : List Token} {k : TokenKind}
    (ht : t.kind = k) (hbracket : k ≠ .leftBracket) (hop : ∀ o, k ≠ .op o) :
    Follows level (t :: more) :=
  ⟨t, more, rfl, ht ▸ hbracket, fun o ho => absurd (ht.symm.trans ho) (hop o)⟩

theorem Follows.tighter {level : Level} {rest : List Token} (h : Follows level rest) :
    Follows (tighter level) rest := by
  obtain ⟨t, more, rfl, hbracket, hop⟩ := h
  exact ⟨t, more, rfl, hbracket, fun o ho => Nat.lt_of_lt_of_le (hop o ho) (rank_le_tighter level)⟩

theorem Follows.operator {level : Level} {o : Operator} {t : Token} {more : List Token}
    (hlevel : level ≠ .factor) (ho : levelOf o = level) (ht : t.kind = .op o) :
    Follows (Grammar.tighter level) (t :: more) := by
  refine ⟨t, more, rfl, by simp [ht], fun o' ho' => ?_⟩
  obtain rfl : o = o' := by simpa using ht.symm.trans ho'
  rw [ho]
  exact rank_tighter hlevel

theorem joinsAt_of_kind {level : Level} {o : Operator} {t : Token} (ht : t.kind = .op o)
    (ho : levelOf o = level) : joinsAt level t = true := by
  simp [joinsAt, ht, ho]

theorem Follows.not_joinsAt {level : Level} {t : Token} {more : List Token}
    (h : Follows level (t :: more)) : joinsAt level t = false := by
  obtain ⟨_, _, heq, _, hop⟩ := h
  obtain ⟨rfl, rfl⟩ := List.cons.inj heq
  unfold joinsAt
  split
  · next o ho =>
    have hlt := hop o ho
    simp only [decide_eq_false_iff_not]
    intro heq
    rw [heq] at hlt
    exact Nat.lt_irrefl _ hlt
  · rfl

/-! ## The beginning of an expression -/

/-- An expression has a first token; it closes no parenthesis, and only an expression of the loosest
level starts with `NOT`. -/
theorem expression_first {level : Level} {w : List TokenKind} (h : Grammar.Expression level w) :
    ∃ k v, w = k :: v ∧ k ≠ .rightParen ∧ (level ≠ .logical → k ≠ .kwNot) := by
  induction h with
  | literal l => exact ⟨_, _, rfl, by simp, by simp⟩
  | negative _ _ => exact ⟨_, _, rfl, by simp, by simp⟩
  | parens _ _ => exact ⟨_, _, rfl, by simp, by simp⟩
  | name => exact ⟨_, _, rfl, by simp, by simp⟩
  | element _ _ => exact ⟨_, _, rfl, by simp, by simp⟩
  | negation _ _ => exact ⟨_, _, rfl, by simp, by simp⟩
  | @operand level _ _ _ ih =>
    obtain ⟨k, v, hw, hright, hk⟩ := ih
    exact ⟨k, v, hw, hright, fun _ => hk (by cases level <;> simp [tighter])⟩
  | @joined level _ _ _ _ _ _ ih _ =>
    obtain ⟨k, v, rfl, hright, hk⟩ := ih
    exact ⟨k, _, rfl, hright, fun _ => hk (by cases level <;> simp [tighter])⟩

theorem expression_ne_nil {level : Level} {w : List TokenKind} (h : Grammar.Expression level w) :
    w ≠ [] := by
  obtain ⟨k, v, rfl, -⟩ := expression_first h
  exact List.cons_ne_nil k v

/-- The last token of an expression behind another token. -/
theorem length_cons_expression {level : Level} {w : List TokenKind}
    (h : Grammar.Expression level w) (k : TokenKind) : 1 + (w.length - 1) = (k :: w).length - 1 := by
  rw [List.length_cons, Nat.add_sub_cancel, Nat.add_sub_of_le]
  exact List.length_pos_iff.mpr (expression_ne_nil h)

/-! ## States further on -/

/-- The state with a number of tokens stepped over. -/
def State.past (s : State) (n : Nat) : State := { s with cursor := s.cursor.skip n }

/-- The state in which the token behind a number of tokens has been refused as a value. -/
def State.refuse (s : State) (n : Nat) : State :=
  { s.past n with diagnostics := s.diagnostics ++
    [.argument ((s.past n).cursor.current.position s.file) (s.past n).cursor.current.literal] }

section States

variable {s : State} {w : List TokenKind} {rest : List Token}

theorem past_past (s : State) (m n : Nat) : (s.past m).past n = s.past (m + n) := by
  rw [State.past, State.past, State.past, Cursor.skip_skip]

theorem past_refuse (s : State) (m n : Nat) : (s.past m).refuse n = s.refuse (m + n) := by
  rw [State.refuse, State.refuse, past_past]
  rfl

theorem past_zero (s : State) : s.past 0 = s := by
  rw [State.past, Cursor.skip_zero]

theorem ahead_past (s : State) (n : Nat) : (s.past n).cursor.ahead = s.cursor.ahead.drop n := rfl

theorem next_eq_past {t : Token} (h : s.cursor.ahead = t :: rest) :
    { s with cursor := s.cursor.next } = s.past 1 := by
  rw [State.past, Cursor.next_eq_skip h]

theorem ahead_past_of_spells (h : Spells w s.cursor.ahead rest) :
    (s.past w.length).cursor.ahead = rest := by
  obtain ⟨ts, hahead, rfl⟩ := spells_iff.mp h
  rw [ahead_past, hahead, List.length_map, List.drop_left]

/-- The last token of a word is followed by what follows the word. -/
theorem exists_last_of_spells (h : Spells w s.cursor.ahead rest) (hw : w ≠ []) :
    ∃ t, (s.past (w.length - 1)).cursor.ahead = t :: rest := by
  have hpos : w.length - 1 + 1 = w.length := Nat.sub_add_cancel (List.length_pos_iff.mpr hw)
  have hlength := h.length
  have htail : (s.cursor.ahead.drop (w.length - 1)).tail = rest := by
    rw [List.tail_drop, hpos]
    exact ahead_past_of_spells h
  rw [ahead_past]
  cases hahead : s.cursor.ahead.drop (w.length - 1) with
  | nil =>
    have := List.drop_eq_nil_iff.mp hahead
    omega
  | cons t ts =>
    rw [hahead] at htail
    exact ⟨t, congrArg (t :: ·) htail⟩

theorem peek_past_of_spells (h : Spells w s.cursor.ahead rest) (hw : w ≠ []) :
    (s.past (w.length - 1)).cursor.peek = rest.headD s.cursor.eof := by
  obtain ⟨t, hlast⟩ := exists_last_of_spells h hw
  rw [Cursor.peek, hlast]
  rfl

/-- From the last token of a word, two steps lead behind the token that follows. -/
theorem next_next_past {t : Token} (h : Spells w s.cursor.ahead (t :: rest)) (hw : w ≠ []) :
    { s.past (w.length - 1) with cursor := (s.past (w.length - 1)).cursor.next.next } =
      s.past (w.length + 1) := by
  have hpos : w.length - 1 + 1 = w.length := Nat.sub_add_cancel (List.length_pos_iff.mpr hw)
  obtain ⟨u, hlast⟩ := exists_last_of_spells h hw
  have hnext := next_eq_past hlast
  rw [past_past, hpos] at hnext
  have hnext' := next_eq_past (ahead_past_of_spells h)
  rw [past_past] at hnext'
  rw [← hnext', ← hnext]

theorem expectPeek_run {t u : Token} {k : TokenKind} (h : s.cursor.ahead = t :: u :: rest)
    (hu : u.kind = k) : expectPeek k s = .ok () (s.past 1) := by
  refine ok_iff_ends.mpr ?_
  rw [ends_expectPeek, if_pos (by rw [Cursor.peek_of_ahead h, hu])]
  exact ⟨rfl, next_eq_past h⟩

end States

/-! ## What an expression is as a whole -/

/-- The forms of expressions that are told apart. -/
inductive Form where
  /-- a name, with or without an index -/
  | name
  /-- a literal, with or without minus signs -/
  | literal
  /-- anything else -/
  | compound
  deriving DecidableEq, Repr, Inhabited

namespace Form

/-- What is known of an expression of a form whose word starts in a state: the name is its first token,
and the literal its last one. -/
def operand (s : State) (w : List TokenKind) : Form → Operand
  | .name => .name s.cursor.current
  | .literal => .literal (s.past (w.length - 1)).cursor.current
  | .compound => .compound

/-- The form with a minus sign in front. -/
def negate : Form → Form
  | .literal => .literal
  | _ => .compound

end Form

/-! ## Productions that check -/

/-- A production of expressions that does nothing but check the literals of a word. -/
structure Checks (p : Parser (Operand × Context)) (s : State) (ctx : Context) (w : List TokenKind)
    (form : Form) : Prop where
  accepted {ctx₁ : Context} : settle ctx 0 w = .ok ctx₁ →
    p s = .ok (form.operand s w, ctx₁) (s.past (w.length - 1))
  refused {n : Nat} : settle ctx 0 w = .error n → p s = .error .reject (s.refuse n)

theorem Checks.of_run_eq {p q : Parser (Operand × Context)} {s : State} {ctx : Context}
    {w : List TokenKind} {form : Form} (h : Checks q s ctx w form) (hrun : p s = q s) :
    Checks p s ctx w form :=
  ⟨fun hsettle => hrun.trans (h.accepted hsettle), fun hsettle => hrun.trans (h.refused hsettle)⟩

section Levels

variable {ctx : Context} {s : State} {rest : List Token} {level : Level} {form form₁ : Form}
  {operand again : ExpressionParser} {v w : List TokenKind}

theorem joined_run {left : Operand} {ctx₁ : Context} {s₁ : State}
    (h : operand ctx s = .ok (left, ctx₁) s₁) :
    joined level operand again ctx s =
      if joinsAt level s₁.cursor.peek then
        (again ctx₁ >>= fun r => pure (.compound, r.2)) { s₁ with cursor := s₁.cursor.next.next }
      else .ok (left, ctx₁) s₁ := by
  rw [joined, bind_run_of_ok h]
  change (if joinsAt level s₁.cursor.peek then _ else _ : Parser (Operand × Context)) s₁ = _
  split
  · rfl
  · rfl

theorem joined_checks_operand (h : Checks (operand ctx) s ctx w form)
    (hs : Spells w s.cursor.ahead rest) (hw : w ≠ [])
    (hfollows : Follows level [rest.headD s.cursor.eof]) :
    Checks (joined level operand again ctx) s ctx w form where
  accepted hsettle := by
    rw [joined_run (h.accepted hsettle), peek_past_of_spells hs hw, hfollows.not_joinsAt]
    rfl
  refused hsettle := bind_run_of_error (h.refused hsettle)

theorem joined_checks {o : Operator} {t : Token} {middle : List Token}
    (hv : Grammar.Expression (tighter level) v) (ho : levelOf o = level) (ht : t.kind = .op o)
    (h : Checks (operand ctx) s ctx v form) (hs : Spells v s.cursor.ahead (t :: middle))
    (hw : w ≠ []) (hagain : ∀ ctx₁, Checks (again ctx₁) (s.past (v.length + 1)) ctx₁ w form₁) :
    Checks (joined level operand again ctx) s ctx (v ++ .op o :: w) .compound := by
  have hne := expression_ne_nil hv
  have hlength : (v ++ TokenKind.op o :: w).length - 1 = v.length + 1 + (w.length - 1) := by
    have := List.length_pos_iff.mpr hw
    simp only [List.length_append, List.length_cons]
    omega
  have hsecond {ctx₁ : Context} (hfirst : settle ctx 0 v = .ok ctx₁) :
      joined level operand again ctx s =
        (again ctx₁ >>= fun r => pure (.compound, r.2)) (s.past (v.length + 1)) := by
    rw [joined_run (h.accepted hfirst), peek_past_of_spells hs hne, next_next_past hs hne]
    exact if_pos (joinsAt_of_kind ht ho)
  constructor
  · intro ctx₂ hsettle
    rw [settle_joined hv] at hsettle
    cases hfirst : settle ctx 0 v with
    | error n =>
      rw [hfirst] at hsettle
      cases hsettle
    | ok ctx₁ =>
      rw [hfirst] at hsettle
      cases hrest : settle ctx₁ 0 w with
      | error n =>
        simp only [Except.bind, hrest] at hsettle
        cases hsettle
      | ok ctx₃ =>
        simp only [Except.bind, hrest] at hsettle
        cases hsettle
        rw [hsecond hfirst, bind_run_of_ok ((hagain ctx₁).accepted hrest), past_past, hlength]
        rfl
  · intro n hsettle
    rw [settle_joined hv] at hsettle
    cases hfirst : settle ctx 0 v with
    | error m =>
      rw [hfirst] at hsettle
      cases hsettle
      exact bind_run_of_error (h.refused hfirst)
    | ok ctx₁ =>
      rw [hfirst] at hsettle
      cases hrest : settle ctx₁ 0 w with
      | ok ctx₃ =>
        simp only [Except.bind, hrest] at hsettle
        cases hsettle
      | error m =>
        simp only [Except.bind, hrest] at hsettle
        cases hsettle
        rw [hsecond hfirst, bind_run_of_error ((hagain ctx₁).refused hrest), past_refuse,
          Nat.add_comm]

/-- A production that steps over `k` tokens, checks the literals of a word and goes on without a
check. -/
theorem Checks.enclosed {p inner : Parser (Operand × Context)}
    {f : Operand × Context → Parser (Operand × Context)} {k : Nat} {ctx₀ : Context}
    {g : Context → Context} (h : Checks inner (s.past k) ctx₀ w form)
    (hrun : p s = (inner >>= f) (s.past k))
    (hsettle : settle ctx 0 v = ((settle ctx₀ 0 w).map g).mapError (· + k))
    (hf : ∀ ctx₁, f (form.operand (s.past k) w, ctx₁) (s.past (k + (w.length - 1))) =
      .ok (form₁.operand s v, g ctx₁) (s.past (v.length - 1))) :
    Checks p s ctx v form₁ := by
  constructor
  · intro ctx₂ hv
    rw [hsettle] at hv
    cases hw : settle ctx₀ 0 w with
    | error n =>
      rw [hw] at hv
      cases hv
    | ok ctx₁ =>
      rw [hw] at hv
      cases hv
      rw [hrun, bind_run_of_ok (h.accepted hw), past_past]
      exact hf ctx₁
  · intro n hv
    rw [hsettle] at hv
    cases hw : settle ctx₀ 0 w with
    | ok ctx₁ =>
      rw [hw] at hv
      cases hv
    | error m =>
      rw [hw] at hv
      cases hv
      rw [hrun, bind_run_of_error (h.refused hw), past_refuse, Nat.add_comm]

end Levels

/-! ## Expressions of every level -/

/-- What holds of the word of an expression whose recurrences are bounded by its length, with the level
itself not counted. -/
def CheckedAt (level : Level) (w : List TokenKind) (form : Form) : Prop :=
  ∀ (n : Nat) (ctx : Context) (s : State) (rest : List Token), w.length ≤ n + 1 →
    Spells w s.cursor.ahead rest → Follows level [rest.headD s.cursor.eof] →
    Checks (atLevel (levelWithin n) level ctx) s ctx w form

section Cases

variable {ctx : Context} {s : State} {rest : List Token} {level : Level} {form : Form}
  {w : List TokenKind}

theorem CheckedAt.recurrence (hw : Grammar.Expression level w) (h : CheckedAt level w form) {n : Nat}
    (hn : w.length ≤ n) (hs : Spells w s.cursor.ahead rest)
    (hfollows : Follows level [rest.headD s.cursor.eof]) :
    Checks (levelWithin n level ctx) s ctx w form := by
  obtain ⟨k, v, rfl, -⟩ := expression_first hw
  cases n with
  | zero => simp at hn
  | succ n => exact h n ctx s rest hn hs hfollows

theorem checkedAt_literal (l : Literal) : CheckedAt .factor [.literal l] .literal := by
  rintro n ctx s rest - ⟨t, _, hs, ht, rfl⟩ -
  have hcurrent : s.cursor.current = t := Cursor.current_of_ahead hs
  have hcheck : check? ctx 0 (.literal l) = ctx.accept? l.scalar := rfl
  constructor
  · intro ctx₁ hsettle
    cases haccept : ctx.accept? l.scalar with
    | none =>
      rw [settle_cons_of_none (hcheck.trans haccept)] at hsettle
      cases hsettle
    | some ctx₂ =>
      rw [settle_cons_of_some (hcheck.trans haccept)] at hsettle
      cases hsettle
      change _ = EStateM.Result.ok (Operand.literal (s.past 0).cursor.current, ctx₁) (s.past 0)
      rw [past_zero, hcurrent]
      refine run_eq_of_ends (q := pure (Operand.literal t, ctx₁)) fun Q E h => ?_
      simpa only [atLevel, factor, ends_bind, ends_current, hcurrent, ht, haccept] using h
  · intro m hsettle
    cases haccept : ctx.accept? l.scalar with
    | none =>
      rw [settle_cons_of_none (hcheck.trans haccept)] at hsettle
      cases hsettle
      rw [State.refuse, past_zero, hcurrent]
      refine run_eq_of_ends (q := rejectArgument t) fun Q E h => ?_
      simpa only [atLevel, factor, ends_bind, ends_current, hcurrent, ht, haccept] using h
    | some ctx₂ =>
      rw [settle_cons_of_some (hcheck.trans haccept)] at hsettle
      cases hsettle

theorem checkedAt_negative (hw : Grammar.Expression .factor w) (h : CheckedAt .factor w form) :
    CheckedAt .factor (.op .minus :: w) form.negate := by
  rintro n ctx s rest hn ⟨t, more, hs, ht, hmore⟩ hfollows
  have hahead : (s.past 1).cursor.ahead = more := by rw [ahead_past, hs]; rfl
  have hinner : Checks (levelWithin n .factor ctx) (s.past 1) ctx w form :=
    h.recurrence hw (by simpa using hn) (hahead ▸ hmore) hfollows
  refine hinner.enclosed (g := id)
    (f := fun inner => pure (inner.1.negate, inner.2)) ?_ ?_ fun ctx₁ => ?_
  · refine run_eq_of_ends fun Q E hends => ?_
    rw [← next_eq_past hs] at hends
    simpa only [atLevel, factor, ends_bind, ends_current, Cursor.current_of_ahead hs, ht,
      ends_advance] using hends
  · rw [settle_negative]
    cases settle ctx 0 w <;> rfl
  · have hlength := length_cons_expression hw (.op .minus)
    cases form with
    | name => exact congrArg (EStateM.Result.ok _ <| s.past ·) hlength
    | literal =>
      rw [Form.operand, past_past, hlength]
      rfl
    | compound => exact congrArg (EStateM.Result.ok _ <| s.past ·) hlength

/-- The closing token behind the word of an expression. -/
theorem expectPeek_behind {k : TokenKind} {u : Token} (hw : w ≠ [])
    (hs : Spells w s.cursor.ahead (u :: rest)) (hu : u.kind = k) :
    expectPeek k (s.past (w.length - 1)) = .ok () (s.past w.length) := by
  have hpos : w.length - 1 + 1 = w.length := Nat.sub_add_cancel (List.length_pos_iff.mpr hw)
  obtain ⟨t, hlast⟩ := exists_last_of_spells hs hw
  rw [expectPeek_run hlast hu, past_past, hpos]

theorem checkedAt_parens (hw : Grammar.Expression .logical w) (h : CheckedAt .logical w form) :
    CheckedAt .factor (.leftParen :: (w ++ [.rightParen])) .compound := by
  intro n ctx s rest hn hspells hfollows
  simp only [fills_cons, fills_append, fills_nil] at hspells
  obtain ⟨t, more, hs, ht, _, hmore, u, rest, rfl, hu, rfl⟩ := hspells
  simp only [List.length_cons, List.length_append, List.length_nil] at hn
  have hne := expression_ne_nil hw
  have hinside : Spells w (s.past 1).cursor.ahead (u :: rest) := by
    rw [ahead_past, hs]
    exact hmore
  have hinner : Checks (levelWithin n .logical ctx) (s.past 1) ctx w form :=
    h.recurrence hw (by omega) hinside (.of_kind hu (by simp) (by simp))
  refine hinner.enclosed (g := id)
    (f := fun inner => expectPeek .rightParen >>= fun _ => pure (.compound, inner.2))
    ?_ ?_ fun ctx₁ => ?_
  · refine run_eq_of_ends fun Q E hends => ?_
    rw [← next_eq_past hs] at hends
    simpa only [atLevel, factor, ends_bind, ends_current, Cursor.current_of_ahead hs, ht,
      ends_advance] using hends
  · rw [settle_parens hw]
    cases settle ctx 0 w <;> rfl
  · rw [← past_past, bind_run_of_ok (expectPeek_behind hne hinside hu), past_past, Nat.add_comm]
    simp only [List.length_cons, List.length_append, List.length_nil]
    rfl

theorem checkedAt_name : CheckedAt .factor [.identifier] .name := by
  rintro n ctx s rest - ⟨t, _, hs, ht, rfl⟩ ⟨_, _, hcons, hbracket, -⟩
  obtain ⟨rfl, rfl⟩ := List.cons.inj hcons
  have hcurrent : s.cursor.current = t := Cursor.current_of_ahead hs
  have hpeek : s.cursor.peek.kind ≠ .leftBracket := by
    rw [Cursor.peek, hs]
    exact hbracket
  constructor
  · intro ctx₁ hsettle
    cases hsettle
    change _ = EStateM.Result.ok (Operand.name s.cursor.current, ctx) (s.past 0)
    rw [past_zero, hcurrent]
    refine run_eq_of_ends (q := pure (Operand.name t, ctx)) fun Q E h => ?_
    simpa only [atLevel, factor, reference, ends_bind, ends_current, hcurrent, ht, ends_peekIs,
      hpeek, decide_false, ends_ite, Bool.false_eq_true, if_false, ends_pure] using h
  · intro m hsettle
    cases hsettle

theorem checkedAt_element (hw : Grammar.Expression .logical w) (h : CheckedAt .logical w form) :
    CheckedAt .factor (.identifier :: .leftBracket :: (w ++ [.rightBracket])) .name := by
  intro n ctx s rest hn hspells hfollows
  simp only [fills_cons, fills_append, fills_nil] at hspells
  obtain ⟨t, _, hs, ht, b, more, rfl, hb, _, hmore, u, rest, rfl, hu, rfl⟩ := hspells
  simp only [List.length_cons, List.length_append, List.length_nil] at hn
  have hne := expression_ne_nil hw
  have hcurrent : s.cursor.current = t := Cursor.current_of_ahead hs
  have hinside : Spells w (s.past 2).cursor.ahead (u :: rest) := by
    rw [ahead_past, hs]
    exact hmore
  have hnext : { s with cursor := s.cursor.next.next } = s.past 2 := by
    have hsecond : (s.past 1).cursor.ahead = b :: more := by rw [ahead_past, hs]; rfl
    rw [← past_past s 1 1, ← next_eq_past hsecond, ← next_eq_past hs]
  have hinner : Checks (levelWithin n .logical .index) (s.past 2) .index w form :=
    h.recurrence hw (by omega) hinside (.of_kind hu (by simp) (by simp))
  refine hinner.enclosed (g := fun _ => ctx)
    (f := fun _ => expectPeek .rightBracket >>= fun _ => pure (.name t, ctx)) ?_ ?_ fun ctx₁ => ?_
  · refine run_eq_of_ends fun Q E hends => ?_
    rw [← hnext] at hends
    simpa only [atLevel, factor, reference, ends_bind, ends_current, hcurrent, ht, ends_peekIs,
      Cursor.peek_of_ahead hs, hb, decide_true, ends_ite, if_true, ends_advance, ends_pure]
      using hends
  · rw [settle_element hw, settle_inside hw]
  · rw [← past_past, bind_run_of_ok (expectPeek_behind hne hinside hu), past_past, Nat.add_comm,
      Form.operand, hcurrent]
    simp only [List.length_cons, List.length_append, List.length_nil]
    rfl

theorem checkedAt_negation (hw : Grammar.Expression .additive w) (h : CheckedAt .additive w form) :
    CheckedAt .logical (.kwNot :: w) .compound := by
  rintro n ctx s rest hn ⟨t, more, hs, ht, hmore⟩ hfollows
  simp only [List.length_cons] at hn
  have hahead : (s.past 1).cursor.ahead = more := by rw [ahead_past, hs]; rfl
  have hinner : Checks (sum (levelWithin n) ctx) (s.past 1) ctx w form :=
    h n ctx _ rest (by omega) (hahead ▸ hmore) hfollows.tighter
  refine hinner.enclosed (g := id) (f := fun inner => pure (.compound, inner.2)) ?_ ?_ fun ctx₁ => ?_
  · refine run_eq_of_ends fun Q E hends => ?_
    rw [← next_eq_past hs] at hends
    simpa only [atLevel, whole, ends_bind, ends_currentIs, Cursor.current_of_ahead hs, ht,
      decide_true, ends_ite, if_true, ends_advance] using hends
  · rw [settle_negation]
    cases settle ctx 0 w <;> rfl
  · exact congrArg (EStateM.Result.ok _ <| s.past ·) (length_cons_expression hw .kwNot)

/-- Every level but that of factors joins operands, unless the expression is a negation. -/
theorem atLevel_run (n : Nat) {k : TokenKind} {v : List TokenKind} (hlevel : level ≠ .factor)
    (hs : Spells (k :: v) s.cursor.ahead rest) (hk : k ≠ .kwNot) :
    atLevel (levelWithin n) level ctx s =
      joined level (atLevel (levelWithin n) (tighter level)) (levelWithin n level) ctx s := by
  obtain ⟨t, _, hahead, ht, -⟩ := hs
  cases level with
  | logical =>
    refine run_eq_of_ends fun Q E h => ?_
    simp only [atLevel, whole, ends_bind, ends_currentIs, decide_eq_true_eq]
    rwa [if_neg (by rwa [Cursor.current_of_ahead hahead, ht])]
  | additive => rfl
  | relational => rfl
  | multiplicative => rfl
  | factor => exact absurd rfl hlevel

theorem tighter_ne_logical (level : Level) : tighter level ≠ .logical := by
  cases level <;> simp [tighter]

theorem checkedAt_operand (hlevel : level ≠ .factor) (hw : Grammar.Expression (tighter level) w)
    (h : CheckedAt (tighter level) w form) : CheckedAt level w form := by
  intro n ctx s rest hn hspells hfollows
  have hoperand := h n ctx s rest hn hspells hfollows.tighter
  obtain ⟨k, v, rfl, -, hk⟩ := expression_first hw
  refine Checks.of_run_eq ?_ (atLevel_run n hlevel hspells (hk (tighter_ne_logical level)))
  exact joined_checks_operand hoperand hspells (List.cons_ne_nil k v) hfollows

theorem checkedAt_joined {o : Operator} {v : List TokenKind} {form₁ : Form} (ho : levelOf o = level)
    (hv : Grammar.Expression (tighter level) v) (hw : Grammar.Expression level w)
    (ihv : CheckedAt (tighter level) v form) (ihw : CheckedAt level w form₁) :
    CheckedAt level (v ++ .op o :: w) .compound := by
  intro n ctx s rest hn hspells hfollows
  have hlevel : level ≠ .factor := by
    rw [← ho]
    cases o <;> simp [levelOf]
  obtain ⟨middle', hfirst, t, middle, rfl, ht, hmiddle⟩ := fills_append.mp hspells
  simp only [List.length_append, List.length_cons] at hn
  have hoperand := ihv n ctx s (t :: middle) (by omega) hfirst (.operator hlevel ho ht)
  have hbehind : (s.past (v.length + 1)).cursor.ahead = middle := by
    rw [← past_past, ahead_past, ahead_past_of_spells hfirst]
    rfl
  obtain ⟨k, v', rfl, -, hk⟩ := expression_first hv
  simp only [List.length_cons] at hn
  refine Checks.of_run_eq ?_ (atLevel_run n hlevel hfirst (hk (tighter_ne_logical level)))
  exact joined_checks hv ho ht hoperand hfirst (expression_ne_nil hw) fun ctx₁ =>
    ihw.recurrence hw (by omega) (hbehind ▸ hmiddle) hfollows

end Cases

/-! ## Names and literals -/

/-- The words that are a single name, with or without an index. -/
inductive IsReference : List TokenKind → Prop
  | name : IsReference [.identifier]
  | element {w : List TokenKind} : Grammar.Expression .logical w →
      IsReference (.identifier :: .leftBracket :: (w ++ [.rightBracket]))

/-- The words that are a single literal, with or without minus signs. -/
inductive IsSignedLiteral : List TokenKind → Prop
  | literal (l : Literal) : IsSignedLiteral [.literal l]
  | negative {w : List TokenKind} : IsSignedLiteral w → IsSignedLiteral (.op .minus :: w)

section Forms

variable {level : Level} {form : Form} {w : List TokenKind}

/-- The literals of every expression of the grammar are checked, and its form is that of its word. -/
theorem exists_checkedAt (h : Grammar.Expression level w) :
    ∃ form, CheckedAt level w form ∧ (form = .name → IsReference w) ∧
      (form = .literal → IsSignedLiteral w) := by
  induction h with
  | literal l => exact ⟨.literal, checkedAt_literal l, by simp, fun _ => .literal l⟩
  | negative hw ih =>
    obtain ⟨form, hchecked, -, hliteral⟩ := ih
    refine ⟨form.negate, checkedAt_negative hw hchecked, ?_, ?_⟩
    · cases form <;> simp [Form.negate]
    · intro hform
      refine .negative (hliteral ?_)
      cases form <;> simp_all [Form.negate]
  | parens hw ih =>
    obtain ⟨form, hchecked, -⟩ := ih
    exact ⟨.compound, checkedAt_parens hw hchecked, by simp, by simp⟩
  | name => exact ⟨.name, checkedAt_name, fun _ => .name, by simp⟩
  | element hw ih =>
    obtain ⟨form, hchecked, -⟩ := ih
    exact ⟨.name, checkedAt_element hw hchecked, fun _ => .element hw, by simp⟩
  | negation hw ih =>
    obtain ⟨form, hchecked, -⟩ := ih
    exact ⟨.compound, checkedAt_negation hw hchecked, by simp, by simp⟩
  | operand hlevel hw ih =>
    obtain ⟨form, hchecked, hform⟩ := ih
    exact ⟨form, checkedAt_operand hlevel hw hchecked, hform⟩
  | joined ho hv hw ihv ihw =>
    obtain ⟨form, hv', -⟩ := ihv
    obtain ⟨form₁, hw', -⟩ := ihw
    exact ⟨.compound, checkedAt_joined ho hv hw hv' hw', by simp, by simp⟩

theorem CheckedAt.ofFactor (hw : Grammar.Expression .factor w) (h : CheckedAt .factor w form) :
    CheckedAt .logical w form := by
  have hterm : Grammar.Expression .multiplicative w := .operand (by decide) hw
  have hrelation : Grammar.Expression .relational w := .operand (by decide) hterm
  have hsum : Grammar.Expression .additive w := .operand (by decide) hrelation
  refine checkedAt_operand (by decide) hsum (checkedAt_operand (by decide) hrelation ?_)
  exact checkedAt_operand (by decide) hterm (checkedAt_operand (by decide) hw h)

theorem checkedAt_of_isReference (h : IsReference w) : CheckedAt .logical w .name := by
  cases h with
  | name => exact checkedAt_name.ofFactor .name
  | element hw =>
    obtain ⟨form, hchecked, -⟩ := exists_checkedAt hw
    exact (checkedAt_element hw hchecked).ofFactor (.element hw)

theorem checkedAt_of_isSignedLiteral (h : IsSignedLiteral w) : CheckedAt .logical w .literal := by
  have hfactor : Grammar.Expression .factor w ∧ CheckedAt .factor w .literal := by
    induction h with
    | literal l => exact ⟨.literal l, checkedAt_literal l⟩
    | negative _ ih => exact ⟨.negative ih.1, checkedAt_negative ih.1 ih.2⟩
  exact hfactor.2.ofFactor hfactor.1

theorem IsReference.not_isSignedLiteral (h : IsReference w) : ¬IsSignedLiteral w := by
  intro hliteral
  cases h with
  | name => cases hliteral
  | element _ => cases hliteral

/-- The form of an expression is decided by its word alone. -/
theorem exists_form (h : Grammar.Expression .logical w) :
    ∃ form, CheckedAt .logical w form ∧ (form = .name ↔ IsReference w) ∧
      (form = .literal ↔ IsSignedLiteral w) := by
  by_cases hname : IsReference w
  · refine ⟨.name, checkedAt_of_isReference hname, by simp [hname], ?_⟩
    simp [hname.not_isSignedLiteral]
  · by_cases hliteral : IsSignedLiteral w
    · exact ⟨.literal, checkedAt_of_isSignedLiteral hliteral, by simp [hname], by simp [hliteral]⟩
    · obtain ⟨form, hchecked, hform, hform'⟩ := exists_checkedAt h
      exact ⟨form, hchecked, ⟨hform, fun h => absurd h hname⟩, ⟨hform', fun h => absurd h hliteral⟩⟩

end Forms

/-! ## The production of expressions -/

section Whole

variable {ctx ctx₁ : Context} {s : State} {rest : List Token} {form : Form} {w : List TokenKind}

theorem expressionAt_checks (h : CheckedAt .logical w form) (hs : Spells w s.cursor.ahead rest)
    (hfollows : Follows .logical [rest.headD s.cursor.eof]) :
    Checks (expressionAt .logical ctx) s ctx w form := by
  have hlength : w.length ≤ s.cursor.remaining + 1 := by
    have := hs.length
    unfold Cursor.remaining
    omega
  exact (h s.cursor.remaining ctx s rest hlength hs hfollows).of_run_eq rfl

/-- An expression whose literals fit is stepped over. -/
theorem expression_of_settle (h : CheckedAt .logical w form) (hs : Spells w s.cursor.ahead rest)
    (hfollows : Follows .logical [rest.headD s.cursor.eof]) (hsettle : settle ctx 0 w = .ok ctx₁) :
    expression ctx s = .ok (form.operand s w) (s.past (w.length - 1)) :=
  bind_run_of_ok ((expressionAt_checks h hs hfollows).accepted hsettle)

/-- An expression with a literal that does not fit is refused there. -/
theorem expression_of_settle_error {n : Nat} (h : CheckedAt .logical w form)
    (hs : Spells w s.cursor.ahead rest) (hfollows : Follows .logical [rest.headD s.cursor.eof])
    (hsettle : settle ctx 0 w = .error n) :
    expression ctx s = .error .reject (s.refuse n) :=
  bind_run_of_error ((expressionAt_checks h hs hfollows).refused hsettle)

end Whole

/-! ## Exactly the expressions with literals that fit -/

section Exact

variable {s : State} {ts rest : List Token} {form : Form} {w : List TokenKind}

theorem head?_eq_current (h : s.cursor.ahead = ts ++ rest) (hts : ts ≠ []) :
    ts.head? = some s.cursor.current := by
  cases ts with
  | nil => exact absurd rfl hts
  | cons t ts => rw [Cursor.current_of_ahead h, List.head?_cons]

theorem current_past_of_append {t : Token} (h : s.cursor.ahead = ts ++ t :: rest) :
    (s.past ts.length).cursor.current = t := by
  have hahead : (s.past ts.length).cursor.ahead = t :: rest := by
    rw [ahead_past, h, List.drop_left]
  exact Cursor.current_of_ahead hahead

theorem getLast?_eq_current_past (h : s.cursor.ahead = ts ++ rest) (hts : ts ≠ []) :
    ts.getLast? = some (s.past (ts.length - 1)).cursor.current := by
  have hsplit : s.cursor.ahead = ts.dropLast ++ ts.getLast hts :: rest := by
    rw [← List.singleton_append, ← List.append_assoc, List.dropLast_concat_getLast hts, h]
  rw [← List.length_dropLast, current_past_of_append hsplit, List.getLast?_eq_some_getLast hts]

theorem operand_eq_name_iff {t : Token} (h : s.cursor.ahead = ts ++ rest) (hts : ts ≠ []) :
    form.operand s w = .name t ↔ form = .name ∧ ts.head? = some t := by
  rw [head?_eq_current h hts]
  cases form <;> simp [Form.operand]

theorem operand_eq_literal_iff {t : Token} (h : s.cursor.ahead = ts ++ rest) (hts : ts ≠ []) :
    form.operand s (ts.map Token.kind) = .literal t ↔ form = .literal ∧ ts.getLast? = some t := by
  rw [getLast?_eq_current_past h hts]
  cases form <;> simp [Form.operand]

/-- The production of expressions recognises expressions only.  On the tokens of one, with neither an
operator nor an index behind them, it succeeds on the last token if the literals fit the context; the
result is a name exactly for a single name, with or without an index, and a literal exactly for a
literal with any number of minus signs.  If the literals do not fit, the first one that does not is
reported, and nothing else. -/
theorem expression_exact (ctx : Context) (s : State) (hs : s.Marked) :
    (∀ operand s', expression ctx s = .ok operand s' →
      Spelled (Grammar.Expression .logical) s.cursor.ahead s'.cursor.ahead.tail) ∧
    ∀ ts rest, s.cursor.ahead = ts ++ rest → Grammar.Expression .logical (ts.map Token.kind) →
      (rest.headD s.cursor.eof).kind ≠ .leftBracket → (∀ o, (rest.headD s.cursor.eof).kind ≠ .op o) →
      (Fitting ctx (ts.map Token.kind) →
        ∃ operand, expression ctx s = .ok operand (s.past (ts.length - 1)) ∧
          (∀ t, operand = .name t ↔ IsReference (ts.map Token.kind) ∧ ts.head? = some t) ∧
          ∀ t, operand = .literal t ↔
            IsSignedLiteral (ts.map Token.kind) ∧ ts.getLast? = some t) ∧
      (¬Fitting ctx (ts.map Token.kind) →
        ∃ before t after, ts = before ++ t :: after ∧ (∃ l, t.kind = .literal l) ∧
          Fitting ctx (before.map Token.kind) ∧ ¬Fitting ctx ((before ++ [t]).map Token.kind) ∧
          expression ctx s = .error .reject { s with
            cursor := s.cursor.skip before.length
            diagnostics := s.diagnostics ++ [.argument (t.position s.file) t.literal] }) := by
  refine ⟨fun operand s' h => (expression_sound ctx h hs).2, ?_⟩
  intro ts rest hahead hw hbracket hop
  have hts : ts ≠ [] := mt List.map_eq_nil_iff.mpr (expression_ne_nil hw)
  have hspells : Spells (ts.map Token.kind) s.cursor.ahead rest := spells_iff.mpr ⟨ts, hahead, rfl⟩
  have hfollows : Follows .logical [rest.headD s.cursor.eof] := .of_kind rfl hbracket hop
  obtain ⟨form, hchecked, hname, hliteral⟩ := exists_form hw
  constructor
  · intro hfitting
    obtain ⟨ctx₁, hsettle⟩ := fittingWithin_iff_settle.mp hfitting
    have hrun := expression_of_settle hchecked hspells hfollows hsettle
    rw [List.length_map] at hrun
    refine ⟨_, hrun, fun t => ?_, fun t => ?_⟩
    · rw [operand_eq_name_iff hahead hts, hname]
    · rw [operand_eq_literal_iff hahead hts, hliteral]
  · intro hnot
    cases hsettle : settle ctx 0 (ts.map Token.kind) with
    | ok ctx₁ => exact absurd (fittingWithin_iff_settle.mpr ⟨ctx₁, hsettle⟩) hnot
    | error n =>
      obtain ⟨v, l, u, hword, rfl, hfits, hfails⟩ := settle_error hsettle
      obtain ⟨before, behind, rfl, rfl, hbehind⟩ := List.map_eq_append_iff.mp hword
      obtain ⟨t, after, rfl, ht, rfl⟩ := List.map_eq_cons_iff.mp hbehind
      have hrun := expression_of_settle_error hchecked hspells hfollows hsettle
      rw [List.append_assoc] at hahead
      have hcurrent : (s.past before.length).cursor.current = t := current_past_of_append hahead
      rw [State.refuse, List.length_map, hcurrent] at hrun
      refine ⟨before, t, after, rfl, ⟨l, ht⟩, hfits, ?_, hrun⟩
      rw [List.map_append, List.map_singleton, ht]
      exact hfails

/-- The tokens of `x[true] + 'c';`. -/
def mixedTokens : List Token :=
  [⟨.identifier, text "x", 1, 1⟩, ⟨.leftBracket, text "[", 1, 2⟩,
    ⟨.literal (.truth true), text "true", 1, 3⟩, ⟨.rightBracket, text "]", 1, 7⟩,
    ⟨.op .plus, text "+", 1, 9⟩, ⟨.literal .char, text "'c'", 1, 11⟩, ⟨.semicolon, text ";", 1, 14⟩]

def mixedState : State :=
  { (default : State) with cursor := ⟨[], mixedTokens, ⟨.eof, [], 1, 15⟩⟩ }

/-- A character in a sum is refused where an integer is expected, behind an index that is none of that
context's matter. -/
theorem mixedState_refused :
    mixedState.Marked ∧ ∃ before t after, mixedTokens.take 6 = before ++ t :: after ∧
      expression (.expect (.scalar .integer)) mixedState = .error .reject { mixedState with
        cursor := mixedState.cursor.skip before.length
        diagnostics := [.argument (t.position mixedState.file) t.literal] } := by
  have hindex : Grammar.Expression .relational [.identifier, .leftBracket, .literal (.truth true),
      .rightBracket] :=
    .operand (by decide) (.operand (by decide) (.element (.ofFactor (.literal _))))
  have hchar : Grammar.Expression .additive [.literal .char] :=
    .operand (by decide) (.operand (by decide) (.operand (by decide) (.literal .char)))
  have hsum : Grammar.Expression .additive ((mixedTokens.take 6).map Token.kind) :=
    .joined (o := .plus) rfl hindex hchar
  have hw : Grammar.Expression .logical ((mixedTokens.take 6).map Token.kind) :=
    .operand (by decide) hsum
  obtain ⟨before, t, after, hsplit, -, -, -, hrun⟩ :=
    ((expression_exact (.expect (.scalar .integer)) mixedState rfl).2 (mixedTokens.take 6)
      (mixedTokens.drop 6) rfl hw (by decide) fun o => by cases o <;> decide).2 (by decide)
  exact ⟨rfl, before, t, after, hsplit, hrun⟩

end Exact

end OnePass.Program
