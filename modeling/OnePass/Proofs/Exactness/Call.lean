import Mathlib.Data.List.Forall2
import OnePass.Proofs.Exactness.Expression
import OnePass.Proofs.Reporting.Statement
import OnePass.Proofs.Soundness.Statement
set_option autoImplicit false

/-!
# Calls match their callees exactly

Arguments are given by their tokens (`Enclosed`), and an argument can stand for a parameter if its
name, its literals and its form allow it (`Answers`).  On the tokens of a call whose callee is known,
the production either succeeds without a diagnostic, and the arguments answer the parameters one by
one, or it is refused, and they do not (`Calls.statement_run`).  A wrong number of arguments is found
at one of three places: on an argument too many, on the right parenthesis behind the last of too few,
or on the right parenthesis of an empty list.  Together with soundness this says exactly which calls
are accepted (`call_accepted_iff`).
-/

namespace OnePass.Program

open OnePass.Grammar

/-! ## Calls by their tokens -/

/-- Arguments by their tokens, with commas between them, in front of `rest`. -/
inductive Listed : List (List Token) → List Token → List Token → Prop
  | one {a rest : List Token} : Grammar.Expression .logical (a.map Token.kind) →
      Listed [a] (a ++ rest) rest
  | more {a ts rest : List Token} {args : List (List Token)} {comma : Token} :
      Grammar.Expression .logical (a.map Token.kind) → comma.kind = .comma → Listed args ts rest →
      Listed (a :: args) (a ++ comma :: ts) rest

/-- Arguments by their tokens, in parentheses, in front of `rest`. -/
inductive Enclosed : List (List Token) → List Token → List Token → Prop
  | empty {opening closing : Token} {rest : List Token} : opening.kind = .leftParen →
      closing.kind = .rightParen → Enclosed [] (opening :: closing :: rest) rest
  | arguments {opening closing : Token} {args : List (List Token)} {ts rest : List Token} :
      opening.kind = .leftParen → closing.kind = .rightParen → Listed args ts (closing :: rest) →
      Enclosed args (opening :: ts) rest

/-- Whether a state stands on a call of a known callee: on a built-in procedure that is bound, or on
a name in front of a parenthesis that stands for something that can be called. -/
inductive Calls (s : State) (callee : Symbol) : Prop
  | builtin {b : Builtin} : s.cursor.current.kind = .builtin b →
      s.table.resolve? (s.table.global.child s.cursor.current.literal) = some callee →
      Calls s callee
  | procedure : s.cursor.current.kind = .identifier → s.cursor.peek.kind = .leftParen →
      s.table.lookup? s.cursor.current.literal = some callee → callee.kind.isCallable = true →
      Calls s callee

/-- Whether an argument can stand for a parameter where names are looked up in a table. -/
structure Answers (table : Table) (p : Parameter) (a : List Token) : Prop where
  /-- its literals fit the parameter's kind -/
  literals : Fitting (.expect p.kind) (a.map Token.kind)
  /-- a single name, with or without an index, is bound to something of the parameter's kind -/
  name : IsReference (a.map Token.kind) → ∀ t ∈ a.head?,
    ∃ sym, table.lookup? t.literal = some sym ∧ sym.kind = p.kind
  /-- what the procedure writes to is a single name -/
  reference : p.direction.any Direction.byReference = true → IsReference (a.map Token.kind)

section Tokens

variable {ts rest : List Token}

theorem exists_listed {w : List TokenKind} (hw : Arguments w) (hs : Spells w ts rest) :
    ∃ args, Listed args ts rest := by
  induction hw generalizing ts with
  | one hw =>
    obtain ⟨a, rfl, rfl⟩ := spells_iff.mp hs
    exact ⟨[a], .one hw⟩
  | more hv _ ih =>
    simp only [fills_append, fills_cons] at hs
    obtain ⟨_, hfirst, comma, _, rfl, hcomma, hothers⟩ := hs
    obtain ⟨a, rfl, rfl⟩ := spells_iff.mp hfirst
    obtain ⟨args, hargs⟩ := ih hothers
    exact ⟨a :: args, .more hv hcomma hargs⟩

/-- The tokens of a call of the grammar enclose arguments. -/
theorem exists_enclosed {w : List TokenKind} (hw : Call w) (hs : Spells w ts rest) :
    ∃ args, Enclosed args ts rest := by
  cases hw with
  | empty =>
    simp only [fills_cons, fills_nil] at hs
    obtain ⟨opening, _, rfl, hopening, closing, _, rfl, hclosing, rfl⟩ := hs
    exact ⟨[], .empty hopening hclosing⟩
  | arguments hw =>
    simp only [fills_cons, fills_append, fills_nil] at hs
    obtain ⟨opening, _, rfl, hopening, _, hs, closing, _, rfl, hclosing, rfl⟩ := hs
    obtain ⟨args, hargs⟩ := exists_listed hw hs
    exact ⟨args, .arguments hopening hclosing hargs⟩

theorem ne_nil_of_expression {a : List Token}
    (ha : Grammar.Expression .logical (a.map Token.kind)) : a ≠ [] :=
  mt List.map_eq_nil_iff.mpr (expression_ne_nil ha)

/-- Arguments have a first token, and it closes no parenthesis. -/
theorem Listed.first {args : List (List Token)} (h : Listed args ts rest) :
    ∃ t more, ts = t :: more ∧ t.kind ≠ .rightParen := by
  have hfirst {a : List Token} (ha : Grammar.Expression .logical (a.map Token.kind))
      (more : List Token) : ∃ t more', a ++ more = t :: more' ∧ t.kind ≠ .rightParen := by
    obtain ⟨k, v, hcons, hk, -⟩ := expression_first ha
    obtain ⟨t, a, rfl, rfl, rfl⟩ := List.map_eq_cons_iff.mp hcons
    exact ⟨t, a ++ more, rfl, hk⟩
  cases h with
  | one ha => exact hfirst ha rest
  | more ha _ _ => exact hfirst ha _

end Tokens

/-! ## Productions that are refused -/

/-- A production that is rejected with one diagnostic. -/
def Refused {α : Type} (p : Parser α) (s : State) : Prop :=
  ∃ s' d, p s = .error .reject s' ∧ s'.diagnostics = s.diagnostics ++ [d]

section Refused

variable {α β : Type} {s s' : State}

theorem refused_rejectToken (t : Token) : Refused (rejectToken t : Parser α) s := ⟨_, _, rfl, rfl⟩

theorem refused_rejectArgument (t : Token) : Refused (rejectArgument t : Parser α) s :=
  ⟨_, _, rfl, rfl⟩

theorem Refused.bind {p : Parser β} (h : Refused p s) (f : β → Parser α) : Refused (p >>= f) s := by
  obtain ⟨s', d, hrun, hdiagnostics⟩ := h
  exact ⟨s', d, bind_run_of_error hrun, hdiagnostics⟩

/-- A production that is refused behind one that reports nothing. -/
theorem Refused.behind {p : Parser β} {f : β → Parser α} {b : β} (hrun : p s = .ok b s')
    (hdiagnostics : s'.diagnostics = s.diagnostics) (h : Refused (f b) s') :
    Refused (p >>= f) s := by
  obtain ⟨s'', d, hstop, hreported⟩ := h
  exact ⟨s'', d, (bind_run_of_ok hrun).trans hstop, hdiagnostics ▸ hreported⟩

theorem Refused.of_run_eq {p q : Parser α} (h : Refused q s') (hrun : p s = q s')
    (hdiagnostics : s'.diagnostics = s.diagnostics) : Refused p s := by
  obtain ⟨s'', d, hstop, hreported⟩ := h
  exact ⟨s'', d, hrun.trans hstop, hdiagnostics ▸ hreported⟩

/-- However a refused production is asked about its diagnostics, there is a new one. -/
theorem Refused.not_ends {p : Parser α} (h : Refused p s) :
    ¬Ends p s (fun _ s' => s'.diagnostics = s.diagnostics)
      fun _ s' => s'.diagnostics = s.diagnostics := by
  obtain ⟨s', d, hstop, hreported⟩ := h
  rw [ends_of_error hstop, hreported]
  simp

end Refused

/-! ## One argument -/

section Argument

variable {s : State} {a rest : List Token} {p : Parameter} {ps : List Parameter}

/-- An expression in front of a token that does not continue it: whether it is stepped over depends
on its literals, and whether it is a name on its word. -/
theorem expression_run (ctx : Context) (hahead : s.cursor.ahead = a ++ rest)
    (ha : Grammar.Expression .logical (a.map Token.kind))
    (hfollows : Follows .logical [rest.headD s.cursor.eof]) :
    (Fitting ctx (a.map Token.kind) →
      ∃ operand, expression ctx s = .ok operand (s.past (a.length - 1)) ∧
        ∀ t, operand = .name t ↔ IsReference (a.map Token.kind) ∧ a.head? = some t) ∧
    (¬Fitting ctx (a.map Token.kind) → Refused (expression ctx) s) := by
  have hne : a ≠ [] := ne_nil_of_expression ha
  have hspells : Spells (a.map Token.kind) s.cursor.ahead rest := spells_iff.mpr ⟨a, hahead, rfl⟩
  obtain ⟨form, hchecked, hname, -⟩ := exists_form ha
  constructor
  · intro hfitting
    obtain ⟨ctx₁, hsettle⟩ := fittingWithin_iff_settle.mp hfitting
    have hrun := expression_of_settle hchecked hspells hfollows hsettle
    rw [List.length_map] at hrun
    refine ⟨_, hrun, fun t => ?_⟩
    rw [operand_eq_name_iff hahead hne, hname]
  · intro hnot
    cases hsettle : settle ctx 0 (a.map Token.kind) with
    | ok ctx₁ => exact absurd (fittingWithin_iff_settle.mpr ⟨ctx₁, hsettle⟩) hnot
    | error n => exact ⟨_, _, expression_of_settle_error hchecked hspells hfollows hsettle, rfl⟩

/-- Checking an operand that is a name looks it up; nothing else can be written to. -/
theorem checkArgument_run {operand : Operand} (start : Token)
    (hoperand : ∀ t, operand = .name t ↔ IsReference (a.map Token.kind) ∧ a.head? = some t)
    (hne : a ≠ []) (hfitting : Fitting (.expect p.kind) (a.map Token.kind)) :
    (Answers s.table p a → checkArgument start p operand s = .ok () s) ∧
    (¬Answers s.table p a → Refused (checkArgument start p operand) s) := by
  obtain ⟨first, more, rfl⟩ := List.exists_cons_of_ne_nil hne
  by_cases hreference : IsReference ((first :: more).map Token.kind)
  · obtain rfl := (hoperand first).mpr ⟨hreference, rfl⟩
    have hanswers : Answers s.table p (first :: more) ↔
        (s.table.lookup? first.literal).any (·.kind = p.kind) = true := by
      rw [Option.any_eq_true]
      constructor
      · intro h
        obtain ⟨sym, hfound, hkind⟩ := h.name hreference first rfl
        exact ⟨sym, hfound, decide_eq_true hkind⟩
      · rintro ⟨sym, hfound, hkind⟩
        refine ⟨hfitting, fun _ t ht => ?_, fun _ => hreference⟩
        cases ht
        exact ⟨sym, hfound, of_decide_eq_true hkind⟩
    have hrun : checkArgument start p (.name first) s =
        (if (s.table.lookup? first.literal).any (·.kind = p.kind) then pure ()
          else rejectArgument first : Parser Unit) s := rfl
    constructor
    · intro h
      rw [hrun, if_pos (hanswers.mp h)]
      rfl
    · intro h
      rw [hanswers] at h
      refine Refused.of_run_eq (refused_rejectArgument first) ?_ rfl
      rw [hrun, if_neg h]
  · have hrun : checkArgument start p operand s =
        (if p.direction.any Direction.byReference then rejectArgument start
          else pure () : Parser Unit) s := by
      cases operand with
      | name t => exact absurd ((hoperand t).mp rfl).1 hreference
      | literal _ => rfl
      | compound => rfl
    constructor
    · intro h
      rw [hrun, if_neg fun hout => hreference (h.reference hout)]
      rfl
    · intro h
      have hout : p.direction.any Direction.byReference = true := by
        by_contra hin
        exact h ⟨hfitting, fun h => absurd h hreference, fun h => absurd h hin⟩
      refine Refused.of_run_eq (refused_rejectArgument start) ?_ rfl
      rw [hrun, if_pos hout]

theorem argument_refused_of_none : Refused (argument (some [])) s :=
  refused_rejectArgument s.cursor.current

/-- An argument is stepped over if it answers the parameter in its place, and refused otherwise. -/
theorem argument_run (p : Parameter) (ps : List Parameter) (hahead : s.cursor.ahead = a ++ rest)
    (ha : Grammar.Expression .logical (a.map Token.kind))
    (hfollows : Follows .logical [rest.headD s.cursor.eof]) :
    (Answers s.table p a →
      argument (some (p :: ps)) s = .ok (some ps) (s.past (a.length - 1))) ∧
    (¬Answers s.table p a → Refused (argument (some (p :: ps))) s) := by
  have hrun : argument (some (p :: ps)) s = (do
      checkArgument s.cursor.current p (← expression (.expect p.kind))
      return some ps : Parser (Option (List Parameter))) s := rfl
  obtain ⟨hfits, hfails⟩ := expression_run (.expect p.kind) hahead ha hfollows
  by_cases hfitting : Fitting (.expect p.kind) (a.map Token.kind)
  · obtain ⟨operand, hexpression, hoperand⟩ := hfits hfitting
    obtain ⟨hok, hrefused⟩ := checkArgument_run (s := s.past (a.length - 1)) s.cursor.current
      hoperand (ne_nil_of_expression ha) hfitting
    constructor
    · intro h
      rw [hrun, bind_run_of_ok hexpression, bind_run_of_ok (hok h)]
      rfl
    · intro h
      exact .of_run_eq (.behind hexpression rfl ((hrefused h).bind _)) hrun rfl
  · constructor
    · intro h
      exact absurd h.literals hfitting
    · intro _
      exact .of_run_eq ((hfails hfitting).bind _) hrun rfl

end Argument

/-! ## All arguments -/

section Arguments

variable {s : State} {closing : Token} {ts rest : List Token} {args : List (List Token)}

theorem follows_closing (hclosing : closing.kind = .rightParen) : Follows .logical [closing] :=
  .of_kind hclosing (by simp) (by simp)

theorem follows_comma {comma : Token} (hcomma : comma.kind = .comma) : Follows .logical [comma] :=
  .of_kind hcomma (by simp) (by simp)

theorem peekIs_run (k : TokenKind) (s : State) :
    peekIs k s = .ok (decide (s.cursor.peek.kind = k)) s := rfl

theorem Listed.length_le (h : Listed args ts rest) : args.length ≤ ts.length := by
  induction h with
  | one ha =>
    have hpos := List.length_pos_iff.mpr (ne_nil_of_expression ha)
    rw [List.length_singleton, List.length_append]
    omega
  | more _ _ _ ih =>
    simp only [List.length_cons, List.length_append]
    omega

/-- One argument from the token in front of it on, and the token behind it. -/
theorem argumentsWithin_step {opening u : Token} {a more : List Token}
    (hahead : s.cursor.ahead = opening :: (a ++ u :: more))
    (ha : Grammar.Expression .logical (a.map Token.kind)) (hfollows : Follows .logical [u])
    (count : Nat) (ps : List Parameter) :
    (∃ p left, ps = p :: left ∧ Answers s.table p a ∧
      (∃ last, (s.past a.length).cursor.ahead = last :: u :: more) ∧
      argumentsWithin (count + 1) (some ps) s =
        if u.kind = .comma then argumentsWithin count (some left) (s.past (a.length + 1))
        else .ok (some left) (s.past a.length)) ∨
    (Refused (argumentsWithin (count + 1) (some ps)) s ∧
      ∀ p left, ps = p :: left → ¬Answers s.table p a) := by
  have hadvance : advance s = .ok () (s.past 1) :=
    congrArg (EStateM.Result.ok ()) (next_eq_past hahead)
  have hahead₁ : (s.past 1).cursor.ahead = a ++ u :: more := by
    rw [ahead_past, hahead]
    rfl
  have hrefuse (h : Refused (argument (some ps)) (s.past 1)) :
      Refused (argumentsWithin (count + 1) (some ps)) s := .behind hadvance rfl (h.bind _)
  cases ps with
  | nil =>
    refine .inr ⟨hrefuse argument_refused_of_none, ?_⟩
    rintro _ _ ⟨⟩
  | cons p left =>
    obtain ⟨hok, hrefused⟩ := argument_run p left hahead₁ ha hfollows
    by_cases hanswers : Answers s.table p a
    · have hpos : 1 + (a.length - 1) = a.length :=
        Nat.add_sub_cancel' (List.length_pos_iff.mpr (ne_nil_of_expression ha))
      have hspells : Spells (a.map Token.kind) (s.past 1).cursor.ahead (u :: more) :=
        spells_iff.mpr ⟨a, hahead₁, rfl⟩
      obtain ⟨last, hlast⟩ := exists_last_of_spells hspells (by simpa using ne_nil_of_expression ha)
      have hargument := hok hanswers
      rw [List.length_map, past_past, hpos] at hlast
      rw [past_past, hpos] at hargument
      refine .inl ⟨p, left, rfl, hanswers, ⟨last, hlast⟩, ?_⟩
      rw [argumentsWithin, bind_run_of_ok hadvance, bind_run_of_ok hargument]
      rw [bind_run_of_ok (peekIs_run .comma _), Cursor.peek_of_ahead hlast]
      by_cases hcomma : u.kind = .comma
      · have hstep : advance (s.past a.length) = .ok () (s.past (a.length + 1)) := by
          rw [← past_past]
          exact congrArg (EStateM.Result.ok ()) (next_eq_past hlast)
        rw [if_pos (decide_eq_true hcomma), if_pos hcomma, bind_run_of_ok hstep]
      · rw [if_neg (by simpa using hcomma), if_neg hcomma]
        rfl
    · refine .inr ⟨hrefuse (hrefused hanswers), ?_⟩
      rintro _ _ ⟨⟩
      exact hanswers

/-- From the token in front of the arguments on: either they answer the first parameters one by one,
and the others are left on the last token, or they do not, and they are refused. -/
theorem argumentsWithin_run (h : Listed args ts (closing :: rest))
    (hclosing : closing.kind = .rightParen) :
    ∀ {count : Nat} {s : State} {opening : Token} (ps : List Parameter), args.length ≤ count →
      s.cursor.ahead = opening :: ts →
      (∃ matched left n last, ps = matched ++ left ∧ List.Forall₂ (Answers s.table) matched args ∧
        argumentsWithin count (some ps) s = .ok (some left) (s.past n) ∧
        (s.past n).cursor.ahead = last :: closing :: rest) ∨
      (Refused (argumentsWithin count (some ps)) s ∧
        ∀ matched left, ps = matched ++ left → ¬List.Forall₂ (Answers s.table) matched args) := by
  generalize hbehind : closing :: rest = behind at h
  induction h with
  | @one a behind ha =>
    subst hbehind
    intro count s opening ps hcount hahead
    obtain ⟨count, rfl⟩ := Nat.exists_eq_succ_of_ne_zero (Nat.ne_of_gt hcount)
    have hnocomma : closing.kind ≠ .comma := by simp [hclosing]
    obtain ⟨p, left, rfl, hanswers, ⟨last, hlast⟩, hrun⟩ | ⟨hrefused, hnot⟩ :=
      argumentsWithin_step hahead ha (follows_closing hclosing) count ps
    · rw [if_neg hnocomma] at hrun
      exact .inl ⟨[p], left, a.length, last, rfl, .cons hanswers .nil, hrun, hlast⟩
    · refine .inr ⟨hrefused, ?_⟩
      rintro _ left rfl (_ | ⟨hanswers, hnil⟩)
      exact hnot _ _ rfl hanswers
  | @more a ts behind args comma ha hcomma hargs ih =>
    intro count s opening ps hcount hahead
    obtain ⟨count, rfl⟩ := Nat.exists_eq_succ_of_ne_zero (Nat.ne_of_gt (Nat.zero_lt_of_lt hcount))
    obtain ⟨p, ps, rfl, hanswers, ⟨last, hlast⟩, hrun⟩ | ⟨hrefused, hnot⟩ :=
      argumentsWithin_step hahead ha (follows_comma hcomma) count ps
    · rw [if_pos hcomma] at hrun
      have hahead' : (s.past (a.length + 1)).cursor.ahead = comma :: ts := by
        rw [← past_past, ahead_past, hlast]
        rfl
      obtain ⟨matched, left, n, last', rfl, hmatched, hrest, hlast'⟩ | ⟨hrefused, hnot⟩ :=
        ih hbehind ps (Nat.le_of_succ_le_succ hcount) hahead'
      · rw [past_past] at hrest hlast'
        exact .inl ⟨p :: matched, left, _, last', rfl, .cons hanswers hmatched,
          hrun.trans hrest, hlast'⟩
      · refine .inr ⟨hrefused.of_run_eq hrun rfl, ?_⟩
        rintro _ left heq (_ | ⟨-, hmatched⟩)
        obtain ⟨-, rfl⟩ := List.cons.inj heq
        exact hnot _ left rfl hmatched
    · refine .inr ⟨hrefused, ?_⟩
      rintro _ left rfl (_ | ⟨hanswers, -⟩)
      exact hnot _ _ rfl hanswers

/-- The right parenthesis is stepped onto, and refused if a parameter is left. -/
theorem closeCall_run {last : Token} (hahead : s.cursor.ahead = last :: closing :: rest)
    (hclosing : closing.kind = .rightParen) (left : List Parameter) :
    (left = [] ∧ (do
      expectPeek .rightParen
      if (some left).any (! ·.isEmpty) then rejectToken (← current) : Parser Unit) s =
        .ok () (s.past 1)) ∨
    (left ≠ [] ∧ Refused (do
      expectPeek .rightParen
      if (some left).any (! ·.isEmpty) then rejectToken (← current) : Parser Unit) s) := by
  have hstep := expectPeek_run hahead hclosing
  cases left with
  | nil =>
    refine .inl ⟨rfl, ?_⟩
    rw [bind_run_of_ok hstep]
    rfl
  | cons p left => exact .inr ⟨List.cons_ne_nil p left, .behind hstep rfl ⟨_, _, rfl, rfl⟩⟩

/-- Arguments in parentheses are stepped over if they answer the parameters one by one, and refused
otherwise. -/
theorem callArguments_run (h : Enclosed args s.cursor.ahead rest) (ps : List Parameter) :
    (List.Forall₂ (Answers s.table) ps args ∧
      ∃ n, callArguments (some ps) s = .ok () (s.past n)) ∨
    (¬List.Forall₂ (Answers s.table) ps args ∧ Refused (callArguments (some ps)) s) := by
  generalize hts : s.cursor.ahead = ts at h
  cases h with
  | @empty opening closing _ hopening hclosing =>
    have hpeek : s.cursor.peek.kind = .rightParen := by rw [Cursor.peek_of_ahead hts, hclosing]
    have hrun : callArguments (some ps) s = (do
        expectPeek .rightParen
        if (some ps).any (! ·.isEmpty) then rejectToken (← current) : Parser Unit) s := by
      rw [callArguments, bind_run_of_ok (peekIs_run .rightParen s), if_pos (decide_eq_true hpeek)]
      rfl
    rw [List.forall₂_nil_right_iff]
    obtain ⟨rfl, hok⟩ | ⟨hne, hrefused⟩ := closeCall_run hts hclosing ps
    · exact .inl ⟨rfl, 1, hrun.trans hok⟩
    · exact .inr ⟨hne, hrefused.of_run_eq hrun rfl⟩
  | @arguments opening closing _ ts _ hopening hclosing hargs =>
    have hpeek : ¬decide (s.cursor.peek.kind = .rightParen) = true := by
      obtain ⟨t, more, rfl, ht⟩ := hargs.first
      rw [Cursor.peek_of_ahead hts]
      simpa using ht
    have hrun : callArguments (some ps) s = (do
        let left ← argumentsWithin (s.cursor.remaining + 1) (some ps)
        expectPeek .rightParen
        if left.any (! ·.isEmpty) then rejectToken (← current) : Parser Unit) s := by
      rw [callArguments, bind_run_of_ok (peekIs_run .rightParen s), if_neg hpeek]
      rfl
    have hcount : args.length ≤ s.cursor.remaining + 1 := by
      have := hargs.length_le
      rw [Cursor.remaining, hts, List.length_cons]
      omega
    obtain ⟨matched, left, n, last, rfl, hmatched, hlist, hlast⟩ | ⟨hrefused, hnot⟩ :=
      argumentsWithin_run hargs hclosing ps hcount hts
    · obtain ⟨rfl, hok⟩ | ⟨hne, hrefused⟩ := closeCall_run hlast hclosing left
      · rw [List.append_nil] at hrun hlist ⊢
        refine .inl ⟨hmatched, n + 1, ?_⟩
        rw [hrun, bind_run_of_ok hlist, hok, past_past]
      · refine .inr ⟨fun h => ?_, .of_run_eq (.behind hlist rfl hrefused) hrun rfl⟩
        have hlength := h.length_eq.trans hmatched.length_eq.symm
        rw [List.length_append, Nat.add_eq_left, List.length_eq_zero_iff] at hlength
        exact hne hlength
    · exact .inr ⟨hnot ps [] (List.append_nil ps).symm, .of_run_eq (hrefused.bind _) hrun rfl⟩

end Arguments

/-! ## Calls as statements -/

section Calls

variable {s : State} {callee : Symbol} {inner : Parser Nat} {args : List (List Token)}
  {rest : List Token}

/-- The current scope is searched first. -/
theorem lookup?_eq_or (t : Table) (name : Bytes) :
    t.lookup? name = (if t.scope = [] then none else t.bindings[t.scope.child name.lower]?).or
      (if t.global = [] then none else t.bindings[t.global.child name.lower]?) := by
  rw [Option.or_eq_orElse]
  rfl

theorem Calls.bound (h : Calls s callee) :
    ∃ key : ScopeKey, s.table.bindings[key]? = some callee := by
  cases h with
  | builtin _ hfound => exact ⟨_, hfound⟩
  | procedure _ _ hfound _ =>
    rw [lookup?_eq_or, Option.or_eq_some_iff] at hfound
    simp only [Option.ite_none_left_eq_some] at hfound
    obtain ⟨-, hinner⟩ | ⟨-, -, houter⟩ := hfound
    · exact ⟨_, hinner⟩
    · exact ⟨_, houter⟩

/-- Behind its first word, a call is its arguments and a line of the trace. -/
theorem Calls.statement_eq (h : Calls s callee) (hopen : s.cursor.peek.kind = .leftParen) :
    ∃ words, statement inner s = (do
      callArguments (some callee.parameters)
      note words : Parser Unit) { s with cursor := s.cursor.next } := by
  cases h with
  | @builtin b hkind hfound =>
    refine ⟨text "built-in call " ++ s.cursor.current.literal, run_eq_of_ends fun Q E h => ?_⟩
    simp only [statement, builtinCall, ends_bind, ends_current, hkind, ends_get, hfound,
      ends_expectPeek, if_pos hopen]
    simpa only [ends_bind] using h
  | procedure hkind _ hfound hcallable =>
    refine ⟨text "procedure call " ++ s.cursor.current.literal, run_eq_of_ends fun Q E h => ?_⟩
    simp only [statement, nameStatement, procedureCall, lookup?, ends_bind, ends_current, hkind,
      ends_get, hfound, ends_peekIs, hopen, decide_true, if_true, ends_pure]
    simpa [hcallable] using h

theorem Enclosed.peek (h : Enclosed args s.cursor.ahead.tail rest) :
    s.cursor.peek.kind = .leftParen := by
  unfold Cursor.peek
  generalize s.cursor.ahead.tail = ts at h ⊢
  cases h with
  | empty hopening _ => exact hopening
  | arguments hopening _ _ => exact hopening

/-- A call is recognised without a diagnostic if its arguments answer the callee's parameters one by
one, and refused otherwise. -/
theorem Calls.statement_run (h : Calls s callee) (hargs : Enclosed args s.cursor.ahead.tail rest) :
    (List.Forall₂ (Answers s.table) callee.parameters args ∧
      ∃ s', statement inner s = .ok () s' ∧ s'.diagnostics = s.diagnostics) ∨
    (¬List.Forall₂ (Answers s.table) callee.parameters args ∧ Refused (statement inner) s) := by
  obtain ⟨words, hrun⟩ := h.statement_eq hargs.peek
  obtain ⟨hanswers, n, hok⟩ | ⟨hnot, hrefused⟩ :=
    callArguments_run (s := { s with cursor := s.cursor.next }) hargs callee.parameters
  · have hall := hrun.trans (bind_run_of_ok hok)
    exact .inl ⟨hanswers, _, hall, rfl⟩
  · exact .inr ⟨hnot, .of_run_eq (hrefused.bind _) hrun rfl⟩

theorem Calls.refused_of_peek (h : Calls s callee) (hopen : s.cursor.peek.kind ≠ .leftParen) :
    Refused (statement inner) s := by
  cases h with
  | @builtin b hkind hfound =>
    have hrun : statement inner s = (rejectToken s.cursor.peek : Parser Unit) s := by
      refine run_eq_of_ends fun Q E h => ?_
      simp only [statement, builtinCall, ends_bind, ends_current, hkind, ends_get, hfound,
        ends_expectPeek, if_neg hopen]
      exact h
    exact (refused_rejectToken s.cursor.peek).of_run_eq hrun rfl
  | procedure _ hparen _ _ => exact absurd hparen hopen

/-- A call with a wrong number of arguments is refused. -/
theorem Calls.refused_of_length (h : Calls s callee) (hargs : Enclosed args s.cursor.ahead.tail rest)
    (hlength : args.length ≠ callee.parameters.length) : Refused (statement inner) s := by
  obtain ⟨hanswers, -⟩ | ⟨-, hrefused⟩ := h.statement_run hargs
  · exact absurd hanswers.length_eq.symm hlength
  · exact hrefused

/-- A call that is read without a diagnostic has arguments in parentheses. -/
theorem Calls.exists_enclosed (h : Calls s callee) (hs : s.Delimited)
    (hends : Ends (statement inner) s (fun _ s' => s'.diagnostics = s.diagnostics)
      fun _ s' => s'.diagnostics = s.diagnostics) :
    ∃ args rest, Enclosed args s.cursor.ahead.tail rest := by
  by_cases hopen : s.cursor.peek.kind = .leftParen
  · obtain ⟨words, hrun⟩ := h.statement_eq hopen
    have hs₁ : State.Delimited { s with cursor := s.cursor.next } :=
      (Reports.next s).delimited hs
    have hquiet := callArguments_quiet hs₁ (by simp [hopen]) (some callee.parameters)
    cases hcall : callArguments (some callee.parameters) { s with cursor := s.cursor.next } with
    | ok a s' =>
      obtain ⟨-, w, hw, hspells⟩ := callArguments_sound _ hcall hs₁.marked
      have hparen : Spells [.leftParen] s.cursor.ahead.tail s.cursor.next.ahead.tail :=
        spells_head hs.marked hopen rfl
      obtain ⟨args, hargs⟩ := Program.exists_enclosed hw (spells_append hparen hspells)
      exact ⟨args, _, hargs⟩
    | error stop s' =>
      rw [Quiet, ends_of_error hcall] at hquiet
      obtain ⟨w, ds, d, -, -, hreported, -⟩ := hquiet.2.reported
      rw [ends_of_error (hrun.trans (bind_run_of_error hcall)), hreported] at hends
      simp at hends
  · exact absurd hends (h.refused_of_peek hopen).not_ends

theorem Calls.accepted_iff (h : Calls s callee) (hs : s.Delimited) :
    Ends (statement inner) s (fun _ s' => s'.diagnostics = s.diagnostics)
      (fun _ s' => s'.diagnostics = s.diagnostics) ↔
    ∃ args rest, Enclosed args s.cursor.ahead.tail rest ∧
      List.Forall₂ (Answers s.table) callee.parameters args := by
  constructor
  · intro hends
    obtain ⟨args, rest, hargs⟩ := h.exists_enclosed hs hends
    obtain ⟨hanswers, -⟩ | ⟨-, hrefused⟩ := h.statement_run hargs
    · exact ⟨args, rest, hargs, hanswers⟩
    · exact absurd hends hrefused.not_ends
  · rintro ⟨args, rest, hargs, hanswers⟩
    obtain ⟨-, s', hrun, hdiagnostics⟩ | ⟨hnot, -⟩ := h.statement_run hargs
    · exact (ends_of_ok hrun).mpr hdiagnostics
    · exact absurd hanswers hnot

/-- What answers a parameter of a scalar type. -/
theorem answers_iff {table : Table} {p : Parameter} {a : List Token} (hp : p.kind.isScalar = true) :
    Answers table p a ↔ ∃ type, p.kind = .scalar type ∧
      (IsReference (a.map Token.kind) → ∀ t ∈ a.head?,
        ∃ sym, table.lookup? t.literal = some sym ∧ sym.kind = .scalar type) ∧
      (p.direction = some .output ∨ p.direction = some .both → IsReference (a.map Token.kind)) ∧
      (∀ l, (false, l) ∈ literals 0 (a.map Token.kind) → Suits type l) ∧
      ∀ l, (true, l) ∈ literals 0 (a.map Token.kind) → l = .integer ∨ l = .bool := by
  have hreference : p.direction.any Direction.byReference = true ↔
      p.direction = some .output ∨ p.direction = some .both := by
    cases p.direction with
    | none => simp
    | some d => cases d <;> simp [Direction.byReference]
  obtain ⟨type, htype⟩ : ∃ type, p.kind = .scalar type := by
    cases hkind : p.kind with
    | scalar type => exact ⟨type, rfl⟩
    | _ =>
      rw [hkind] at hp
      cases hp
  constructor
  · rintro ⟨hliterals, hname, houtput⟩
    rw [htype] at hliterals hname
    exact ⟨type, htype, hname, fun h => houtput (hreference.mpr h), hliterals.others,
      hliterals.indices⟩
  · rintro ⟨_, hp, hname, houtput, hothers, hindices⟩
    refine ⟨?_, ?_, fun h => houtput (hreference.mp h)⟩
    · rw [hp]
      exact ⟨hindices, hothers⟩
    · rw [hp]
      exact hname

/-- A call of a known callee is read without a diagnostic exactly if arguments in parentheses stand
behind its first word and match the callee's parameters, where those are of scalar types: there are
as many of them; a single name, with or without an index, is bound to something of the parameter's
type; what stands for a parameter that is written to is such a name; and literals suit the parameter's
type, where those in index brackets are integers or truth values. -/
theorem call_accepted_iff (inner : Parser Nat) (s : State) (callee : Symbol) (hs : s.Delimited)
    (hscalar : ∀ (key : ScopeKey) (sym : Symbol), s.table.bindings[key]? = some sym →
      ∀ p ∈ sym.parameters, p.kind.isScalar = true)
    (hcalls : Calls s callee) :
    Ends (statement inner) s (fun _ s' => s'.diagnostics = s.diagnostics)
      (fun _ s' => s'.diagnostics = s.diagnostics) ↔
    ∃ args rest, Enclosed args s.cursor.ahead.tail rest ∧
      args.length = callee.parameters.length ∧
      ∀ p a, (p, a) ∈ callee.parameters.zip args → ∃ type, p.kind = .scalar type ∧
        (IsReference (a.map Token.kind) → ∀ t ∈ a.head?,
          ∃ sym, s.table.lookup? t.literal = some sym ∧ sym.kind = .scalar type) ∧
        (p.direction = some .output ∨ p.direction = some .both → IsReference (a.map Token.kind)) ∧
        (∀ l, (false, l) ∈ literals 0 (a.map Token.kind) → Suits type l) ∧
        ∀ l, (true, l) ∈ literals 0 (a.map Token.kind) → l = .integer ∨ l = .bool := by
  rw [hcalls.accepted_iff hs]
  obtain ⟨key, hbound⟩ := hcalls.bound
  refine exists₂_congr fun args rest => and_congr_right fun _ => ?_
  rw [List.forall₂_iff_zip]
  refine and_congr eq_comm (forall₂_congr fun p a => imp_congr_right fun hmem => ?_)
  exact answers_iff (hscalar key callee hbound p (List.of_mem_zip hmem).1)

/-- The tokens of `scale(x[1], 2 + y);`. -/
def scaleTokens : List Token :=
  [⟨.identifier, text "scale", 1, 1⟩, ⟨.leftParen, text "(", 1, 6⟩, ⟨.identifier, text "x", 1, 7⟩,
    ⟨.leftBracket, text "[", 1, 8⟩, ⟨.literal .integer, text "1", 1, 9⟩,
    ⟨.rightBracket, text "]", 1, 10⟩, ⟨.comma, text ",", 1, 11⟩,
    ⟨.literal .integer, text "2", 1, 13⟩, ⟨.op .plus, text "+", 1, 15⟩,
    ⟨.identifier, text "y", 1, 17⟩, ⟨.rightParen, text ")", 1, 18⟩, ⟨.semicolon, text ";", 1, 19⟩]

/-- A procedure that writes to a truth value and reads a number. -/
def scaleSymbol : Symbol :=
  { kind := .procedure
    parameters := [⟨text "a", .scalar .bool, some .output, none⟩,
      ⟨text "b", .scalar .float, some .input, none⟩] }

def scaleState : State :=
  { (default : State) with
    cursor := ⟨[], scaleTokens, ⟨.eof, [], 1, 20⟩⟩
    table :=
      { bindings := (∅ : Bindings).insert (text "p.scale") scaleSymbol |>.insert (text "p.x")
          { kind := .scalar .bool }
        scope := text "p.q"
        global := text "p" } }

/-- An element stands for what is written to, and a sum with an unbound name for a number. -/
theorem scaleState_accepted :
    Calls scaleState scaleSymbol ∧
      Ends (statement statements) scaleState (fun _ s' => s'.diagnostics = [])
        fun _ s' => s'.diagnostics = [] := by
  have hcalls : Calls scaleState scaleSymbol := .procedure rfl rfl (by decide +kernel) rfl
  have hscalar : ∀ (key : ScopeKey) (sym : Symbol), scaleState.table.bindings[key]? = some sym →
      ∀ p ∈ sym.parameters, p.kind.isScalar = true := by
    intro key sym hbound
    rw [scaleState, Std.ExtTreeMap.getElem?_insert, Std.ExtTreeMap.getElem?_insert] at hbound
    split at hbound
    · cases hbound
      simp
    · split at hbound
      · cases hbound
        decide
      · simp at hbound
  have helement : Grammar.Expression .logical [.identifier, .leftBracket, .literal .integer,
      .rightBracket] := .ofFactor (.element (.ofFactor (.literal _)))
  have hsum : Grammar.Expression .logical [.literal .integer, .op .plus, .identifier] :=
    .operand (by decide) (.joined (o := .plus) rfl
      (.operand (by decide) (.operand (by decide) (.literal _)))
      (.operand (by decide) (.operand (by decide) (.operand (by decide) .name))))
  have hlisted : Listed [(scaleTokens.drop 2).take 4, (scaleTokens.drop 7).take 3]
      (scaleTokens.drop 2) (⟨.rightParen, text ")", 1, 18⟩ :: scaleTokens.drop 11) :=
    .more helement rfl (.one hsum)
  refine ⟨hcalls, (call_accepted_iff statements scaleState scaleSymbol ⟨rfl, by decide⟩ hscalar
    hcalls).mpr ⟨_, _, .arguments rfl rfl hlisted, rfl, fun p a hmem => ?_⟩⟩
  simp only [scaleSymbol, List.zip_cons_cons, List.zip_nil_left, List.mem_cons, List.not_mem_nil,
    or_false, Prod.mk.injEq] at hmem
  obtain ⟨rfl, rfl⟩ | ⟨rfl, rfl⟩ := hmem
  · have hreference : IsReference [.identifier, .leftBracket, .literal .integer, .rightBracket] :=
      .element (.ofFactor (.literal _))
    have hfitting : Fitting (.expect (.scalar .bool))
        (((scaleTokens.drop 2).take 4).map Token.kind) := by decide
    refine ⟨.bool, rfl, ?_, fun _ => hreference, hfitting.others, hfitting.indices⟩
    rintro - t ⟨⟩
    exact ⟨{ kind := .scalar .bool }, by decide +kernel, rfl⟩
  · have hfitting : Fitting (.expect (.scalar .float))
        (((scaleTokens.drop 7).take 3).map Token.kind) := by decide
    refine ⟨.float, rfl, ?_, ?_, hfitting.others, hfitting.indices⟩
    · rintro ⟨⟩
    · rintro (⟨⟨⟩⟩ | ⟨⟨⟩⟩)

end Calls

end OnePass.Program
