import OnePass.Proofs.Acceptance.Expression
set_option autoImplicit false

/-!
# Statements of the grammar are taken whole

On the tokens of statements of the grammar, the production of statements ends right behind the last
semicolon, whatever names, types and arguments the statements get wrong (`statements_pass`).
The proof follows the derivation.  What carries it is what a rejected statement leaves: `d` blocks
more are counted than before, and skipping with `d` blocks open ends behind the statement's own
semicolon (`Recovers`).

The lemmas on statements with statements inside ask of the words inside only that they are taken
(`Accepted`) and that skipping passes them (`Skipped`), so that words with a fault in them can be
taken by them as well.  `faulty` says whether the words are known to leave a diagnostic.
-/

namespace OnePass.Program

open OnePass.Grammar

/-! ## Calls -/

section Calls

variable {s : State} {rest : List Token}

theorem Short.of_word {k : TokenKind} {w : List TokenKind} (hw : ∀ k' ∈ k :: w, Plain k')
    (hs : Spells (k :: w) s.cursor.ahead rest) : Short rest s := by
  obtain ⟨us, hahead, hus⟩ := spells_iff.mp hs
  refine ⟨us, ?_, fun t ht => hw _ (hus ▸ List.mem_map_of_mem ht), hahead⟩
  rintro rfl
  cases hus

theorem checkArgument_covers (start : Token) (p : Parameter) (operand : Operand)
    (h : OnLast rest s) : Covers (checkArgument start p operand) s rest := by
  have hreject (t : Token) : Covers (rejectArgument t : Parser Unit) s rest :=
    covers_rejectArgument t h.short
  cases operand with
  | name t =>
    unfold Covers at hreject ⊢
    simp only [checkArgument, ends_bind, lookup?, ends_get, ends_pure]
    split
    · exact ⟨h, rfl⟩
    · exact hreject t
  | literal t =>
    simp only [checkArgument]
    split
    · exact hreject start
    · exact covers_pure _ h
  | compound =>
    simp only [checkArgument]
    split
    · exact hreject start
    · exact covers_pure _ h

theorem argument_covers {w : List TokenKind} (hw : Grammar.Expression .logical w)
    (expected : Option (List Parameter)) (hs : Spells w s.cursor.ahead rest)
    (hfollows : Follows .logical rest) : Covers (argument expected) s rest := by
  have hexpression (ctx : Context) := expression_covers hw ctx hs hfollows
  unfold Covers argument
  rw [ends_bind, ends_current]
  split
  · exact (hexpression _).bind (fun _ h => h) fun _ _ hlast => covers_pure _ hlast
  · obtain ⟨k, v, rfl, -⟩ := expression_first hw
    exact covers_rejectArgument _ (Short.of_word (plain_of_mem_expression hw) hs)
  · refine (hexpression _).bind (fun _ h => h) fun operand s' hlast => ?_
    refine (checkArgument_covers _ _ _ hlast).bind (fun _ h => h) fun _ _ hlast' => ?_
    exact covers_pure _ hlast'

/-- The arguments of a call, from the token before the first of them on. -/
theorem argumentsWithin_covers {w : List TokenKind} (hw : Arguments w) {count : Nat}
    (expected : Option (List Parameter)) {s : State} {t : Token} (hcount : w.length ≤ count)
    (ht : t.kind = .rightParen) (hs : Spells w s.cursor.ahead.tail (t :: rest)) :
    Covers (argumentsWithin count expected) s (t :: rest) := by
  induction hw generalizing count expected s with
  | one he =>
    obtain ⟨k, v, rfl, -⟩ := expression_first he
    cases count with
    | zero => simp at hcount
    | succ count =>
      refine covers_advance (Covers.bind ?_ (fun _ h => h) fun left s' hlast => ?_)
      · exact argument_covers he expected hs (.of_kind ht (by simp) (by simp))
      · unfold Covers
        simp only [ends_bind, ends_peekIs, hlast.peek, ht]
        exact ⟨hlast, rfl⟩
  | @more v w he hw ih =>
    simp only [fills_append, fills_cons] at hs
    obtain ⟨_, hv, u, more, rfl, hu, hw'⟩ := hs
    simp only [List.length_append, List.length_cons] at hcount
    cases count with
    | zero => omega
    | succ count =>
      have hfirst : Covers (argument expected) { s with cursor := s.cursor.next } (u :: more) :=
        argument_covers he expected hv (.of_kind hu (by simp) (by simp))
      refine covers_advance (hfirst.bind (fun s' hs' => ?_) fun left s' hlast => ?_)
      · refine hs'.of_spells (w := .comma :: w) ?_ ⟨u, more, rfl, hu, hw'⟩
        have hcomma : Plain .comma := by decide
        simpa using ⟨hcomma, plain_of_mem_arguments hw⟩
      · obtain ⟨x, hx, hs'⟩ := id hlast
        have hagain : Covers (argumentsWithin count left)
            { s' with cursor := s'.cursor.next } (t :: rest) :=
          ih left (by omega) (by simpa [hs'] using hw')
        unfold Covers at hagain ⊢
        simp only [ends_bind, ends_peekIs, hlast.peek, hu, decide_true, ends_ite, if_true,
          ends_advance]
        exact hagain

theorem callArguments_covers {w : List TokenKind} (hw : Call w)
    (expected : Option (List Parameter)) (hs : Spells w s.cursor.ahead rest) :
    Covers (callArguments expected) s rest := by
  have hclose (left : Option (List Parameter)) {s' : State} {u : Token} (hu : u.kind = .rightParen)
      (hlast : OnLast (u :: rest) s') : Covers (do
        expectPeek .rightParen
        if left.any (! ·.isEmpty) then rejectToken (← current) : Parser Unit) s' rest := by
    have hlast' := hlast.next (by rw [hu]; decide)
    refine covers_expectPeek hlast hu ?_
    split
    · have hreject : Covers (rejectToken s'.cursor.next.current : Parser Unit)
          { s' with cursor := s'.cursor.next } rest := covers_rejectToken _ hlast'.short
      exact hreject
    · exact covers_pure _ hlast'
  cases hw with
  | empty =>
    obtain ⟨t, _, hs, ht, u, rest, rfl, hu, rfl⟩ := hs
    have hlast : OnLast (u :: rest) s := ⟨t, by rw [ht]; decide, hs⟩
    have h := hclose expected hu hlast
    unfold Covers callArguments at *
    simp only [ends_bind, ends_peekIs, hlast.peek, hu, decide_true, ends_ite, if_true,
      ends_pure] at h ⊢
    exact h
  | @arguments w ha =>
    simp only [fills_cons, fills_append, fills_nil] at hs
    obtain ⟨t, more, hs, ht, _, hargs, u, rest, rfl, hu, rfl⟩ := hs
    have hpeek : s.cursor.peek.kind ≠ .rightParen := by
      obtain ⟨k, v, hkv, hk⟩ : ∃ k v, w = k :: v ∧ k ≠ .rightParen := by
        cases ha with
        | one he =>
          obtain ⟨k, v, hkv, hk, -⟩ := expression_first he
          exact ⟨k, v, hkv, hk⟩
        | more he _ =>
          obtain ⟨k, v, rfl, hk, -⟩ := expression_first he
          exact ⟨k, _, rfl, hk⟩
      subst hkv
      obtain ⟨x, _, rfl, hx, -⟩ := hargs
      rw [Cursor.peek_of_ahead hs, hx]
      exact hk
    have hlength : w.length ≤ s.cursor.remaining + 1 := by
      have := hargs.length
      simp only [Cursor.remaining, hs, List.length_cons] at this ⊢
      omega
    have h : Covers (do
        let left ← argumentsWithin (s.cursor.remaining + 1) expected
        expectPeek .rightParen
        if left.any (! ·.isEmpty) then rejectToken (← current) : Parser Unit) s rest := by
      refine Covers.bind (argumentsWithin_covers ha expected hlength hu (by simpa [hs] using hargs))
        (fun s' hs' => ?_) fun left s' hlast => hclose left hu hlast
      exact hs'.of_spells (w := [.rightParen]) (by decide) ⟨u, _, rfl, hu, rfl⟩
    unfold Covers callArguments at *
    simp only [ends_bind, ends_peekIs, hpeek, decide_false, ends_ite, Bool.false_eq_true, if_false,
      ends_remaining] at h ⊢
    exact h

theorem exists_leftParen {w : List TokenKind} (hw : Call w) {ts : List Token}
    (hs : Spells w ts rest) : ∃ u more, ts = u :: more ∧ u.kind = .leftParen := by
  cases hw with
  | empty =>
    obtain ⟨u, more, rfl, hu, -⟩ := hs
    exact ⟨u, more, rfl, hu⟩
  | arguments _ =>
    obtain ⟨u, more, rfl, hu, -⟩ := hs
    exact ⟨u, more, rfl, hu⟩

/-- The arguments of a call and its line of the trace, from the first word of the call on. -/
theorem callTail_covers {k : TokenKind} {w : List TokenKind} (hw : Call w)
    (expected : Option (List Parameter)) (words : Bytes)
    (hs : Spells (k :: w) s.cursor.ahead rest) :
    Covers (do
      advance
      callArguments expected
      note words) s rest := by
  obtain ⟨t, more, hs, -, hcall⟩ := hs
  refine covers_advance ?_
  refine (callArguments_covers hw _ (by simpa [hs] using hcall)).bind (fun _ h => h) ?_
  exact fun _ _ hlast => covers_note _ hlast

theorem builtinCall_covers {b : Builtin} {w : List TokenKind} (hw : Call w)
    (hs : Spells (.builtin b :: w) s.cursor.ahead rest) : Covers builtinCall s rest := by
  have hb : Plain (.builtin b) := by simp [Plain]
  have hshort := Short.of_word (List.forall_mem_cons.mpr ⟨hb, plain_of_mem_call hw⟩) hs
  have hpeek : s.cursor.peek.kind = .leftParen := by
    obtain ⟨t, _, hs, -, hcall⟩ := hs
    obtain ⟨u, _, rfl, hu⟩ := exists_leftParen hw hcall
    rw [Cursor.peek_of_ahead hs, hu]
  unfold Covers builtinCall
  rw [ends_bind, ends_current, ends_bind, ends_get]
  dsimp only
  split
  · exact ⟨rfl, hshort, rfl⟩
  · rw [ends_bind, ends_expectPeek, if_pos hpeek]
    exact callTail_covers hw _ _ hs

theorem procedureCall_covers {w : List TokenKind} (hw : Call w) (callee : Token)
    (found : Option Symbol) (hs : Spells (.identifier :: w) s.cursor.ahead rest) :
    Covers (procedureCall callee found) s rest := by
  have hname : Plain .identifier := by decide
  have hshort := Short.of_word (List.forall_mem_cons.mpr ⟨hname, plain_of_mem_call hw⟩) hs
  unfold procedureCall
  split
  · exact ⟨rfl, hshort, rfl⟩
  · exact callTail_covers hw _ _ hs

end Calls

/-! ## Assignments -/

section Assignments

variable {s : State} {rest : List Token} {v w : List TokenKind}

/-- An assignment behind its target, which is the current token. -/
theorem assignmentTail_covers (hv : Index v) (hw : Grammar.Expression .logical w) (ctx : Context)
    (hs : Spells (.identifier :: (v ++ .assign :: w)) s.cursor.ahead rest)
    (hfollows : Follows .logical rest) : Covers (assignmentTail ctx) s rest := by
  have hassign : Plain .assign := by decide
  -- the sign and what follows it, from the last token before the sign on
  have hvalue {s' : State} {u : Token} {more : List Token} (hlast : OnLast (u :: more) s')
      (hu : u.kind = .assign) (hmore : Spells w more rest) : Covers (do
        expectPeek .assign
        advance
        let _ ← expression ctx) s' rest := by
    refine covers_expectPeek hlast hu (covers_advance ?_)
    obtain ⟨x, -, hs'⟩ := id hlast
    refine (expression_covers hw ctx (by simpa [hs'] using hmore) hfollows).bind (fun _ h => h) ?_
    exact fun _ _ hlast' => covers_pure _ hlast'
  simp only [fills_cons, fills_append] at hs
  obtain ⟨t, _, hs, ht, _, hindex, u, more, rfl, hu, hmore⟩ := hs
  have hname : Plain t.kind := by rw [ht]; decide
  cases hv with
  | none =>
    obtain rfl := hindex
    have hlast : OnLast (u :: more) s := ⟨t, hname, hs⟩
    have h := hvalue hlast hu hmore
    unfold Covers assignmentTail
    rw [ends_bind, ends_peekIs, hlast.peek, hu]
    exact h
  | @some e he =>
    simp only [fills_cons, fills_append, fills_nil] at hindex
    obtain ⟨b, _, rfl, hb, _, hinside, c, _, rfl, hc, rfl⟩ := hindex
    have h : Covers (do
        advance
        advance
        let _ ← expression .index
        expectPeek .rightBracket
        expectPeek .assign
        advance
        let _ ← expression ctx) s rest := by
      refine covers_advance (covers_advance ?_)
      have hexpression : Covers (expression .index) { s with cursor := s.cursor.next.next }
          (c :: u :: more) :=
        expression_covers he _ (by simpa [hs] using hinside) (.of_kind hc (by simp) (by simp))
      refine hexpression.bind (fun s' hs' => ?_) fun _ s' hlast => ?_
      · refine hs'.of_spells (w := .rightBracket :: .assign :: w) ?_
          ⟨c, _, rfl, hc, u, _, rfl, hu, hmore⟩
        have hclose : Plain .rightBracket := by decide
        simpa using ⟨hclose, hassign, plain_of_mem_expression hw⟩
      · exact covers_expectPeek hlast hc (hvalue (hlast.next (by rw [hc]; decide)) hu hmore)
    unfold Covers assignmentTail
    rw [ends_bind, ends_peekIs, Cursor.peek_of_ahead hs, hb]
    exact h

/-- The target of an assignment is looked up before anything else is read; nothing is reported but
the target itself. -/
theorem ends_assignmentContext (target : Token) {Q : Context → State → Prop}
    {E : Stop → State → Prop} (hQ : ∀ ctx, Q ctx s)
    (hE : E .reject { s with diagnostics := s.diagnostics ++ [misplaced s.file target] }) :
    Ends (assignmentContext target) s Q E := by
  simp only [assignmentContext, lookup?, ends_bind, ends_get, ends_pure]
  split
  · split
    · exact hQ _
    · exact hE
  · exact hQ _

theorem assignment_covers (hw : Grammar.Assignment w) (target : Token)
    (hs : Spells w s.cursor.ahead rest) (hfollows : Follows .logical rest) :
    Covers (assignment target) s rest := by
  have hplain := plain_of_mem_assignment hw
  obtain ⟨hv, he⟩ := hw
  have hshort := Short.of_word hplain hs
  unfold Covers assignment
  rw [ends_bind]
  refine ends_assignmentContext target (fun ctx => ?_) ⟨rfl, hshort, rfl⟩
  refine (assignmentTail_covers hv he ctx hs hfollows).bind (fun _ h => h) ?_
  exact fun _ _ hlast => covers_note _ hlast

end Assignments

/-! ## Statements with statements inside -/

/-- Where a statement ends in front of `follow`, with `base` blocks open around it: it succeeds on
its last token, or it is rejected on a plain one with some blocks more counted, from where skipping
leads to `goal`. -/
def Recovers {α : Type} (faulty : Bool) (base : Nat) (p : Parser α) (s : State)
    (follow goal : List Token) : Prop :=
  Ends p s
    (fun _ s' => s'.cursor.ahead.tail = follow ∧ s'.nesting = base ∧
      (faulty = true → s'.diagnostics ≠ []))
    (fun stop s' => stop = .reject ∧
      ∃ d : Nat, s'.nesting = base + d ∧ Resumes d s'.cursor.ahead goal ∧
        Plain s'.cursor.current.kind)

/-- Statements succeed: `count` of them are recognised, up to `rest`. -/
def Passes (faulty : Bool) (p : Parser Nat) (count : Nat) (s : State) (rest : List Token) : Prop :=
  Ends p s
    (fun n s' => n = count ∧ s'.cursor.ahead = rest ∧ s'.nesting = s.nesting ∧
      (faulty = true → s'.diagnostics ≠ []))
    (fun _ _ => False)

/-- Diagnostics stay. -/
theorem Proceeds.diagnostics_ne_nil {s s' : State} (h : Proceeds s s') (hs : s.diagnostics ≠ []) :
    s'.diagnostics ≠ [] := by
  intro hnone
  have hprefix := h.diagnostics
  rw [hnone] at hprefix
  exact hs (List.prefix_nil.mp hprefix)

/-- What is reported before statements stays reported. -/
theorem Passes.behind {faulty faulty' : Bool} {depth count : Nat} {s : State} {rest : List Token}
    (h : Passes faulty' (statementsWithin depth) count s rest)
    (hs : faulty = true → s.diagnostics ≠ []) :
    Passes (faulty || faulty') (statementsWithin depth) count s rest := by
  have hkeeps := Proceeds.wideFrame.keeps (made_statementsWithin depth) s
  refine Ends.mono (Ends.and h hkeeps) ?_ (fun _ _ h => h.1)
  rintro n s' ⟨⟨hcount, hahead, hnesting, hreported⟩, hproceeds⟩
  refine ⟨hcount, hahead, hnesting, fun hfaulty => ?_⟩
  rcases Bool.or_eq_true_iff.mp hfaulty with hbefore | hinside
  · exact hproceeds.diagnostics_ne_nil (hs hbefore)
  · exact hreported hinside

section Blocks

variable {faulty faulty' : Bool} {s : State} {follow goal : List Token} {base : Nat}
  {statements : Parser Nat}

theorem Short.resumes {depth : Int} {middle : List Token} (h : Short middle s)
    (hmiddle : Resumes depth middle goal) :
    Resumes depth s.cursor.ahead goal ∧ Plain s.cursor.current.kind := by
  obtain ⟨us, hne, hus, hs⟩ := h
  obtain ⟨u, us, rfl⟩ := List.exists_cons_of_ne_nil hne
  refine ⟨?_, ?_⟩
  · rw [hs]
    exact Resumes.plain_append hus hmiddle
  · rw [Cursor.current_of_ahead hs]
    exact hus u List.mem_cons_self

theorem Covers.recovers {α : Type} {p : Parser α} (h : Covers p s follow)
    (hskip : Resumes 0 follow goal) : Recovers false s.nesting p s follow goal := by
  refine Ends.mono h ?_ ?_
  · rintro _ s' ⟨⟨u, -, hs'⟩, hnesting⟩
    exact ⟨by simp [hs'], hnesting, by simp⟩
  · rintro stop s' ⟨hstop, hshort, hnesting⟩
    exact ⟨hstop, 0, hnesting, hshort.resumes hskip⟩

/-- Inside an open block: a production that covers the tokens of the header, and then the rest of
the block. -/
theorem Covers.bind_recovers {α β : Type} {p : Parser β} {f : β → Parser α}
    {middle : List Token} (hp : Covers p s middle) (hnesting : s.nesting = base + 1)
    (hmiddle : Resumes 1 middle goal)
    (hf : ∀ b s', OnLast middle s' → s'.nesting = base + 1 →
      Recovers faulty base (f b) s' follow goal) :
    Recovers faulty base (p >>= f) s follow goal := by
  unfold Recovers
  rw [ends_bind]
  refine Ends.mono hp ?_ ?_
  · rintro b s' ⟨hlast, hs'⟩
    exact hf b s' hlast (hs'.trans hnesting)
  · rintro stop s' ⟨hstop, hshort, hs'⟩
    exact ⟨hstop, 1, hs'.trans hnesting, hshort.resumes hmiddle⟩

theorem recovers_expectPeek {α : Type} {k : TokenKind} {f : Unit → Parser α}
    (hpeek : s.cursor.peek.kind = k)
    (h : Recovers faulty base (f ()) { s with cursor := s.cursor.next } follow goal) :
    Recovers faulty base (expectPeek k >>= f) s follow goal := by
  unfold Recovers at h ⊢
  rwa [ends_bind, ends_expectPeek, if_pos hpeek]

/-- A branch of at least one statement, from the token before its first statement on. -/
theorem branch_bind_recovers {α : Type} {f : Unit → Parser α} {n : Nat} {middle : List Token}
    (hstatements : Passes faulty' statements (n + 1) { s with cursor := s.cursor.next } middle)
    (hf : ∀ s', s'.cursor.ahead = middle → s'.nesting = s.nesting →
      (faulty' = true → s'.diagnostics ≠ []) → Recovers faulty base (f ()) s' follow goal) :
    Recovers faulty base (branch statements >>= f) s follow goal := by
  unfold Recovers
  simp only [branch, ends_bind, ends_advance]
  refine Ends.mono hstatements ?_ (fun _ _ h => h.elim)
  rintro n' s' ⟨rfl, hs', hnesting, hreported⟩
  exact hf s' hs' hnesting hreported

/-- The end of a block, whose last word is in front of what follows. -/
theorem blockEnd_recovers {word : TokenKind} {u v : Token} (words : Bytes)
    (hs : s.cursor.ahead = u :: v :: follow) (hu : u.kind = .kwEnd) (hv : v.kind = word)
    (hnesting : s.nesting = base + 1) (hreported : faulty = true → s.diagnostics ≠ []) :
    Recovers faulty base (do blockEnd word; note words) s follow goal := by
  unfold Recovers blockEnd
  simp only [ends_bind, ends_currentIs, Cursor.current_of_ahead hs, hu, decide_true, if_true,
    ends_expectPeek, Cursor.peek_of_ahead hs, hv, closeBlock, ends_modify, ends_note]
  exact ⟨by simp [hs], by simp [hnesting], hreported⟩

/-- What follows the assignment in a `for` statement. -/
def forTail (statements : Parser Nat) : Parser Unit := do
  expectPeek .semicolon
  advance
  let _ ← expression (.condition none)
  expectPeek .rightParen
  advance
  let _ ← statements
  blockEnd .kwFor
  note (text "for")

/-- The second part of a `for` statement's header, from the last token of the assignment on. -/
theorem forTail_recovers {n : Nat} {c : List TokenKind} {d r y z : Token}
    {second middle : List Token} (hlast : OnLast (d :: second) s) (hd : d.kind = .semicolon)
    (hc : Grammar.Expression .logical c) (hsecond : Spells c second (r :: middle))
    (hr : r.kind = .rightParen) (hmiddle : Resumes 1 middle goal)
    (hnesting : s.nesting = base + 1)
    (hstatements : ∀ s', s'.cursor.ahead = middle →
      Passes faulty statements n s' (y :: z :: follow))
    (hy : y.kind = .kwEnd) (hz : z.kind = .kwFor) :
    Recovers faulty base (forTail statements) s follow goal := by
  obtain ⟨u, -, hs⟩ := id hlast
  refine recovers_expectPeek (by rw [hlast.peek, hd]) ?_
  have hcondition : Covers (expression (.condition none))
      { s with cursor := s.cursor.next.next } (r :: middle) :=
    expression_covers hc _ (by simpa [hs] using hsecond) (.of_kind hr (by simp) (by simp))
  have hskip : Resumes 1 (r :: middle) goal := .plain (by rw [hr]; decide) hmiddle
  refine hcondition.bind_recovers hnesting hskip fun _ s' hlast' hnesting' => ?_
  obtain ⟨u', -, hs'⟩ := id hlast'
  refine recovers_expectPeek (by rw [hlast'.peek, hr]) ?_
  have hbody := hstatements { s' with cursor := s'.cursor.next.next } (by simp [hs'])
  unfold Recovers
  rw [ends_bind, ends_advance, ends_bind]
  refine Ends.mono hbody ?_ (fun _ _ h => h.elim)
  rintro _ s'' ⟨-, hs'', hnesting'', hreported⟩
  exact blockEnd_recovers _ hs'' hy hz (hnesting''.trans hnesting') hreported

/-- A `for` statement up to the first semicolon of its header, in front of `second`; what is left to
recognise is `h`. -/
theorem forStatement_recovers {v w : List TokenKind} {x o d : Token} {more second : List Token}
    (hs : s.cursor.ahead = x :: o :: more) (ho : o.kind = .leftParen) (hv : Index v)
    (hw : Grammar.Expression .logical w)
    (hmore : Spells (.identifier :: (v ++ .assign :: w)) more (d :: second))
    (hd : d.kind = .semicolon) (hskip : Resumes 1 second goal)
    (h : ∀ s', OnLast (d :: second) s' → s'.nesting = s.nesting + 1 →
      Recovers faulty s.nesting (forTail statements) s' follow goal) :
    Recovers faulty s.nesting (forStatement statements) s follow goal := by
  have hsecond : Resumes 1 (d :: second) goal := .inside hd (by omega) hskip
  obtain ⟨i, _, rfl, hi, -⟩ := id hmore
  refine recovers_expectPeek (by rw [Cursor.peek_of_ahead hs, ho]) ?_
  refine recovers_expectPeek (by simp [Cursor.peek, hs, hi]) ?_
  have htarget : Spells (.identifier :: (v ++ .assign :: w)) s.cursor.next.next.ahead
      (d :: second) := by
    simpa [hs] using hmore
  have hshort := Resumes.word (plain_of_mem_assignment ⟨hv, hw⟩) htarget hsecond
  have hplain : Plain s.cursor.next.next.current.kind := by
    simp only [Cursor.current, Cursor.ahead_next, hs, List.tail_cons, List.headD_cons, hi]
    decide
  unfold Recovers
  rw [ends_bind, ends_current, ends_bind]
  refine ends_assignmentContext _ (fun ctx => ?_) ⟨rfl, 1, rfl, hshort, hplain⟩
  have hassign : Covers (assignmentTail ctx)
      { s with cursor := s.cursor.next.next, nesting := s.nesting + 1 } (d :: second) :=
    assignmentTail_covers hv hw ctx htarget (.of_kind hd (by simp) (by simp))
  exact hassign.bind_recovers rfl hsecond fun _ => h

end Blocks

/-! ## Statements -/

/-- A word whose first token starts a statement.  Such a token neither ends a statement nor continues
an expression. -/
def Starts (w : List TokenKind) : Prop :=
  ∃ k v, w = k :: v ∧ k ≠ .semicolon ∧ k ≠ .leftBracket ∧ (∀ o, k ≠ .op o) ∧
    ∀ t : Token, t.kind = k → startsStatement t = true

theorem starts_cons {k : TokenKind} (v : List TokenKind)
    (hk : k = .kwReturn ∨ k = .identifier ∨ k = .kwIf ∨ k = .kwFor ∨ ∃ b, k = .builtin b) :
    Starts (k :: v) := by
  refine ⟨k, v, rfl, ?_, ?_, ?_, ?_⟩
  · rcases hk with rfl | rfl | rfl | rfl | ⟨b, rfl⟩ <;> simp
  · rcases hk with rfl | rfl | rfl | rfl | ⟨b, rfl⟩ <;> simp
  · rcases hk with rfl | rfl | rfl | rfl | ⟨b, rfl⟩ <;> simp
  · intro t ht
    rcases hk with rfl | rfl | rfl | rfl | ⟨b, rfl⟩ <;> simp [startsStatement, ht]

theorem Starts.append {v w : List TokenKind} (hv : Starts v) : Starts (v ++ w) := by
  obtain ⟨k, x, rfl, hk⟩ := hv
  exact ⟨k, x ++ w, rfl, hk⟩

theorem starts_of_phrase {w : List TokenKind} (hw : Phrase .one w) : Starts w := by
  cases hw with
  | returns => exact starts_cons _ (by simp)
  | builtin b _ => exact starts_cons _ (by simp)
  | call _ => exact starts_cons _ (by simp)
  | assignment ha => obtain ⟨-, -⟩ := ha; exact starts_cons _ (by simp)
  | ifThen _ _ => exact starts_cons _ (by simp)
  | ifElse _ _ _ => exact starts_cons _ (by simp)
  | forLoop _ _ _ => exact starts_cons _ (by simp)

theorem Starts.current {w : List TokenKind} (hw : Starts w) {s : State} {rest : List Token}
    (hs : Spells w s.cursor.ahead rest) : startsStatement s.cursor.current = true := by
  obtain ⟨k, v, rfl, -, -, -, hk⟩ := hw
  obtain ⟨t, more, hs, ht, -⟩ := hs
  rw [Cursor.current_of_ahead hs]
  exact hk t ht

/-- Behind a statement and whatever ends it, reading goes on at `goal`. -/
def GoesOn (faulty : Bool) (statements : Parser Nat) (s : State) (goal : List Token) : Prop :=
  Ends (terminated statements) s
    (fun _ s' => s'.cursor.ahead = goal ∧ s'.nesting = s.nesting ∧
      (faulty = true → s'.diagnostics ≠ []))
    (fun _ _ => False)

/-- What becomes of a word in front of a semicolon, one statement or not: reading goes on behind the
semicolon. -/
def Taken (faulty : Bool) (w : List TokenKind) : Prop :=
  ∀ (depth : Nat) (s : State) (t : Token) (rest : List Token), w.length ≤ depth →
    t.kind = .semicolon → Spells w s.cursor.ahead (t :: rest) →
    GoesOn faulty (statementsWithin depth) s rest

/-- What holds of the words of a category, with the recurrences bounded by the length. -/
def Accepted (faulty : Bool) : Phrases → List TokenKind → Prop
  | .one, w => ∀ (depth : Nat) (s : State) (follow goal : List Token), w.length ≤ depth →
      Follows .logical follow → Resumes 0 follow goal → Spells w s.cursor.ahead follow →
      Recovers faulty s.nesting (statement (statementsWithin depth)) s follow goal
  | .many n, w => ∀ (depth : Nat) (s : State) (t : Token) (rest : List Token), w.length < depth →
      startsStatement t = false → Spells w s.cursor.ahead (t :: rest) →
      Passes faulty (statementsWithin depth) n s (t :: rest)

section Terminated

variable {statements : Parser Nat} {faulty faulty' : Bool} {s : State} {goal : List Token}

/-- Recovering from a statement that was rejected or is not ended. -/
theorem recover_ends {mark base d : Nat} (hmark : mark ≤ s.diagnostics.length)
    (hnesting : s.nesting = base + d) (hskip : Resumes d s.cursor.ahead goal) :
    Ends (recover mark ((s.nesting : Int) - base)) s
      (fun _ s' => s'.cursor.ahead = goal ∧ s'.diagnostics ≠ []) (fun _ _ => False) := by
  obtain ⟨n, hn, hgoal⟩ := hskip
  have hdepth : (s.nesting : Int) - base = d := by omega
  rw [hdepth, ends_recover, hn]
  exact ⟨hgoal, append_overdue_ne_nil hmark⟩

/-- A statement and the token behind it, however the statement ends.  A token that is no semicolon is
reported, and skipped like a part of the statement. -/
theorem terminated_goesOn (hkeeps : Keeps Proceeds statements) {t : Token} {more : List Token}
    (hskip : Resumes 0 (t :: more) goal)
    (h : Recovers faulty s.nesting (statement statements) s (t :: more) goal)
    (hfaulty : faulty' = true → faulty = true ∨ t.kind ≠ .semicolon) :
    GoesOn faulty' statements s goal := by
  have hproceeds := Proceeds.wideFrame.keeps (made_statement (.given hkeeps)) s
  unfold GoesOn terminated endStatement
  simp only [ends_bind, ends_reported, ends_get, ends_succeeds]
  refine Ends.mono (Ends.and h hproceeds) ?_ ?_
  · rintro _ s' ⟨⟨hs', hnesting, hreported⟩, hproceeds⟩
    have hpeek : s'.cursor.peek = t := by simp [Cursor.peek, hs']
    by_cases ht : t.kind = .semicolon
    · obtain ⟨n, hn, rfl⟩ := hskip
      rw [skipLength_of_semicolon ⟨Int.le_refl 0, ht⟩] at hn
      cases hn
      simp only [ends_peekIs, hpeek, ht, decide_true, Bool.and_self, ends_ite, if_true, ends_bind,
        ends_advance]
      refine ⟨by simp [hs'], hnesting, fun h => hreported ?_⟩
      exact (hfaulty h).resolve_right fun hne => hne ht
    · have hlength := hproceeds.diagnostics.length_le
      have hresumes : Resumes (0 : Nat) s'.cursor.next.ahead goal := by
        rw [Cursor.ahead_next, hs']
        exact hskip
      simp only [ends_peekIs, hpeek, ht, decide_false, Bool.and_false, Bool.false_eq_true, ends_ite,
        if_false, if_true, ends_bind, ends_peek, ends_unexpected, ends_advance, ends_recoverFrom]
      refine Ends.mono (recover_ends (d := 0) ?_ hnesting hresumes) ?_ (fun _ _ h => h)
      · rw [List.length_append]
        omega
      · rintro _ s'' ⟨hgoal, hreported⟩
        exact ⟨hgoal, trivial, fun _ => hreported⟩
  · rintro stop s' ⟨⟨rfl, d, hnesting, hskip, -⟩, hproceeds⟩
    simp only [ends_peekIs, Bool.false_and, ends_ite, ends_recoverFrom]
    refine Ends.mono (recover_ends hproceeds.diagnostics.length_le hnesting hskip) ?_
      (fun _ _ h => h)
    rintro _ s'' ⟨hgoal, hreported⟩
    exact ⟨hgoal, trivial, fun _ => hreported⟩

end Terminated

/-- A statement is told by the kind of its first token. -/
theorem statement_apply (statements : Parser Nat) (s : State) :
    statement statements s = (match s.cursor.current.kind with
      | .kwReturn => note (text "return")
      | .builtin _ => builtinCall
      | .identifier => nameStatement
      | .kwIf => ifStatement statements
      | .kwFor => forStatement statements
      | _ => rejectToken s.cursor.current) s := rfl

theorem Recovers.of_eq {α : Type} {faulty : Bool} {base : Nat} {p q : Parser α} {s : State}
    {follow goal : List Token} (h : Recovers faulty base p s follow goal) (hq : q s = p s) :
    Recovers faulty base q s follow goal := by
  unfold Recovers Ends at *
  rwa [hq]

section Cases

variable {faulty faulty' : Bool} {n : Nat} {c v w : List TokenKind}

theorem accepted_returns : Accepted false .one [.kwReturn] := by
  rintro depth s follow goal - - hskip ⟨u, _, hs, hu, rfl⟩
  refine Recovers.of_eq (Covers.recovers ?_ hskip)
    (by rw [statement_apply, Cursor.current_of_ahead hs, hu])
  exact covers_note _ ⟨u, by rw [hu]; decide, hs⟩

theorem accepted_builtin (b : Builtin) (hw : Call w) : Accepted false .one (.builtin b :: w) := by
  intro depth s follow goal _ _ hskip hspells
  obtain ⟨u, _, hs, hu, -⟩ := id hspells
  refine Recovers.of_eq (Covers.recovers ?_ hskip)
    (by rw [statement_apply, Cursor.current_of_ahead hs, hu])
  exact builtinCall_covers hw hspells

theorem accepted_call (hw : Call w) : Accepted false .one (.identifier :: w) := by
  intro depth s follow goal _ _ hskip hspells
  obtain ⟨u, _, hs, hu, hcall⟩ := id hspells
  refine Recovers.of_eq (Covers.recovers ?_ hskip)
    (by rw [statement_apply, Cursor.current_of_ahead hs, hu])
  have hpeek : s.cursor.peek.kind = .leftParen := by
    obtain ⟨x, _, rfl, hx⟩ := exists_leftParen hw hcall
    rw [Cursor.peek_of_ahead hs, hx]
  unfold Covers nameStatement
  rw [ends_bind, ends_current, ends_bind, ends_peekIs, hpeek]
  exact procedureCall_covers hw _ _ hspells

theorem accepted_assignment (hw : Assignment w) : Accepted false .one w := by
  intro depth s follow goal _ hfollows hskip hspells
  have hassign := assignment_covers hw s.cursor.current hspells hfollows
  obtain ⟨hv, -⟩ := hw
  obtain ⟨u, _, hs, hu, hmore⟩ := hspells
  refine Recovers.of_eq (Covers.recovers ?_ hskip)
    (by rw [statement_apply, Cursor.current_of_ahead hs, hu])
  have hpeek : s.cursor.peek.kind ≠ .leftParen := by
    cases hv with
    | none => obtain ⟨x, _, rfl, hx, -⟩ := hmore; simp [Cursor.peek_of_ahead hs, hx]
    | some _ => obtain ⟨x, _, rfl, hx, -⟩ := hmore; simp [Cursor.peek_of_ahead hs, hx]
  unfold Covers nameStatement
  rw [ends_bind, ends_current, ends_bind, ends_peekIs, decide_eq_false hpeek]
  exact hassign

/-- What follows `THEN` in an `if` statement. -/
def ifTail (statements : Parser Nat) : Parser Unit := do
  branch statements
  if ← currentIs .kwElse then branch statements
  blockEnd .kwIf
  note (text "if")

/-- An `if` statement with one branch or two in it. -/
theorem accepted_if {b : List TokenKind} (hc : Grammar.Expression .logical c) (hb : Skipped 1 b)
    (h : ∀ (depth base : Nat) (s : State) (e f : Token) (follow goal : List Token),
      b.length < depth → e.kind = .kwEnd → f.kind = .kwIf → s.nesting = base + 1 →
      Spells b s.cursor.ahead.tail (e :: f :: follow) →
      Recovers faulty base (ifTail (statementsWithin depth)) s follow goal) :
    Accepted faulty .one (.kwIf :: .leftParen ::
      (c ++ .rightParen :: .kwThen :: (b ++ [.kwEnd, .kwIf]))) := by
  intro depth s follow goal hdepth _ hfollow hspells
  simp only [fills_cons, fills_append, fills_nil] at hspells
  obtain ⟨x, _, hs, hx, o, _, rfl, ho, _, hcond, r, _, rfl, hr, y, middle, rfl, hy, _, hbody,
    e, _, rfl, he, f, _, rfl, hf, rfl⟩ := hspells
  simp only [List.length_cons, List.length_append, List.length_nil] at hdepth
  refine Recovers.of_eq ?_
    (by rw [statement_apply, Cursor.current_of_ahead hs, hx])
  refine recovers_expectPeek (by rw [Cursor.peek_of_ahead hs, ho]) ?_
  have hcondition : Covers (expression (.condition none))
      { s with cursor := s.cursor.next.next, nesting := s.nesting + 1 } (r :: y :: middle) :=
    expression_covers hc _ (by simpa [hs] using hcond) (.of_kind hr (by simp) (by simp))
  have hskip : Resumes 1 middle goal :=
    hb _ _ _ _ (by omega) hbody (.closing he (.inl hf) hfollow)
  have hthen : Resumes 1 (r :: y :: middle) goal :=
    .plain (by rw [hr]; decide) (.plain (by rw [hy]; decide) hskip)
  refine hcondition.bind_recovers rfl hthen fun _ s' hlast hnesting => ?_
  obtain ⟨u, -, hs'⟩ := hlast
  refine recovers_expectPeek (by rw [Cursor.peek_of_ahead hs', hr]) ?_
  refine recovers_expectPeek (by simp [Cursor.peek, hs', hy]) ?_
  exact h depth _ _ e f _ goal (by omega) he hf hnesting (by simpa [hs'] using hbody)

theorem accepted_ifThen (hc : Grammar.Expression .logical c) (hw : Skipped 1 w)
    (h : Accepted faulty (.many (n + 1)) w) : Accepted faulty .one (.kwIf :: .leftParen ::
      (c ++ .rightParen :: .kwThen :: (w ++ [.kwEnd, .kwIf]))) := by
  refine accepted_if hc hw fun depth base s e f follow goal hdepth he hf hnesting hbody => ?_
  refine branch_bind_recovers (h depth _ e _ hdepth (by simp [startsStatement, he]) hbody)
    fun s₁ hs₁ hnesting₁ hreported => ?_
  unfold Recovers
  rw [ends_bind, ends_currentIs, Cursor.current_of_ahead hs₁, he]
  exact blockEnd_recovers _ hs₁ he hf (hnesting₁.trans hnesting) hreported

theorem accepted_ifElse {m : Nat} (hc : Grammar.Expression .logical c) (hv : Skipped 1 v)
    (hw : Skipped 1 w) (ihv : Accepted faulty (.many (m + 1)) v)
    (ihw : Accepted faulty' (.many (n + 1)) w) :
    Accepted (faulty || faulty') .one (.kwIf :: .leftParen ::
      (c ++ .rightParen :: .kwThen :: (v ++ .kwElse :: (w ++ [.kwEnd, .kwIf])))) := by
  have hskipped : Skipped 1 (v ++ .kwElse :: w) := hv.append (.cons (by decide) hw)
  have h : Accepted (faulty || faulty') .one _ := accepted_if hc hskipped
      fun depth base s e f follow goal hdepth he hf hnesting hbody => by
    simp only [fills_append, fills_cons] at hbody
    obtain ⟨_, hfirst, a, _, rfl, ha, hsecond⟩ := hbody
    simp only [List.length_cons, List.length_append] at hdepth
    refine branch_bind_recovers (ihv depth _ a _ (by omega) (by simp [startsStatement, ha]) hfirst)
      fun s₁ hs₁ hnesting₁ hreported => ?_
    unfold Recovers
    rw [ends_bind, ends_currentIs, Cursor.current_of_ahead hs₁, ha]
    have hpass := ihw depth { s₁ with cursor := s₁.cursor.next } e _ (by omega)
      (by simp [startsStatement, he]) (by simpa [hs₁] using hsecond)
    refine branch_bind_recovers (hpass.behind hreported) fun s₂ hs₂ hnesting₂ hreported₂ => ?_
    exact blockEnd_recovers _ hs₂ he hf (hnesting₂.trans (hnesting₁.trans hnesting)) hreported₂
  simpa using h

theorem accepted_forLoop {a : List TokenKind} (ha : Assignment a)
    (hc : Grammar.Expression .logical c) (hw : Skipped 1 w) (h : Accepted faulty (.many n) w) :
    Accepted faulty .one (.kwFor :: .leftParen ::
      (a ++ .semicolon :: (c ++ .rightParen :: (w ++ [.kwEnd, .kwFor])))) := by
  intro depth s follow goal hdepth _ hfollow hspells
  simp only [fills_cons, fills_append, fills_nil] at hspells
  obtain ⟨x, _, hs, hx, o, _, rfl, ho, _, hassign, d, _, rfl, hd, _, hcond, r, _, rfl, hr,
    _, hbody, e, _, rfl, he, f, _, rfl, hf, rfl⟩ := hspells
  simp only [List.length_cons, List.length_append, List.length_nil] at hdepth
  refine Recovers.of_eq ?_
    (by rw [statement_apply, Cursor.current_of_ahead hs, hx])
  have hskip : Resumes 1 _ goal := hw _ _ _ _ (by omega) hbody (.closing he (.inr hf) hfollow)
  have hheader : Resumes 1 _ goal :=
    .word (plain_of_mem_expression hc) hcond (.plain (by rw [hr]; decide) hskip)
  obtain ⟨hindex, hvalue⟩ := ha
  refine forStatement_recovers hs ho hindex hvalue hassign hd hheader fun s₁ hlast hnesting => ?_
  refine forTail_recovers (n := n) hlast hd hc hcond hr hskip hnesting (fun s₂ hs₂ => ?_) he hf
  exact h depth s₂ e _ (by omega) (by simp [startsStatement, he]) (by rw [hs₂]; exact hbody)

theorem accepted_nil : Accepted false (.many 0) [] := by
  intro depth s t rest hdepth ht hs
  cases depth with
  | zero => simp at hdepth
  | succ depth =>
    unfold Passes statementsWithin
    simp only [ends_bind, ends_current, Cursor.current_of_ahead hs, ht]
    exact ⟨rfl, hs, rfl, by simp⟩

theorem taken_of_accepted (h : Accepted faulty .one w) : Taken faulty w := by
  intro depth s t rest hdepth ht hs
  have hkeeps := Proceeds.wideFrame.keeps (made_statementsWithin depth)
  have hskip : Resumes 0 (t :: rest) rest := .semicolon ht (Int.le_refl 0)
  have hfollows : Follows .logical (t :: rest) := .of_kind ht (by simp) (by simp)
  exact terminated_goesOn hkeeps hskip (h depth s _ rest hdepth hfollows hskip hs) .inl

theorem accepted_cons (hfirst : Starts v) (hv : Taken faulty v)
    (ihw : Accepted faulty' (.many n) w) :
    Accepted (faulty || faulty') (.many (n + 1)) (v ++ .semicolon :: w) := by
  intro depth s t rest hdepth ht hspells
  simp only [fills_cons, fills_append] at hspells
  obtain ⟨_, hstatement, u, more, rfl, hu, hothers⟩ := hspells
  simp only [List.length_cons, List.length_append] at hdepth
  cases depth with
  | zero => simp at hdepth
  | succ depth =>
    unfold Passes statementsWithin
    simp only [ends_bind, ends_current, hfirst.current hstatement, ends_ite, if_true]
    refine Ends.mono (hv depth s u more (by omega) hu hstatement) ?_ (fun _ _ h => h)
    rintro _ s₁ ⟨hs₁, hnesting₁, hreported₁⟩
    have hpass := ihw depth s₁ t rest (by omega) ht (by rw [hs₁]; exact hothers)
    refine Ends.mono (hpass.behind hreported₁) ?_ (fun _ _ h => h)
    rintro m s₂ ⟨rfl, hs₂, hnesting₂, hreported₂⟩
    exact ⟨rfl, hs₂, hnesting₂.trans hnesting₁, hreported₂⟩

end Cases

theorem accepted_of_phrase {c : Phrases} {w : List TokenKind} (hw : Phrase c w) :
    Accepted false c w := by
  induction hw with
  | returns => exact accepted_returns
  | builtin b hcall => exact accepted_builtin b hcall
  | call hcall => exact accepted_call hcall
  | assignment ha => exact accepted_assignment ha
  | ifThen hc hw ih => exact accepted_ifThen hc (skipped_of_phrase hw) ih
  | ifElse hc hv hw ihv ihw =>
    exact accepted_ifElse hc (skipped_of_phrase hv) (skipped_of_phrase hw) ihv ihw
  | forLoop ha hc hw ih => exact accepted_forLoop ha hc (skipped_of_phrase hw) ih
  | nil => exact accepted_nil
  | cons hv _ ihv ihw => exact accepted_cons (starts_of_phrase hv) (taken_of_accepted ihv) ihw

/-- Statements whose words are taken are recognised, all of them, whatever is wrong with them. -/
theorem statements_pass {faulty : Bool} {n : Nat} {w : List TokenKind}
    (hw : Accepted faulty (.many n) w) {s : State} {t : Token} {rest : List Token}
    (ht : startsStatement t = false) (hs : Spells w s.cursor.ahead (t :: rest)) :
    Passes faulty statements n s (t :: rest) := by
  have hlength := hs.length
  unfold Passes statements
  rw [ends_bind, ends_remaining]
  refine hw _ s t rest ?_ ht hs
  simp only [Cursor.remaining, hlength, List.length_cons]
  omega

end OnePass.Program
