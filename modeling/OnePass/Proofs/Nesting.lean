import OnePass.Proofs.Reached.Opening
set_option autoImplicit false

/-!
# How many statements are open

An `if` or a `for` statement is counted as open from its left parenthesis on, and no more when it is
complete.  If it is rejected in between, it stays counted until the list of statements that it is in has
recovered from it.  Nothing else touches the count, so it never drifts: behind a list of statements it is
what it was before (`restores_statementsWithin`), recovering is told of the rejected statement itself and of
no other one (`statementsVia_eq`), and no statement is open where declarations are read
(`Reached.nesting_eq`).
-/

namespace OnePass.Program

/-! ## Productions that restore the count -/

/-- A production behind which as many statements are open as before it, unless it gives the program up. -/
def Restores {α : Type} (p : Parser α) : Prop :=
  Leads (fun s s' => s'.nesting = s.nesting)
    (fun stop s s' => stop = .reject → s'.nesting = s.nesting) p

theorem restores_course :
    WideCourse (fun s s' => s'.nesting = s.nesting)
      (fun stop s s' => stop = .reject → s'.nesting = s.nesting) where
  refl _ := rfl
  trans h h' := h'.trans h
  stop h h' hstop := (h' hstop).trans h
  next _ := rfl
  note _ _ := rfl
  reject _ _ _ := rfl
  giveUp _ _ hstop := Stop.noConfusion hstop
  report _ _ := rfl
  skip _ _ := rfl
  resume h := h rfl
  table _ _ := rfl
  leave _ h := h
  builder _ _ _ := rfl

variable {α : Type} {p : Parser α} {s s' : State}

/-- Whatever is made without blocks restores the count. -/
theorem Made.restores (h : Made (fun _ p => Restores p) true false p) : Restores p :=
  h.leads restores_course.toLongCourse (fun _ => restores_course) fun hfalse => Bool.noConfusion hfalse

theorem Restores.of_ok (h : Restores p) {a : α} (hrun : p s = .ok a s') : s'.nesting = s.nesting :=
  (ends_of_ok hrun).mp (h s)

/-! ## Statements -/

/-- The number of statements that are left open if a statement is rejected, by the tokens that it starts
with: itself, if it is one with statements inside and its left parenthesis is passed. -/
def leftOpen (first next : Token) : Nat := if opensBlock first ∧ next.kind = .leftParen then 1 else 0

/-- How a statement counts: a complete one leaves nothing open, and a rejected one itself at most. -/
def Counts (p : Parser Unit) (s : State) : Prop :=
  Ends p s (fun _ s' => s'.nesting = s.nesting) fun stop s' =>
    stop = .reject → s'.nesting = s.nesting + leftOpen s.cursor.current s.cursor.peek

theorem Restores.counts {p : Parser Unit} (h : Restores p) (hs : opensBlock s.cursor.current = false) :
    Counts p s := by
  refine (h s).mono (fun _ _ hs' => hs') fun stop s' hs' hstop => ?_
  rw [hs' hstop, leftOpen, hs, if_neg (fun hand => Bool.noConfusion hand.1)]
  rfl

/-- A block is rejected either at its left parenthesis, before it is counted, or inside. -/
theorem counts_block {inside : Parser Unit} (h : Restores inside) (words : Bytes)
    (hs : opensBlock s.cursor.current = true) : Counts (block inside words) s := by
  unfold Counts
  simp only [block, openBlock, closeBlock, ends_bind, ends_expectPeek, ends_modify, ends_note, leftOpen, hs,
    true_and]
  by_cases hparen : s.cursor.peek.kind = .leftParen
  · rw [if_pos hparen, if_pos hparen]
    refine (h _).mono (fun _ s' hs' => ?_) fun stop s' hs' hstop => hs' hstop
    rw [hs']
    rfl
  · rw [if_neg hparen, if_neg hparen]
    exact fun _ => rfl

section Lists

variable {inner : Parser Nat}

theorem statement_counts (hinner : Restores inner) (s : State) : Counts (statement inner) s := by
  have hplain {p : Parser Unit} (h : Made (fun _ p => Restores p) true false p)
      (hs : opensBlock s.cursor.current = false) : Counts p s :=
    h.restores.counts hs
  unfold Counts statement
  rw [ends_bind, ends_current]
  split
  · next hkind => exact hplain (.note _) (by simp [opensBlock, hkind])
  · next hkind => exact hplain made_builtinCall (by simp [opensBlock, hkind])
  · next hkind => exact hplain made_nameStatement (by simp [opensBlock, hkind])
  · next hkind =>
    rw [ifStatement_eq]
    exact counts_block (made_ifInside (.given hinner)).restores _ (by simp [opensBlock, hkind])
  · next hkind =>
    rw [forStatement_eq]
    exact counts_block (made_forInside (.given hinner)).restores _ (by simp [opensBlock, hkind])
  · next hif hfor => exact hplain (.rejectToken _) (by simpa [opensBlock] using ⟨hif, hfor⟩)

/-- What follows a statement sets the count back, unless the statement is complete and has its semicolon. -/
theorem endStatement_restores (mark : Nat) {base : Nat} {complete : Bool}
    (h : complete = true → s.nesting = base) : Ends (endStatement mark base complete) s
      (fun _ s' => s'.nesting = base) fun stop s' => stop = .reject → s'.nesting = base := by
  have hrecover (s : State) (depth : Int) : Ends (recover mark depth) s (fun _ _ => True)
      fun stop s' => stop = .reject → s'.nesting = base := by
    rw [ends_recover]
    split
    · trivial
    · exact Stop.noConfusion
  simp only [endStatement, ends_bind, ends_peekIs, ends_ite, ends_advance, ends_peek, ends_unexpected,
    ends_recoverFrom]
  split
  · next hpassed => exact h (Bool.and_eq_true_iff.mp hpassed).1
  · split
    · exact hrecover _ _
    · exact hrecover _ _

theorem terminated_restores (hinner : Restores inner) : Restores (terminated inner) := by
  intro s
  rw [terminated, ends_bind, ends_reported, ends_bind, ends_get, ends_bind, ends_succeeds]
  refine Ends.mono (statement_counts hinner s) (fun _ s' hs' => ?_) fun stop s' _ => ?_
  · exact endStatement_restores _ fun _ => hs'
  · cases stop with
    | reject => exact endStatement_restores _ fun hfalse => Bool.noConfusion hfalse
    | fatal e => exact Stop.noConfusion

theorem restores_statementsWithin (depth : Nat) : Restores (statementsWithin depth) := by
  induction depth with
  | zero => exact made_exhausted.restores
  | succ depth ih =>
    refine Made.restores (.bind .current fun t => ?_)
    split
    · refine .bind (.given (terminated_restores ih)) fun _ => ?_
      exact .bind (.given ih) fun _ => .pure _
    · exact .pure _

end Lists

/-! ## What recovering is told -/

/-- A call to recover from a statement: the two tokens that the statement starts with, whether it was
complete and only lacked its semicolon, the number of diagnostics before it, and the number of statements
that recovering takes for open. -/
structure Recovery where
  first : Token
  next : Token
  complete : Bool
  mark : Nat
  depth : Int

/-- A call that takes a rejected statement for open if it is left open, and nothing else. -/
def Recovery.IsExact (r : Recovery) : Prop :=
  r.depth = if r.complete then 0 else leftOpen r.first r.next

instance (r : Recovery) : Decidable r.IsExact := inferInstanceAs (Decidable (_ = _))

section Via

variable (other : Recovery → Parser Unit)

/-- A statement and the semicolon behind it, with another way to recover. -/
def terminatedVia (statements : Parser Nat) : Parser Unit := do
  let mark ← reported
  let s ← get
  let complete ← succeeds (statement statements)
  if complete && (← peekIs .semicolon) then
    advance
    advance
  else
    if complete then
      unexpected (← peek)
      advance
    other ⟨s.cursor.current, s.cursor.peek, complete, mark, (← get).nesting - s.nesting⟩
    modify fun s' => { s' with nesting := s.nesting }

/-- Statements, nested and one behind the other at most `depth` times, with another way to recover. -/
def statementsVia : Nat → Parser Nat
  | 0 => exhausted
  | depth + 1 => do
    if startsStatement (← current) then
      terminatedVia other (statementsVia depth)
      return (← statementsVia depth) + 1
    else return 0

/-- A way to recover that does what `recover` does in exact calls, and anything at all in others. -/
def RecoversExact : Prop :=
  ∀ (r : Recovery) (s : State), r.IsExact → other r s = recover r.mark r.depth s

variable {other} (hother : RecoversExact other)

include hother

theorem terminatedVia_eq {inner : Parser Nat} (hinner : Restores inner) :
    terminatedVia other inner = terminated inner := by
  funext s
  have hcall (complete : Bool) (s₁ : State)
      (hexact : Recovery.IsExact ⟨s.cursor.current, s.cursor.peek, complete, s.diagnostics.length,
        s₁.nesting - s.nesting⟩) :
      (do
        other ⟨s.cursor.current, s.cursor.peek, complete, s.diagnostics.length,
          (← get).nesting - s.nesting⟩
        modify fun s' => { s' with nesting := s.nesting } : Parser Unit) s₁ =
      recoverFrom s.diagnostics.length s.nesting s₁ :=
    bind_run_congr _ (hother _ s₁ hexact)
  change (succeeds (statement inner) >>= _) s = (succeeds (statement inner) >>= _) s
  apply bind_run_congr_of_ends
  rw [ends_succeeds]
  refine Ends.mono (statement_counts hinner s) ?_ ?_
  · intro _ s₁ hs₁
    apply bind_run_congr_of_ends
    rw [ends_peekIs]
    split
    · rfl
    · refine hcall true { s₁ with
        diagnostics := s₁.diagnostics ++ [misplaced s₁.file s₁.cursor.peek]
        cursor := s₁.cursor.next } ?_
      simp [Recovery.IsExact, hs₁]
  · intro stop s₁ hs₁
    cases stop with
    | reject =>
      refine hcall false s₁ ?_
      simp only [Recovery.IsExact, hs₁ rfl, Bool.false_eq_true, if_false]
      omega
    | fatal e => trivial

theorem statementsVia_eq (depth : Nat) : statementsVia other depth = statementsWithin depth := by
  induction depth with
  | zero => rfl
  | succ depth ih =>
    rw [statementsVia, statementsWithin, ih, terminatedVia_eq hother (restores_statementsWithin depth)]

end Via

/-! ## Declarations -/

theorem restores_statements : Restores statements :=
  fun s => restores_statementsWithin (s.cursor.remaining + 1) s

theorem made_restoredStatements : Made (fun _ p => Restores p) true false statements :=
  .given restores_statements

theorem restores_declaration (depth : Nat) :
    Restores (declaration (do declarationsWithin depth; bodyTail .kwProcedure)) := by
  have hbody := made_bodyTail_of made_restoredStatements .kwProcedure
  refine Made.restores (made_declaration (.bind ?_ fun _ => hbody))
  exact made_declarationsWithin_of made_restoredStatements made_declaration depth

/-- A declaration with a body that is rejected at once ends where the body begins. -/
theorem declarationOpening_nesting {s₁ : State} {o : Opening} (h : declarationOpening s = .ok o s₁) :
    s₁.nesting = s.nesting := by
  have hreject : Restores (reject : Parser Unit) := fun _ _ => rfl
  have hends := (made_declaration (.given hreject)).restores s
  rw [Ends, declaration_of_opening h, ← Ends, ends_andThenTable] at hends
  exact hends rfl

theorem Reached.nesting_eq {s₀ : State} {depth : Nat} (h : Reached s₀ depth s) :
    s.nesting = s₀.nesting := by
  induction h with
  | start hopening => exact made_programOpening.restores.of_ok hopening
  | inside _ hopening ih => exact (declarationOpening_nesting hopening).trans ih
  | @behind depth _ _ _ _ hpass ih =>
    have hpassed := Made.restores (made_passDeclaration made_restoredStatements made_declaration depth)
    exact (hpassed.of_ok hpass).trans ih

/-- The count of open statements is exact.  Every list of statements that is recognised leaves it as it
was.  Recovering from a statement is told of one open statement if that statement was rejected behind its
left parenthesis, and of none otherwise: whatever is done in other calls makes no difference.  And no
statement is open where declarations are read from, nor where one of them has ended, recognised or
rejected. -/
theorem nesting_exact :
    (∀ n s s', statements s = .ok n s' → s'.nesting = s.nesting) ∧
    (∀ depth n s s', statementsWithin depth s = .ok n s' → s'.nesting = s.nesting) ∧
    (∀ other, RecoversExact other → ∀ depth, statementsVia other depth = statementsWithin depth) ∧
    ∀ s₀ depth s, s₀.nesting = 0 → Reached s₀ depth s → s.nesting = 0 ∧
      ∀ depth', Ends (declaration (do declarationsWithin depth'; bodyTail .kwProcedure)) s
        (fun _ s' => s'.nesting = 0) fun stop s' => stop = .reject → s'.nesting = 0 := by
  refine ⟨?_, ?_, ?_, ?_⟩
  · intro n s s' hrun
    exact restores_statements.of_ok hrun
  · intro depth n s s' hrun
    exact (restores_statementsWithin depth).of_ok hrun
  · intro other hother depth
    exact statementsVia_eq hother depth
  · intro s₀ depth s hstart hreached
    have hs := hreached.nesting_eq.trans hstart
    refine ⟨hs, fun depth' => ?_⟩
    exact (restores_declaration depth' s).mono (fun _ _ h => h.trans hs) fun _ _ h hstop => (h hstop).trans hs

/-- A procedure with an `if` statement that lacks its right parenthesis, and a variable behind it. -/
def unclosedSource : Bytes :=
  text "program p is procedure a() begin if (x then return; end if; end procedure;
    integer i; begin end program."

/-- Recovering that gives the program up in a call that is not exact. -/
def exactRecover (r : Recovery) : Parser Unit := if r.IsExact then recover r.mark r.depth else exhausted

/-- Recognises a program up to its first declaration, and that declaration. -/
def firstDeclaration : Parser State := do
  let _ ← programOpening
  let s ← get
  passDeclaration s.cursor.remaining
  return s

theorem reached_of_firstDeclaration {s₀ s₁ : State} (h : firstDeclaration s₀ = .ok s s₁)
    (hstarts : startsDeclaration s.cursor.current s.cursor.peek = true) :
    Reached s₀ s.cursor.remaining s₁ := by
  rw [ok_iff_ends, firstDeclaration, ends_bind_ok] at h
  obtain ⟨name, t, hopening, h⟩ := h
  rw [ends_bind, ends_get, ends_bind_ok] at h
  obtain ⟨_, t', hpass, rfl, rfl⟩ := h
  exact .behind (.start hopening) hstarts hpass

/-- Whether a first declaration was reported once, and another one follows it. -/
def isReportedOnce : EStateM.Result Stop State State → Bool
  | .ok s s₁ => startsDeclaration s.cursor.current s.cursor.peek && s₁.diagnostics.length == 1 &&
      startsDeclaration s₁.cursor.current s₁.cursor.peek
  | .error _ _ => false

/-- The statement that was rejected is not open any more where the variable is declared. -/
theorem unclosedSource_recovered : ∃ depth s,
    Reached (.start [] unclosedSource .empty (.new .standard)) depth s ∧
      s.diagnostics.length = 1 ∧ startsDeclaration s.cursor.current s.cursor.peek = true ∧
      s.nesting = 0 ∧ statementsVia exactRecover depth = statementsWithin depth := by
  have hcheck : isReportedOnce (firstDeclaration (.start [] unclosedSource .empty (.new .standard))) =
      true := by
    decide +kernel
  cases hrun : firstDeclaration (.start [] unclosedSource .empty (.new .standard)) with
  | error stop s =>
    rw [hrun] at hcheck
    cases hcheck
  | ok s s₁ =>
    rw [hrun] at hcheck
    simp only [isReportedOnce, Bool.and_eq_true, beq_iff_eq] at hcheck
    obtain ⟨⟨hstarts, hreported⟩, hnext⟩ := hcheck
    have hreached := reached_of_firstDeclaration hrun hstarts
    have hexact : RecoversExact exactRecover := fun r t hr => by rw [exactRecover, if_pos hr]
    obtain ⟨-, -, hvia, hlevel⟩ := nesting_exact
    exact ⟨_, s₁, hreached, hreported, hnext, (hlevel _ _ _ rfl hreached).1, hvia _ hexact _⟩

end OnePass.Program
