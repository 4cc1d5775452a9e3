import OnePass.Proofs.Reporting.Once
import OnePass.Proofs.Reporting.Program
set_option autoImplicit false

/-!
# Nothing is left to report when reading recovers

Recovering reports the current token itself if nothing was reported since its mark.  That never
happens: whatever is recovered from was rejected, and a rejection has been reported (`Accounts`),
or it lacks its semicolon, and that has been reported as well.  To say so of every call of `recover`
in a run, the productions are written out with another way to recover in its place (`programBy`): as
long as it does what `recover` does where something was reported, the program comes out the same,
whatever it does elsewhere (`programBy_eq`).
-/

namespace OnePass.Program

/-! ## Rejections are reported -/

/-- The number of diagnostics that a stop has to have reported. -/
def Stop.own : Stop → Nat
  | .reject => 1
  | .fatal _ => 0

/-- A production that takes no diagnostic back, and reports one at least if it is rejected. -/
def Accounts {α : Type} (p : Parser α) : Prop :=
  Leads (fun s s' => s.diagnostics.length ≤ s'.diagnostics.length)
    (fun stop s s' => s.diagnostics.length + stop.own ≤ s'.diagnostics.length) p

theorem accounts_course :
    WideCourse (fun s s' => s.diagnostics.length ≤ s'.diagnostics.length)
      (fun stop s s' => s.diagnostics.length + stop.own ≤ s'.diagnostics.length) where
  refl _ := Nat.le_refl _
  trans h h' := Nat.le_trans h h'
  stop h h' := Nat.le_trans (Nat.add_le_add_right h _) h'
  next _ := Nat.le_refl _
  note _ _ := Nat.le_refl _
  reject s d := by simp [Stop.own]
  giveUp _ _ := Nat.le_refl _
  report s ds := by simp
  skip _ _ := Nat.le_refl _
  resume h := Nat.le_of_succ_le h
  table _ _ := Nat.le_refl _
  leave _ h := h
  builder _ _ _ := Nat.le_refl _

theorem accounts_statement (depth : Nat) : Accounts (statement (statementsWithin depth)) :=
  accounts_course.leads (fun _ _ => Nat.le_refl _) (made_statement (made_statementsWithin depth))

/-- A declaration and the semicolon behind it. -/
theorem accounts_declaration (depth : Nat) : Accounts (do
    declaration (do declarationsWithin depth; bodyTail .kwProcedure)
    expectPeek .semicolon) :=
  accounts_course.leads (fun _ _ => Nat.le_refl _) (made_separated depth)

/-! ## Another way to recover -/

section Other

variable (other : Nat → Int → Parser Unit)

/-- A statement and the semicolon behind it. -/
def terminatedBy (statements : Parser Nat) : Parser Unit := do
  let mark ← reported
  let base := (← get).nesting
  let complete ← succeeds (statement statements)
  if complete && (← peekIs .semicolon) then
    advance
    advance
  else
    if complete then
      unexpected (← peek)
      advance
    other mark ((← get).nesting - base)
    modify fun s => { s with nesting := base }

/-- Statements, nested and one behind the other at most `depth` times. -/
def statementsWithinBy : Nat → Parser Nat
  | 0 => exhausted
  | depth + 1 => do
    if startsStatement (← current) then
      terminatedBy other (statementsWithinBy depth)
      return (← statementsWithinBy depth) + 1
    else return 0

/-- The rest of a body behind its declarations. -/
def bodyTailBy (terminator : TokenKind) : Parser Unit := do
  mustCurrent .kwBegin
  advance
  let _ ← statementsWithinBy other ((← remaining) + 1)
  mustCurrent .kwEnd
  mustPeek terminator

/-- Declarations, nested and one behind the other at most `depth` times. -/
def declarationsWithinBy : Nat → Parser Unit
  | 0 => exhausted
  | depth + 1 => do
    if startsDeclaration (← current) (← peek) then
      let mark ← reported
      let body : Parser Unit := do
        declarationsWithinBy depth
        bodyTailBy other .kwProcedure
      if ← succeeds (do declaration body; expectPeek .semicolon) then advance
      else other mark 0
      declarationsWithinBy depth

/-- A program, which gives its name. -/
def programBy : Parser Bytes := do
  let name ← programOpening
  declarationsWithinBy other ((← remaining) + 1)
  bodyTailBy other .kwProgram
  programClosing name

/-- A way to recover that does what `recover` does where something was reported behind the mark. -/
def RecoversReported : Prop :=
  ∀ (mark : Nat) (depth : Int) (s : State), mark < s.diagnostics.length →
    other mark depth s = recover mark depth s

end Other

section Equal

variable {other : Nat → Int → Parser Unit} (hother : RecoversReported other)

include hother

/-- A statement that was rejected has been reported; one that lacks its semicolon is reported before
reading recovers. -/
theorem terminatedBy_eq (depth : Nat) :
    terminatedBy other (statementsWithin depth) = terminated (statementsWithin depth) := by
  have hrecover (mark base : Nat) (s₁ : State) (hlt : mark < s₁.diagnostics.length) :
      (do
        other mark ((← get).nesting - base)
        modify fun s => { s with nesting := base } : Parser Unit) s₁ = recoverFrom mark base s₁ :=
    bind_run_congr _ (hother mark _ s₁ hlt)
  funext s
  change (succeeds (statement (statementsWithin depth)) >>= _) s =
    (succeeds (statement (statementsWithin depth)) >>= _) s
  apply bind_run_congr_of_ends
  rw [ends_succeeds]
  refine Ends.mono (accounts_statement depth s) ?_ ?_
  · intro _ s₁ hle
    apply bind_run_congr_of_ends
    rw [ends_peekIs]
    split
    · rfl
    · let s₂ := { s₁ with
        diagnostics := s₁.diagnostics ++ [misplaced s₁.file s₁.cursor.peek]
        cursor := s₁.cursor.next }
      refine hrecover _ _ s₂ ?_
      rw [List.length_append]
      exact Nat.lt_succ_of_le hle
  · intro stop s₁ hlt
    cases stop with
    | reject => exact hrecover _ _ s₁ hlt
    | fatal e => trivial

theorem statementsWithinBy_eq (depth : Nat) :
    statementsWithinBy other depth = statementsWithin depth := by
  induction depth with
  | zero => rfl
  | succ depth ih => rw [statementsWithinBy, statementsWithin, ih, terminatedBy_eq hother]

theorem bodyTailBy_eq (terminator : TokenKind) :
    bodyTailBy other terminator = bodyTail terminator := by
  simp only [bodyTailBy, bodyTail, statements, statementsWithinBy_eq hother, bind_assoc]

/-- A declaration that was rejected, or that lacks its semicolon, has been reported. -/
theorem declarationsWithinBy_eq (depth : Nat) :
    declarationsWithinBy other depth = declarationsWithin depth := by
  induction depth with
  | zero => rfl
  | succ depth ih =>
    rw [declarationsWithinBy, declarationsWithin, ih, bodyTailBy_eq hother]
    simp only [orRecover, bind_assoc]
    funext s
    change (if startsDeclaration s.cursor.current s.cursor.peek then _ else _ : Parser Unit) s =
      (if startsDeclaration s.cursor.current s.cursor.peek then _ else _ : Parser Unit) s
    split
    · apply bind_run_congr_of_ends
      rw [ends_reported]
      apply bind_run_congr_of_ends
      rw [ends_succeeds]
      refine Ends.mono (accounts_declaration depth s) (fun _ _ _ => rfl) ?_
      intro stop s₁ hlt
      cases stop with
      | reject => exact bind_run_congr _ (hother _ _ s₁ hlt)
      | fatal e => trivial
    · rfl

/-- Only the ways to recover where something was reported are used. -/
theorem programBy_eq : programBy other = program := by
  simp only [programBy, program, body, declarationsWithinBy_eq hother, bodyTailBy_eq hother,
    bind_assoc]

end Equal

/-- Over the tokens of every source, each failure is reported exactly once.  Expressions and
statements without statements inside report one diagnostic if they are rejected, and none if they
succeed.  An `if` or a `for` statement, which is its plan, reports one more than the lists inside it
exactly if it is rejected.  The declaration of a variable reports one if it is rejected, and at most
a name that is bound already if it succeeds.  So reading never recovers with nothing reported. -/
theorem failures_reported_once {s : State} (hs : s.Delimited) :
    (∀ ctx, ReportsOnce (expression ctx) s) ∧
    (∀ inner, s.cursor.current.kind ≠ .kwIf → s.cursor.current.kind ≠ .kwFor →
      ReportsOnce (statement inner) s) ∧
    (∀ inner, ifPlan.fill inner = ifStatement inner ∧ forPlan.fill inner = forStatement inner) ∧
    (∀ depth,
      ReportsBeside (ifPlan.inside (statementsWithin depth) s)
        (ifStatement (statementsWithin depth)) s ∧
      ReportsBeside (forPlan.inside (statementsWithin depth) s)
        (forStatement (statementsWithin depth)) s) ∧
    (∀ body, s.declared.kind ≠ .kwProcedure → DeclaresOnce (declaration body) s) ∧
    ∀ other, RecoversReported other → programBy other = program := by
  refine ⟨fun ctx => (expression_quiet hs ctx).reportsOnce, ?_, ?_, ?_, ?_, ?_⟩
  · intro inner hif hfor
    exact statement_reportsOnce hs inner hif hfor
  · intro inner
    exact ⟨ifPlan_fill inner, forPlan_fill inner⟩
  · intro depth
    exact ⟨ifStatement_reportsBeside hs depth, forStatement_reportsBeside hs depth⟩
  · intro body hvariable
    exact declaration_declaresOnce hs hvariable body
  · intro other hother
    exact programBy_eq hother

/-- Recovering that gives the program up where nothing was reported behind the mark. -/
def guardedRecover (mark : Nat) (depth : Int) : Parser Unit := do
  if (← reported) ≤ mark then exhausted else recover mark depth

theorem recoversReported_guardedRecover : RecoversReported guardedRecover := by
  intro mark depth s hlt
  change (if s.diagnostics.length ≤ mark then exhausted else recover mark depth : Parser Unit) s = _
  rw [if_neg (Nat.not_le_of_lt hlt)]

/-- Two names in a row: an expression and a bit more, an assignment without its sign, and a
declaration with an unknown type. -/
def twoNames : State := .start (text "two.src") (text "x y") .empty default

theorem twoNames_reported_once :
    twoNames.Delimited ∧ ReportsOnce (expression .unchecked) twoNames ∧
      ReportsOnce (statement statements) twoNames ∧
      DeclaresOnce (declaration (body .kwProcedure)) twoNames ∧
      programBy guardedRecover = program := by
  have hs : twoNames.Delimited := start_delimited
  have h := failures_reported_once hs
  refine ⟨hs, h.1 _, h.2.1 _ ?_ ?_, h.2.2.2.2.1 _ ?_, h.2.2.2.2.2 _ recoversReported_guardedRecover⟩
  · decide +kernel
  · decide +kernel
  · decide +kernel

end OnePass.Program
