import OnePass.Proofs.Emission.Program
import OnePass.Proofs.Reporting.Declaration
set_option autoImplicit false

/-!
# Failures are reported once

A production without statements inside reports one diagnostic if it is rejected and none if it
succeeds (`ReportsOnce`).  An `if` or a `for` statement also reports what the lists of statements
inside it report.  To say which diagnostics these are, such a statement is taken apart into a
`Plan`: steps of its own, and lists of statements between them.  `Plan.inside` follows a run of the
plan and collects what the lists report; the steps of its own add one diagnostic where one of them
is rejected, and nothing anywhere else (`Plan.reportsBeside`).
-/

namespace OnePass.Program

/-- A production that reports one diagnostic if it is rejected and none if it succeeds, and that
does not end in another way. -/
def ReportsOnce {α : Type} (p : Parser α) (s : State) : Prop :=
  Ends p s (fun _ s' => s'.diagnostics = s.diagnostics)
    (fun stop s' => stop = .reject ∧ ∃ d, s'.diagnostics = s.diagnostics ++ [d])

theorem Reports.diagnostics_eq {s s' : State} (h : Reports [] s s') :
    s'.diagnostics = s.diagnostics := by
  obtain ⟨ds, hds, habout⟩ := h.diagnostics
  rw [hds, List.map_eq_nil_iff.mp habout.positions, List.append_nil]

theorem Refuses.diagnostics_eq {s s' : State} (h : Refuses [] s s') :
    ∃ d, s'.diagnostics = s.diagnostics ++ [d] := by
  obtain ⟨_, ds, d, _, habout, hds, _⟩ := h.reported
  rw [List.map_eq_nil_iff.mp habout.positions, List.nil_append] at hds
  exact ⟨d, hds⟩

theorem Quiet.reportsOnce {α : Type} {p : Parser α} {s : State} {Q : α → State → Prop}
    (h : Quiet p s Q) : ReportsOnce p s :=
  Ends.mono h (fun _ _ h' => h'.1.diagnostics_eq) fun _ _ h' => ⟨h'.1, h'.2.diagnostics_eq⟩

/-- Every statement without statements inside: a `return`, a call, an assignment, and a token that
starts no statement. -/
theorem statement_reportsOnce {s : State} (hs : s.Delimited) (inner : Parser Nat)
    (hif : s.cursor.current.kind ≠ .kwIf) (hfor : s.cursor.current.kind ≠ .kwFor) :
    ReportsOnce (statement inner) s := by
  unfold ReportsOnce statement
  rw [ends_bind, ends_current]
  split
  · rfl
  · next hkind => exact (builtinCall_quiet hs (by simp [hkind])).reportsOnce
  · next hkind => exact (nameStatement_quiet hs (by simp [hkind])).reportsOnce
  · next hkind => exact absurd hkind hif
  · next hkind => exact absurd hkind hfor
  · exact ⟨rfl, _, rfl⟩

/-! ## Steps that report once from everywhere -/

/-- A step that reports once over the tokens of every source, and leaves such tokens behind. -/
def Sole {α : Type} (p : Parser α) : Prop :=
  ∀ s : State, s.Delimited →
    Ends p s (fun _ s' => s'.Delimited ∧ s'.diagnostics = s.diagnostics)
      (fun stop s' => stop = .reject ∧ ∃ d, s'.diagnostics = s.diagnostics ++ [d])

section Sole

variable {α β : Type}

theorem sole_pure (a : α) : Sole (pure a : Parser α) := fun _ hs => ⟨hs, rfl⟩

theorem sole_bind {p : Parser β} {f : β → Parser α} (hp : Sole p) (hf : ∀ b, Sole (f b)) :
    Sole (p >>= f) := by
  intro s hs
  rw [ends_bind]
  refine (hp s hs).mono ?_ fun _ _ h => h
  rintro b s' ⟨hs', hsame⟩
  rw [← hsame]
  exact hf b s' hs'

theorem sole_of_quiet {p : Parser α} {Q : State → α → State → Prop}
    (h : ∀ s : State, s.Delimited → Quiet p s (Q s)) : Sole p := by
  intro s hs
  refine Ends.mono (h s hs) ?_ fun _ _ h' => ⟨h'.1, h'.2.diagnostics_eq⟩
  intro a s' h'
  exact ⟨h'.1.delimited hs, h'.1.diagnostics_eq⟩

theorem sole_current : Sole current := fun _ hs => ⟨hs, rfl⟩

theorem sole_currentIs (kind : TokenKind) : Sole (currentIs kind) := fun _ hs => ⟨hs, rfl⟩

theorem sole_peekIs (kind : TokenKind) : Sole (peekIs kind) := fun _ hs => ⟨hs, rfl⟩

theorem sole_advance : Sole advance := fun s hs => ⟨(Reports.next s).delimited hs, rfl⟩

theorem sole_note (words : Bytes) : Sole (note words) := fun _ hs => ⟨⟨hs.marked, hs.proper⟩, rfl⟩

theorem sole_rejectToken (t : Token) : Sole (rejectToken t : Parser α) := fun _ _ => ⟨rfl, _, rfl⟩

theorem sole_expectPeek (kind : TokenKind) : Sole (expectPeek kind) := by
  intro s hs
  rw [ends_expectPeek]
  split
  · exact ⟨(Reports.next s).delimited hs, rfl⟩
  · exact ⟨rfl, _, rfl⟩

theorem sole_expression (ctx : Context) : Sole (expression ctx) :=
  sole_of_quiet fun _ hs => expression_quiet hs ctx

theorem sole_assignmentContext (target : Token) : Sole (assignmentContext target) := by
  refine sole_bind (fun _ hs => ⟨hs, rfl⟩) fun found => ?_
  split
  · split
    · exact sole_pure _
    · exact sole_rejectToken _
  · exact sole_pure _

theorem sole_assignmentTail (ctx : Context) : Sole (assignmentTail ctx) := by
  have hvalue : Sole (do
      expectPeek .assign
      advance
      let _ ← expression ctx : Parser Unit) := by
    refine sole_bind (sole_expectPeek _) fun _ => sole_bind sole_advance fun _ => ?_
    exact sole_bind (sole_expression ctx) fun _ => sole_pure _
  refine sole_bind (sole_peekIs _) fun indexed => ?_
  dsimp only
  split
  · refine sole_bind sole_advance fun _ => sole_bind sole_advance fun _ => ?_
    exact sole_bind (sole_expression _) fun _ => sole_bind (sole_expectPeek _) fun _ => hvalue
  · exact hvalue

end Sole

/-! ## Statements taken apart -/

/-- A production with lists of statements inside, taken apart: steps of its own, and lists. -/
inductive Plan : Type 1 where
  | done
  | own {α : Type} (step : Parser α) (next : α → Plan)
  | list (next : Nat → Plan)

/-- What the lists inside a production come to: the diagnostics that they report, and the stop of
the last one if it does not succeed. -/
structure Inside where
  diagnostics : List Diagnostic
  stop? : Option Stop

/-- The diagnostics that are reported between two states. -/
def State.since (s s' : State) : List Diagnostic := s'.diagnostics.drop s.diagnostics.length

namespace Plan

/-- The production that a plan is of, given how to recognise the lists. -/
def fill (inner : Parser Nat) : Plan → Parser Unit
  | done => pure ()
  | own step next => do (next (← step)).fill inner
  | list next => do (next (← inner)).fill inner

/-- What the lists of a plan come to in a run from a state. -/
def inside (inner : Parser Nat) : Plan → State → Inside
  | done, _ => ⟨[], none⟩
  | own step next, s =>
    match step s with
    | .ok a s' => (next a).inside inner s'
    | .error _ _ => ⟨[], none⟩
  | list next, s =>
    match inner s with
    | .ok n s' =>
      let rest := (next n).inside inner s'
      ⟨s.since s' ++ rest.diagnostics, rest.stop?⟩
    | .error stop s' => ⟨s.since s', some stop⟩

/-- A plan whose own steps report once. -/
def Sound : Plan → Prop
  | done => True
  | own step next => Sole step ∧ ∀ a, (next a).Sound
  | list next => ∀ n, (next n).Sound

end Plan

/-- A production that reports what the lists inside it report and, if it is rejected, exactly one
diagnostic more; and that ends in another way only if one of the lists does. -/
def ReportsBeside (lists : Inside) (p : Parser Unit) (s : State) : Prop :=
  Ends p s
    (fun _ s' => lists.stop? = none ∧ s'.diagnostics = s.diagnostics ++ lists.diagnostics)
    fun stop s' =>
      (stop = .reject ∧ lists.stop? = none ∧
        ∃ d, s'.diagnostics = s.diagnostics ++ lists.diagnostics ++ [d]) ∨
      (stop ≠ .reject ∧ lists.stop? = some stop ∧
        s'.diagnostics = s.diagnostics ++ lists.diagnostics)

theorem State.since_eq {s s' : State} (h : s.diagnostics <+: s'.diagnostics) :
    s'.diagnostics = s.diagnostics ++ s.since s' := by
  obtain ⟨ds, hds⟩ := h
  rw [State.since, ← hds, List.drop_left]

namespace Plan

variable {inner : Parser Nat} {s s' : State}

theorem inside_own_of_ok {α : Type} {step : Parser α} {next : α → Plan} {a : α}
    (h : step s = .ok a s') : (own step next).inside inner s = (next a).inside inner s' := by
  rw [inside, h]

theorem inside_own_of_error {α : Type} {step : Parser α} {next : α → Plan} {stop : Stop}
    (h : step s = .error stop s') : (own step next).inside inner s = ⟨[], none⟩ := by
  rw [inside, h]

theorem inside_list_of_ok {next : Nat → Plan} {n : Nat} (h : inner s = .ok n s') :
    (list next).inside inner s =
      ⟨s.since s' ++ ((next n).inside inner s').diagnostics, ((next n).inside inner s').stop?⟩ := by
  rw [inside, h]

theorem inside_list_of_error {next : Nat → Plan} {stop : Stop} (h : inner s = .error stop s') :
    (list next).inside inner s = ⟨s.since s', some stop⟩ := by
  rw [inside, h]

/-- The induction follows the plan, and the run decides in each case how it goes on. -/
theorem reportsBeside {plan : Plan} (hplan : plan.Sound) (hnever : NeverRejects inner)
    (hkeeps : Keeps Proceeds inner) (hs : s.Delimited) :
    ReportsBeside (plan.inside inner s) (plan.fill inner) s := by
  induction plan generalizing s with
  | done => exact ⟨rfl, (List.append_nil _).symm⟩
  | own step next ih =>
    have hstep := hplan.1 s hs
    unfold ReportsBeside
    rw [fill, ends_bind]
    cases hrun : step s with
    | ok a s' =>
      rw [ends_of_ok hrun] at hstep
      rw [ends_of_ok hrun, inside_own_of_ok hrun, ← hstep.2]
      exact ih a (hplan.2 a) hstep.1
    | error stop s' =>
      rw [ends_of_error hrun] at hstep
      obtain ⟨hstop, d, hd⟩ := hstep
      rw [ends_of_error hrun, inside_own_of_error hrun]
      exact .inl ⟨hstop, rfl, d, by rw [hd, List.append_nil]⟩
  | list next ih =>
    have hinner := (hnever s).and (hkeeps s)
    unfold ReportsBeside
    rw [fill, ends_bind]
    cases hrun : inner s with
    | ok n s' =>
      rw [ends_of_ok hrun] at hinner
      rw [ends_of_ok hrun, inside_list_of_ok hrun]
      have hrest := ih n (hplan n) (hinner.2.delimited hs)
      unfold ReportsBeside at hrest
      rw [State.since_eq hinner.2.diagnostics] at hrest
      simpa only [List.append_assoc] using hrest
    | error stop s' =>
      rw [ends_of_error hrun] at hinner
      rw [ends_of_error hrun, inside_list_of_error hrun]
      exact .inr ⟨hinner.1, rfl, State.since_eq hinner.2.diagnostics⟩

end Plan

/-! ## `if` and `for` statements -/

/-- The beginning of an `if` statement, up to the first statement of its branch. -/
def ifOpening : Parser Unit := do
  expectPeek .leftParen
  openBlock
  advance
  let _ ← expression (.condition none)
  expectPeek .rightParen
  expectPeek .kwThen
  advance

/-- Rejects a branch that has no statements. -/
def refuseEmpty (count : Nat) : Parser Unit := do
  if count = 0 then rejectToken (← current)

/-- Whether another branch follows; if so, steps onto its first statement. -/
def elseOpening : Parser Bool := do
  if ← currentIs .kwElse then
    advance
    return true
  else return false

/-- The end of a statement that ends with its own word. -/
def closing (word : TokenKind) (words : Bytes) : Parser Unit := do
  blockEnd word
  note words

/-- An `if` statement, taken apart. -/
def ifPlan : Plan :=
  .own ifOpening fun _ => .list fun n =>
  .own (do refuseEmpty n; elseOpening) fun more =>
    bif more then
      .list fun m => .own (do refuseEmpty m; closing .kwIf (text "if")) fun _ => .done
    else .own (closing .kwIf (text "if")) fun _ => .done

/-- The beginning of a `for` statement, up to its first statement. -/
def forOpening : Parser Unit := do
  expectPeek .leftParen
  openBlock
  expectPeek .identifier
  assignmentTail (← assignmentContext (← current))
  expectPeek .semicolon
  advance
  let _ ← expression (.condition none)
  expectPeek .rightParen
  advance

/-- A `for` statement, taken apart. -/
def forPlan : Plan :=
  .own forOpening fun _ => .list fun _ => .own (closing .kwFor (text "for")) fun _ => .done

theorem ifPlan_fill (inner : Parser Nat) : ifPlan.fill inner = ifStatement inner := by
  funext s
  refine run_eq_of_ends fun Q E h => ?_
  simpa [ifPlan, Plan.fill, ifOpening, refuseEmpty, elseOpening, closing, ifStatement, branch]
    using h

theorem forPlan_fill (inner : Parser Nat) : forPlan.fill inner = forStatement inner := by
  simp [forPlan, Plan.fill, forOpening, closing, forStatement]

theorem sole_openBlock : Sole openBlock := fun _ hs => ⟨⟨hs.marked, hs.proper⟩, rfl⟩

theorem sole_ifOpening : Sole ifOpening := by
  refine sole_bind (sole_expectPeek _) fun _ => sole_bind sole_openBlock fun _ => ?_
  refine sole_bind sole_advance fun _ => sole_bind (sole_expression _) fun _ => ?_
  refine sole_bind (sole_expectPeek _) fun _ => sole_bind (sole_expectPeek _) fun _ => ?_
  exact sole_advance

theorem sole_forOpening : Sole forOpening := by
  refine sole_bind (sole_expectPeek _) fun _ => sole_bind sole_openBlock fun _ => ?_
  refine sole_bind (sole_expectPeek _) fun _ => sole_bind sole_current fun target => ?_
  refine sole_bind (sole_assignmentContext target) fun ctx => ?_
  refine sole_bind (sole_assignmentTail ctx) fun _ => sole_bind (sole_expectPeek _) fun _ => ?_
  refine sole_bind sole_advance fun _ => sole_bind (sole_expression _) fun _ => ?_
  exact sole_bind (sole_expectPeek _) fun _ => sole_advance

theorem sole_refuseEmpty (count : Nat) : Sole (refuseEmpty count) := by
  unfold refuseEmpty
  split
  · exact sole_bind sole_current fun t => sole_rejectToken t
  · exact sole_pure _

theorem sole_elseOpening : Sole elseOpening := by
  refine sole_bind (sole_currentIs _) fun more => ?_
  split
  · exact sole_bind sole_advance fun _ => sole_pure _
  · exact sole_pure _

theorem sole_closing (word : TokenKind) (words : Bytes) : Sole (closing word words) :=
  sole_bind (sole_of_quiet fun _ hs => blockEnd_quiet hs word) fun _ => sole_note words

theorem ifPlan_sound : ifPlan.Sound := by
  refine ⟨sole_ifOpening, fun _ n => ⟨?_, fun more => ?_⟩⟩
  · exact sole_bind (sole_refuseEmpty n) fun _ => sole_elseOpening
  · cases more with
    | true =>
      intro m
      exact ⟨sole_bind (sole_refuseEmpty m) fun _ => sole_closing _ _, fun _ => trivial⟩
    | false => exact ⟨sole_closing _ _, fun _ => trivial⟩

theorem forPlan_sound : forPlan.Sound :=
  ⟨sole_forOpening, fun _ _ => ⟨sole_closing _ _, fun _ => trivial⟩⟩

theorem ifStatement_reportsBeside {s : State} (hs : s.Delimited) (depth : Nat) :
    ReportsBeside (ifPlan.inside (statementsWithin depth) s)
      (ifStatement (statementsWithin depth)) s := by
  rw [← ifPlan_fill]
  exact Plan.reportsBeside ifPlan_sound (neverRejects_statementsWithin depth)
    (Proceeds.wideFrame.keeps (made_statementsWithin depth)) hs

theorem forStatement_reportsBeside {s : State} (hs : s.Delimited) (depth : Nat) :
    ReportsBeside (forPlan.inside (statementsWithin depth) s)
      (forStatement (statementsWithin depth)) s := by
  rw [← forPlan_fill]
  exact Plan.reportsBeside forPlan_sound (neverRejects_statementsWithin depth)
    (Proceeds.wideFrame.keeps (made_statementsWithin depth)) hs

/-! ## Variables -/

/-- A declaration that reports one diagnostic if it is rejected, and if it succeeds at most that the
name is bound already. -/
def DeclaresOnce (p : Parser Unit) (s : State) : Prop :=
  Ends p s
    (fun _ s' => s'.diagnostics = s.diagnostics ∨
      ∃ position key, s'.diagnostics = s.diagnostics ++ [.duplicate position key])
    (fun stop s' => stop = .reject ∧ ∃ d, s'.diagnostics = s.diagnostics ++ [d])

theorem commit_diagnostics (place : Token) (s : State) :
    Ends (commit place) s
      (fun _ s' => s'.diagnostics = s.diagnostics ∨
        ∃ position key, s'.diagnostics = s.diagnostics ++ [.duplicate position key])
      fun _ _ => False := by
  rw [ends_commit_table]
  split
  · exact .inl rfl
  · exact .inr ⟨_, _, rfl⟩

theorem variableTail_declaresOnce {s : State} (hs : s.Delimited)
    (hname : s.cursor.current.kind = .identifier) (sym : Symbol) (name : Token) :
    DeclaresOnce (variableTail sym name) s := by
  unfold DeclaresOnce variableTail
  rw [ends_bind, ends_get, ends_bind, ends_orDiscard]
  refine Ends.mono (optionalBounds_quiet hs (by simp [hname])) ?_ ?_
  · rintro bounds? s₁ ⟨h₁, -⟩
    rw [← h₁.diagnostics_eq]
    simp only [variableEnd, ends_bind, ends_modifyTable, ends_get]
    split
    · simp only [ends_bind, ends_modifyTable]
      split
      · exact ⟨rfl, _, rfl⟩
      · exact ⟨rfl, _, rfl⟩
    · rw [ends_bind]
      refine Ends.mono (commit_diagnostics name _) (fun bound s₂ h₂ => ?_) fun _ _ h => h.elim
      split
      · exact h₂
      · exact h₂
  · rintro _ s₁ ⟨rfl, h₁⟩
    exact ⟨rfl, h₁.diagnostics_eq⟩

theorem variableDeclaration_declaresOnce {s : State} (hs : s.Delimited) (global : Bool)
    (type : Scalar) : DeclaresOnce (variableDeclaration global type) s := by
  unfold DeclaresOnce variableDeclaration
  rw [ends_named]
  split
  · next hname =>
    rw [ends_inScope]
    have hs₁ := (Reports.next s).delimited hs
    exact variableTail_declaresOnce (hs₁.withTable _) hname _ _
  · exact ⟨rfl, _, rfl⟩

theorem declarationTail_declaresOnce {s : State} (hs : s.Delimited)
    (hvariable : s.cursor.current.kind ≠ .kwProcedure) (body : Parser Unit) (global : Bool) :
    DeclaresOnce (declarationTail body global) s := by
  unfold DeclaresOnce declarationTail
  rw [ends_bind, ends_current]
  split
  · next hkind => exact absurd hkind hvariable
  · next type _ =>
    cases global with
    | false => exact variableDeclaration_declaresOnce hs false type
    | true =>
      rw [ends_inScopeOf_true]
      exact variableDeclaration_declaresOnce (hs.withTable _) true type
  · exact ⟨rfl, _, rfl⟩

/-- The token that a declaration starts with behind the word that may make it global. -/
def State.declared (s : State) : Token :=
  if s.cursor.current.kind = .kwGlobal then s.cursor.peek else s.cursor.current

/-- Every declaration that is not one of a procedure, known type or not. -/
theorem declaration_declaresOnce {s : State} (hs : s.Delimited)
    (hvariable : s.declared.kind ≠ .kwProcedure) (body : Parser Unit) :
    DeclaresOnce (declaration body) s := by
  unfold DeclaresOnce declaration
  unfold State.declared at hvariable
  rw [ends_bind, ends_currentIs]
  split
  · next hglobal =>
    rw [if_pos (of_decide_eq_true hglobal)] at hvariable
    rw [ends_bind, ends_advance]
    exact declarationTail_declaresOnce ((Reports.next s).delimited hs) hvariable body true
  · next hlocal =>
    rw [if_neg (by simpa using hlocal)] at hvariable
    exact declarationTail_declaresOnce hs hvariable body false

end OnePass.Program
