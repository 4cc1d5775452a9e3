import OnePass.Proofs.Likeness.Basic
set_option autoImplicit false

/-!
# Alike expressions and statements

Every production of expressions and statements agrees with itself, one lemma for each.  Where names
are looked up, alike names stand for the same symbol.
-/

namespace OnePass.Program

/-! ## Expressions -/

/-- Whether two expressions are alike when taken as a whole. -/
inductive SameOperand (L : Likeness) : Operand → Operand → Prop where
  | name {t t' : Token} (token : L.SameToken t t') : SameOperand L (.name t) (.name t')
  | literal {t t' : Token} (token : L.SameToken t t') : SameOperand L (.literal t) (.literal t')
  | compound : SameOperand L .compound .compound

/-- Whether two expressions are alike and leave the same context. -/
def SameExpression (L : Likeness) (r r' : Operand × Context) : Prop :=
  SameOperand L r.1 r'.1 ∧ r'.2 = r.2

section Expressions

variable {L : Likeness}

theorem SameOperand.negate {operand operand' : Operand} (h : SameOperand L operand operand') :
    SameOperand L operand.negate operand'.negate := by
  cases h with
  | name _ => exact .compound
  | literal ht => exact .literal ht
  | compound => exact .compound

theorem joinsAt_eq {t t' : Token} (h : L.SameToken t t') (level : Level) :
    joinsAt level t' = joinsAt level t := by
  rw [joinsAt, joinsAt, h.kind]

theorem agree_joined (level : Level) {operand operand' again again' : ExpressionParser}
    (hoperand : ∀ ctx, Agree L (SameExpression L) (operand ctx) (operand' ctx))
    (hagain : ∀ ctx, Agree L (SameExpression L) (again ctx) (again' ctx)) (ctx : Context) :
    Agree L (SameExpression L) (joined level operand again ctx)
      (joined level operand' again' ctx) := by
  refine agree_bind (hoperand ctx) ?_
  rintro ⟨left, ctx₁⟩ ⟨left', _⟩ ⟨hleft, rfl⟩
  refine agree_bind agree_peek fun t t' ht => ?_
  rw [joinsAt_eq ht]
  split
  · refine agree_bind_eq agree_advance fun _ => agree_bind_eq agree_advance fun _ => ?_
    refine agree_bind (hagain _) ?_
    rintro ⟨right, ctx₂⟩ ⟨right', _⟩ ⟨-, rfl⟩
    exact agree_pure ⟨.compound, rfl⟩
  · exact agree_pure ⟨hleft, rfl⟩

variable {again again' : Level → ExpressionParser}
  (hagain : ∀ level ctx, Agree L (SameExpression L) (again level ctx) (again' level ctx))

include hagain

theorem agree_reference : Agree L (SameOperand L) (reference again) (reference again') := by
  refine agree_bind agree_current fun t t' ht => agree_bind_eq (agree_peekIs _) fun b => ?_
  dsimp only
  split
  · refine agree_bind_eq agree_advance fun _ => agree_bind_eq agree_advance fun _ => ?_
    refine agree_bind (hagain _ _) fun _ _ _ => ?_
    exact agree_bind_eq (agree_expectPeek _) fun _ => agree_pure (.name ht)
  · exact agree_pure (.name ht)

theorem agree_factor (ctx : Context) :
    Agree L (SameExpression L) (factor again ctx) (factor again' ctx) := by
  refine agree_bind agree_current fun t t' ht => ?_
  rw [ht.kind]
  split
  · split
    · exact agree_pure ⟨.literal ht, rfl⟩
    · exact agree_rejectArgument ht
  · refine agree_bind_eq agree_advance fun _ => agree_bind (hagain _ _) ?_
    rintro ⟨inner, ctx₁⟩ ⟨inner', _⟩ ⟨hinner, rfl⟩
    exact agree_pure ⟨hinner.negate, rfl⟩
  · refine agree_bind_eq agree_advance fun _ => agree_bind (hagain _ _) ?_
    rintro ⟨inner, ctx₁⟩ ⟨inner', _⟩ ⟨-, rfl⟩
    exact agree_bind_eq (agree_expectPeek _) fun _ => agree_pure ⟨.compound, rfl⟩
  · exact agree_bind (agree_reference hagain) fun _ _ hname => agree_pure ⟨hname, rfl⟩
  · exact agree_rejectToken ht

theorem agree_term (ctx : Context) :
    Agree L (SameExpression L) (term again ctx) (term again' ctx) :=
  agree_joined _ (agree_factor hagain) (hagain _) ctx

theorem agree_relation (ctx : Context) :
    Agree L (SameExpression L) (relation again ctx) (relation again' ctx) :=
  agree_joined _ (agree_term hagain) (hagain _) ctx

theorem agree_sum (ctx : Context) :
    Agree L (SameExpression L) (sum again ctx) (sum again' ctx) :=
  agree_joined _ (agree_relation hagain) (hagain _) ctx

theorem agree_whole (ctx : Context) :
    Agree L (SameExpression L) (whole again ctx) (whole again' ctx) := by
  refine agree_bind_eq (agree_currentIs _) fun b => ?_
  split
  · refine agree_bind_eq agree_advance fun _ => agree_bind (agree_sum hagain ctx) ?_
    rintro ⟨inner, ctx₁⟩ ⟨inner', _⟩ ⟨-, rfl⟩
    exact agree_pure ⟨.compound, rfl⟩
  · exact agree_joined _ (agree_sum hagain) (hagain _) ctx

theorem agree_atLevel (level : Level) (ctx : Context) :
    Agree L (SameExpression L) (atLevel again level ctx) (atLevel again' level ctx) := by
  cases level with
  | logical => exact agree_whole hagain ctx
  | additive => exact agree_sum hagain ctx
  | relational => exact agree_relation hagain ctx
  | multiplicative => exact agree_term hagain ctx
  | factor => exact agree_factor hagain ctx

omit hagain

theorem agree_levelWithin (depth : Nat) : ∀ level ctx,
    Agree L (SameExpression L) (levelWithin depth level ctx) (levelWithin depth level ctx) := by
  induction depth with
  | zero => exact fun _ _ => agree_exhausted
  | succ depth ih => exact agree_atLevel ih

theorem agree_expression (ctx : Context) :
    Agree L (SameOperand L) (expression ctx) (expression ctx) := by
  have hat : Agree L (SameExpression L) (expressionAt .logical ctx) (expressionAt .logical ctx) :=
    agree_bind_eq agree_remaining fun n => agree_levelWithin (n + 1) _ ctx
  exact agree_bind hat fun _ _ h => agree_pure h.1

end Expressions

/-! ## Calls and assignments -/

section Calls

variable {L : Likeness} {t t' : Token}

/-- Alike names stand for the same symbol. -/
theorem agree_lookup? (h : L.SameToken t t') :
    Agree L Eq (lookup? t.literal) (lookup? t'.literal) := by
  refine agree_bind agree_get fun s s' hs => agree_pure ?_
  rw [hs.table, Table.lookup?, Table.lookup?, h.literal.lower]

theorem agree_assignmentContext (h : L.SameToken t t') :
    Agree L Eq (assignmentContext t) (assignmentContext t') := by
  refine agree_bind_eq (agree_lookup? h) fun found => ?_
  split
  · split
    · exact agree_pure rfl
    · exact agree_rejectToken h
  · exact agree_pure rfl

theorem agree_checkArgument (h : L.SameToken t t') (p : Parameter) {operand operand' : Operand}
    (hoperand : SameOperand L operand operand') :
    Agree L Eq (checkArgument t p operand) (checkArgument t' p operand') := by
  cases hoperand with
  | name hname =>
    refine agree_bind_eq (agree_lookup? hname) fun found => ?_
    split
    · exact agree_pure rfl
    · exact agree_rejectArgument hname
  | literal _ =>
    unfold checkArgument
    dsimp only
    split
    · exact agree_rejectArgument h
    · exact agree_pure rfl
  | compound =>
    unfold checkArgument
    dsimp only
    split
    · exact agree_rejectArgument h
    · exact agree_pure rfl

theorem agree_argument (expected : Option (List Parameter)) :
    Agree L Eq (argument expected) (argument expected) := by
  refine agree_bind agree_current fun start start' hstart => ?_
  split
  · exact agree_bind (agree_expression _) fun _ _ _ => agree_pure rfl
  · exact agree_rejectArgument hstart
  · refine agree_bind (agree_expression _) fun operand operand' hoperand => ?_
    exact agree_bind_eq (agree_checkArgument hstart _ hoperand) fun _ => agree_pure rfl

theorem agree_argumentsWithin (count : Nat) :
    ∀ expected, Agree L Eq (argumentsWithin count expected) (argumentsWithin count expected) := by
  induction count with
  | zero => exact fun _ => agree_exhausted
  | succ count ih =>
    intro expected
    refine agree_bind_eq agree_advance fun _ => agree_bind_eq (agree_argument _) fun left => ?_
    refine agree_bind_eq (agree_peekIs _) fun b => ?_
    split
    · exact agree_bind_eq agree_advance fun _ => ih left
    · exact agree_pure rfl

theorem agree_callArguments (expected : Option (List Parameter)) :
    Agree L Eq (callArguments expected) (callArguments expected) := by
  have hclose (left : Option (List Parameter)) : Agree L Eq (do
      expectPeek .rightParen
      if left.any (! ·.isEmpty) then rejectToken (← current) : Parser Unit)
      (do
      expectPeek .rightParen
      if left.any (! ·.isEmpty) then rejectToken (← current)) := by
    refine agree_bind_eq (agree_expectPeek _) fun _ => ?_
    split
    · exact agree_bind agree_current fun _ _ => agree_rejectToken
    · exact agree_pure rfl
  refine agree_bind_eq (agree_peekIs _) fun b => ?_
  dsimp only
  split
  · exact agree_bind_eq (agree_pure rfl) hclose
  · refine agree_bind_eq agree_remaining fun n => ?_
    exact agree_bind_eq (agree_argumentsWithin _ _) hclose

theorem agree_builtinCall : Agree L Eq builtinCall builtinCall := by
  refine agree_bind agree_current fun callee callee' hcallee => agree_bind agree_get fun s s' hs => ?_
  dsimp only
  rw [hs.table, Table.resolve?, Table.resolve?, hcallee.literal.lower_child]
  split
  · exact agree_rejectToken hcallee
  · refine agree_bind_eq (agree_expectPeek _) fun _ => ?_
    exact agree_bind_eq (agree_callArguments _) fun _ => agree_note _ _

theorem agree_procedureCall (h : L.SameToken t t') (found : Option Symbol) :
    Agree L Eq (procedureCall t found) (procedureCall t' found) := by
  have hcall (words words' : Bytes) : Agree L Eq (do
      advance
      callArguments (found.map (·.parameters))
      note words)
      (do
      advance
      callArguments (found.map (·.parameters))
      note words') := by
    refine agree_bind_eq agree_advance fun _ => ?_
    exact agree_bind_eq (agree_callArguments _) fun _ => agree_note _ _
  unfold procedureCall
  dsimp only
  split
  · exact agree_bind_eq (agree_rejectToken h) fun _ => hcall _ _
  · exact hcall _ _

theorem agree_assignmentTail (ctx : Context) :
    Agree L Eq (assignmentTail ctx) (assignmentTail ctx) := by
  have hvalue : Agree L Eq (do
      expectPeek .assign
      advance
      let _ ← expression ctx : Parser Unit)
      (do
      expectPeek .assign
      advance
      let _ ← expression ctx) := by
    refine agree_bind_eq (agree_expectPeek _) fun _ => agree_bind_eq agree_advance fun _ => ?_
    exact agree_bind (agree_expression _) fun _ _ _ => agree_pure rfl
  refine agree_bind_eq (agree_peekIs _) fun b => ?_
  dsimp only
  split
  · refine agree_bind_eq agree_advance fun _ => agree_bind_eq agree_advance fun _ => ?_
    refine agree_bind (agree_expression _) fun _ _ _ => ?_
    exact agree_bind_eq (agree_expectPeek _) fun _ => hvalue
  · exact hvalue

theorem agree_nameStatement : Agree L Eq nameStatement nameStatement := by
  refine agree_bind agree_current fun t t' ht => agree_bind_eq (agree_peekIs _) fun b => ?_
  split
  · exact agree_bind_eq (agree_lookup? ht) fun found => agree_procedureCall ht found
  · refine agree_bind_eq (agree_assignmentContext ht) fun ctx => ?_
    exact agree_bind_eq (agree_assignmentTail ctx) fun _ => agree_note _ _

end Calls

/-! ## Statements with statements inside -/

section Blocks

variable {L : Likeness}

theorem agree_nest (f : Nat → Nat) : Agree L Eq
    (modify fun s => { s with nesting := f s.nesting } : Parser Unit)
    (modify fun s => { s with nesting := f s.nesting }) :=
  agree_modify fun _ _ hs => { hs with nesting := congrArg f hs.nesting }

theorem agree_blockEnd (word : TokenKind) : Agree L Eq (blockEnd word) (blockEnd word) := by
  have hword : Agree L Eq (do
      expectPeek word
      closeBlock : Parser Unit)
      (do
      expectPeek word
      closeBlock) :=
    agree_bind_eq (agree_expectPeek _) fun _ => agree_nest (· - 1)
  refine agree_bind_eq (agree_currentIs _) fun b => ?_
  dsimp only
  split
  · exact hword
  · refine agree_bind agree_current fun t t' ht => ?_
    exact agree_bind_eq (agree_rejectToken ht) fun _ => hword

variable {inner inner' : Parser Nat} (hinner : Agree L Eq inner inner')

include hinner

theorem agree_branch : Agree L Eq (branch inner) (branch inner') := by
  refine agree_bind_eq agree_advance fun _ => agree_bind_eq hinner fun n => ?_
  split
  · exact agree_bind agree_current fun _ _ => agree_rejectToken
  · exact agree_pure rfl

theorem agree_ifStatement : Agree L Eq (ifStatement inner) (ifStatement inner') := by
  have hend : Agree L Eq (do
      blockEnd .kwIf
      note (text "if"))
      (do
      blockEnd .kwIf
      note (text "if")) :=
    agree_bind_eq (agree_blockEnd _) fun _ => agree_note _ _
  refine agree_bind_eq (agree_expectPeek _) fun _ => agree_bind_eq (agree_nest (· + 1)) fun _ => ?_
  refine agree_bind_eq agree_advance fun _ => agree_bind (agree_expression _) fun _ _ _ => ?_
  refine agree_bind_eq (agree_expectPeek _) fun _ => agree_bind_eq (agree_expectPeek _) fun _ => ?_
  refine agree_bind_eq (agree_branch hinner) fun _ => ?_
  refine agree_bind_eq (agree_currentIs _) fun b => ?_
  dsimp only
  split
  · exact agree_bind_eq (agree_branch hinner) fun _ => hend
  · exact hend

theorem agree_forStatement : Agree L Eq (forStatement inner) (forStatement inner') := by
  refine agree_bind_eq (agree_expectPeek _) fun _ => agree_bind_eq (agree_nest (· + 1)) fun _ => ?_
  refine agree_bind_eq (agree_expectPeek _) fun _ => agree_bind agree_current fun t t' ht => ?_
  refine agree_bind_eq (agree_assignmentContext ht) fun ctx => ?_
  refine agree_bind_eq (agree_assignmentTail ctx) fun _ => ?_
  refine agree_bind_eq (agree_expectPeek _) fun _ => agree_bind_eq agree_advance fun _ => ?_
  refine agree_bind (agree_expression _) fun _ _ _ => ?_
  refine agree_bind_eq (agree_expectPeek _) fun _ => agree_bind_eq agree_advance fun _ => ?_
  refine agree_bind_eq hinner fun _ => agree_bind_eq (agree_blockEnd _) fun _ => ?_
  exact agree_note _ _

theorem agree_statement : Agree L Eq (statement inner) (statement inner') := by
  refine agree_bind agree_current fun t t' ht => ?_
  rw [ht.kind]
  split
  · exact agree_note _ _
  · exact agree_builtinCall
  · exact agree_nameStatement
  · exact agree_ifStatement hinner
  · exact agree_forStatement hinner
  · exact agree_rejectToken ht

theorem agree_terminated : Agree L Eq (terminated inner) (terminated inner') := by
  have hrecover (mark base : Nat) : Agree L Eq (recoverFrom mark base) (recoverFrom mark base) := by
    refine agree_bind agree_get fun s s' hs => ?_
    rw [hs.nesting]
    exact agree_bind_eq (agree_recover _ _) fun _ => agree_nest fun _ => base
  refine agree_bind_eq agree_reported fun mark => agree_bind agree_get fun s s' hs => ?_
  refine agree_bind_eq (agree_succeeds (agree_statement hinner)) fun complete => ?_
  refine agree_bind_eq (agree_peekIs _) fun b => ?_
  dsimp only
  rw [hs.nesting]
  split
  · exact agree_bind_eq agree_advance fun _ => agree_advance
  · split
    · refine agree_bind agree_peek fun t t' ht => agree_bind_eq (agree_unexpected ht) fun _ => ?_
      exact agree_bind_eq agree_advance fun _ => hrecover mark _
    · exact hrecover mark _

omit hinner

theorem agree_statementsWithin (depth : Nat) :
    Agree L Eq (statementsWithin depth) (statementsWithin depth) := by
  induction depth with
  | zero => exact agree_exhausted
  | succ depth ih =>
    refine agree_bind agree_current fun t t' ht => ?_
    have hstarts : startsStatement t' = startsStatement t := by
      rw [startsStatement, startsStatement, ht.kind]
    rw [hstarts]
    split
    · refine agree_bind_eq (agree_terminated ih) fun _ => ?_
      exact agree_bind_eq ih fun _ => agree_pure rfl
    · exact agree_pure rfl

theorem agree_statements : Agree L Eq statements statements :=
  agree_bind_eq agree_remaining fun n => agree_statementsWithin (n + 1)

end Blocks

end OnePass.Program
