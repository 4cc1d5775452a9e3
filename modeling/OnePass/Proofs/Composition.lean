import OnePass.Proofs.Production
set_option autoImplicit false

/-!
# What productions are made of

Every production is made of a few single steps.  They come one after the other, as a block that is
opened and closed, and as a statement or a declaration that is recovered from.  `Made` says how, and
goes through the productions once: whatever holds of the steps and of their compositions follows for
all productions by induction.

Some productions may be given instead of made, as the body of a procedure is.  Only some of the steps
declare and emit; statements are made without them, and so are the lists that hold statements.
-/

namespace OnePass.Program

/-! ## Parts of statements -/

/-- A statement with statements inside: one block more is open while what is inside is read. -/
def block (inside : Parser Unit) (words : Bytes) : Parser Unit := do
  expectPeek .leftParen
  openBlock
  inside
  closeBlock
  note words

/-- The words that a block ends with. -/
def endWords (word : TokenKind) : Parser Unit := do
  unless ← currentIs .kwEnd do rejectToken (← current)
  expectPeek word

/-- What is inside an `if` statement, up to its end. -/
def ifInside (statements : Parser Nat) : Parser Unit := do
  advance
  let _ ← expression (.condition none)
  expectPeek .rightParen
  expectPeek .kwThen
  branch statements
  if ← currentIs .kwElse then branch statements
  endWords .kwIf

/-- What is inside a `for` statement, up to its end. -/
def forInside (statements : Parser Nat) : Parser Unit := do
  expectPeek .identifier
  assignmentTail (← assignmentContext (← current))
  expectPeek .semicolon
  advance
  let _ ← expression (.condition none)
  expectPeek .rightParen
  advance
  let _ ← statements
  endWords .kwFor

theorem blockEnd_eq (word : TokenKind) : blockEnd word = (do endWords word; closeBlock) := by
  unfold blockEnd endWords
  rw [bind_assoc]
  refine bind_congr fun b => ?_
  cases b with
  | true => rfl
  | false => simp only [bind_assoc, Bool.false_eq_true, if_false]

theorem ifStatement_eq (statements : Parser Nat) :
    ifStatement statements = block (ifInside statements) (text "if") := by
  simp only [ifStatement, block, ifInside, blockEnd_eq, bind_assoc]
  iterate 8 refine bind_congr fun _ => ?_
  split <;> simp only [bind_assoc]

theorem forStatement_eq (statements : Parser Nat) :
    forStatement statements = block (forInside statements) (text "for") := by
  simp only [forStatement, block, forInside, blockEnd_eq, bind_assoc]

/-! ## Making productions -/

/-- The productions that recur, by the number that bounds them. -/
inductive Loop : {α : Type} → (Nat → Parser α) → Prop
  | expression (ctx : Context) : Loop fun n => levelWithin n .logical ctx
  | arguments (expected : Option (List Parameter)) : Loop fun n => argumentsWithin n expected
  | parameters : Loop parametersWithin
  | statements : Loop statementsWithin
  | declarations : Loop declarationsWithin

/-- How a production is made of single steps and of productions in `G`.  The first flag allows steps
that declare and emit, and the second one blocks, with the statements that are recovered from. -/
inductive Made (G : (α : Type) → Parser α → Prop) : Bool → Bool → {α : Type} → Parser α → Prop
  | given {w k : Bool} {α : Type} {p : Parser α} (h : G α p) : Made G w k p
  | pure {w k : Bool} {α : Type} (a : α) : Made G w k (pure a)
  | bind {w k : Bool} {α β : Type} {p : Parser β} {f : β → Parser α} (hp : Made G w k p)
      (hf : ∀ b, Made G w k (f b)) : Made G w k (p >>= f)
  /-- Of the state only the table is looked at, and the code if the production emits. -/
  | look {w k : Bool} {α : Type} {f : State → Parser α} (hf : ∀ s, Made G w k (f s))
      (hsame : ∀ s s' : State, s'.table = s.table → (w = true → s'.builder = s.builder) →
        f s' = f s) : Made G w k (get >>= f)
  | current {w k : Bool} : Made G w k current
  | peek {w k : Bool} : Made G w k peek
  | advance {w k : Bool} : Made G w k advance
  | note {w k : Bool} (words : Bytes) : Made G w k (note words)
  | unexpected {w k : Bool} (t : Token) : Made G w k (unexpected t)
  | rejectToken {w k : Bool} {α : Type} (t : Token) : Made G w k (rejectToken t : Parser α)
  | rejectArgument {w k : Bool} {α : Type} (t : Token) : Made G w k (rejectArgument t : Parser α)
  | giveUp {w k : Bool} {α : Type} (e : StructureError) : Made G w k (throw (.fatal e) : Parser α)
  | block {w : Bool} {p : Parser Unit} (hp : Made G w true p) (words : Bytes) :
      Made G w true (block p words)
  | terminated {w : Bool} {inner : Parser Nat} (h : Made G w true (statement inner)) :
      Made G w true (terminated inner)
  | orRecover {w k : Bool} {p : Parser Unit} (hp : Made G w k p) : Made G w k (orRecover p)
  | loop {w k : Bool} {α : Type} {p : Nat → Parser α} (h : Loop p) (hp : ∀ n, Made G w k (p n)) :
      Made G w k (do p ((← remaining) + 1))
  | modifyTable {k : Bool} (actions : List Table.Action) : Made G true k (modifyTable (·.run actions))
  | andThenTable {k : Bool} {α : Type} {p : Parser α} (hp : Made G true k p)
      (actions : List Table.Action) : Made G true k (andThenTable p (·.run actions))
  | orDiscard {k : Bool} {α : Type} {p : Parser α} (hp : Made G true k p) :
      Made G true k (orDiscard p)
  | commit {k : Bool} (place : Token) : Made G true k (commit place)
  | emitStorage {k : Bool} {name : Bytes} {sym : Symbol} {line : Ir.Line}
      (h : Ir.declaration name sym = .ok line) : Made G true k (emitStorage sym.global line)
  | openProgram {k : Bool} :
      Made G true k (modify fun s => { s with builder := s.builder.openProgram })
  | openFunction {k : Bool} (sym : Symbol) (name : Token) {inside : Ir.Builder → Parser Unit}
      (h : ∀ b, Made G true k (inside b)) : Made G true k (openFunction sym name inside)
  | leaveFunction {k : Bool} (kept : Bool) : Made G true k (leaveFunction
      (if kept then Ir.Builder.closeProcedure else Ir.Builder.discardProcedure))
  /-- The token that bounds start with is remembered before it is known whether there are any. -/
  | bracketed {k : Bool} {f : Token → Option Bounds → Parser Unit}
      (hbounds : Made G true k optionalBounds)
      (hf : ∀ t bounds?, Made G true k (f t bounds?)) (hnone : ∀ t u, f t none = f u none) :
      Made G true k (do
        let start := (← get).cursor.next.peek
        f start (← orDiscard optionalBounds))

variable {G : (α : Type) → Parser α → Prop} {w k : Bool}

/-! ## Single steps -/

section Steps

variable {α : Type}

theorem made_currentIs (kind : TokenKind) : Made G w k (currentIs kind) :=
  .bind .current fun _ => .pure _

theorem made_peekIs (kind : TokenKind) : Made G w k (peekIs kind) := .bind .peek fun _ => .pure _

theorem made_lookup? (name : Bytes) : Made G w k (lookup? name) :=
  .look (fun _ => .pure _) fun _ _ h _ => by simp only [h]

theorem made_exhausted : Made G w k (exhausted : Parser α) := .giveUp _

theorem made_fail (t : Token) : Made G w k (fail t : Parser α) := by
  refine .bind (.unexpected t) fun _ => ?_
  split
  · exact .giveUp _
  · exact .giveUp _

theorem made_expectPeek (kind : TokenKind) : Made G w k (expectPeek kind) := by
  refine .bind (made_peekIs kind) fun b => ?_
  split
  · exact .advance
  · exact .bind .peek fun t => .rejectToken t

theorem made_mustCurrent (kind : TokenKind) : Made G w k (mustCurrent kind) := by
  refine .bind (made_currentIs kind) fun b => ?_
  split
  · exact .pure _
  · exact .bind .current fun t => made_fail t

theorem made_mustPeek (kind : TokenKind) : Made G w k (mustPeek kind) := by
  refine .bind (made_peekIs kind) fun b => ?_
  dsimp only
  split
  · exact .advance
  · refine .bind .peek fun t => ?_
    exact .bind (made_fail t) fun _ => .advance

end Steps

/-! ## Expressions -/

section Expressions

theorem made_joined {level : Level} {operand again : ExpressionParser}
    (hoperand : ∀ ctx, Made G w k (operand ctx)) (hagain : ∀ ctx, Made G w k (again ctx))
    (ctx : Context) : Made G w k (joined level operand again ctx) := by
  refine .bind (hoperand ctx) fun r => .bind .peek fun t => ?_
  split
  · refine .bind .advance fun _ => .bind .advance fun _ => ?_
    exact .bind (hagain r.2) fun _ => .pure _
  · exact .pure _

variable {again : Level → ExpressionParser} (hagain : ∀ level ctx, Made G w k (again level ctx))

include hagain

theorem made_reference : Made G w k (reference again) := by
  refine .bind .current fun t => .bind (made_peekIs _) fun b => ?_
  dsimp only
  split
  · refine .bind .advance fun _ => .bind .advance fun _ => ?_
    refine .bind (hagain _ _) fun _ => .bind (made_expectPeek _) fun _ => ?_
    exact .pure _
  · exact .pure _

theorem made_factor (ctx : Context) : Made G w k (factor again ctx) := by
  refine .bind .current fun t => ?_
  split
  · split
    · exact .pure _
    · exact .rejectArgument _
  · refine .bind .advance fun _ => ?_
    exact .bind (hagain _ _) fun _ => .pure _
  · refine .bind .advance fun _ => .bind (hagain _ _) fun _ => ?_
    exact .bind (made_expectPeek _) fun _ => .pure _
  · exact .bind (made_reference hagain) fun _ => .pure _
  · exact .rejectToken _

theorem made_term (ctx : Context) : Made G w k (term again ctx) :=
  made_joined (made_factor hagain) (hagain _) ctx

theorem made_relation (ctx : Context) : Made G w k (relation again ctx) :=
  made_joined (made_term hagain) (hagain _) ctx

theorem made_sum (ctx : Context) : Made G w k (sum again ctx) :=
  made_joined (made_relation hagain) (hagain _) ctx

theorem made_whole (ctx : Context) : Made G w k (whole again ctx) := by
  refine .bind (made_currentIs _) fun b => ?_
  split
  · refine .bind .advance fun _ => ?_
    exact .bind (made_sum hagain ctx) fun _ => .pure _
  · exact made_joined (made_sum hagain) (hagain _) ctx

theorem made_atLevel (level : Level) (ctx : Context) : Made G w k (atLevel again level ctx) := by
  cases level with
  | logical => exact made_whole hagain ctx
  | additive => exact made_sum hagain ctx
  | relational => exact made_relation hagain ctx
  | multiplicative => exact made_term hagain ctx
  | factor => exact made_factor hagain ctx

omit hagain

theorem made_levelWithin (depth : Nat) (level : Level) (ctx : Context) :
    Made G w k (levelWithin depth level ctx) := by
  induction depth generalizing level ctx with
  | zero => exact made_exhausted
  | succ depth ih => exact made_atLevel ih level ctx

theorem made_expression (ctx : Context) : Made G w k (expression ctx) :=
  .bind (.loop (.expression ctx) fun n => made_levelWithin n .logical ctx) fun _ => .pure _

end Expressions

/-! ## Statements -/

section Statements

theorem made_assignmentContext (target : Token) : Made G w k (assignmentContext target) := by
  refine .bind (made_lookup? _) fun found => ?_
  split
  · split
    · exact .pure _
    · exact .rejectToken _
  · exact .pure _

theorem made_checkArgument (start : Token) (p : Parameter) (operand : Operand) :
    Made G w k (checkArgument start p operand) := by
  unfold checkArgument
  split
  · refine .bind (made_lookup? _) fun found => ?_
    split
    · exact .pure _
    · exact .rejectArgument _
  · split
    · exact .rejectArgument _
    · exact .pure _

theorem made_argument (expected : Option (List Parameter)) : Made G w k (argument expected) := by
  refine .bind .current fun start => ?_
  split
  · exact .bind (made_expression _) fun _ => .pure _
  · exact .rejectArgument _
  · refine .bind (made_expression _) fun operand => ?_
    exact .bind (made_checkArgument _ _ _) fun _ => .pure _

theorem made_argumentsWithin (count : Nat) (expected : Option (List Parameter)) :
    Made G w k (argumentsWithin count expected) := by
  induction count generalizing expected with
  | zero => exact made_exhausted
  | succ count ih =>
    refine .bind .advance fun _ => .bind (made_argument _) fun left => ?_
    refine .bind (made_peekIs _) fun b => ?_
    split
    · exact .bind .advance fun _ => ih left
    · exact .pure _

theorem made_callArguments (expected : Option (List Parameter)) :
    Made G w k (callArguments expected) := by
  have hclose (left : Option (List Parameter)) : Made G w k (do
      expectPeek .rightParen
      if left.any (! ·.isEmpty) then rejectToken (← current) : Parser Unit) := by
    refine .bind (made_expectPeek _) fun _ => ?_
    split
    · exact .bind .current fun t => .rejectToken t
    · exact .pure _
  refine .bind (made_peekIs _) fun b => ?_
  dsimp only
  split
  · exact .bind (.pure _) hclose
  · rw [← bind_assoc]
    exact .bind (.loop (.arguments expected) fun n => made_argumentsWithin n expected) hclose

theorem made_builtinCall : Made G w k builtinCall := by
  refine .bind .current fun callee => .look (fun s => ?_) fun _ _ h _ => by simp only [h]
  dsimp only
  split
  · exact .rejectToken _
  · refine .bind (made_expectPeek _) fun _ => ?_
    exact .bind (made_callArguments _) fun _ => .note _

theorem made_procedureCall (callee : Token) (found : Option Symbol) :
    Made G w k (procedureCall callee found) := by
  have hcall : Made G w k (do
      advance
      callArguments (found.map (·.parameters))
      note (text "procedure call " ++ callee.literal) : Parser Unit) :=
    .bind .advance fun _ => .bind (made_callArguments _) fun _ => .note _
  unfold procedureCall
  dsimp only
  split
  · exact .bind (.rejectToken _) fun _ => hcall
  · exact hcall

theorem made_assignmentTail (ctx : Context) : Made G w k (assignmentTail ctx) := by
  have hvalue : Made G w k (do
      expectPeek .assign
      advance
      let _ ← expression ctx : Parser Unit) := by
    refine .bind (made_expectPeek _) fun _ => .bind .advance fun _ => ?_
    exact .bind (made_expression _) fun _ => .pure _
  refine .bind (made_peekIs _) fun b => ?_
  dsimp only
  split
  · refine .bind .advance fun _ => .bind .advance fun _ => ?_
    refine .bind (made_expression _) fun _ => ?_
    exact .bind (made_expectPeek _) fun _ => hvalue
  · exact hvalue

theorem made_nameStatement : Made G w k nameStatement := by
  refine .bind .current fun t => .bind (made_peekIs _) fun b => ?_
  split
  · exact .bind (made_lookup? _) fun found => made_procedureCall t found
  · refine .bind (made_assignmentContext t) fun ctx => ?_
    exact .bind (made_assignmentTail ctx) fun _ => .note _

theorem made_endWords (word : TokenKind) : Made G w k (endWords word) := by
  refine .bind (made_currentIs _) fun b => ?_
  dsimp only
  split
  · exact made_expectPeek _
  · refine .bind .current fun t => ?_
    exact .bind (.rejectToken _) fun _ => made_expectPeek _

section Inside

variable {inner : Parser Nat} (hinner : Made G w k inner)

include hinner

theorem made_branch : Made G w k (branch inner) := by
  refine .bind .advance fun _ => .bind hinner fun n => ?_
  split
  · exact .bind .current fun t => .rejectToken t
  · exact .pure _

theorem made_ifInside : Made G w k (ifInside inner) := by
  refine .bind .advance fun _ => .bind (made_expression _) fun _ => ?_
  refine .bind (made_expectPeek _) fun _ => .bind (made_expectPeek _) fun _ => ?_
  refine .bind (made_branch hinner) fun _ => .bind (made_currentIs _) fun b => ?_
  dsimp only
  split
  · exact .bind (made_branch hinner) fun _ => made_endWords _
  · exact made_endWords _

theorem made_forInside : Made G w k (forInside inner) := by
  refine .bind (made_expectPeek _) fun _ => .bind .current fun t => ?_
  refine .bind (made_assignmentContext t) fun ctx => ?_
  refine .bind (made_assignmentTail ctx) fun _ => ?_
  refine .bind (made_expectPeek _) fun _ => .bind .advance fun _ => ?_
  refine .bind (made_expression _) fun _ => ?_
  refine .bind (made_expectPeek _) fun _ => .bind .advance fun _ => ?_
  exact .bind hinner fun _ => made_endWords _

end Inside

theorem made_statement {inner : Parser Nat} (hinner : Made G w true inner) :
    Made G w true (statement inner) := by
  refine .bind .current fun t => ?_
  split
  · exact .note _
  · exact made_builtinCall
  · exact made_nameStatement
  · rw [ifStatement_eq]
    exact .block (made_ifInside hinner) _
  · rw [forStatement_eq]
    exact .block (made_forInside hinner) _
  · exact .rejectToken _

theorem made_terminated {inner : Parser Nat} (hinner : Made G w true inner) :
    Made G w true (terminated inner) := .terminated (made_statement hinner)

theorem made_statementsWithin (depth : Nat) : Made G w true (statementsWithin depth) := by
  induction depth with
  | zero => exact made_exhausted
  | succ depth ih =>
    refine .bind .current fun t => ?_
    split
    · refine .bind (made_terminated ih) fun _ => ?_
      exact .bind ih fun _ => .pure _
    · exact .pure _

theorem made_statements : Made G w true statements := .loop .statements made_statementsWithin

end Statements

/-! ## Bounds and parameters -/

section Parameters

theorem made_bound : Made G w k bound := by
  refine .bind (made_peekIs _) fun negative => ?_
  dsimp only
  split
  · refine .bind .advance fun _ => .bind .peek fun t => ?_
    split
    · exact .bind .advance fun _ => .pure _
    · exact .bind .advance fun _ => .rejectArgument _
    · exact .rejectToken _
  · refine .bind .peek fun t => ?_
    split
    · exact .bind .advance fun _ => .pure _
    · exact .bind .advance fun _ => .rejectArgument _
    · exact .rejectToken _

theorem made_bounds : Made G w k bounds := by
  refine .bind made_bound fun first => .bind (made_peekIs _) fun b => ?_
  split
  · exact .bind .advance fun _ => .pure _
  · refine .bind (made_expectPeek _) fun _ => .bind made_bound fun _ => ?_
    exact .bind (made_expectPeek _) fun _ => .pure _

theorem made_optionalBounds : Made G w k optionalBounds := by
  refine .bind (made_peekIs _) fun b => ?_
  split
  · refine .bind .advance fun _ => ?_
    exact .bind made_bounds fun _ => .pure _
  · exact .pure _

theorem made_parameter : Made G w k parameter := by
  refine .bind .current fun t => ?_
  split
  · refine .bind (made_expectPeek _) fun _ => .bind .current fun n => ?_
    refine .bind made_optionalBounds fun _ => ?_
    refine .bind .advance fun _ => .bind .current fun d => ?_
    split
    · exact .pure _
    · exact .rejectToken _
  · exact .rejectToken _

theorem made_parametersWithin (count : Nat) : Made G w k (parametersWithin count) := by
  induction count with
  | zero => exact made_exhausted
  | succ count ih =>
    refine .bind .advance fun _ => .bind made_parameter fun p => ?_
    refine .bind (made_peekIs _) fun b => ?_
    split
    · refine .bind .advance fun _ => ?_
      exact .bind ih fun _ => .pure _
    · exact .pure _

theorem made_parameters : Made G w k parameters := by
  have hclose (ps : List Parameter) : Made G w k (do
      expectPeek .rightParen
      return ps : Parser (List Parameter)) :=
    .bind (made_expectPeek _) fun _ => .pure _
  refine .bind (made_expectPeek _) fun _ => .bind (made_peekIs _) fun b => ?_
  dsimp only
  split
  · exact .bind (.pure _) hclose
  · rw [← bind_assoc]
    exact .bind (.loop .parameters made_parametersWithin) hclose

end Parameters

/-! ## Bodies, given their declarations -/

section Bodies

theorem made_bodyTail_of (hstatements : Made G w k statements) (terminator : TokenKind) :
    Made G w k (bodyTail terminator) := by
  refine .bind (made_mustCurrent _) fun _ => .bind .advance fun _ => ?_
  refine .bind hstatements fun _ => ?_
  exact .bind (made_mustCurrent _) fun _ => made_mustPeek _

theorem made_bodyTail (terminator : TokenKind) : Made G w true (bodyTail terminator) :=
  made_bodyTail_of made_statements terminator

theorem made_optionalIs : Made G w k optionalIs := by
  refine .bind (made_peekIs _) fun b => ?_
  split
  · exact .advance
  · exact .pure _

theorem made_procedureInside_of {inner : Parser Unit} {key : ScopeKey} {kept : Bool}
    (hbody : Made G w k (procedureBody inner key kept)) (count : Nat) (builder : Ir.Builder) :
    Made G w k (procedureInside inner key count kept builder) :=
  .bind (.note _) fun _ => .bind made_optionalIs fun _ => hbody

theorem made_declaration_of {inner : Parser Unit}
    (hprocedure : ∀ global, Made G w k (inScopeOf global (procedureDeclaration inner global)))
    (hvariable : ∀ global type, Made G w k (inScopeOf global (variableDeclaration global type))) :
    Made G w k (declaration inner) := by
  have htail (global : Bool) : Made G w k (declarationTail inner global) := by
    refine .bind .current fun t => ?_
    split
    · exact hprocedure global
    · exact hvariable global _
    · exact .rejectToken _
  refine .bind (made_currentIs _) fun b => ?_
  split
  · exact .bind .advance fun _ => htail true
  · exact htail false

variable (hstatements : Made G w k statements)
  (hdeclaration : ∀ {inner : Parser Unit}, Made G w k inner → Made G w k (declaration inner))

include hstatements hdeclaration

theorem made_separated_of {depth : Nat} (h : Made G w k (declarationsWithin depth)) : Made G w k (do
    declaration (do declarationsWithin depth; bodyTail .kwProcedure)
    expectPeek .semicolon) := by
  refine .bind (hdeclaration ?_) fun _ => made_expectPeek _
  exact .bind h fun _ => made_bodyTail_of hstatements _

theorem made_declarationsWithin_of (depth : Nat) : Made G w k (declarationsWithin depth) := by
  induction depth with
  | zero => exact made_exhausted
  | succ depth ih =>
    refine .bind .current fun t => .bind .peek fun u => ?_
    split
    · exact .bind (.orRecover (made_separated_of hstatements hdeclaration ih)) fun _ => ih
    · exact .pure _

theorem made_body_of (terminator : TokenKind) : Made G w k (body terminator) := by
  unfold body
  rw [← bind_assoc]
  have hloop := made_declarationsWithin_of hstatements hdeclaration
  exact .bind (.loop .declarations hloop) fun _ => made_bodyTail_of hstatements _

end Bodies

/-! ## Declarations and programs -/

section Declarations

variable {α : Type}

theorem made_inScope {p : Parser α} (hp : Made G true k p) (name : Bytes) :
    Made G true k (inScope name p) :=
  .bind (.modifyTable [.enter name]) fun _ => .andThenTable hp [.exit]

theorem made_inScopeOf {p : Parser α} (hp : Made G true k p) (global : Bool) :
    Made G true k (inScopeOf global p) := by
  cases global with
  | false => exact hp
  | true => exact .bind (.modifyTable [.enterGlobal]) fun _ => .andThenTable hp [.exitGlobal]

theorem made_variableEnd (sym : Symbol) (name start : Token) (bounds? : Option Bounds) :
    Made G true k (variableEnd sym name start bounds?) := by
  refine .bind (.modifyTable [.stage _]) fun _ => .look (fun s => ?_) fun _ _ h _ => by simp only [h]
  dsimp only
  split
  · refine .bind (.modifyTable [.discard]) fun _ => ?_
    split
    · exact .rejectArgument _
    · exact .rejectToken _
  · next hline =>
    have hstorage := Made.emitStorage (G := G) (k := k) hline
    refine .bind (.commit name) fun b => ?_
    split
    · exact .bind hstorage fun _ => .note _
    · exact .pure _

theorem made_variableTail (sym : Symbol) (name : Token) : Made G true k (variableTail sym name) :=
  .bracketed made_optionalBounds (made_variableEnd sym name) fun _ _ => rfl

theorem made_named {symbol : Token → Symbol} {tail : Symbol → Token → Parser Unit}
    (h : ∀ sym name, Made G true k (tail sym name)) : Made G true k (named symbol tail) := by
  refine .bind (made_expectPeek _) fun _ => .bind .current fun n => ?_
  refine .bind (.modifyTable [.stage _]) fun _ => ?_
  exact made_inScope (h _ _) _

variable {inner : Parser Unit} (hinner : Made G true k inner)

include hinner

theorem made_procedureTail (sym : Symbol) (name : Token) :
    Made G true k (procedureTail inner sym name) := by
  have hbody (key : ScopeKey) (kept : Bool) : Made G true k (procedureBody inner key kept) := by
    refine .bind .advance fun _ => .bind hinner fun _ => .look (fun s => ?_) fun _ _ _ h => ?_
    · exact .bind (.leaveFunction kept) fun _ => .note _
    · simp only [h]
  refine .bind (.orDiscard made_parameters) fun ps => ?_
  refine .bind (.modifyTable [.stage _, .bindParameters]) fun _ => .look (fun s => ?_) fun _ _ h _ => by
    simp only [h]
  refine .bind (.commit name) fun bound => ?_
  exact .openFunction _ name (made_procedureInside_of (hbody _ bound) _)

theorem made_declaration : Made G true k (declaration inner) :=
  made_declaration_of
    (fun global => made_inScopeOf (made_named (made_procedureTail hinner)) global)
    (fun global _ => made_inScopeOf (made_named made_variableTail) global)

omit hinner

theorem made_declarationsWithin (depth : Nat) : Made G true true (declarationsWithin depth) :=
  made_declarationsWithin_of made_statements made_declaration depth

/-- A declaration and the semicolon behind it. -/
theorem made_separated (depth : Nat) : Made G true true (do
    declaration (do declarationsWithin depth; bodyTail .kwProcedure)
    expectPeek .semicolon) :=
  made_separated_of made_statements made_declaration (made_declarationsWithin depth)

theorem made_body (terminator : TokenKind) : Made G true true (body terminator) :=
  made_body_of made_statements made_declaration terminator

theorem made_programOpening : Made G true k programOpening := by
  refine .bind (made_mustCurrent _) fun _ => .bind (made_mustPeek _) fun _ => ?_
  refine .bind .current fun name => .bind (.modifyTable [.enter _, .stage _]) fun _ => ?_
  refine .bind (made_mustPeek _) fun _ => .bind (.commit name) fun _ => ?_
  exact .bind .openProgram fun _ => .bind (.note _) fun _ => .bind .advance fun _ => .pure _

theorem made_programClosing (name : Bytes) : Made G true k (programClosing name) := by
  refine .bind (made_mustPeek _) fun _ => .bind (.modifyTable [.exit]) fun _ => ?_
  exact .bind (.note _) fun _ => .pure _

theorem made_program : Made G true true program :=
  .bind made_programOpening fun _ => .bind (made_body _) fun _ => made_programClosing _

end Declarations

end OnePass.Program
