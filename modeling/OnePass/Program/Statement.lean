import OnePass.Program.Expression
set_option autoImplicit false

/-!
# Statements

Statements emit nothing and declare nothing: they are recognised, and their names, literals and
arguments are checked against the symbol table.  A name that is not bound is taken on trust, as it
may be declared later.  A statement that is rejected is skipped up to the semicolon that ends it.
-/

namespace OnePass.Program

/-- The symbol that a name stands for. -/
def lookup? (name : Bytes) : Parser (Option Symbol) := return (← get).table.lookup? name

/-- The context that the right side of an assignment to a name is checked in.  A name that stands
for something that is no variable is rejected. -/
def assignmentContext (target : Token) : Parser Context := do
  match ← lookup? target.literal with
  | some s => if s.kind.isScalar then return .expect s.kind else rejectToken target
  | none => return .unchecked

/-! ## Calls -/

/-- Checks what stands in the place of a parameter: a single name has to be bound to a symbol of
the parameter's kind, and nothing else can be written to. -/
def checkArgument (start : Token) (p : Parameter) (operand : Operand) : Parser Unit := do
  match operand with
  | .name t =>
    let found ← lookup? t.literal
    unless found.any (·.kind = p.kind) do rejectArgument t
  | _ => if p.direction.any Direction.byReference then rejectArgument start

/-- Recognises one argument.  `expected` holds the parameters that are left, if the callee is
known; the result holds those that are left behind the argument. -/
def argument (expected : Option (List Parameter)) : Parser (Option (List Parameter)) := do
  let start ← current
  match expected with
  | none =>
    let _ ← expression .unchecked
    return none
  | some [] => rejectArgument start
  | some (p :: rest) =>
    checkArgument start p (← expression (.expect p.kind))
    return some rest

/-- Recognises arguments joined by commas, at most `count` of them, from the token before the
first one on. -/
def argumentsWithin : Nat → Option (List Parameter) → Parser (Option (List Parameter))
  | 0, _ => exhausted
  | count + 1, expected => do
    advance
    let left ← argument expected
    if ← peekIs .comma then
      advance
      argumentsWithin count left
    else return left

/-- Recognises the arguments of a call in parentheses, from the left one on.  If the callee is
known, they have to match its parameters one by one. -/
def callArguments (expected : Option (List Parameter)) : Parser Unit := do
  let left ← if ← peekIs .rightParen then pure expected
    else argumentsWithin ((← remaining) + 1) expected
  expectPeek .rightParen
  if left.any (! ·.isEmpty) then rejectToken (← current)

/-- Recognises a call of a built-in procedure. -/
def builtinCall : Parser Unit := do
  let callee ← current
  let table := (← get).table
  match table.resolve? (table.global.child callee.literal) with
  | none => rejectToken callee
  | some s =>
    expectPeek .leftParen
    callArguments (some s.parameters)
    note (text "built-in call " ++ callee.literal)

/-- Recognises a call of a procedure. -/
def procedureCall (callee : Token) (found : Option Symbol) : Parser Unit := do
  if found.any (! ·.kind.isCallable) then rejectToken callee
  advance
  callArguments (found.map (·.parameters))
  note (text "procedure call " ++ callee.literal)

/-! ## Assignments -/

/-- Recognises the rest of an assignment behind its target: an optional index, the sign, and an
expression. -/
def assignmentTail (ctx : Context) : Parser Unit := do
  if ← peekIs .leftBracket then
    advance
    advance
    let _ ← expression .index
    expectPeek .rightBracket
  expectPeek .assign
  advance
  let _ ← expression ctx

/-- Recognises an assignment. -/
def assignment (target : Token) : Parser Unit := do
  assignmentTail (← assignmentContext target)
  note (text "assignment " ++ target.literal)

/-- Recognises a statement that starts with a name. -/
def nameStatement : Parser Unit := do
  let t ← current
  if ← peekIs .leftParen then procedureCall t (← lookup? t.literal) else assignment t

/-! ## Statements with statements inside -/

/-- Counts one more open statement. -/
def openBlock : Parser Unit := modify fun s => { s with nesting := s.nesting + 1 }

/-- Counts one open statement less. -/
def closeBlock : Parser Unit := modify fun s => { s with nesting := s.nesting - 1 }

/-- Recognises the end of a statement that ends with its own word. -/
def blockEnd (word : TokenKind) : Parser Unit := do
  unless ← currentIs .kwEnd do rejectToken (← current)
  expectPeek word
  closeBlock

/-- Recognises the statements of a branch, of which there is at least one. -/
def branch (statements : Parser Nat) : Parser Unit := do
  advance
  if (← statements) = 0 then rejectToken (← current)

/-- Recognises an `if` statement, given how to recognise the statements inside. -/
def ifStatement (statements : Parser Nat) : Parser Unit := do
  expectPeek .leftParen
  openBlock
  advance
  let _ ← expression (.condition none)
  expectPeek .rightParen
  expectPeek .kwThen
  branch statements
  if ← currentIs .kwElse then branch statements
  blockEnd .kwIf
  note (text "if")

/-- Recognises a `for` statement, given how to recognise the statements inside. -/
def forStatement (statements : Parser Nat) : Parser Unit := do
  expectPeek .leftParen
  openBlock
  expectPeek .identifier
  assignmentTail (← assignmentContext (← current))
  expectPeek .semicolon
  advance
  let _ ← expression (.condition none)
  expectPeek .rightParen
  advance
  let _ ← statements
  blockEnd .kwFor
  note (text "for")

/-- Whether a token can start a statement.  Text that is no token can, so that it is reported and
skipped like one. -/
def startsStatement (t : Token) : Bool :=
  match t.kind with
  | .kwReturn | .identifier | .kwIf | .kwFor | .error | .builtin _ => true
  | _ => false

/-- Recognises a statement, given how to recognise the statements inside. -/
def statement (statements : Parser Nat) : Parser Unit := do
  let t ← current
  match t.kind with
  | .kwReturn => note (text "return")
  | .builtin _ => builtinCall
  | .identifier => nameStatement
  | .kwIf => ifStatement statements
  | .kwFor => forStatement statements
  | _ => rejectToken t

/-- Recovers from a statement that was reached with `base` blocks open. -/
def recoverFrom (mark base : Nat) : Parser Unit := do
  recover mark ((← get).nesting - base)
  modify fun s => { s with nesting := base }

/-- Recognises what follows a statement, complete or not: its semicolon, or what is skipped. -/
def endStatement (mark base : Nat) (complete : Bool) : Parser Unit := do
  if complete && (← peekIs .semicolon) then
    advance
    advance
  else
    if complete then
      unexpected (← peek)
      advance
    recoverFrom mark base

/-- Recognises a statement and the semicolon behind it, or recovers. -/
def terminated (statements : Parser Nat) : Parser Unit := do
  let mark ← reported
  let base := (← get).nesting
  endStatement mark base (← succeeds (statement statements))

/-- Recognises statements as long as they start, and counts them.  Statements nest and follow each
other at most `depth` times. -/
def statementsWithin : Nat → Parser Nat
  | 0 => exhausted
  | depth + 1 => do
    if startsStatement (← current) then
      terminated (statementsWithin depth)
      return (← statementsWithin depth) + 1
    else return 0

/-- Recognises statements as long as they start, and counts them.  Every statement passes a token,
so the number of tokens up to the end bounds them. -/
def statements : Parser Nat := do statementsWithin ((← remaining) + 1)

end OnePass.Program
