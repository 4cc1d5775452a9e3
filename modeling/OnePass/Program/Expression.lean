import OnePass.Program.Basic
set_option autoImplicit false

/-!
# Expressions

Expressions are recognised by precedence, operators of one level from the right:

* an expression is `NOT` and a sum, or a sum and, after `AND` or `OR`, another expression;
* a sum is relations joined by `PLUS` or `MINUS`, a relation is terms joined by comparisons, and a
  term is factors joined by `MULTIPLY` or `DIVIDE`;
* a factor is a literal, a factor after a minus sign, an expression in parentheses, or a name with
  an optional index in brackets.

Names are not looked up.  Literals are checked against a context.
-/

namespace OnePass.Program

/-! ## What literals may stand in an expression -/

/-- Which literals an expression may hold. -/
inductive Context where
  /-- any -/
  | unchecked
  /-- those that fit a kind -/
  | expect (kind : Kind)
  /-- those of a condition: no float, and characters and strings of one type only, the type of the
  first of them -/
  | condition (fixed : Option Scalar)
  deriving DecidableEq, Repr, Inhabited

namespace Context

/-- Whether a literal fits a type: an integer fits a float, and integers and truth values fit each
other. -/
def fits (expected got : Scalar) : Bool :=
  got = expected || (expected = .float && got = .integer)
    || (expected.isCounting && got.isCounting)

/-- The context behind a literal of a type; none if the literal has no place in it. -/
def accept? : Context → Scalar → Option Context
  | .unchecked, _ => some .unchecked
  | .expect .procedure, _ => some (.expect .procedure)
  | .expect (.scalar expected), got =>
    if fits expected got then some (.expect (.scalar expected)) else none
  | .expect _, _ => none
  | .condition fixed, .integer => some (.condition fixed)
  | .condition fixed, .bool => some (.condition fixed)
  | .condition _, .float => none
  | .condition none, got => some (.condition (some got))
  | .condition (some first), got => if first = got then some (.condition (some first)) else none

/-- The context of an index. -/
def index : Context := .expect (.scalar .integer)

end Context

/-! ## Levels -/

/-- The levels of an expression, from the loosest on. -/
inductive Level where
  | logical
  | additive
  | relational
  | multiplicative
  | factor
  deriving DecidableEq, Repr, Inhabited

/-- The level that an operator joins operands at. -/
def levelOf : Operator → Level
  | .and | .or => .logical
  | .plus | .minus => .additive
  | .less | .lessEqual | .greater | .greaterEqual | .equal | .notEqual => .relational
  | .times | .divide => .multiplicative

/-- Whether a token joins operands at a level. -/
def joinsAt (level : Level) (t : Token) : Bool :=
  match t.kind with
  | .op o => levelOf o = level
  | _ => false

/-- What an expression is when taken as a whole. -/
inductive Operand where
  /-- a single name, with or without an index -/
  | name (t : Token)
  /-- a single literal, with or without minus signs -/
  | literal (t : Token)
  /-- anything else -/
  | compound
  deriving DecidableEq, Repr, Inhabited

/-- What a minus sign makes of an operand. -/
def Operand.negate : Operand → Operand
  | .literal t => .literal t
  | _ => .compound

/-! ## Productions

Each production starts on the first token of what it recognises and ends on the last.  Where the
grammar recurs, it takes `again` for the recurrence; at least one token is passed before `again`
is used. -/

/-- A production of expressions: it takes the context in front and gives the one behind. -/
abbrev ExpressionParser : Type := Context → Parser (Operand × Context)

/-- Recognises operands of one level joined by the operators of that level. -/
def joined (level : Level) (operand again : ExpressionParser) : ExpressionParser := fun ctx => do
  let (left, ctx) ← operand ctx
  if joinsAt level (← peek) then
    advance
    advance
    let (_, ctx) ← again ctx
    return (.compound, ctx)
  else return (left, ctx)

/-- Recognises a name with an optional index. -/
def reference (again : Level → ExpressionParser) : Parser Operand := do
  let t ← current
  if ← peekIs .leftBracket then
    advance
    advance
    let _ ← again .logical .index
    expectPeek .rightBracket
  return .name t

/-- Recognises a factor. -/
def factor (again : Level → ExpressionParser) : ExpressionParser := fun ctx => do
  let t ← current
  match t.kind with
  | .literal l =>
    match ctx.accept? l.scalar with
    | some ctx => return (.literal t, ctx)
    | none => rejectArgument t
  | .op .minus =>
    advance
    let (inner, ctx) ← again .factor ctx
    return (inner.negate, ctx)
  | .leftParen =>
    advance
    let (_, ctx) ← again .logical ctx
    expectPeek .rightParen
    return (.compound, ctx)
  | .identifier => return (← reference again, ctx)
  | _ => rejectToken t

/-- Recognises a term. -/
def term (again : Level → ExpressionParser) : ExpressionParser :=
  joined .multiplicative (factor again) (again .multiplicative)

/-- Recognises a relation. -/
def relation (again : Level → ExpressionParser) : ExpressionParser :=
  joined .relational (term again) (again .relational)

/-- Recognises a sum. -/
def sum (again : Level → ExpressionParser) : ExpressionParser :=
  joined .additive (relation again) (again .additive)

/-- Recognises an expression. -/
def whole (again : Level → ExpressionParser) : ExpressionParser := fun ctx => do
  if ← currentIs .kwNot then
    advance
    let (_, ctx) ← sum again ctx
    return (.compound, ctx)
  else joined .logical (sum again) (again .logical) ctx

/-- Recognises an expression of a level. -/
def atLevel (again : Level → ExpressionParser) : Level → ExpressionParser
  | .logical => whole again
  | .additive => sum again
  | .relational => relation again
  | .multiplicative => term again
  | .factor => factor again

/-- Recognises an expression of a level in which the grammar recurs at most `depth` times one
inside the other. -/
def levelWithin : Nat → Level → ExpressionParser
  | 0, _ => fun _ => exhausted
  | depth + 1, level => atLevel (levelWithin depth) level

/-- Recognises an expression of a level.  Every recurrence passes a token, so the number of tokens
up to the end bounds them. -/
def expressionAt (level : Level) : ExpressionParser := fun ctx => do
  levelWithin ((← remaining) + 1) level ctx

/-- Recognises an expression and checks its literals against a context. -/
def expression (ctx : Context) : Parser Operand := do
  let (operand, _) ← expressionAt .logical ctx
  return operand

end OnePass.Program
