import OnePass.Program.Statement
set_option autoImplicit false

/-!
# Declarations

A declaration binds a symbol and emits its storage or its function.  Whichever way it ends, it
leaves the scope as it found it.  A name that is bound already keeps its first meaning: the second
variable emits nothing, and of a second procedure the body is recognised and then dropped.
-/

namespace OnePass.Program

/-- Changes the table. -/
def modifyTable (f : Table → Table) : Parser Unit := modify fun s => { s with table := f s.table }

/-- Runs a production in the global scope. -/
def inGlobalScope {α : Type} (p : Parser α) : Parser α := do
  modifyTable Table.enterGlobal
  andThenTable p Table.exitGlobal

/-- Runs the production of a declaration in the scope that it belongs to. -/
def inScopeOf {α : Type} (global : Bool) (p : Parser α) : Parser α :=
  if global then inGlobalScope p else p

/-- Runs a production in the scope of a name. -/
def inScope {α : Type} (name : Bytes) (p : Parser α) : Parser α := do
  modifyTable (·.enter name)
  andThenTable p Table.exit

/-- Runs a production that fills in the staged symbol; if it does not succeed, the symbol is
dropped. -/
def orDiscard {α : Type} (p : Parser α) : Parser α :=
  tryCatch p fun stop => do
    modifyTable Table.discard
    throw stop

/-- Binds the staged symbol under the current scope key, and tells whether it was bound.  A key
that is bound already is reported at a token. -/
def commit (place : Token) : Parser Bool := do
  let s ← get
  let (result, table) := s.table.commit
  set { s with table := table }
  match result with
  | .ok _ => return true
  | .error _ =>
    report (.duplicate (← positionOf place) s.table.scope)
    return false

/-! ## Bounds -/

/-- Recognises one bound behind the current token: an integer, with an optional minus sign. -/
def bound : Parser Bytes := do
  let negative ← peekIs (.op .minus)
  if negative then advance
  let sign := if negative then [Ascii.minus] else []
  let t ← peek
  match t.kind with
  | .literal .integer =>
    advance
    return sign ++ t.literal
  | .literal .float =>
    advance
    rejectArgument { t with literal := sign ++ t.literal }
  | _ => rejectToken t

/-- Recognises bounds from the left bracket on.  A single bound is the upper one; the lower one is
then zero. -/
def bounds : Parser Bounds := do
  let first ← bound
  if ← peekIs .rightBracket then
    advance
    return ⟨text "0", first⟩
  else
    expectPeek .colon
    let second ← bound
    expectPeek .rightBracket
    return ⟨first, second⟩

/-- Recognises bounds behind the current token if there are any. -/
def optionalBounds : Parser (Option Bounds) := do
  if ← peekIs .leftBracket then
    advance
    return some (← bounds)
  else return none

/-! ## Variables -/

/-- Emits the storage of a variable that is being declared: global storage or storage in the
current function. -/
def emitStorage (global : Bool) (line : Ir.Line) : Parser Unit :=
  modify fun s =>
    { s with builder := if global then s.builder.addGlobal line else s.builder.addLocal line }

/-- Binds a variable behind its bounds and emits its storage, given the token that the bounds start
with. -/
def variableEnd (sym : Symbol) (name start : Token) (bounds? : Option Bounds) : Parser Unit := do
  let sym := { sym with bounds := bounds? }
  modifyTable (·.stage sym)
  let table := (← get).table
  match Ir.declaration table.irName sym with
  | .error _ =>
    modifyTable Table.discard
    match bounds? with
    | some b => rejectArgument { start with literal := b.lower ++ text ":" ++ b.upper }
    | none => rejectToken name
  | .ok line =>
    if ← commit name then
      emitStorage sym.global line
      note (text "variable declaration " ++ sym.kind.name ++ text " " ++ table.scope)

/-- Recognises the rest of a variable's declaration inside the variable's scope: its bounds. -/
def variableTail (sym : Symbol) (name : Token) : Parser Unit := do
  let start := (← get).cursor.next.peek
  variableEnd sym name start (← orDiscard optionalBounds)

/-- Recognises the name that is declared, and goes on with its symbol in its scope. -/
def named (symbol : Token → Symbol) (tail : Symbol → Token → Parser Unit) : Parser Unit := do
  expectPeek .identifier
  let name ← current
  modifyTable (·.stage (symbol name))
  inScope name.literal (tail (symbol name) name)

/-- Recognises the declaration of a variable from its type on. -/
def variableDeclaration (global : Bool) (type : Scalar) : Parser Unit :=
  named (fun name => { kind := .scalar type, line := name.line, global := global }) variableTail

/-! ## Procedures -/

/-- Recognises a parameter from its type on. -/
def parameter : Parser Parameter := do
  let t ← current
  match t.kind with
  | .typeMark type =>
    expectPeek .identifier
    let name := (← current).literal.lower
    let bounds? ← optionalBounds
    advance
    let d ← current
    match d.kind with
    | .direction direction => return ⟨name, .scalar type, some direction, bounds?⟩
    | _ => rejectToken d
  | _ => rejectToken t

/-- Recognises parameters joined by commas, at most `count` of them, from the token before the
first one on. -/
def parametersWithin : Nat → Parser (List Parameter)
  | 0 => exhausted
  | count + 1 => do
    advance
    let p ← parameter
    if ← peekIs .comma then
      advance
      return p :: (← parametersWithin count)
    else return [p]

/-- Recognises the parameters of a procedure in parentheses behind the current token. -/
def parameters : Parser (List Parameter) := do
  expectPeek .leftParen
  let ps ← if ← peekIs .rightParen then pure []
    else parametersWithin ((← remaining) + 1)
  expectPeek .rightParen
  return ps

/-- Leaves the current function for the one around it. -/
def leaveFunction (leave : Ir.Builder → Except Ir.Error Ir.Builder) : Parser Unit :=
  modify fun s => match leave s.builder with
    | .ok b => { s with builder := b }
    | .error _ => s

/-- Opens the function of a procedure and goes on inside it, or rejects the procedure's name. -/
def openFunction (sym : Symbol) (name : Token) (inside : Ir.Builder → Parser Unit) :
    Parser Unit := do
  let s ← get
  match s.builder.openProcedure s.table.irName sym with
  | .error _ => rejectToken name
  | .ok builder =>
    set { s with builder := builder }
    inside builder

/-- Steps onto the word `is` behind the current token if it is there. -/
def optionalIs : Parser Unit := do
  if ← peekIs .kwIs then advance

/-- Recognises the body of a procedure from the token before it on, and leaves the procedure's
function. -/
def procedureBody (body : Parser Unit) (key : ScopeKey) (kept : Bool) : Parser Unit := do
  advance
  body
  let slots := (← get).builder.current.temp - 1
  leaveFunction (if kept then Ir.Builder.closeProcedure else Ir.Builder.discardProcedure)
  note (text "procedure " ++ key ++ text " (" ++ Bytes.ofNat slots ++ text " temporaries)")

/-- Recognises what follows the parameters of a procedure inside its function. -/
def procedureInside (body : Parser Unit) (key : ScopeKey) (count : Nat) (kept : Bool)
    (builder : Ir.Builder) : Parser Unit := do
  note (text "procedure header " ++ key ++ text " (" ++ Bytes.ofNat count
    ++ text " parameters, depth " ++ Bytes.ofNat builder.depth ++ text ")")
  optionalIs
  procedureBody body key kept

/-- Recognises the rest of a procedure's declaration inside the procedure's scope: its parameters
and its body, given how to recognise the latter.  The procedure is bound before its body, so that
it can call itself. -/
def procedureTail (body : Parser Unit) (sym : Symbol) (name : Token) : Parser Unit := do
  let ps ← orDiscard parameters
  let sym := { sym with parameters := ps }
  modifyTable fun t => (t.stage sym).bindParameters
  let key := (← get).table.scope
  let bound ← commit name
  openFunction sym name (procedureInside body key ps.length bound)

/-- Recognises the declaration of a procedure from its first word on. -/
def procedureDeclaration (body : Parser Unit) (global : Bool) : Parser Unit :=
  named (fun name => { kind := .procedure, line := name.line, global := global }) (procedureTail body)

/-! ## Declarations and bodies -/

/-- Whether a declaration starts at a token that is followed by another one.  Two names in a row
are taken for a declaration with an unknown type. -/
def startsDeclaration (t next : Token) : Bool :=
  match t.kind with
  | .kwGlobal | .kwProcedure | .typeMark _ => true
  | .identifier => next.kind = .identifier
  | _ => false

/-- Recognises a declaration behind the word that may make it global. -/
def declarationTail (body : Parser Unit) (global : Bool) : Parser Unit := do
  let t ← current
  match t.kind with
  | .kwProcedure => inScopeOf global (procedureDeclaration body global)
  | .typeMark type => inScopeOf global (variableDeclaration global type)
  | _ => rejectToken t

/-- Recognises a declaration, given how to recognise the body of a procedure. -/
def declaration (body : Parser Unit) : Parser Unit := do
  if ← currentIs .kwGlobal then
    advance
    declarationTail body true
  else declarationTail body false

/-- Recognises the rest of a body behind its declarations: the statements, and the word that the
body ends with. -/
def bodyTail (terminator : TokenKind) : Parser Unit := do
  mustCurrent .kwBegin
  advance
  let _ ← statements
  mustCurrent .kwEnd
  mustPeek terminator

/-- Runs a production up to a semicolon and steps over that, or recovers from the production. -/
def orRecover (p : Parser Unit) : Parser Unit := do
  let mark ← reported
  if ← succeeds p then advance
  else recover mark 0

/-- Recognises declarations as long as they start; each is followed by a semicolon, or recovered
from.  Declarations nest and follow each other at most `depth` times. -/
def declarationsWithin : Nat → Parser Unit
  | 0 => exhausted
  | depth + 1 => do
    if startsDeclaration (← current) (← peek) then
      orRecover (do
        declaration (do declarationsWithin depth; bodyTail .kwProcedure)
        expectPeek .semicolon)
      declarationsWithin depth

/-- Recognises the body of the program or of a procedure.  Every declaration passes a token, so
the number of tokens up to the end bounds them. -/
def body (terminator : TokenKind) : Parser Unit := do
  declarationsWithin ((← remaining) + 1)
  bodyTail terminator

end OnePass.Program
