import OnePass.Diagnostic
import OnePass.Ir.Builder
import OnePass.Symbol.Table
import OnePass.Token.Cursor
set_option autoImplicit false

/-!
# Recognising programs: state and steps

Programs are recognised in one pass: each production works on the symbol table and on the emitted
code as it goes.  A production ends in one of three ways.  It succeeds; or it is rejected, after
it has reported a diagnostic, and reading goes on behind a later semicolon; or the structure of
the whole program is broken, and reading ends.  Whatever a production did before it ended stays
done.
-/

namespace OnePass.Program

/-- How the structure of a program can be broken. -/
inductive StructureError where
  /-- the source ends inside the program -/
  | unexpectedEnd
  /-- a token stands where the program's structure has no place for it -/
  | malformed (line : Nat) (lexeme : Bytes)
  deriving DecidableEq, Repr, Inhabited

/-- The description of a broken structure. -/
def StructureError.failure : StructureError → Failure
  | .unexpectedEnd => .unexpectedEnd
  | .malformed line lexeme => .malformedProgram line lexeme

/-- How a production ends without success. -/
inductive Stop where
  /-- it is rejected, and the reason has been reported -/
  | reject
  /-- the whole program is given up -/
  | fatal (error : StructureError)
  deriving DecidableEq, Repr, Inhabited

/-- Everything that recognising a program works on. -/
structure State where
  /-- the name of the source file -/
  file : Bytes
  cursor : Cursor
  table : Table
  builder : Ir.Builder
  /-- the diagnostics found so far, in order -/
  diagnostics : List Diagnostic
  /-- a line for each production that was recognised, in order -/
  trace : List Bytes
  /-- the number of `if` and `for` statements that are open -/
  nesting : Nat
  deriving Inhabited

/-- A production: it changes the state, and may end without success. -/
abbrev Parser (α : Type) : Type := EStateM Stop State α

/-! ## Reading tokens -/

/-- The token under the cursor. -/
def current : Parser Token := return (← get).cursor.current

/-- The token behind the current one. -/
def peek : Parser Token := return (← get).cursor.peek

/-- Whether the current token is of a kind. -/
def currentIs (kind : TokenKind) : Parser Bool := return (← current).kind = kind

/-- Whether the next token is of a kind. -/
def peekIs (kind : TokenKind) : Parser Bool := return (← peek).kind = kind

/-- Steps over the current token. -/
def advance : Parser Unit := modify fun s => { s with cursor := s.cursor.next }

/-- The number of tokens up to the end. -/
def remaining : Parser Nat := return (← get).cursor.remaining

/-! ## Reporting -/

/-- Adds a diagnostic. -/
def report (d : Diagnostic) : Parser Unit :=
  modify fun s => { s with diagnostics := s.diagnostics ++ [d] }

/-- The number of diagnostics so far. -/
def reported : Parser Nat := return (← get).diagnostics.length

/-- The position of a token in the source file. -/
def positionOf (t : Token) : Parser Position := return t.position (← get).file

/-- The diagnostic for a token that is out of place. -/
def misplaced (file : Bytes) (t : Token) : Diagnostic :=
  match t.kind with
  | .error => .scan (t.position file) t.literal
  | .eof => .scanEnd
  | _ => .parse (t.position file) t.literal

/-- Reports a token that is out of place. -/
def unexpected (t : Token) : Parser Unit := do report (misplaced (← get).file t)

/-- Ends the production without success. -/
def reject {α : Type} : Parser α := throw .reject

/-- Reports a token that is out of place and ends the production. -/
def rejectToken {α : Type} (t : Token) : Parser α := do
  unexpected t
  reject

/-- Reports a value that does not fit its place and ends the production. -/
def rejectArgument {α : Type} (t : Token) : Parser α := do
  report (.argument (← positionOf t) t.literal)
  reject

/-- Reports a token that breaks the program's structure, and gives the program up. -/
def fail {α : Type} (t : Token) : Parser α := do
  unexpected t
  if t.kind = .eof then throw (.fatal .unexpectedEnd)
  else throw (.fatal (.malformed t.line t.literal))

/-- Ends a recursion that has run longer than the source; no production reaches this. -/
def exhausted {α : Type} : Parser α := throw (.fatal .unexpectedEnd)

/-- Adds a line to the trace, under the line of the current token. -/
def note (words : Bytes) : Parser Unit :=
  modify fun s =>
    { s with trace := s.trace ++
        [s.file ++ text ":" ++ Bytes.ofNat s.cursor.current.line ++ text ": " ++ words] }

/-! ## Expecting tokens -/

/-- Steps onto the next token if it is of a kind; otherwise reports it and ends the production. -/
def expectPeek (kind : TokenKind) : Parser Unit := do
  if ← peekIs kind then advance else rejectToken (← peek)

/-- Gives the program up unless the current token is of a kind. -/
def mustCurrent (kind : TokenKind) : Parser Unit := do
  unless ← currentIs kind do fail (← current)

/-- Steps onto the next token if it is of a kind; otherwise gives the program up. -/
def mustPeek (kind : TokenKind) : Parser Unit := do
  unless ← peekIs kind do fail (← peek)
  advance

/-- Whether a production succeeds, with what it did kept either way.  A broken structure is passed
on. -/
def succeeds (p : Parser Unit) : Parser Bool :=
  tryCatch (do p; return true) fun stop => match stop with
    | .reject => return false
    | .fatal e => throw (.fatal e)

/-- Runs a production, and changes the table afterwards however it ends. -/
def andThenTable {α : Type} (p : Parser α) (f : Table → Table) : Parser α := do
  let leave : Parser Unit := modify fun s => { s with table := f s.table }
  let a ← tryCatch p fun stop => do
    leave
    throw stop
  leave
  return a

/-! ## Recovering -/

/-- Whether a token opens a statement that ends with its own word. -/
def opensBlock (t : Token) : Bool := t.kind = .kwIf || t.kind = .kwFor

/-- The number of tokens up to and including the semicolon at which reading goes on: the first one
that stands in no `if` or `for` statement, where `depth` of them are open at the beginning.
There is none if the tokens run out. -/
def skipLength : Int → List Token → Option Nat
  | _, [] => none
  | depth, [t] => if depth ≤ 0 ∧ t.kind = .semicolon then some 1 else none
  | depth, t :: u :: rest =>
    if depth ≤ 0 ∧ t.kind = .semicolon then some 1
    else if t.kind = .kwEnd ∧ opensBlock u then (skipLength (depth - 1) rest).map (· + 2)
    else if opensBlock t then (skipLength (depth + 1) (u :: rest)).map (· + 1)
    else (skipLength depth (u :: rest)).map (· + 1)

/-- Steps behind the semicolon at which reading goes on.  If nothing was reported since there were
`mark` diagnostics, the current token is reported first.  Without such a semicolon the program is
given up at its end. -/
def recover (mark : Nat) (depth : Int) : Parser Unit := do
  if (← reported) = mark then unexpected (← current)
  let c := (← get).cursor
  match skipLength depth c.ahead with
  | some n => modify fun s => { s with cursor := s.cursor.skip n }
  | none =>
    modify fun s => { s with cursor := s.cursor.skip s.cursor.remaining }
    fail (← current)

end OnePass.Program
