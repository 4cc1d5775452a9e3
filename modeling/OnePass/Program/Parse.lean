import OnePass.Program.Declaration
set_option autoImplicit false

/-!
# Programs

`Program.parse` recognises a whole source over a symbol table and the code emitted so far.  A
program that is recognised is emitted, whatever diagnostics were reported; only a broken structure
leaves it without a result.
-/

namespace OnePass

/-- A recognised program: its name as written, and the lines of its code. -/
structure Program where
  name : Bytes
  lines : List Bytes
  deriving DecidableEq, Repr, Inhabited

namespace Program

/-- Why a source has no program. -/
inductive Error where
  /-- its structure is broken -/
  | broken (error : StructureError)
  /-- its code cannot be finished -/
  | unfinished (error : Ir.Error)
  deriving DecidableEq, Repr, Inhabited

/-- The description of an error. -/
def Error.failure : Error → Failure
  | .broken e => e.failure
  | .unfinished e => e.failure

/-- Recognises what stands in front of the body of a program, and gives the program's name. -/
def programOpening : Parser Bytes := do
  mustCurrent .kwProgram
  mustPeek .identifier
  let name ← current
  modifyTable fun t =>
    (t.enter name.literal).stage { kind := .program, line := name.line, global := true }
  mustPeek .kwIs
  let _ ← commit name
  modify fun s => { s with builder := s.builder.openProgram }
  note (text "program header " ++ name.literal)
  advance
  return name.literal

/-- Recognises what stands behind the body of a program. -/
def programClosing (name : Bytes) : Parser Bytes := do
  mustPeek .period
  modifyTable Table.exit
  note (text "program " ++ name)
  return name

/-- Recognises a program and gives its name. -/
def program : Parser Bytes := do
  let name ← programOpening
  body .kwProgram
  programClosing name

/-- What recognising a source gives: the program or the reason why there is none, and everything
that was worked on. -/
structure Outcome where
  result : Except Error Program
  state : State
  deriving Inhabited

/-- The state before a source is read. -/
def State.start (file source : Bytes) (table : Table) (builder : Ir.Builder) : State where
  file := file
  cursor := .ofStream (.ofSource source)
  table := table
  builder := builder
  diagnostics := []
  trace := []
  nesting := 0

/-- Finishes the code of a program that was recognised. -/
def finish (name : Bytes) (s : State) : Except Error Program :=
  match s.builder.finishedText with
  | .ok lines => .ok ⟨name, lines⟩
  | .error e => .error (.unfinished e)

/-- The outcome of running the production of programs. -/
def outcome : EStateM.Result Stop State Bytes → Outcome
  | .ok name s => ⟨finish name s, s⟩
  | .error (.fatal e) s => ⟨.error (.broken e), s⟩
  | .error .reject s => ⟨.error (.broken .unexpectedEnd), s⟩

/-- Recognises a source over a symbol table and the code emitted so far. -/
def parse (file source : Bytes) (table : Table) (builder : Ir.Builder) : Outcome :=
  outcome (program.run (.start file source table builder))

end Program

end OnePass
