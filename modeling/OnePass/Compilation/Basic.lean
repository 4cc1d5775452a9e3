import OnePass.Files.Fault
import OnePass.Program.Parse
set_option autoImplicit false

/-!
# Compilations

What comes of compiling one file.  A compilation is valid if its source is a program, even one
with diagnostics.  It fails if its source could not be read or its code could not be written; a
source that is no program is no failure.
-/

namespace OnePass

/-- What went wrong in compiling a file. -/
inductive CompileError where
  /-- the run was interrupted before the file's turn -/
  | interrupted
  /-- the source cannot be read -/
  | unreadable (path : Bytes) (fault : FileFault)
  /-- the source is no program -/
  | rejected (error : Program.Error)
  /-- the code cannot be written -/
  | unwritable (path : Bytes) (fault : FileFault)
  deriving DecidableEq, Repr, Inhabited

namespace CompileError

/-- The failure that an error is described as; an interruption has none. -/
def failure? : CompileError → Option Failure
  | .interrupted => none
  | .unreadable path fault => some (.readFailed path (some fault.message))
  | .rejected e => some e.failure
  | .unwritable path fault => some (.writeFailed path (some fault.message))

/-- The wording of an interruption. -/
def interruptedMessage : Bytes := text "context canceled"

/-- The wording of an error. -/
def message (e : CompileError) : Bytes := e.failure?.elim interruptedMessage Failure.render

/-- Whether the error lies outside of the source. -/
def isFailure (e : CompileError) : Bool := !(e.failure?.any (·.category = .structural))

end CompileError

/-- What comes of compiling one file. -/
structure Compilation where
  path : Bytes
  /-- the program and its code, if the source is one -/
  program : Option Program := none
  /-- the file that the code was written to; empty if it was not written -/
  output : Bytes := []
  diagnostics : List Diagnostic := []
  /-- all bindings, those of the built-in procedures included -/
  symbols : List (ScopeKey × Symbol) := []
  /-- the lines of the source, if it could be read -/
  source : Option Source := none
  error : Option CompileError := none
  /-- whether an earlier compilation was used again -/
  cached : Bool := false
  deriving DecidableEq, Repr, Inhabited

namespace Compilation

/-- Whether the source is a program. -/
def isValid (c : Compilation) : Bool := c.program.isSome

/-- Whether something outside of the source went wrong. -/
def failed (c : Compilation) : Bool := c.error.any CompileError.isFailure

/-- What comes of a source that was read, before any code is written; and the trace of
recognising it. -/
def ofSource (target : Target) (path source : Bytes) : Compilation × List Bytes :=
  let o := Program.parse path source .empty (.new target)
  let found : Compilation :=
    { path := path, diagnostics := o.state.diagnostics, symbols := o.state.table.entries,
      source := some (.ofContent source) }
  match o.result with
  | .ok program => ({ found with program := some program }, o.state.trace)
  | .error e => ({ found with error := some (.rejected e) }, o.state.trace)

/-- The bindings that the source itself declares. -/
def declared (c : Compilation) : List (ScopeKey × Symbol) :=
  c.symbols.filter fun entry => !entry.2.kind.isBuiltin

end Compilation

/-- How many compilations came out in which way. -/
structure Summary where
  files : Nat
  valid : Nat
  invalid : Nat
  failed : Nat
  deriving DecidableEq, Repr, Inhabited

namespace Summary

/-- Counts compilations; one that failed counts as failed even if it is valid. -/
def of (cs : List Compilation) : Summary where
  files := cs.length
  valid := cs.countP fun c => !c.failed && c.isValid
  invalid := cs.countP fun c => !c.failed && !c.isValid
  failed := cs.countP Compilation.failed

/-- The summary as a line of the log shows it. -/
def render (s : Summary) : Bytes :=
  Bytes.ofNat s.files ++ text " file(s): " ++ Bytes.ofNat s.valid ++ text " valid, "
    ++ Bytes.ofNat s.invalid ++ text " invalid, " ++ Bytes.ofNat s.failed ++ text " failed"

end Summary

end OnePass
