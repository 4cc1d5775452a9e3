import OnePass.Text.Quoted
set_option autoImplicit false

/-!
# Failures

What the library reports when an operation cannot be carried out: a category, a code and a
message, the values that the message speaks of, and the text of the cause behind it if there is
one.  The modules that can fail have their own types of errors and describe them as failures.
-/

namespace OnePass

/-- A family of failures, by its name. -/
structure FailureCategory where
  name : Bytes
  deriving DecidableEq, Repr, Inhabited

namespace FailureCategory

/-- Failures of binding names. -/
def symbol : FailureCategory := ⟨text "SYMBOL"⟩
/-- Failures of types and sizes. -/
def type : FailureCategory := ⟨text "TYPE"⟩
/-- Failures of reading and writing files. -/
def files : FailureCategory := ⟨text "IO"⟩
/-- Failures of a program's outer structure. -/
def structural : FailureCategory := ⟨text "STRUCTURE"⟩

/-- The families that the library itself uses. -/
def all : List FailureCategory := [symbol, type, files, structural]

end FailureCategory

/-- A value that a failure speaks of. -/
inductive Detail where
  | number (n : Int)
  | words (s : Bytes)
  deriving DecidableEq, Repr, Inhabited

/-- A described failure. -/
structure Failure where
  category : FailureCategory
  code : Bytes
  message : Bytes
  details : List (Bytes × Detail) := []
  cause : Option Bytes := none
  deriving DecidableEq, Repr, Inhabited

namespace Failure

/-- The failure on one line: `[CATEGORY:CODE] message: cause`. -/
def render (f : Failure) : Bytes :=
  let head := text "[" ++ f.category.name ++ text ":" ++ f.code ++ text "] " ++ f.message
  match f.cause with
  | some cause => head ++ text ": " ++ cause
  | none => head

/-! ## The failures of the library -/

/-- The program breaks off in its outer structure at a token. -/
def malformedProgram (line : Int) (lexeme : Bytes) : Failure where
  category := .structural
  code := text "MALFORMED_PROGRAM"
  message := text "malformed program structure at line " ++ Bytes.ofInt line ++ text " near "
    ++ quoted lexeme
  details := [(text "line", .number line), (text "lexeme", .words lexeme)]

/-- The source ends inside the program. -/
def unexpectedEnd : Failure where
  category := .structural
  code := text "UNEXPECTED_EOF"
  message := text "input ended before the program was complete"

/-- A key is bound already. -/
def duplicateSymbol (key : Bytes) : Failure where
  category := .symbol
  code := text "DUPLICATE_SYMBOL"
  message := text "symbol " ++ quoted key ++ text " is already defined"
  details := [(text "key", .words key)]

/-- There is no symbol to bind. -/
def nothingStaged : Failure where
  category := .symbol
  code := text "NOTHING_STAGED"
  message := text "no symbol under construction"

/-- Bounds that give an array no size. -/
def invalidBounds (lower upper : Bytes) : Failure where
  category := .type
  code := text "INVALID_BOUNDS"
  message := text "invalid array bounds [" ++ lower ++ text ":" ++ upper ++ text "]"
  details := [(text "lower", .words lower), (text "upper", .words upper)]

/-- Something that has no type in the emitted code. -/
def noIrType (what : Bytes) : Failure where
  category := .type
  code := text "NO_IR_TYPE"
  message := text "no IR type for " ++ what

/-- A unit is closed that was not opened. -/
def unbalancedUnits : Failure where
  category := .structural
  code := text "UNBALANCED_UNITS"
  message := text "no enclosing unit to resume"

/-- Units are open where all should be closed. -/
def openUnits (count : Nat) : Failure where
  category := .structural
  code := text "OPEN_UNITS"
  message := Bytes.ofNat count ++ text " procedure(s) still open"

/-- A file cannot be read. -/
def readFailed (path : Bytes) (cause : Option Bytes) : Failure where
  category := .files
  code := text "READ_FAILED"
  message := text "failed to read " ++ path
  details := [(text "path", .words path)]
  cause := cause

/-- A file cannot be written. -/
def writeFailed (path : Bytes) (cause : Option Bytes) : Failure where
  category := .files
  code := text "WRITE_FAILED"
  message := text "failed to write " ++ path
  details := [(text "path", .words path)]
  cause := cause

end Failure

end OnePass
