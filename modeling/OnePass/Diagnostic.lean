import OnePass.Source
set_option autoImplicit false

/-!
# Diagnostics

What is wrong with a source: where, what, and how bad.  Reading goes on after every diagnostic;
they are collected in the order in which they are found.
-/

namespace OnePass

namespace Diagnostic

/-- How bad a diagnostic is. -/
inductive Level where
  | error
  | warning
  /-- a number that is no level -/
  | other (code : Int)
  deriving DecidableEq, Repr, Inhabited

/-- The level with a number. -/
def Level.ofCode (code : Int) : Level :=
  if code = 0 then .error else if code = 1 then .warning else .other code

/-- The name of a level. -/
def Level.name : Level → Bytes
  | .error => text "error"
  | .warning => text "warning"
  | .other _ => text "unknown"

/-- What a diagnostic is about. -/
inductive Category where
  /-- text that is no token -/
  | scan
  /-- a token out of place -/
  | grammar
  /-- a name bound twice -/
  | symbol
  /-- a value of a wrong type -/
  | type
  /-- a number that is no category -/
  | other (code : Int)
  deriving DecidableEq, Repr, Inhabited

/-- The category with a number. -/
def Category.ofCode (code : Int) : Category :=
  if code = 0 then .scan
  else if code = 1 then .grammar
  else if code = 2 then .symbol
  else if code = 3 then .type
  else .other code

/-- The name of a category. -/
def Category.name : Category → Bytes
  | .scan => text "scan"
  | .grammar => text "syntax"
  | .symbol => text "symbol"
  | .type => text "type"
  | .other _ => text "unknown"

end Diagnostic

/-- A diagnostic. -/
structure Diagnostic where
  code : Bytes
  message : Bytes
  lexeme : Bytes
  position : Position
  level : Diagnostic.Level
  category : Diagnostic.Category
  deriving DecidableEq, Repr, Inhabited

namespace Diagnostic

/-! ## The diagnostics of the language -/

/-- The code of text that is no token. -/
def scanCode : Bytes := text "E1001"
/-- The code of a source that ends too early. -/
def scanEndCode : Bytes := text "E1002"
/-- The code of a token out of place. -/
def parseCode : Bytes := text "E2001"
/-- The code of a name bound twice. -/
def duplicateCode : Bytes := text "E3001"
/-- The code of a value of a wrong type. -/
def argumentCode : Bytes := text "E4001"

/-- Text that is no token. -/
def scan (position : Position) (lexeme : Bytes) : Diagnostic where
  code := scanCode
  message := text "Failed to scan value. Line location: " ++ Bytes.ofInt position.line
  lexeme := lexeme
  position := position
  level := .error
  category := .scan

/-- The source ends too early. -/
def scanEnd : Diagnostic where
  code := scanEndCode
  message := text "Failed to scan value. Unable to determine line location."
  lexeme := []
  position := .unknown
  level := .error
  category := .scan

/-- A token is out of place. -/
def parse (position : Position) (lexeme : Bytes) : Diagnostic where
  code := parseCode
  message := text "Failed to parse token value '" ++ lexeme ++ text "'. Line location: "
    ++ Bytes.ofInt position.line ++ text "."
  lexeme := lexeme
  position := position
  level := .error
  category := .grammar

/-- A key is bound already. -/
def duplicate (position : Position) (key : Bytes) : Diagnostic where
  code := duplicateCode
  message := text "Failed to add symbol for given key '" ++ key ++ text "'."
  lexeme := key
  position := position
  level := .error
  category := .symbol

/-- A value does not fit its place. -/
def argument (position : Position) (lexeme : Bytes) : Diagnostic where
  code := argumentCode
  message := text "Failed to run procedure due to invalid input argument: '" ++ lexeme
    ++ text "'."
  lexeme := lexeme
  position := position
  level := .error
  category := .type

/-! ## Showing diagnostics -/

/-- The diagnostic on one line, with its position if that is known. -/
def render (d : Diagnostic) : Bytes :=
  let body := d.level.name ++ text "[" ++ d.code ++ text "]: " ++ d.message
  if d.position.isValid then d.position.render ++ text ": " ++ body else body

/-- How diagnostics are shown to a reader. -/
structure Style where
  color : Bool
  /-- the source to show excerpts of, if any -/
  source : Option Source
  deriving DecidableEq, Repr, Inhabited

/-- The lines that a reader sees: the message, in red if there is color, and the excerpt if there
is a source and the position is known. -/
def display (style : Style) (d : Diagnostic) : Bytes :=
  let message := if style.color then text "\x1b[31m" ++ d.message ++ text "\x1b[0m" else d.message
  let excerpt := match style.source with
    | some source => if d.position.isValid then source.excerpt d.position else []
    | none => []
  Bytes.line message ++ excerpt

/-- All the lines for a list of diagnostics. -/
def displayAll (style : Style) (ds : List Diagnostic) : Bytes := ds.flatMap (display style)

/-- How many diagnostics are about something. -/
def count (category : Category) (ds : List Diagnostic) : Nat :=
  ds.countP (·.category = category)

/-- Whether one of the diagnostics is an error. -/
def hasErrors (ds : List Diagnostic) : Bool := ds.any (·.level = .error)

end Diagnostic

end OnePass
