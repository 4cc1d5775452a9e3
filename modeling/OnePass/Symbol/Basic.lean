import OnePass.Scalar
import OnePass.Text.Numeral
set_option autoImplicit false

/-!
# Symbols

What a program's names stand for: variables of the scalar types and arrays of them, procedures
with their parameters, the program itself and the built-in procedures.
-/

namespace OnePass

/-- What a name stands for. -/
inductive Kind where
  /-- nothing yet -/
  | invalid
  /-- a variable or a parameter of a type -/
  | scalar (s : Scalar)
  | procedure
  | program
  | builtin (b : Builtin)
  /-- a number that is no kind -/
  | unknown
  deriving DecidableEq, Repr, Inhabited

namespace Kind

/-- The kinds in the order of their numbers, from zero on. -/
def all : List Kind :=
  ([.invalid, .scalar .integer, .scalar .float, .scalar .bool, .scalar .char, .scalar .string,
    .procedure, .program] : List Kind) ++ Builtin.all.map .builtin

/-- The kind with a number. -/
def ofCode (code : Int) : Kind :=
  if code < 0 then .unknown else all.getD code.toNat .unknown

/-- The name of a kind. -/
def name : Kind → Bytes
  | .invalid => text "INVALID"
  | .scalar s => s.name
  | .procedure => text "PROCEDURE"
  | .program => text "PROGRAM"
  | .builtin b => b.name
  | .unknown => text "UNKNOWN"

/-- Whether a name of this kind can be assigned to. -/
def isScalar : Kind → Bool
  | .scalar _ => true
  | _ => false

/-- Whether a name of this kind is a built-in procedure. -/
def isBuiltin : Kind → Bool
  | .builtin _ => true
  | _ => false

/-- Whether a name of this kind can be called. -/
def isCallable : Kind → Bool
  | .procedure | .builtin _ => true
  | _ => false

end Kind

/-- The direction with a number, from one on; other numbers are no direction. -/
def Direction.ofCode? (code : Int) : Option Direction :=
  if code = 1 then some .input
  else if code = 2 then some .output
  else if code = 3 then some .both
  else none

/-- The name of a direction that may be missing. -/
def Direction.nameOf (d : Option Direction) : Bytes := d.elim [] Direction.name

/-- The bounds of an array, as they are written. -/
structure Bounds where
  lower : Bytes
  upper : Bytes
  deriving DecidableEq, Repr, Inhabited

namespace Bounds

/-- The bounds as they follow an array's name. -/
def render (b : Bounds) : Bytes := text "[" ++ b.lower ++ text ":" ++ b.upper ++ text "]"

/-- A bound that is no number, with the fault found in it. -/
structure Fault where
  bound : Bytes
  error : NumeralError
  deriving DecidableEq, Repr, Inhabited

/-- The wording of a fault. -/
def Fault.render (f : Fault) : Bytes := Numeral.faultText (text "strconv.Atoi") f.bound f.error

/-- The value of one bound. -/
def value (bound : Bytes) : Except Fault Int :=
  (Numeral.readInt bound).mapError (⟨bound, ·⟩)

/-- The number of elements: upper less lower bound in 64 bits, where a difference that does not
fit wraps around.  A fault in the lower bound is found first. -/
def length (b : Bounds) : Except Fault Int := do
  let lower ← value b.lower
  let upper ← value b.upper
  return (upper - lower).bmod 0x10000000000000000

end Bounds

/-- A parameter of a procedure. -/
structure Parameter where
  name : Bytes
  kind : Kind
  direction : Option Direction
  bounds : Option Bounds
  deriving DecidableEq, Repr, Inhabited

/-- What is known of a name. -/
structure Symbol where
  kind : Kind
  /-- the direction, if the name is a parameter -/
  direction : Option Direction := none
  line : Int := 0
  global : Bool := false
  /-- the bounds, if the name is an array -/
  bounds : Option Bounds := none
  parameters : List Parameter := []
  deriving DecidableEq, Repr, Inhabited

namespace Symbol

/-- The symbol of a built-in procedure: it has one parameter, `val`. -/
def ofBuiltin (b : Builtin) : Symbol where
  kind := .builtin b
  global := true
  parameters := [⟨text "val", .scalar b.scalar, some b.direction, none⟩]

/-- The symbol that a parameter is inside its procedure. -/
def ofParameter (p : Parameter) (line : Int) : Symbol where
  kind := p.kind
  direction := p.direction
  line := line
  bounds := p.bounds

/-- Whether the symbol is an array. -/
def isArray (s : Symbol) : Bool := s.bounds.isSome

/-- A parameter as a procedure's listing shows it. -/
def renderParameter (p : Parameter) : Bytes :=
  p.kind.name ++ text " " ++ p.name ++ p.bounds.elim [] Bounds.render ++ text " "
    ++ Direction.nameOf p.direction

/-- The line that lists a symbol under its key. -/
def listing (key : Bytes) (s : Symbol) : Bytes :=
  key ++ text " " ++ s.kind.name ++ s.bounds.elim [] Bounds.render
    ++ s.direction.elim [] (fun d => text " " ++ d.name)
    ++ (if s.kind = .procedure then
        text "(" ++ Bytes.join (text ", ") (s.parameters.map renderParameter) ++ text ")"
      else [])
    ++ (if s.global then text " global" else [])
    ++ (if 0 < s.line then text " line " ++ Bytes.ofInt s.line else [])

end Symbol

end OnePass
