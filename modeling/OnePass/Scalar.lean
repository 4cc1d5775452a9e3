import OnePass.Text.Bytes
set_option autoImplicit false

/-!
# The language's types, parameter directions and built-in procedures

The words of the language that both tokens and symbols speak of.
-/

namespace OnePass

/-- The data types of variables and parameters. -/
inductive Scalar where
  | integer
  | float
  | bool
  | char
  | string
  deriving DecidableEq, Repr, Inhabited

namespace Scalar

/-- The name of a type in capitals. -/
def name : Scalar → Bytes
  | .integer => text "INTEGER"
  | .float => text "FLOAT"
  | .bool => text "BOOL"
  | .char => text "CHAR"
  | .string => text "STRING"

/-- The types whose literals may stand for each other. -/
def isCounting : Scalar → Bool
  | .integer | .bool => true
  | _ => false

end Scalar

/-- The direction in which a parameter passes its value. -/
inductive Direction where
  /-- into the procedure -/
  | input
  /-- out of the procedure -/
  | output
  /-- both ways -/
  | both
  deriving DecidableEq, Repr, Inhabited

namespace Direction

/-- The name of a direction in capitals. -/
def name : Direction → Bytes
  | .input => text "IN"
  | .output => text "OUT"
  | .both => text "INOUT"

/-- Whether the procedure writes to its argument, so that the argument has to be a variable. -/
def byReference : Direction → Bool
  | .input => false
  | .output | .both => true

end Direction

/-- What a built-in procedure does with its one argument. -/
inductive Transfer where
  /-- reads a value into it -/
  | get
  /-- writes its value out -/
  | put
  deriving DecidableEq, Repr, Inhabited

/-- A built-in procedure: it reads or writes one value of one type. -/
structure Builtin where
  transfer : Transfer
  scalar : Scalar
  deriving DecidableEq, Repr, Inhabited

namespace Builtin

/-- The name of a built-in procedure in capitals. -/
def name (b : Builtin) : Bytes :=
  match b.transfer with
  | .get => text "GET" ++ b.scalar.name
  | .put => text "PUT" ++ b.scalar.name

/-- The name of a built-in procedure as programs bind it. -/
def word (b : Builtin) : Bytes := b.name.lowerAscii

/-- The direction of the argument. -/
def direction (b : Builtin) : Direction :=
  match b.transfer with
  | .get => .output
  | .put => .input

/-- The types in the order in which the built-in procedures are numbered. -/
def scalars : List Scalar := [.bool, .integer, .float, .string, .char]

/-- The built-in procedures in their fixed order. -/
def all : List Builtin := scalars.map (⟨.get, ·⟩) ++ scalars.map (⟨.put, ·⟩)

theorem mem_all (b : Builtin) : b ∈ all := by
  rcases b with ⟨t, s⟩
  cases t <;> cases s <;> decide

end Builtin

end OnePass
