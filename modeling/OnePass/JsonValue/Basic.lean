import OnePass.Text.Bytes
set_option autoImplicit false

/-!
# JSON values

A number keeps its spelling, and an object keeps its members in their order, repeated ones
included.
-/

namespace OnePass

/-- A JSON value. -/
inductive JsonValue where
  | null
  | bool (b : Bool)
  /-- a number as it is written -/
  | number (digits : Bytes)
  | string (s : Bytes)
  | array (items : List JsonValue)
  | object (members : List (Bytes × JsonValue))
  deriving Repr, Inhabited

end OnePass
