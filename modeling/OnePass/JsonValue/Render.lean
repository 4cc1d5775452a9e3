import OnePass.JsonValue.Basic
import OnePass.JsonValue.Literal
set_option autoImplicit false

/-!
# Writing JSON

Every item and member stands on a line of its own, indented by two spaces for each array or
object that it is in.
-/

namespace OnePass.JsonValue

/-- The line break in front of something at a depth. -/
def lineBreak (depth : Nat) : Bytes := Ascii.newline :: List.replicate (2 * depth) Ascii.space

/-- Items at a depth between an opening and a closing mark. -/
def enclose (opening closing : UInt8) (depth : Nat) (items : List Bytes) : Bytes :=
  if items.isEmpty then [opening, closing]
  else
    opening :: lineBreak (depth + 1)
      ++ Bytes.join (Ascii.comma :: lineBreak (depth + 1)) items ++ lineBreak depth ++ [closing]

mutual

/-- The text of a value at a depth. -/
def renderAt (depth : Nat) : JsonValue → Bytes
  | .null => text "null"
  | .bool b => if b then text "true" else text "false"
  | .number digits => digits
  | .string s => literal s
  | .array items =>
    enclose Ascii.leftBracket Ascii.rightBracket depth (renderItems (depth + 1) items)
  | .object members =>
    enclose Ascii.leftBrace Ascii.rightBrace depth (renderMembers (depth + 1) members)

/-- The texts of items at a depth. -/
def renderItems (depth : Nat) : List JsonValue → List Bytes
  | [] => []
  | v :: vs => renderAt depth v :: renderItems depth vs

/-- The texts of members at a depth. -/
def renderMembers (depth : Nat) : List (Bytes × JsonValue) → List Bytes
  | [] => []
  | (key, v) :: ms => (literal key ++ text ": " ++ renderAt depth v) :: renderMembers depth ms

end

/-- The text of a value. -/
def render (v : JsonValue) : Bytes := renderAt 0 v

end OnePass.JsonValue
