import OnePass.JsonValue.Basic
import OnePass.JsonValue.Literal
set_option autoImplicit false

/-!
# Reading JSON

A text is one value with blanks around it.  Arrays and objects nest up to a fixed depth.
-/

namespace OnePass.JsonValue

/-- How deep arrays and objects may nest. -/
def nestingLimit : Nat := 10000

/-- The text behind its leading blanks. -/
def skipBlanks (s : Bytes) : Bytes := s.dropWhile Ascii.isBlank

/-! ## Numbers -/

/-- Cuts off the digits that a text starts with, of which there has to be one. -/
def digits? (s : Bytes) : Option (Bytes × Bytes) :=
  match s.takeWhile Ascii.isDigit with
  | [] => none
  | ds => some (ds, s.dropWhile Ascii.isDigit)

/-- Cuts off a whole number without leading zeros. -/
def whole? (s : Bytes) : Option (Bytes × Bytes) :=
  match s with
  | b :: rest => if b = Ascii.zero then some ([b], rest) else digits? s
  | [] => none

/-- Cuts off a fraction if there is one. -/
def fraction? (s : Bytes) : Option (Bytes × Bytes) :=
  match s with
  | b :: rest =>
    if b = Ascii.period then (digits? rest).map fun (ds, after) => (b :: ds, after)
    else some ([], s)
  | [] => some ([], [])

/-- Cuts off a sign if there is one of those given. -/
def sign (allowed : List UInt8) (s : Bytes) : Bytes × Bytes :=
  match s with
  | b :: rest => if b ∈ allowed then ([b], rest) else ([], s)
  | [] => ([], [])

/-- Cuts off an exponent if there is one. -/
def exponent? (s : Bytes) : Option (Bytes × Bytes) :=
  match s with
  | b :: rest =>
    if Ascii.toLower b = 0x65 then
      let (mark, more) := sign [Ascii.plus, Ascii.minus] rest
      (digits? more).map fun (ds, after) => (b :: mark ++ ds, after)
    else some ([], s)
  | [] => some ([], [])

/-- Reads a number. -/
def number? (s : Bytes) : Option (JsonValue × Bytes) := do
  let (minus, s) := sign [Ascii.minus] s
  let (whole, s) ← whole? s
  let (fraction, s) ← fraction? s
  let (exponent, s) ← exponent? s
  return (.number (minus ++ whole ++ fraction ++ exponent), s)

/-! ## Values -/

/-- The words that are values. -/
def words : List (Bytes × JsonValue) :=
  [(text "null", .null), (text "true", .bool true), (text "false", .bool false)]

/-- Reads one of the words that are values. -/
def word? (s : Bytes) : Option (JsonValue × Bytes) :=
  words.findSome? fun (w, v) => (Bytes.dropHead? w s).map (v, ·)

/-- Reads a string. -/
def string? (s : Bytes) : Option (Bytes × Bytes) :=
  match s with
  | b :: rest => if b = Ascii.doubleQuote then literalTail? rest else none
  | [] => none

/-- Reads a value that has no values inside. -/
def scalar? (s : Bytes) : Option (JsonValue × Bytes) :=
  word? s <|> (string? s).map (fun (t, rest) => (.string t, rest)) <|> number? s

/-- Reads items with commas between them up to a closing mark, at most `count` of them. -/
def itemsWithin {α : Type} (item : Bytes → Option (α × Bytes)) (close : UInt8) :
    Nat → Bytes → Option (List α × Bytes)
  | 0, _ => none
  | count + 1, s => do
    let (a, rest) ← item s
    match rest with
    | [] => none
    | b :: rest =>
      if b = close then some ([a], rest)
      else if b = Ascii.comma then
        (itemsWithin item close count rest).map fun (as, after) => (a :: as, after)
      else none

/-- Reads what stands behind an opening mark: nothing, or items with commas between them, up to
the closing mark.  Every item is followed by a mark, so the text's length bounds their number. -/
def items? {α : Type} (item : Bytes → Option (α × Bytes)) (close : UInt8) (s : Bytes) :
    Option (List α × Bytes) :=
  let s := skipBlanks s
  match s with
  | b :: rest => if b = close then some ([], rest) else itemsWithin item close s.length s
  | [] => none

/-- Reads something with blanks around it. -/
def padded {α : Type} (read : Bytes → Option (α × Bytes)) (s : Bytes) : Option (α × Bytes) :=
  (read (skipBlanks s)).map fun (a, rest) => (a, skipBlanks rest)

/-- Reads a member of an object: a string, a colon and a value. -/
def member? (value : Bytes → Option (JsonValue × Bytes)) (s : Bytes) :
    Option ((Bytes × JsonValue) × Bytes) := do
  let (key, rest) ← padded string? s
  match rest with
  | b :: rest =>
    if b = Ascii.colon then (padded value rest).map fun (v, after) => ((key, v), after) else none
  | [] => none

/-- Reads a value in which arrays and objects nest at most `depth` deep. -/
def value? : Nat → Bytes → Option (JsonValue × Bytes)
  | 0, s => scalar? s
  | depth + 1, s =>
    match s with
    | [] => none
    | b :: rest =>
      if b = Ascii.leftBracket then
        (items? (padded (value? depth)) Ascii.rightBracket rest).map fun (vs, after) =>
          (.array vs, after)
      else if b = Ascii.leftBrace then
        (items? (member? (value? depth)) Ascii.rightBrace rest).map fun (ms, after) =>
          (.object ms, after)
      else scalar? s

/-- Reads a text.  Bytes that are not valid UTF-8 are read as replacement characters. -/
def ofText? (s : Bytes) : Option JsonValue :=
  match padded (value? nestingLimit) (Utf8.scrub s) with
  | some (v, []) => some v
  | _ => none

end OnePass.JsonValue
