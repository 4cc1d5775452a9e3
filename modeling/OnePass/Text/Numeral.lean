import OnePass.Text.Quoted
set_option autoImplicit false

/-!
# Text: integers read from text

Numbers are read digit by digit, and the first fault found decides: a character that is no digit
makes the text malformed, a value that no longer fits makes it out of range, whichever comes
first.  Decimal texts are an optional sign and digits.  Texts with a base mark (`0x`, `0o`, `0b`,
or a leading zero for eight) may also separate digits by single underscores.
-/

namespace OnePass

/-- Why a text is not read as an integer. -/
inductive NumeralError where
  /-- some character has no place in a numeral, or there is no digit -/
  | malformed
  /-- the value does not fit the width -/
  | outOfRange
  deriving DecidableEq, Repr, Inhabited

namespace Numeral

/-- The wording of a fault in `input`, prefixed with the name of the reader that found it. -/
def faultText (reader input : Bytes) (e : NumeralError) : Bytes :=
  reader ++ text ": parsing " ++ quoted input ++ text ": " ++
    match e with
    | .malformed => text "invalid syntax"
    | .outOfRange => text "value out of range"

/-- The greatest value of 64 bits without a sign. -/
def unsignedLimit : Nat := 0xFFFFFFFFFFFFFFFF

/-- Reads the remaining digits behind the value `value`; no value passes `limit`. -/
def readDigits (base limit : Nat) : Nat → Bytes → Except NumeralError Nat
  | value, [] => .ok value
  | value, b :: rest =>
    match Ascii.letterDigit? b with
    | none => .error .malformed
    | some digit =>
      if digit ≥ base then .error .malformed
      else if value * base + digit > limit then .error .outOfRange
      else readDigits base limit (value * base + digit) rest

/-- A numeral without a sign, of at most 64 bits. -/
def readUnsigned (s : Bytes) : Except NumeralError Nat :=
  if s.isEmpty then .error .malformed else readDigits 10 unsignedLimit 0 s

/-- Cuts an optional sign off; the first part tells whether it was a minus. -/
def cutSign : Bytes → Bool × Bytes
  | [] => (false, [])
  | b :: rest =>
    if b = Ascii.minus then (true, rest)
    else if b = Ascii.plus then (false, rest)
    else (false, b :: rest)

/-- The signed value of a magnitude, if it fits 64 bits. -/
def signed (negative : Bool) (magnitude : Nat) : Except NumeralError Int :=
  if negative then
    if magnitude > 0x8000000000000000 then .error .outOfRange else .ok (-magnitude)
  else
    if magnitude ≥ 0x8000000000000000 then .error .outOfRange else .ok magnitude

/-- A decimal numeral with an optional sign, of at most 64 bits. -/
def readInt (s : Bytes) : Except NumeralError Int := do
  let (negative, digits) := cutSign s
  signed negative (← readUnsigned digits)

/-! ## Base marks -/

/-- The base that a numeral announces, and what follows the mark.  A mark letter needs a digit
behind it; a lone leading zero announces base eight. -/
def cutBase : Bytes → Nat × Bytes
  | [] => (10, [])
  | b :: rest =>
    if b ≠ Ascii.zero then (10, b :: rest)
    else match rest with
      | mark :: digit :: more =>
        if Ascii.toLower mark = 0x62 then (2, digit :: more)
        else if Ascii.toLower mark = 0x6f then (8, digit :: more)
        else if Ascii.toLower mark = 0x78 then (16, digit :: more)
        else (8, rest)
      | _ => (8, rest)

/-- Whether every underscore stands between two digits.  `afterDigit` tells whether a digit, or
a base mark, stands right before the text. -/
def separated (afterDigit : Bool) : Bytes → Bool
  | [] => true
  | b :: rest =>
    if b = Ascii.underscore then
      afterDigit && !rest.isEmpty && rest.head? != some Ascii.underscore && separated false rest
    else separated true rest

/-- A numeral with an optional sign, an optional base mark and optional underscores, of at most
64 bits. -/
def readMarkedInt (s : Bytes) : Except NumeralError Int := do
  let (negative, unsigned) := cutSign s
  if unsigned.isEmpty then throw .malformed
  let (base, digits) := cutBase unsigned
  let magnitude ← readDigits base unsignedLimit 0 (digits.filter (· != Ascii.underscore))
  if !separated (digits.length < unsigned.length) digits then throw .malformed
  signed negative magnitude

end Numeral

end OnePass
