set_option autoImplicit false

/-!
# Text: ASCII bytes

Names for the bytes that the formats of this library give a meaning to, and the classes of
bytes that they are built from.  Every class is a decidable predicate on one byte; bytes from
`0x80` on belong to none of them.
-/

namespace OnePass.Ascii

/-! ## Named bytes -/

/-- Horizontal tab. -/
abbrev tab : UInt8 := 0x09
/-- Line feed; the only byte that ends a line. -/
abbrev newline : UInt8 := 0x0a
/-- Carriage return. -/
abbrev carriageReturn : UInt8 := 0x0d
/-- The space. -/
abbrev space : UInt8 := 0x20
/-- The exclamation mark. -/
abbrev bang : UInt8 := 0x21
/-- The double quote. -/
abbrev doubleQuote : UInt8 := 0x22
/-- The ampersand. -/
abbrev ampersand : UInt8 := 0x26
/-- The single quote. -/
abbrev singleQuote : UInt8 := 0x27
/-- The left parenthesis. -/
abbrev leftParen : UInt8 := 0x28
/-- The right parenthesis. -/
abbrev rightParen : UInt8 := 0x29
/-- The asterisk. -/
abbrev star : UInt8 := 0x2a
/-- The plus sign. -/
abbrev plus : UInt8 := 0x2b
/-- The comma. -/
abbrev comma : UInt8 := 0x2c
/-- The minus sign. -/
abbrev minus : UInt8 := 0x2d
/-- The period. -/
abbrev period : UInt8 := 0x2e
/-- The slash. -/
abbrev slash : UInt8 := 0x2f
/-- The digit zero, from which the digits count. -/
abbrev zero : UInt8 := 0x30
/-- The colon. -/
abbrev colon : UInt8 := 0x3a
/-- The semicolon. -/
abbrev semicolon : UInt8 := 0x3b
/-- The less-than sign. -/
abbrev less : UInt8 := 0x3c
/-- The equals sign. -/
abbrev equals : UInt8 := 0x3d
/-- The greater-than sign. -/
abbrev greater : UInt8 := 0x3e
/-- The left bracket. -/
abbrev leftBracket : UInt8 := 0x5b
/-- The backslash. -/
abbrev backslash : UInt8 := 0x5c
/-- The right bracket. -/
abbrev rightBracket : UInt8 := 0x5d
/-- The underscore. -/
abbrev underscore : UInt8 := 0x5f
/-- The left brace. -/
abbrev leftBrace : UInt8 := 0x7b
/-- The vertical bar. -/
abbrev bar : UInt8 := 0x7c
/-- The right brace. -/
abbrev rightBrace : UInt8 := 0x7d

/-! ## Classes -/

/-- The decimal digits. -/
def isDigit (b : UInt8) : Bool := 0x30 ≤ b && b ≤ 0x39

/-- The capital letters. -/
def isUpper (b : UInt8) : Bool := 0x41 ≤ b && b ≤ 0x5a

/-- The small letters. -/
def isLower (b : UInt8) : Bool := 0x61 ≤ b && b ≤ 0x7a

/-- The letters of both cases. -/
def isLetter (b : UInt8) : Bool := isLower b || isUpper b

/-- The bytes that blank space is made of. -/
def isBlank (b : UInt8) : Bool := b = space || b = tab || b = carriageReturn || b = newline

/-- The small letter of a capital; every other byte as it is. -/
def toLower (b : UInt8) : UInt8 := if isUpper b then b + 0x20 else b

/-- The value of a decimal digit. -/
def digitValue (b : UInt8) : Nat := b.toNat - 0x30

/-- The hexadecimal digit of a value below sixteen, in small letters. -/
def hexDigit (n : Nat) : UInt8 := if n < 10 then (0x30 + n).toUInt8 else (0x57 + n).toUInt8

/-- The value of a digit in the notation that continues the decimal digits with the letters of
either case, so that `a` is ten and `z` is thirty-five. -/
def letterDigit? (b : UInt8) : Option Nat :=
  if isDigit b then some (digitValue b)
  else if isLetter b then some ((toLower b).toNat - 0x61 + 10)
  else none

/-! ## Laws -/

/-- What holds of the 256 bytes holds of every byte. -/
theorem forall_byte {p : UInt8 → Prop} (h : ∀ n : Fin 256, p (UInt8.ofFin n)) (b : UInt8) :
    p b := by
  simpa using h b.toFin

theorem isLetter_toLower (b : UInt8) : isLetter (toLower b) = isLetter b :=
  forall_byte (p := fun b => isLetter (toLower b) = isLetter b) (by decide +kernel) b

theorem toLower_toLower (b : UInt8) : toLower (toLower b) = toLower b :=
  forall_byte (p := fun b => toLower (toLower b) = toLower b) (by decide +kernel) b

end OnePass.Ascii
