import OnePass.Text.Ascii
set_option autoImplicit false

/-!
# Text: byte strings

All text of this library is a list of bytes: sources need not be valid UTF-8, and columns, file
names and keys are compared and counted byte by byte.  `text` writes a literal, the rest of the
module holds the few list operations that the formats share.
-/

namespace OnePass

/-- A byte string.  It is ordered byte by byte, a proper beginning before the longer text. -/
abbrev Bytes : Type := List UInt8

/-- The UTF-8 bytes of a literal. -/
def text (s : String) : Bytes := s.toUTF8.data.toList

namespace Bytes

/-! ## Decimal numerals -/

/-- The decimal digits of a number, without leading zeros. -/
def ofNat (n : Nat) : Bytes :=
  if n < 10 then [(0x30 + n).toUInt8] else ofNat (n / 10) ++ [(0x30 + n % 10).toUInt8]
termination_by n

/-- The decimal digits of a number, with a minus sign if it is negative. -/
def ofInt : Int → Bytes
  | .ofNat n => ofNat n
  | .negSucc n => Ascii.minus :: ofNat (n + 1)

/-- A byte as two hexadecimal digits. -/
def hexPair (b : UInt8) : Bytes := [Ascii.hexDigit (b.toNat / 16), Ascii.hexDigit (b.toNat % 16)]

/-- A number below `16 ^ width` as `width` hexadecimal digits. -/
def hexNumber : Nat → Nat → Bytes
  | 0, _ => []
  | width + 1, n => hexNumber width (n / 16) ++ [Ascii.hexDigit (n % 16)]

/-! ## Pieces -/

/-- The pieces joined with a separator between them. -/
def join (sep : Bytes) (pieces : List Bytes) : Bytes := sep.intercalate pieces

/-- The text with each capital letter made small, and every other byte as it is. -/
def lowerAscii (s : Bytes) : Bytes := s.map Ascii.toLower

/-- The text with every occurrence of one byte replaced by another. -/
def replaceByte (old new : UInt8) (s : Bytes) : Bytes := s.map fun b => if b = old then new else b

/-- What follows `head` in a text that starts with it. -/
def dropHead? (head s : Bytes) : Option Bytes :=
  if head.isPrefixOf s then some (s.drop head.length) else none

/-- The text before the first occurrence of a byte, and the text after it if there is one. -/
def cut (sep : UInt8) : Bytes → Bytes × Option Bytes
  | [] => ([], none)
  | b :: rest =>
    if b = sep then ([], some rest)
    else
      let (before, after) := cut sep rest
      (b :: before, after)

/-- One line of output. -/
def line (s : Bytes) : Bytes := s ++ [Ascii.newline]

/-- The lines of a text: each line ends with a newline. -/
def unlines (lines : List Bytes) : Bytes := lines.flatMap line

/-- The text padded with leading spaces to a width. -/
def padLeft (width : Nat) (s : Bytes) : Bytes :=
  List.replicate (width - s.length) Ascii.space ++ s

/-! ## Laws -/

/-- A text has one piece more than it has separators. -/
theorem length_splitOn (sep : UInt8) (s : Bytes) :
    (List.splitOn sep s).length = s.count sep + 1 := by
  induction s with
  | nil => simp
  | cons b rest ih =>
    rw [List.splitOn_cons_eq_if_modifyHead, List.count_cons]
    split
    · rw [List.length_cons, ih]
    · rw [List.length_modifyHead, ih, Nat.add_zero]

theorem lowerAscii_lowerAscii (s : Bytes) : lowerAscii (lowerAscii s) = lowerAscii s := by
  simp [lowerAscii, Ascii.toLower_toLower]

end Bytes

end OnePass
