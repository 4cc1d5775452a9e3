import OnePass.Text.Printable
set_option autoImplicit false

/-!
# Text: quoted text

Texts and single characters are shown between quotes on one line of printable characters.  The
delimiter and the backslash are escaped, the usual controls have one-letter escapes, other
controls and stray bytes are written as two hexadecimal digits, and every other code point that
is not printable as four or eight.
-/

namespace OnePass

namespace Quoted

/-- The letter that stands for a control character after a backslash. -/
def controlLetter? (code : Nat) : Option UInt8 :=
  match code with
  | 0x07 => some 0x61
  | 0x08 => some 0x62
  | 0x0c => some 0x66
  | 0x0a => some 0x6e
  | 0x0d => some 0x72
  | 0x09 => some 0x74
  | 0x0b => some 0x76
  | _ => none

/-- A byte as a backslash, an `x` and two hexadecimal digits. -/
def escapedByte (b : UInt8) : Bytes := text "\\x" ++ Bytes.hexPair b

/-- One code point inside quotes. -/
def escapedCode (delimiter : UInt8) (code : Nat) : Bytes :=
  if code = delimiter.toNat || code = 0x5c then [Ascii.backslash, code.toUInt8]
  else if Utf8.isPrintable code then Utf8.encode code
  else match controlLetter? code with
    | some letter => [Ascii.backslash, letter]
    | none =>
      if code < 0x80 then escapedByte code.toUInt8
      else if code < 0x10000 then text "\\u" ++ Bytes.hexNumber 4 code
      else text "\\U" ++ Bytes.hexNumber 8 code

/-- One piece of a text inside quotes. -/
def escaped (delimiter : UInt8) : Utf8.Piece → Bytes
  | .point code => escapedCode delimiter code
  | .stray byte => escapedByte byte

end Quoted

/-- A text between double quotes. -/
def quoted (s : Bytes) : Bytes :=
  Ascii.doubleQuote :: (Utf8.pieces s).flatMap (Quoted.escaped Ascii.doubleQuote)
    ++ [Ascii.doubleQuote]

/-- A code point between single quotes. -/
def quotedCode (code : Nat) : Bytes :=
  Ascii.singleQuote :: Quoted.escapedCode Ascii.singleQuote code ++ [Ascii.singleQuote]

end OnePass
