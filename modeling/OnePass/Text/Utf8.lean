import OnePass.Text.Bytes
set_option autoImplicit false

/-!
# Text: UTF-8

`pieces` cuts a byte string into code points and single bytes that belong to no code point: the
shortest beginning that is a valid encoding is taken, and where there is none one byte is taken
by itself.  No byte is lost: the pieces' own bytes concatenate to the input.
-/

namespace OnePass.Utf8

/-- A piece of a byte string as its reader sees it. -/
inductive Piece where
  /-- a code point, validly encoded -/
  | point (code : Nat)
  /-- a byte that starts no valid encoding -/
  | stray (byte : UInt8)
  deriving DecidableEq, Repr, Inhabited

/-- The code point that stands for malformed text. -/
def replacement : Nat := 0xfffd

/-- The code point that a piece is read as. -/
def Piece.code : Piece → Nat
  | .point code => code
  | .stray _ => replacement

/-- The encoding of a code point in one to four bytes. -/
def encode (code : Nat) : Bytes :=
  if code < 0x80 then [code.toUInt8]
  else if code < 0x800 then [(0xc0 + code / 0x40).toUInt8, (0x80 + code % 0x40).toUInt8]
  else if code < 0x10000 then
    [(0xe0 + code / 0x1000).toUInt8, (0x80 + code / 0x40 % 0x40).toUInt8,
      (0x80 + code % 0x40).toUInt8]
  else
    [(0xf0 + code / 0x40000).toUInt8, (0x80 + code / 0x1000 % 0x40).toUInt8,
      (0x80 + code / 0x40 % 0x40).toUInt8, (0x80 + code % 0x40).toUInt8]

/-- The bytes of a piece: the encoding of a code point, and a stray byte as it is. -/
def Piece.bytes : Piece → Bytes
  | .point code => encode code
  | .stray byte => [byte]

/-- The bytes that follow the first one in an encoding. -/
def isTail (b : UInt8) : Bool := 0x80 ≤ b && b ≤ 0xbf

/-- The six bits that a following byte carries. -/
def tailBits (b : UInt8) : Nat := b.toNat % 0x40

/-- Reads an encoding of two bytes that starts with `a`.  Encodings that are longer than needed,
of surrogates or of numbers above `0x10ffff` are no encodings. -/
def two? (a : UInt8) : Bytes → Option (Nat × Bytes)
  | b :: rest =>
    if 0xc2 ≤ a && a ≤ 0xdf && isTail b then some (a.toNat % 0x20 * 0x40 + tailBits b, rest)
    else none
  | [] => none

/-- Reads an encoding of three bytes that starts with `a`. -/
def three? (a : UInt8) : Bytes → Option (Nat × Bytes)
  | b :: c :: rest =>
    let code := a.toNat % 0x10 * 0x1000 + tailBits b * 0x40 + tailBits c
    if 0xe0 ≤ a && a ≤ 0xef && isTail b && isTail c && 0x800 ≤ code
        && !(0xd800 ≤ code && code ≤ 0xdfff) then
      some (code, rest)
    else none
  | _ => none

/-- Reads an encoding of four bytes that starts with `a`. -/
def four? (a : UInt8) : Bytes → Option (Nat × Bytes)
  | b :: c :: d :: rest =>
    let code := a.toNat % 8 * 0x40000 + tailBits b * 0x1000 + tailBits c * 0x40 + tailBits d
    if 0xf0 ≤ a && a ≤ 0xf4 && isTail b && isTail c && isTail d && 0x10000 ≤ code
        && code ≤ 0x10ffff then
      some (code, rest)
    else none
  | _ => none

/-- The first piece of a byte string that starts with `a`, and the rest. -/
def first (a : UInt8) (rest : Bytes) : Piece × Bytes :=
  if a < 0x80 then (.point a.toNat, rest)
  else match two? a rest <|> three? a rest <|> four? a rest with
    | some (code, after) => (.point code, after)
    | none => (.stray a, rest)

theorem length_of_ite {c : Prop} [Decidable c] {s rest after : Bytes} {found code : Nat}
    (h : (if c then some (found, rest) else none) = some (code, after))
    (hrest : rest.length ≤ s.length) : after.length ≤ s.length := by
  split at h
  · cases h
    exact hrest
  · cases h

section Lengths

variable {a : UInt8} {s after : Bytes} {code : Nat}

theorem length_of_two? (h : two? a s = some (code, after)) : after.length ≤ s.length := by
  unfold two? at h
  split at h
  · exact length_of_ite h (by simp)
  · cases h

theorem length_of_three? (h : three? a s = some (code, after)) : after.length ≤ s.length := by
  unfold three? at h
  split at h
  · exact length_of_ite h (by simp only [List.length_cons]; omega)
  · cases h

theorem length_of_four? (h : four? a s = some (code, after)) : after.length ≤ s.length := by
  unfold four? at h
  split at h
  · exact length_of_ite h (by simp only [List.length_cons]; omega)
  · cases h

end Lengths

theorem length_first_le (a : UInt8) (rest : Bytes) : (first a rest).2.length ≤ rest.length := by
  unfold first
  split
  · exact Nat.le_refl _
  · split
    · next code after h =>
      rcases h₂ : two? a rest with _ | found₂
      · rcases h₃ : three? a rest with _ | found₃
        · exact length_of_four? (by simpa [h₂, h₃] using h)
        · exact length_of_three? (a := a) (by rw [h₃]; simpa [h₂, h₃] using h)
      · exact length_of_two? (a := a) (by rw [h₂]; simpa [h₂] using h)
    · exact Nat.le_refl _

/-- The pieces of a byte string. -/
def pieces : Bytes → List Piece
  | [] => []
  | a :: rest => (first a rest).1 :: pieces (first a rest).2
termination_by s => s.length
decreasing_by
  have := length_first_le a rest
  simp only [List.length_cons]
  omega

/-- Whether a byte string holds code points only. -/
def isValid (s : Bytes) : Bool := (pieces s).all fun u => match u with
  | .point _ => true
  | .stray _ => false

/-- The text with every stray byte replaced by the replacement character. -/
def scrub (s : Bytes) : Bytes := (pieces s).flatMap fun u => encode u.code

end OnePass.Utf8
