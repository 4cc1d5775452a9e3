import OnePass.Text.Utf8
set_option autoImplicit false

/-!
# JSON string literals

A literal is written between double quotes.  Control characters, quotes and backslashes are
escaped, and so are the characters that mean something in a web page and the two line separators
`U+2028` and `U+2029`; every other character stands for itself.  A byte that is not valid UTF-8 is
written as the replacement character.  A literal may be read with any of the escapes of the format;
an escaped surrogate that has no partner is read as the replacement character.
-/

namespace OnePass.JsonValue

/-! ## Writing -/

/-- The letters of the short escapes, with the characters that they stand for. -/
def shortEscapes : List (UInt8 × UInt8) :=
  [(Ascii.doubleQuote, Ascii.doubleQuote), (Ascii.backslash, Ascii.backslash), (0x62, 0x08),
    (0x66, 0x0c), (0x6e, Ascii.newline), (0x72, Ascii.carriageReturn), (0x74, Ascii.tab)]

/-- The letter of a character's short escape. -/
def shortLetter? (code : Nat) : Option UInt8 :=
  (shortEscapes.find? fun e => e.2.toNat = code).map (·.1)

/-- Whether a character without a short escape is escaped by its number. -/
def isGuarded (code : Nat) : Bool :=
  code < 0x20 || code = 0x3c || code = 0x3e || code = 0x26 || code = 0x2028 || code = 0x2029

/-- An escape by number. -/
def numberEscape (code : Nat) : Bytes := text "\\u" ++ Bytes.hexNumber 4 code

/-- A character inside a literal. -/
def literalCharacter (code : Nat) : Bytes :=
  match shortLetter? code with
  | some letter => [Ascii.backslash, letter]
  | none => if isGuarded code then numberEscape code else Utf8.encode code

/-- The literal of a text.  For a byte that is not valid UTF-8 it holds the replacement character
itself, not its escape. -/
def literal (s : Bytes) : Bytes :=
  Ascii.doubleQuote :: (Utf8.pieces s).flatMap (literalCharacter ·.code) ++ [Ascii.doubleQuote]

/-! ## Reading -/

/-- The value of a hexadecimal digit. -/
def hexValue? (b : UInt8) : Option Nat := (Ascii.letterDigit? b).filter (· < 16)

/-- The value of hexadecimal digits. -/
def hexNumber? (digits : List UInt8) : Option Nat :=
  digits.foldlM (fun n b => (hexValue? b).map (n * 16 + ·)) 0

/-- Reads four hexadecimal digits. -/
def fourDigits? : Bytes → Option (Nat × Bytes)
  | a :: b :: c :: d :: rest => (hexNumber? [a, b, c, d]).map (·, rest)
  | _ => none

/-- Whether a number is the first half of a surrogate pair. -/
def isHighHalf (code : Nat) : Bool := 0xd800 ≤ code && code < 0xdc00

/-- Whether a number is the second half of a surrogate pair. -/
def isLowHalf (code : Nat) : Bool := 0xdc00 ≤ code && code < 0xe000

/-- Reads an escape by number from its letter on. -/
def markedNumber? : Bytes → Option (Nat × Bytes)
  | a :: b :: rest => if a = Ascii.backslash ∧ b = 0x75 then fourDigits? rest else none
  | _ => none

/-- Reads the second half of a surrogate pair, which is an escape by number. -/
def lowHalf? (s : Bytes) : Option (Nat × Bytes) := (markedNumber? s).filter (isLowHalf ·.1)

/-- The character that an escape by number stands for, together with the escape behind it if the
two are a surrogate pair, and the rest. -/
def character (code : Nat) (rest : Bytes) : Bytes × Bytes :=
  match if isHighHalf code then lowHalf? rest else none with
  | some (low, after) =>
    (Utf8.encode (0x10000 + (code - 0xd800) * 0x400 + (low - 0xdc00)), after)
  | none =>
    (Utf8.encode (if isHighHalf code || isLowHalf code then Utf8.replacement else code), rest)

/-- Reads an escape behind its backslash: the bytes that it stands for, and the rest. -/
def escape? : Bytes → Option (Bytes × Bytes)
  | [] => none
  | b :: rest =>
    if b = 0x75 then (fourDigits? rest).map fun (code, after) => character code after
    else if b = Ascii.slash then some ([b], rest)
    else (shortEscapes.lookup b).map fun c => ([c], rest)

theorem length_of_fourDigits? {s after : Bytes} {code : Nat}
    (h : fourDigits? s = some (code, after)) : after.length < s.length := by
  unfold fourDigits? at h
  split at h
  · obtain ⟨n, _, heq⟩ := Option.map_eq_some_iff.1 h
    simp only [Prod.mk.injEq] at heq
    rw [← heq.2]
    simp only [List.length_cons]
    omega
  · simp at h

theorem length_of_lowHalf? {s after : Bytes} {code : Nat}
    (h : lowHalf? s = some (code, after)) : after.length ≤ s.length := by
  have hm : markedNumber? s = some (code, after) := (Option.filter_eq_some_iff.1 h).1
  unfold markedNumber? at hm
  split at hm
  · split at hm
    · have := length_of_fourDigits? hm
      simp only [List.length_cons]
      omega
    · simp at hm
  · simp at hm

theorem length_character_le (code : Nat) (rest : Bytes) :
    (character code rest).2.length ≤ rest.length := by
  unfold character
  split
  · next low after h =>
    split at h
    · exact length_of_lowHalf? h
    · simp at h
  · exact Nat.le_refl _

theorem length_of_escape? {s bytes after : Bytes} (h : escape? s = some (bytes, after)) :
    after.length < s.length := by
  unfold escape? at h
  split at h
  · simp at h
  · next b rest =>
    split at h
    · obtain ⟨⟨code, more⟩, hm, heq⟩ := Option.map_eq_some_iff.1 h
      have hle := length_character_le code more
      have hlt := length_of_fourDigits? hm
      simp only at heq
      rw [heq] at hle
      simp only [List.length_cons] at hle ⊢
      omega
    · split at h
      · simp only [Option.some.injEq, Prod.mk.injEq] at h
        simp [← h.2]
      · obtain ⟨c, _, heq⟩ := Option.map_eq_some_iff.1 h
        simp only [Prod.mk.injEq] at heq
        simp [← heq.2]

/-- Reads a literal behind its opening quote: the text, and the rest behind the closing quote. -/
def literalTail? (s : Bytes) : Option (Bytes × Bytes) :=
  match s with
  | [] => none
  | b :: rest =>
    if b = Ascii.doubleQuote then some ([], rest)
    else if b < 0x20 then none
    else if b = Ascii.backslash then
      match h : escape? rest with
      | none => none
      | some (bytes, after) =>
        have := length_of_escape? h
        (literalTail? after).map fun (t, r) => (bytes ++ t, r)
    else (literalTail? rest).map fun (t, r) => (b :: t, r)
termination_by s.length
decreasing_by
  · simp only [List.length_cons]
    omega
  · simp

end OnePass.JsonValue
