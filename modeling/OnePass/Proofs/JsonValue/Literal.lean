import OnePass.JsonValue.Read
import OnePass.Proofs.Utf8
set_option autoImplicit false

/-!
# Literals are read back

A character is read back from what is written for it inside a literal, whatever stands behind it
(`literalTail?_literalCharacter`): a short escape is looked up both ways, an escape by number is never
that of half a surrogate pair, and a character that stands for itself has no byte that a literal gives a
meaning to.  So a valid text is read back from its literal (`string?_literal`), which is valid itself
(`isValid_literal`).
-/

namespace OnePass.JsonValue

open Utf8 (IsScalar)

/-! ## Steps of the reader -/

section Steps

variable {b : UInt8} {s t after bytes : Bytes}

/-- Whether a byte stands for itself inside a literal. -/
def IsPlain (b : UInt8) : Prop := b ≠ Ascii.doubleQuote ∧ ¬b < 0x20 ∧ b ≠ Ascii.backslash

theorem literalTail?_close (t : Bytes) : literalTail? (Ascii.doubleQuote :: t) = some ([], t) := by
  rw [literalTail?, if_pos rfl]

theorem literalTail?_plain (h : IsPlain b) (t : Bytes) :
    literalTail? (b :: t) = (literalTail? t).map (Prod.map (b :: ·) id) := by
  obtain ⟨hquote, hcontrol, hbackslash⟩ := h
  rw [literalTail?, if_neg hquote, if_neg hcontrol, if_neg hbackslash]
  rfl

theorem literalTail?_escape (h : escape? t = some (bytes, after)) :
    literalTail? (Ascii.backslash :: t) = (literalTail? after).map (Prod.map (bytes ++ ·) id) := by
  rw [literalTail?, if_neg (by decide), if_neg (by decide), if_pos rfl]
  split
  · next hnone => rw [h] at hnone; cases hnone
  · next bytes' after' hsome =>
    rw [h] at hsome
    cases hsome
    rfl

theorem literalTail?_append (h : ∀ b ∈ s, IsPlain b) (t : Bytes) :
    literalTail? (s ++ t) = (literalTail? t).map (Prod.map (s ++ ·) id) := by
  induction s with
  | nil => exact (congrFun Option.map_id (literalTail? t)).symm
  | cons b s ih =>
    obtain ⟨hb, hs⟩ := List.forall_mem_cons.mp h
    rw [List.cons_append, literalTail?_plain hb, ih hs, Option.map_map]
    rfl

end Steps

/-! ## Escapes -/

theorem hexDigit_lt {n : Nat} (h : n < 16) : Ascii.hexDigit n < 0x80 := by
  have hall : ∀ n < 16, Ascii.hexDigit n < 0x80 := by decide
  exact hall n h

theorem lt_of_mem_hexNumber (width code : Nat) : ∀ b ∈ Bytes.hexNumber width code, b < 0x80 := by
  induction width generalizing code with
  | zero => exact List.forall_mem_nil _
  | succ width ih =>
    refine List.forall_mem_append.mpr ⟨ih (code / 16), fun b hb => ?_⟩
    rw [List.mem_singleton.mp hb]
    exact hexDigit_lt (Nat.mod_lt code (by decide))

theorem hexValue?_hexDigit {n : Nat} (h : n < 16) : hexValue? (Ascii.hexDigit n) = some n := by
  have hall : ∀ n < 16, hexValue? (Ascii.hexDigit n) = some n := by decide
  exact hall n h

theorem fourDigits?_hexNumber {code : Nat} (h : code < 0x10000) (t : Bytes) :
    fourDigits? (Bytes.hexNumber 4 code ++ t) = some (code, t) := by
  have hdigits : Bytes.hexNumber 4 code = [Ascii.hexDigit (code / 16 / 16 / 16 % 16),
      Ascii.hexDigit (code / 16 / 16 % 16), Ascii.hexDigit (code / 16 % 16),
      Ascii.hexDigit (code % 16)] := rfl
  have hvalue (n : Nat) : hexValue? (Ascii.hexDigit (n % 16)) = some (n % 16) :=
    hexValue?_hexDigit (Nat.mod_lt n (by decide))
  have hsum : ((code / 16 / 16 / 16 % 16 * 16 + code / 16 / 16 % 16) * 16 + code / 16 % 16) * 16
      + code % 16 = code := by
    omega
  rw [hdigits]
  simp [fourDigits?, hexNumber?, hvalue, hsum]

/-- What is not half a surrogate pair is taken as it is. -/
theorem character_of_scalar {code : Nat} (h : IsScalar code) (t : Bytes) :
    character code t = (Utf8.encode code, t) := by
  unfold IsScalar at h
  have hhigh : isHighHalf code = false := by
    simp only [isHighHalf, Bool.and_eq_false_iff, decide_eq_false_iff_not]
    omega
  have hlow : isLowHalf code = false := by
    simp only [isLowHalf, Bool.and_eq_false_iff, decide_eq_false_iff_not]
    omega
  simp [character, hhigh, hlow]

/-- An escape by number is read back. -/
theorem literalTail?_numberEscape {code : Nat} (h : IsScalar code) (hcode : code < 0x10000)
    (t : Bytes) : literalTail? (numberEscape code ++ t) =
      (literalTail? t).map (Prod.map (Utf8.encode code ++ ·) id) := by
  have hescape : escape? (0x75 :: (Bytes.hexNumber 4 code ++ t)) = some (Utf8.encode code, t) := by
    rw [escape?, if_pos rfl, fourDigits?_hexNumber hcode, Option.map_some]
    exact congrArg some (character_of_scalar h t)
  exact literalTail?_escape hescape

/-- The letter of a short escape is that of its character alone. -/
theorem lookup_shortEscapes {e : UInt8 × UInt8} (h : e ∈ shortEscapes) :
    e.1 ≠ 0x75 ∧ e.1 ≠ Ascii.slash ∧ shortEscapes.lookup e.1 = some e.2 ∧
      Utf8.encode e.2.toNat = [e.2] ∧ e.1 < 0x80 := by
  have hall : shortEscapes.all (fun e => e.1 ≠ 0x75 ∧ e.1 ≠ Ascii.slash ∧
      shortEscapes.lookup e.1 = some e.2 ∧ Utf8.encode e.2.toNat = [e.2] ∧ e.1 < 0x80) = true := by
    decide
  exact of_decide_eq_true (List.all_eq_true.mp hall e h)

theorem mem_of_shortLetter? {code : Nat} {letter : UInt8} (h : shortLetter? code = some letter) :
    ∃ e ∈ shortEscapes, e.1 = letter ∧ e.2.toNat = code := by
  obtain ⟨e, hfind, hletter⟩ := Option.map_eq_some_iff.mp h
  exact ⟨e, List.mem_of_find?_eq_some hfind, hletter, by simpa using List.find?_some hfind⟩

/-- A short escape is read back. -/
theorem literalTail?_shortEscape {code : Nat} {letter : UInt8} (h : shortLetter? code = some letter)
    (t : Bytes) : literalTail? (Ascii.backslash :: letter :: t) =
      (literalTail? t).map (Prod.map (Utf8.encode code ++ ·) id) := by
  obtain ⟨e, hmem, rfl, rfl⟩ := mem_of_shortLetter? h
  obtain ⟨hnumber, hslash, hlookup, hencode, -⟩ := lookup_shortEscapes hmem
  have hescape : escape? (e.1 :: t) = some (Utf8.encode e.2.toNat, t) := by
    rw [escape?, if_neg hnumber, if_neg hslash, hlookup, hencode, Option.map_some]
  exact literalTail?_escape hescape

/-! ## Characters -/

theorem isGuarded_iff {code : Nat} : isGuarded code = true ↔ code < 0x20 ∨ code = 0x3c ∨
    code = 0x3e ∨ code = 0x26 ∨ code = 0x2028 ∨ code = 0x2029 := by
  simp only [isGuarded, Bool.or_eq_true, decide_eq_true_eq, or_assoc]

/-- A character that is not escaped has no byte that means something else. -/
theorem isPlain_of_mem_encode {code : Nat} (h : IsScalar code) (hshort : shortLetter? code = none)
    (hguarded : ¬isGuarded code = true) : ∀ b ∈ Utf8.encode code, IsPlain b := by
  rcases Nat.lt_or_ge code 0x80 with hascii | hbeyond
  · have hall : ∀ code < 0x80, shortLetter? code = none → ¬isGuarded code = true →
        code.toUInt8 ≠ Ascii.doubleQuote ∧ ¬code.toUInt8 < 0x20 ∧
          code.toUInt8 ≠ Ascii.backslash := by
      decide
    rw [Utf8.encode_one hascii]
    intro b hb
    rw [List.mem_singleton.mp hb]
    exact hall code hascii hshort hguarded
  · intro b hb
    have hle : 0x80 ≤ b := Utf8.le_of_mem_encode h hbeyond b hb
    refine ⟨?_, ?_, ?_⟩
    · rintro rfl
      exact absurd hle (by decide)
    · exact UInt8.not_lt.mpr (UInt8.le_trans (by decide) hle)
    · rintro rfl
      exact absurd hle (by decide)

theorem literalTail?_literalCharacter {code : Nat} (h : IsScalar code) (t : Bytes) :
    literalTail? (literalCharacter code ++ t) =
      (literalTail? t).map (Prod.map (Utf8.encode code ++ ·) id) := by
  unfold literalCharacter
  split
  · next letter hshort => exact literalTail?_shortEscape hshort t
  · next hshort =>
    split
    · next hguarded =>
      have hcode : code < 0x10000 := by
        have := isGuarded_iff.mp hguarded
        omega
      exact literalTail?_numberEscape h hcode t
    · next hguarded => exact literalTail?_append (isPlain_of_mem_encode h hshort hguarded) t

theorem isValid_literalCharacter {code : Nat} (h : IsScalar code) :
    Utf8.isValid (literalCharacter code) = true := by
  unfold literalCharacter
  split
  · next letter hshort =>
    obtain ⟨e, hmem, rfl, -⟩ := mem_of_shortLetter? hshort
    obtain ⟨-, -, -, -, hletter⟩ := lookup_shortEscapes hmem
    refine Utf8.isValid_of_isAscii (Utf8.isAscii_iff.mpr ?_)
    exact List.forall_mem_cons.mpr ⟨by decide, List.forall_mem_singleton.mpr hletter⟩
  · split
    · exact Utf8.isValid_append (Utf8.isValid_of_isAscii (by decide))
        (Utf8.isValid_of_isAscii (Utf8.isAscii_iff.mpr (lt_of_mem_hexNumber 4 code)))
    · exact Utf8.isValid_encode h

/-! ## Texts -/

section Texts

variable {s : Bytes} {codes : List Nat}

theorem literalTail?_flatMap (h : ∀ code ∈ codes, IsScalar code) (t : Bytes) :
    literalTail? (codes.flatMap literalCharacter ++ Ascii.doubleQuote :: t) =
      some (codes.flatMap Utf8.encode, t) := by
  induction codes with
  | nil => exact literalTail?_close t
  | cons code codes ih =>
    obtain ⟨hcode, hcodes⟩ := List.forall_mem_cons.mp h
    rw [List.flatMap_cons, List.append_assoc, literalTail?_literalCharacter hcode, ih hcodes,
      List.flatMap_cons]
    rfl

theorem literal_flatMap_encode (h : ∀ code ∈ codes, IsScalar code) :
    literal (codes.flatMap Utf8.encode) =
      Ascii.doubleQuote :: codes.flatMap literalCharacter ++ [Ascii.doubleQuote] := by
  rw [literal, Utf8.pieces_flatMap_encode h, List.flatMap_map]
  rfl

/-- A valid text is read back from its literal. -/
theorem string?_literal (h : Utf8.isValid s = true) (t : Bytes) :
    string? (literal s ++ t) = some (s, t) := by
  obtain ⟨codes, hcodes, rfl⟩ := Utf8.exists_codes_of_isValid h
  have hread := literalTail?_flatMap hcodes t
  rw [literal_flatMap_encode hcodes, List.cons_append, List.cons_append, string?, if_pos rfl,
    List.append_assoc]
  exact hread

theorem isValid_literal (h : Utf8.isValid s = true) : Utf8.isValid (literal s) = true := by
  obtain ⟨codes, hcodes, rfl⟩ := Utf8.exists_codes_of_isValid h
  have hquote : Utf8.isValid [Ascii.doubleQuote] = true := Utf8.isValid_of_isAscii rfl
  have hinner : Utf8.isValid (codes.flatMap literalCharacter) = true := by
    clear h
    induction codes with
    | nil => exact Utf8.isValid_of_isAscii rfl
    | cons code codes ih =>
      obtain ⟨hcode, hrest⟩ := List.forall_mem_cons.mp hcodes
      rw [List.flatMap_cons]
      exact Utf8.isValid_append (isValid_literalCharacter hcode) (ih hrest)
  rw [literal_flatMap_encode hcodes]
  exact Utf8.isValid_append (Utf8.isValid_append hquote hinner) hquote

end Texts

end OnePass.JsonValue
