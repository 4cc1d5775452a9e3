import OnePass.Text.Numeral
set_option autoImplicit false

/-!
# Numerals

A number is written with decimal digits, the first of which is no zero unless it is the only one.  It is
read back from its numeral if it fits (`readInt_ofInt`).
-/

namespace OnePass

/-! ## Digits -/

namespace Bytes

theorem isDigit_ofDigit {k : Nat} (h : k < 10) : Ascii.isDigit (0x30 + k).toUInt8 = true := by
  have hall : ∀ k < 10, Ascii.isDigit (0x30 + k).toUInt8 = true := by decide
  exact hall k h

theorem letterDigit?_ofDigit {k : Nat} (h : k < 10) :
    Ascii.letterDigit? (0x30 + k).toUInt8 = some k := by
  have hall : ∀ k < 10, Ascii.letterDigit? (0x30 + k).toUInt8 = some k := by decide
  exact hall k h

theorem isDigit_of_mem_ofNat (n : Nat) : ∀ b ∈ ofNat n, Ascii.isDigit b = true := by
  fun_induction ofNat n with
  | case1 n hn => simpa using isDigit_ofDigit hn
  | case2 n _ ih =>
    intro b hb
    rcases List.mem_append.mp hb with hb | hb
    · exact ih b hb
    · rw [List.mem_singleton.mp hb]
      exact isDigit_ofDigit (Nat.mod_lt n (by decide))

/-- A number that is not zero is written without leading zeros. -/
theorem exists_ofNat_eq_cons (n : Nat) :
    ∃ b s, ofNat n = b :: s ∧ Ascii.isDigit b = true ∧ (0 < n → b ≠ Ascii.zero) := by
  fun_induction ofNat n with
  | case1 n hn =>
    have hall : ∀ k < 10, 0 < k → (0x30 + k).toUInt8 ≠ Ascii.zero := by decide
    exact ⟨_, [], rfl, isDigit_ofDigit hn, hall n hn⟩
  | case2 n hn ih =>
    obtain ⟨b, s, heq, hdigit, hb⟩ := ih
    exact ⟨b, s ++ [(0x30 + n % 10).toUInt8], by rw [heq]; rfl, hdigit, fun _ => hb (by omega)⟩

theorem ofNat_ne_nil (n : Nat) : ofNat n ≠ [] := by
  obtain ⟨b, s, heq, -⟩ := exists_ofNat_eq_cons n
  rw [heq]
  exact List.cons_ne_nil b s

theorem exists_ofInt_eq_cons (i : Int) :
    ∃ b s, ofInt i = b :: s ∧ (b = Ascii.minus ∨ Ascii.isDigit b = true) := by
  cases i with
  | ofNat n =>
    obtain ⟨b, s, heq, hb, -⟩ := exists_ofNat_eq_cons n
    exact ⟨b, s, heq, .inr hb⟩
  | negSucc n => exact ⟨Ascii.minus, ofNat (n + 1), rfl, .inl rfl⟩

end Bytes

/-! ## Reading -/

namespace Numeral

variable {base limit : Nat}

theorem readDigits_append (value : Nat) (s t : Bytes) : readDigits base limit value (s ++ t) =
    (readDigits base limit value s).bind fun read => readDigits base limit read t := by
  induction s generalizing value with
  | nil => rfl
  | cons b s ih =>
    rw [List.cons_append, readDigits, readDigits]
    cases Ascii.letterDigit? b with
    | none => rfl
    | some digit =>
      dsimp only
      split
      · rfl
      · split
        · rfl
        · exact ih _

theorem readDigits_digit (value : Nat) {k : Nat} (hk : k < 10) (h : value * 10 + k ≤ limit) :
    readDigits 10 limit value [(0x30 + k).toUInt8] = .ok (value * 10 + k) := by
  rw [readDigits, Bytes.letterDigit?_ofDigit hk]
  dsimp only
  rw [if_neg (Nat.not_le.mpr hk), if_neg (Nat.not_lt.mpr h), readDigits]

theorem readDigits_ofNat {n : Nat} (h : n ≤ limit) : readDigits 10 limit 0 (Bytes.ofNat n) = .ok n := by
  fun_induction Bytes.ofNat n with
  | case1 n hn =>
    have hfits : 0 * 10 + n ≤ limit := by omega
    have hread := readDigits_digit 0 hn hfits
    rwa [Nat.zero_mul, Nat.zero_add] at hread
  | case2 n hn ih =>
    rw [readDigits_append, ih (by omega)]
    refine (readDigits_digit (n / 10) (Nat.mod_lt n (by decide)) (by omega)).trans ?_
    rw [Nat.mul_comm, Nat.div_add_mod]

/-- Different numbers have different digits. -/
theorem ofNat_inj {n m : Nat} (h : Bytes.ofNat n = Bytes.ofNat m) : n = m := by
  have hread := readDigits_ofNat (Nat.le_max_left n m)
  rw [h, readDigits_ofNat (Nat.le_max_right n m)] at hread
  exact (Except.ok.inj hread).symm

theorem readUnsigned_ofNat {n : Nat} (h : n ≤ unsignedLimit) : readUnsigned (Bytes.ofNat n) = .ok n := by
  have hne : (Bytes.ofNat n).isEmpty = false := by
    simpa using Bytes.ofNat_ne_nil n
  rw [readUnsigned, hne, if_neg Bool.false_ne_true, readDigits_ofNat h]

/-- Nothing is taken for a sign of a number without one. -/
theorem cutSign_digit {b : UInt8} (hb : Ascii.isDigit b = true) (s : Bytes) :
    cutSign (b :: s) = (false, b :: s) := by
  have hminus : b ≠ Ascii.minus := by
    rintro rfl
    cases hb
  have hplus : b ≠ Ascii.plus := by
    rintro rfl
    cases hb
  rw [cutSign, if_neg hminus, if_neg hplus]

theorem cutSign_ofNat (n : Nat) : cutSign (Bytes.ofNat n) = (false, Bytes.ofNat n) := by
  obtain ⟨b, s, heq, hb, -⟩ := Bytes.exists_ofNat_eq_cons n
  rw [heq, cutSign_digit hb]

theorem signed_false {n : Nat} (h : n < 0x8000000000000000) : signed false n = .ok n := by
  rw [signed, if_neg Bool.false_ne_true, if_neg (Nat.not_le.mpr h)]

theorem signed_true {n : Nat} (h : n ≤ 0x8000000000000000) : signed true n = .ok (-n) := by
  rw [signed, if_pos rfl, if_neg (Nat.not_lt.mpr h)]

theorem readInt_eq (s : Bytes) :
    readInt s = (readUnsigned (cutSign s).2).bind (signed (cutSign s).1) :=
  rfl

/-- A number of 64 bits is read back. -/
theorem readInt_ofInt {n : Int} (hlow : -0x8000000000000000 ≤ n) (hhigh : n < 0x8000000000000000) :
    readInt (Bytes.ofInt n) = .ok n := by
  cases n with
  | ofNat n =>
    have hfits : n < 0x8000000000000000 := Int.ofNat_lt.mp hhigh
    have hread : readUnsigned (Bytes.ofNat n) = .ok n :=
      readUnsigned_ofNat (by unfold unsignedLimit; omega)
    rw [readInt_eq, Bytes.ofInt, cutSign_ofNat, hread]
    exact signed_false hfits
  | negSucc n =>
    have hfits : n + 1 ≤ 0x8000000000000000 := by omega
    have hread : readUnsigned (Bytes.ofNat (n + 1)) = .ok (n + 1) :=
      readUnsigned_ofNat (by unfold unsignedLimit; omega)
    rw [readInt_eq, Bytes.ofInt, cutSign, if_pos rfl, hread]
    exact signed_true hfits

end Numeral

end OnePass
