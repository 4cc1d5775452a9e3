set_option autoImplicit false

/-!
# Numbers of 53 significant bits

Numbers `significand * 2 ^ exponent` whose significand has 53 bits.  What an operation gives is the
nearest such number, and of two that are equally near the one with the even significand.  The
exponent has no bounds, so nothing is too great or too small.
-/

namespace OnePass

/-- The natural number nearest to a quotient, and of two the even one. -/
def nearestQuotient (num den : Nat) : Nat :=
  if 2 * (num % den) < den ∨ (2 * (num % den) = den ∧ num / den % 2 = 0) then num / den
  else num / den + 1

/-- The nearest number is at most half away from the quotient. -/
theorem nearestQuotient_within_half (num den : Nat) (h : 0 < den) :
    2 * num ≤ 2 * (den * nearestQuotient num den) + den ∧
      2 * (den * nearestQuotient num den) ≤ 2 * num + den := by
  have hsplit := Nat.div_add_mod num den
  have hrest := Nat.mod_lt num h
  unfold nearestQuotient
  split
  · omega
  · rw [Nat.mul_add]
    omega

/-- A quotient without a rest is its own nearest number. -/
theorem nearestQuotient_mul (n den : Nat) (h : 0 < den) : nearestQuotient (den * n) den = n := by
  simp [nearestQuotient, Nat.mul_div_cancel_left n h, h]

/-- A number `significand * 2 ^ exponent`. -/
structure Rounded where
  significand : Nat
  exponent : Int
  deriving DecidableEq, Repr, Inhabited

namespace Rounded

/-- A quotient with a power of two brought in. -/
def shifted (num den : Nat) (power : Int) : Nat × Nat :=
  (num <<< power.toNat, den <<< (-power).toNat)

/-- The power of two that brings a quotient to 53 bits before the binary point.  The lengths of the
two numbers tell it but for one place. -/
def alignment (num den : Nat) : Int :=
  let power : Int := 52 + den.log2 - num.log2
  let (n, d) := shifted num den power
  if n / d < 0x10000000000000 then power + 1 else power

/-- The number nearest to `num / den * 2 ^ exponent`. -/
def ofQuotient (num den : Nat) (exponent : Int) : Rounded :=
  let power := alignment num den
  let (n, d) := shifted num den power
  ⟨nearestQuotient n d, exponent - power⟩

/-- The number nearest to a natural number. -/
def ofNat (n : Nat) : Rounded := ofQuotient n 1 0

/-- The product. -/
def mul (a b : Rounded) : Rounded :=
  ofQuotient (a.significand * b.significand) 1 (a.exponent + b.exponent)

/-- The quotient. -/
def div (a b : Rounded) : Rounded :=
  ofQuotient a.significand b.significand (a.exponent - b.exponent)

/-- The whole part. -/
def floor (a : Rounded) : Nat :=
  let (n, d) := shifted a.significand 1 a.exponent
  n / d

end Rounded

end OnePass
