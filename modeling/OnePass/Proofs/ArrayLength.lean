import OnePass.Proofs.Translation.Basic
set_option autoImplicit false

/-!
# The lengths of arrays

Bounds are texts.  A text is read as the integer that it stands for, if 64 bits hold that integer
(`Numeral.readInt_eq_ok_iff`), and the length of an array is the difference of its bounds in 64 bits.
The difference that is declared is the exact one unless it wraps around: bounds that are more than
2^63 apart in the wrong order give a length as well (`declaration_array_iff`).
-/

namespace OnePass

/-! ## Decimal texts -/

namespace Numeral

/-- What a decimal text stands for: digits, with an optional sign in front of them. -/
inductive Denotes : Bytes → Int → Prop
  | plain {s : Bytes} (h : Lexeme.IsDigits s) : Denotes s (Tree.digitsFrom 0 s)
  | plus {s : Bytes} (h : Lexeme.IsDigits s) : Denotes (Ascii.plus :: s) (Tree.digitsFrom 0 s)
  | minus {s : Bytes} (h : Lexeme.IsDigits s) : Denotes (Ascii.minus :: s) (-(Tree.digitsFrom 0 s))

theorem digitsFrom_of_readDigits {limit n v : Nat} {s : Bytes}
    (h : readDigits 10 limit n s = .ok v) : s.all Ascii.isDigit = true ∧ v = Tree.digitsFrom n s := by
  induction s generalizing n with
  | nil =>
    cases h
    exact ⟨rfl, rfl⟩
  | cons b rest ih =>
    rw [readDigits] at h
    split at h
    · cases h
    · next digit hdigit =>
      split at h
      · cases h
      · next hbase =>
        split at h
        · cases h
        · obtain ⟨hrest, rfl⟩ := ih h
          -- A letter has a value of ten or more, which is no decimal digit.
          unfold Ascii.letterDigit? at hdigit
          split at hdigit
          · next hb =>
            cases hdigit
            exact ⟨by rw [List.all_cons, hb, hrest]; rfl, rfl⟩
          · split at hdigit
            · cases hdigit
              omega
            · cases hdigit

theorem isDigits_of_readUnsigned {s : Bytes} {v : Nat} (h : readUnsigned s = .ok v) :
    Lexeme.IsDigits s ∧ v = Tree.digitsFrom 0 s := by
  unfold readUnsigned at h
  split at h
  · cases h
  · next hempty =>
    obtain ⟨hdigits, hv⟩ := digitsFrom_of_readDigits h
    exact ⟨⟨by simpa using hempty, hdigits⟩, hv⟩

/-- The sign that is cut off, and the number that stands for the text with it. -/
theorem denotes_of_cutSign {s : Bytes} (h : Lexeme.IsDigits (cutSign s).2) :
    Denotes s (if (cutSign s).1 then -(Tree.digitsFrom 0 (cutSign s).2)
      else Tree.digitsFrom 0 (cutSign s).2) := by
  cases s with
  | nil => exact absurd rfl h.1
  | cons b rest =>
    rw [cutSign] at h ⊢
    split at h
    · next hminus =>
      rw [if_pos hminus, hminus]
      exact .minus h
    · next hminus =>
      rw [if_neg hminus]
      split at h
      · next hplus =>
        rw [if_pos hplus, hplus]
        exact .plus h
      · next hplus =>
        rw [if_neg hplus]
        exact .plain h

theorem signed_eq_ok_iff {negative : Bool} {magnitude : Nat} {n : Int} :
    signed negative magnitude = .ok n ↔
      n = (if negative then -(magnitude : Int) else magnitude) ∧ Tree.FitsWord n := by
  unfold signed Tree.FitsWord
  cases negative with
  | true =>
    rw [if_pos rfl, if_pos rfl]
    split
    · simp only [reduceCtorEq, false_iff]
      omega
    · simp only [Except.ok.injEq]
      omega
  | false =>
    rw [if_neg Bool.false_ne_true, if_neg Bool.false_ne_true]
    split
    · simp only [reduceCtorEq, false_iff]
      omega
    · simp only [Except.ok.injEq]
      omega

theorem readInt_of_isDigits {s : Bytes} (h : Lexeme.IsDigits (cutSign s).2) {n : Int}
    (hn : n = if (cutSign s).1 then -(Tree.digitsFrom 0 (cutSign s).2 : Int)
      else Tree.digitsFrom 0 (cutSign s).2) (hfits : Tree.FitsWord n) : readInt s = .ok n := by
  have hmagnitude : Tree.digitsFrom 0 (cutSign s).2 ≤ unsignedLimit := by
    unfold Tree.FitsWord at hfits
    unfold unsignedLimit
    split at hn <;> omega
  rw [readInt_eq, Tree.readUnsigned_digits h hmagnitude]
  exact signed_eq_ok_iff.mpr ⟨hn, hfits⟩

/-- A text is read as the integer that it stands for, exactly if 64 bits hold it. -/
theorem readInt_eq_ok_iff {s : Bytes} {n : Int} :
    readInt s = .ok n ↔ Denotes s n ∧ Tree.FitsWord n := by
  constructor
  · intro h
    rw [readInt_eq] at h
    cases hunsigned : readUnsigned (cutSign s).2 with
    | error e =>
      rw [hunsigned] at h
      cases h
    | ok magnitude =>
      rw [hunsigned] at h
      obtain ⟨hdigits, rfl⟩ := isDigits_of_readUnsigned hunsigned
      obtain ⟨rfl, hfits⟩ := signed_eq_ok_iff.mp h
      exact ⟨denotes_of_cutSign hdigits, hfits⟩
  · rintro ⟨hs, hfits⟩
    cases hs with
    | @plain _ h =>
      have hcut := Tree.cutSign_digits h
      exact readInt_of_isDigits (by rwa [hcut]) (by rw [hcut]; rfl) hfits
    | @plus _ h => exact readInt_of_isDigits (s := Ascii.plus :: _) h rfl hfits
    | @minus _ h => exact readInt_of_isDigits (s := Ascii.minus :: _) h rfl hfits

end Numeral

/-! ## Lengths -/

namespace Bounds

/-- The length of an array between two integers of 64 bits: their difference as it is, or less than
that by 2^64, where it passes 2^63 in the wrong order. -/
def IsLength (lower upper length : Int) : Prop :=
  (lower ≤ upper ∧ upper - lower ≤ 0x7FFFFFFFFFFFFFFF ∧ length = upper - lower) ∨
    (upper - lower < -0x8000000000000000 ∧ length = upper - lower + 0x10000000000000000)

/-- Whether bounds are decimal integers of 64 bits that give an array a length. -/
def Gives (b : Bounds) (length : Int) : Prop :=
  ∃ lower upper, Numeral.Denotes b.lower lower ∧ Tree.FitsWord lower ∧
    Numeral.Denotes b.upper upper ∧ Tree.FitsWord upper ∧ IsLength lower upper length

theorem value_eq_ok_iff {s : Bytes} {n : Int} :
    value s = .ok n ↔ Numeral.Denotes s n ∧ Tree.FitsWord n := by
  rw [← Numeral.readInt_eq_ok_iff, value]
  delta Except.mapError
  cases Numeral.readInt s <;> simp

theorem length_eq_ok_iff {b : Bounds} {n : Int} :
    b.length = .ok n ↔ ∃ lower upper, value b.lower = .ok lower ∧ value b.upper = .ok upper ∧
      (upper - lower).bmod 0x10000000000000000 = n := by
  unfold length
  cases value b.lower with
  | error f => simp [bind, Except.bind]
  | ok lower =>
    cases value b.upper with
    | error f => simp [bind, Except.bind]
    | ok upper => simp [bind, Except.bind, pure, Except.pure]

/-- A difference in 64 bits has no sign exactly if it is one of the two kinds of lengths. -/
theorem bmod_nonneg_iff {lower upper n : Int} (hlower : Tree.FitsWord lower)
    (hupper : Tree.FitsWord upper) :
    (upper - lower).bmod 0x10000000000000000 = n ∧ 0 ≤ n ↔ IsLength lower upper n := by
  unfold Tree.FitsWord at hlower hupper
  unfold IsLength
  rw [Int.bmod_def]
  omega

theorem length_nonneg_iff {b : Bounds} {n : Int} : b.length = .ok n ∧ 0 ≤ n ↔ b.Gives n := by
  rw [length_eq_ok_iff]
  constructor
  · rintro ⟨⟨lower, upper, hlower, hupper, hdifference⟩, hn⟩
    obtain ⟨hlower, hlowerFits⟩ := value_eq_ok_iff.mp hlower
    obtain ⟨hupper, hupperFits⟩ := value_eq_ok_iff.mp hupper
    exact ⟨lower, upper, hlower, hlowerFits, hupper, hupperFits,
      (bmod_nonneg_iff hlowerFits hupperFits).mp ⟨hdifference, hn⟩⟩
  · rintro ⟨lower, upper, hlower, hlowerFits, hupper, hupperFits, hlength⟩
    obtain ⟨hdifference, hn⟩ := (bmod_nonneg_iff hlowerFits hupperFits).mpr hlength
    exact ⟨⟨lower, upper, value_eq_ok_iff.mpr ⟨hlower, hlowerFits⟩,
      value_eq_ok_iff.mpr ⟨hupper, hupperFits⟩, hdifference⟩, hn⟩

end Bounds

/-! ## Declarations of arrays -/

namespace Ir

/-- The text that declares an array of a length. -/
def arrayText (style : PointerStyle) (name : Bytes) (global : Bool) (type : Scalar) (length : Int) :
    Bytes :=
  (if global then text "@" ++ name ++ text " = common global " else text "%" ++ name ++ text " = alloca ")
    ++ text "[" ++ Bytes.ofInt length ++ text " x " ++ (Ty.ofScalar type).render style ++ text "]"
    ++ (if global then text " zeroinitializer" else [])
    ++ text ", align " ++ Bytes.ofNat (arrayAlign type)

/-- An array has the storage of its length, or its bounds are invalid. -/
theorem ofArray_cases (type : Scalar) (b : Bounds) :
    (∃ n : Int, b.Gives n ∧
      Storage.ofArray type b = .ok ⟨.array n.toNat (.ofScalar type), arrayAlign type, .aggregate⟩) ∨
    ((¬∃ n, b.Gives n) ∧ Storage.ofArray type b = .error (.invalidBounds b)) := by
  simp only [← Bounds.length_nonneg_iff]
  unfold Storage.ofArray
  cases hlength : b.length with
  | error f => exact .inr ⟨by simp, rfl⟩
  | ok n =>
    dsimp only
    split
    · next hn =>
      refine .inr ⟨?_, rfl⟩
      rintro ⟨m, hm, hnonneg⟩
      cases hm
      omega
    · next hn => exact .inl ⟨n, ⟨rfl, Int.not_lt.mp hn⟩, rfl⟩

theorem render_declaration_array (style : PointerStyle) (name : Bytes) (sym : Symbol)
    (type : Scalar) {n : Int} (hn : 0 ≤ n) :
    Line.render style
      (if sym.global then .global name (.array n.toNat (.ofScalar type)) .aggregate (arrayAlign type)
        else .alloca (.named name) (.array n.toNat (.ofScalar type)) (arrayAlign type)) =
      arrayText style name sym.global type n := by
  have htext : Bytes.ofInt n = Bytes.ofNat n.toNat := by
    obtain ⟨k, rfl⟩ := Int.eq_ofNat_of_zero_le hn
    rfl
  unfold arrayText
  rw [htext]
  cases sym.global with
  | true =>
    simp only [if_true, Line.render, Ty.render, Zero.render, List.append_assoc]
    rfl
  | false =>
    simp only [Bool.false_eq_true, if_false, Line.render, Local.render, Ty.render,
      List.append_assoc, List.nil_append]

/-- An array is declared exactly if its bounds are decimal integers of 64 bits that give it a length,
with that length in its type; otherwise its bounds are invalid.  For bounds in their order the length
is their exact difference. -/
theorem declaration_array_iff (style : PointerStyle) (name : Bytes) (sym : Symbol) (type : Scalar)
    (b : Bounds) :
    (∀ out, (declaration name { sym with kind := .scalar type, bounds := some b }).map
        (Line.render style) = .ok out ↔
      ∃ length, b.Gives length ∧ out = arrayText style name sym.global type length) ∧
    (∀ e, declaration name { sym with kind := .scalar type, bounds := some b } = .error e ↔
      (¬∃ length, b.Gives length) ∧ e = .invalidBounds b) ∧
    (Error.invalidBounds b).failure.category = .type ∧
    (Error.invalidBounds b).failure.code = text "INVALID_BOUNDS" := by
  have hdeclaration : declaration name { sym with kind := .scalar type, bounds := some b } =
      (Storage.ofArray type b).map fun storage =>
        if sym.global then .global name storage.ty storage.zero storage.align
        else .alloca (.named name) storage.ty storage.align := by
    unfold declaration Storage.ofSymbol
    dsimp only
    cases Storage.ofArray type b with
    | error e => rfl
    | ok storage => cases sym.global <;> rfl
  rw [hdeclaration]
  rcases ofArray_cases type b with ⟨n, hn, hstorage⟩ | ⟨hnone, hstorage⟩
  · obtain ⟨hlength, hnonneg⟩ := Bounds.length_nonneg_iff.mpr hn
    rw [hstorage]
    refine ⟨fun out => ?_, fun e => ?_, rfl, rfl⟩
    · simp only [Except.map, Except.ok.injEq, render_declaration_array style name sym type hnonneg]
      constructor
      · rintro rfl
        exact ⟨n, hn, rfl⟩
      · rintro ⟨m, hm, rfl⟩
        have hsame := hlength.symm.trans (Bounds.length_nonneg_iff.mpr hm).1
        cases hsame
        rfl
    · simp only [Except.map, reduceCtorEq, false_iff]
      exact fun h => h.1 ⟨n, hn⟩
  · rw [hstorage]
    refine ⟨fun out => ?_, fun e => ?_, rfl, rfl⟩
    · simp only [Except.map, reduceCtorEq, false_iff]
      rintro ⟨n, hn, -⟩
      exact hnone ⟨n, hn⟩
    · simp only [Except.map, Except.error.injEq]
      exact ⟨fun h => ⟨hnone, h.symm⟩, fun h => h.2.symm⟩

/-- Bounds in the wrong order, as far apart as 64 bits allow. -/
def reversedBounds : Bounds := ⟨text "9223372036854775807", text "-9223372036854775808"⟩

/-- The upper bound is less than the lower one, and yet they declare an array of one element. -/
theorem reversedBounds_declared :
    Numeral.readInt reversedBounds.lower = .ok 0x7FFFFFFFFFFFFFFF ∧
    Numeral.readInt reversedBounds.upper = .ok (-0x8000000000000000) ∧
    declaration (text "a") { kind := .scalar .integer, bounds := some reversedBounds } =
      .ok (.alloca (.named (text "a")) (.array 1 .i32) 16) := by
  refine ⟨rfl, rfl, rfl⟩

end Ir

end OnePass
