import OnePass.Proofs.Elaboration.Basic
import OnePass.Proofs.Numeral
set_option autoImplicit false

/-!
# The translation of a program tree

The code of a tree, read off the tree part by part: the global variables in the order of the text,
then the procedures, each behind those inside of it, and the program's own function last.  Nothing
here speaks of symbol tables, or of functions that are left and returned to.

The lines of variables are those that their symbols become (`Variable.declaration_eq`), as long as
their bounds are numbers of 64 bits and give the array a size.
-/

namespace OnePass.Tree

/-! ## Bounds as numbers -/

/-- The number that digits stand for, behind digits that stand for `n`. -/
def digitsFrom (n : Nat) (s : Bytes) : Nat := s.foldl (fun n b => n * 10 + Ascii.digitValue b) n

/-- The number that a bound stands for. -/
def Bound.value (b : Bound) : Int :=
  if b.negative then -(digitsFrom 0 b.digits : Int) else digitsFrom 0 b.digits

/-- The lower and the upper bound of an array. -/
def Extent.range? : Extent → Option (Int × Int)
  | .single => none
  | .upTo upper => some (0, upper.value)
  | .between lower upper => some (lower.value, upper.value)

/-- Whether 64 bits hold a number. -/
def FitsWord (n : Int) : Prop := -0x8000000000000000 ≤ n ∧ n ≤ 0x7FFFFFFFFFFFFFFF

instance (n : Int) : Decidable (FitsWord n) := inferInstanceAs (Decidable (_ ∧ _))

/-- Whether the bounds of an array, if it is one, are numbers of 64 bits, and so is its length. -/
def Extent.Valid (e : Extent) : Prop :=
  ∀ r ∈ e.range?, FitsWord r.1 ∧ FitsWord r.2 ∧ 0 ≤ r.2 - r.1 ∧ r.2 - r.1 ≤ 0x7FFFFFFFFFFFFFFF

instance (e : Extent) : Decidable e.Valid :=
  inferInstanceAs (Decidable (∀ r ∈ e.range?, _ ∧ _ ∧ _ ∧ _))

/-! ## Lines -/

/-- The storage of a variable: one value, or an array of as many values as its bounds are apart. -/
def Variable.storage (v : Variable) : Ir.Storage :=
  match v.extent.range? with
  | none => ⟨.ofScalar v.type, Ir.scalarAlign v.type, .ofScalar v.type⟩
  | some (lower, upper) =>
    ⟨.array (upper - lower).toNat (.ofScalar v.type), Ir.arrayAlign v.type, .aggregate⟩

/-- The line of a variable with a key. -/
def Variable.line (v : Variable) (key : ScopeKey) : Ir.Line :=
  if v.global then .global key.irName v.storage.ty v.storage.zero v.storage.align
  else .alloca (.named key.irName) v.storage.ty v.storage.align

/-- The lines that keep parameters in slots, from a slot's number on. -/
def slotLines : Nat → List Ir.Formal → List Ir.Line
  | _, [] => []
  | n, p :: ps =>
    .alloca (.slot n) p.ty p.align :: .store p.ty (.named p.name) (.slot n) :: slotLines (n + 1) ps

/-- The lines of a procedure with a key, given those of its own variables. -/
def Heading.unit (h : Heading) (key : ScopeKey) (locals : List Ir.Line) : List Ir.Line :=
  .procedure key.irName (h.formals.map Formal.emitted)
    :: (slotLines 1 (h.formals.map Formal.emitted) ++ locals ++ [.returnVoid, .close, .blank])

/-- The keys of a procedure with a key, and of its parameters. -/
def Heading.keys (h : Heading) (key : ScopeKey) : List ScopeKey :=
  key :: h.formals.map fun f => key.child f.name.lower

/-! ## Declarations

All of them take the key of the program and the key of the scope that they are in. -/

namespace Declarations

/-- The lines of the global variables, those that procedures declare included. -/
def globals (root : ScopeKey) : Declarations → ScopeKey → List Ir.Line
  | .nil, _ => []
  | .variableDecl v rest, scope =>
    (if v.global then [v.line (v.key root scope)] else []) ++ rest.globals root scope
  | .procedureDecl h inner _ rest, scope =>
    inner.globals root (h.key root scope) ++ rest.globals root scope

/-- The lines of the scope's own variables. -/
def locals (root : ScopeKey) : Declarations → ScopeKey → List Ir.Line
  | .nil, _ => []
  | .variableDecl v rest, scope =>
    (if v.global then [] else [v.line (v.key root scope)]) ++ rest.locals root scope
  | .procedureDecl _ _ _ rest, scope => rest.locals root scope

/-- The lines of the procedures, in the order in which their bodies end. -/
def units (root : ScopeKey) : Declarations → ScopeKey → List Ir.Line
  | .nil, _ => []
  | .variableDecl _ rest, scope => rest.units root scope
  | .procedureDecl h inner _ rest, scope =>
    let key := h.key root scope
    inner.units root key ++ h.unit key (inner.locals root key) ++ rest.units root scope

/-- The keys of all that is declared: variables, procedures and parameters. -/
def keys (root : ScopeKey) : Declarations → ScopeKey → List ScopeKey
  | .nil, _ => []
  | .variableDecl v rest, scope => v.key root scope :: rest.keys root scope
  | .procedureDecl h inner _ rest, scope =>
    let key := h.key root scope
    h.keys key ++ inner.keys root key ++ rest.keys root scope

/-- Whether all variables have valid bounds. -/
def Valid : Declarations → Prop
  | .nil => True
  | .variableDecl v rest => v.extent.Valid ∧ rest.Valid
  | .procedureDecl _ inner _ rest => inner.Valid ∧ rest.Valid

instance decidableValid : (ds : Declarations) → Decidable ds.Valid
  | .nil => isTrue trivial
  | .variableDecl v rest =>
    have := decidableValid rest
    inferInstanceAs (Decidable (v.extent.Valid ∧ rest.Valid))
  | .procedureDecl _ inner _ rest =>
    have := decidableValid inner
    have := decidableValid rest
    inferInstanceAs (Decidable (inner.Valid ∧ rest.Valid))

end Declarations

/-- The keys of all that a program declares. -/
def keys (t : Tree) : List ScopeKey := t.declarations.keys t.name.lower t.name.lower

/-- The code of a program. -/
def translation (t : Tree) : List Ir.Line :=
  let root := t.name.lower
  t.declarations.globals root root ++ [.blank] ++ t.declarations.units root root
    ++ .main :: (t.declarations.locals root root ++ [.blank, .returnZero, .close])

/-! ## The lines of variables -/

section Numerals

open Numeral

theorem le_digitsFrom (n : Nat) (s : Bytes) : n ≤ digitsFrom n s := by
  induction s generalizing n with
  | nil => exact Nat.le_refl n
  | cons b rest ih =>
    have hstep := ih (n * 10 + Ascii.digitValue b)
    have hcons : digitsFrom n (b :: rest) = digitsFrom (n * 10 + Ascii.digitValue b) rest := rfl
    omega

/-- Digits are read as the number that they stand for, as long as the limit holds it. -/
theorem readDigits_eq {limit : Nat} {s : Bytes} (hs : s.all Ascii.isDigit = true) (n : Nat)
    (hlimit : digitsFrom n s ≤ limit) : readDigits 10 limit n s = .ok (digitsFrom n s) := by
  induction s generalizing n with
  | nil => rfl
  | cons b rest ih =>
    obtain ⟨hb, hrest⟩ := Bool.and_eq_true_iff.mp hs
    have hdigit : Ascii.letterDigit? b = some (Ascii.digitValue b) := by
      simp [Ascii.letterDigit?, hb]
    have hsmall : Ascii.digitValue b < 10 := by
      simp only [Ascii.isDigit, Bool.and_eq_true, decide_eq_true_eq, UInt8.le_iff_toNat_le] at hb
      unfold Ascii.digitValue
      have htop : (0x39 : UInt8).toNat = 0x39 := rfl
      omega
    have hcons : digitsFrom n (b :: rest) = digitsFrom (n * 10 + Ascii.digitValue b) rest := rfl
    have hstep := le_digitsFrom (n * 10 + Ascii.digitValue b) rest
    rw [hcons] at hlimit ⊢
    rw [readDigits, hdigit]
    simp only [ge_iff_le, gt_iff_lt]
    rw [if_neg (by omega), if_neg (by omega)]
    exact ih hrest _ hlimit

theorem cutSign_digits {s : Bytes} (hs : Lexeme.IsDigits s) : cutSign s = (false, s) := by
  obtain ⟨hne, hall⟩ := hs
  cases s with
  | nil => exact absurd rfl hne
  | cons b rest =>
    obtain ⟨hb, -⟩ := Bool.and_eq_true_iff.mp hall
    exact cutSign_digit hb rest

theorem readUnsigned_digits {s : Bytes} (hs : Lexeme.IsDigits s)
    (hlimit : digitsFrom 0 s ≤ unsignedLimit) : readUnsigned s = .ok (digitsFrom 0 s) := by
  have hempty : s.isEmpty = false := by simpa using hs.1
  rw [readUnsigned, hempty]
  exact readDigits_eq hs.2 0 hlimit

/-- A bound is read as the number that it stands for, as long as 64 bits hold it. -/
theorem readInt_text {b : Bound} (hb : FitsWord b.value) : readInt b.text = .ok b.value := by
  obtain ⟨hlow, hhigh⟩ := hb
  unfold Bound.value at hlow hhigh ⊢
  unfold Bound.text readInt
  cases hnegative : b.negative with
  | true =>
    rw [hnegative, if_pos rfl] at hlow
    have hread : readUnsigned b.digits = .ok (digitsFrom 0 b.digits) :=
      readUnsigned_digits b.isDigits (by unfold unsignedLimit; omega)
    have hcut : cutSign ([Ascii.minus] ++ b.digits) = (true, b.digits) := by simp [cutSign]
    rw [if_pos rfl, if_pos rfl, hcut]
    simp only [hread]
    have hsmall : ¬digitsFrom 0 b.digits > 0x8000000000000000 := by omega
    have hsigned : signed true (digitsFrom 0 b.digits) = .ok (-(digitsFrom 0 b.digits : Int)) := by
      rw [signed, if_pos rfl, if_neg hsmall]
    exact hsigned
  | false =>
    rw [hnegative, if_neg (by decide)] at hhigh
    have hread : readUnsigned b.digits = .ok (digitsFrom 0 b.digits) :=
      readUnsigned_digits b.isDigits (by unfold unsignedLimit; omega)
    rw [if_neg (by decide), if_neg (by decide), List.nil_append, cutSign_digits b.isDigits]
    simp only [hread]
    have hsmall : ¬digitsFrom 0 b.digits ≥ 0x8000000000000000 := by omega
    have hsigned : signed false (digitsFrom 0 b.digits) = .ok (digitsFrom 0 b.digits : Int) := by
      rw [signed, if_neg Bool.false_ne_true, if_neg hsmall]
    exact hsigned

/-- Bounds that are read, and whose difference 64 bits hold, give that difference as the length. -/
theorem length_of_readInt {b : Bounds} {lower upper : Int} (hlower : readInt b.lower = .ok lower)
    (hupper : readInt b.upper = .ok upper) (hnonneg : 0 ≤ upper - lower)
    (hmax : upper - lower ≤ 0x7FFFFFFFFFFFFFFF) : b.length = .ok (upper - lower) := by
  have hvalue {s : Bytes} {n : Int} (h : readInt s = .ok n) : Bounds.value s = .ok n := by
    rw [Bounds.value, h]
    rfl
  have hbmod : (upper - lower).bmod 0x10000000000000000 = upper - lower := by
    apply Int.bmod_eq_of_le
    · omega
    · omega
  rw [Bounds.length, hvalue hlower, hvalue hupper]
  exact congrArg Except.ok hbmod

end Numerals

/-- The storage of an array whose bounds are read. -/
theorem ofArray_of_length {b : Bounds} {n : Int} (h : b.length = .ok n) (hn : 0 ≤ n)
    (type : Scalar) : Ir.Storage.ofArray type b =
      .ok ⟨.array n.toNat (.ofScalar type), Ir.arrayAlign type, .aggregate⟩ := by
  rw [Ir.Storage.ofArray, h]
  exact if_neg (Int.not_lt.mpr hn)

theorem Variable.ofSymbol_eq {v : Variable} (hv : v.extent.Valid) :
    Ir.Storage.ofSymbol v.symbol = .ok v.storage := by
  unfold Ir.Storage.ofSymbol Variable.symbol Variable.storage
  cases he : v.extent with
  | single => rfl
  | upTo upper =>
    rw [he] at hv
    obtain ⟨-, hupper, hnonneg, hmax⟩ := hv (0, upper.value) rfl
    have hzero : Numeral.readInt (OnePass.text "0") = .ok 0 := rfl
    exact ofArray_of_length (length_of_readInt hzero (readInt_text hupper) hnonneg hmax) hnonneg _
  | between lower upper =>
    rw [he] at hv
    obtain ⟨hlower, hupper, hnonneg, hmax⟩ := hv (lower.value, upper.value) rfl
    exact ofArray_of_length
      (length_of_readInt (readInt_text hlower) (readInt_text hupper) hnonneg hmax) hnonneg _

/-- The symbol of a variable with valid bounds becomes the line of the variable. -/
theorem Variable.declaration_eq {v : Variable} (hv : v.extent.Valid) (key : ScopeKey) :
    Ir.declaration key.irName v.symbol = .ok (v.line key) := by
  rw [Ir.declaration, Variable.ofSymbol_eq hv, Variable.line]
  cases hglobal : v.global with
  | false => simp [Variable.symbol, hglobal, bind, Except.bind, pure, Except.pure]
  | true => simp [Variable.symbol, hglobal, bind, Except.bind, pure, Except.pure]

/-! ## Functions -/

theorem foldl_pushParameter (f : Ir.Function) (ps : List Ir.Formal) :
    ps.foldl Ir.Function.pushParameter f =
      { f with body := f.body ++ slotLines f.temp ps, temp := f.temp + ps.length } := by
  induction ps generalizing f with
  | nil => simp [slotLines]
  | cons p ps ih =>
    rw [List.foldl_cons, ih]
    simp only [Ir.Function.pushParameter, slotLines, List.append_assoc, List.cons_append,
      List.nil_append, List.length_cons, Ir.Function.mk.injEq, true_and]
    omega

/-- The function of a procedure keeps its parameters in the slots from the first one on. -/
theorem ofProcedure_eq (name : Bytes) (ps : List Ir.Formal) :
    Ir.Function.ofProcedure name ps = ⟨.procedure name ps, slotLines 1 ps, 1 + ps.length⟩ := by
  rw [Ir.Function.ofProcedure, foldl_pushParameter]
  rfl

end OnePass.Tree
