import OnePass.Proofs.Folding.Lexical
import OnePass.Proofs.Utf8
set_option autoImplicit false

/-!
# Small letters

Making a text small changes letters only.  Whatever the text is, a byte of ASCII that is no letter is in
the small text only if it is in the text itself (`Bytes.mem_of_mem_lower`): beyond ASCII a capital has its
small letter beyond ASCII as well, or at one of the letters from `a` to `z`.  So the name of a scope holds
no period after it is made small, and is not empty then (`Bytes.lower_ne_nil`).
-/

namespace OnePass

namespace Utf8

/-! ## The small letter of a character -/

/-- Whether the small letters of a run are characters, and none of them is a byte of ASCII other than the
letters from `a` to `z`. -/
def CaseRun.isProper (r : CaseRun) : Bool :=
  (0x61 ≤ r.first + r.shift && r.last + r.shift ≤ 0x7a || 0x80 ≤ r.first + r.shift)
    && (r.last + r.shift < 0xd800 || 0xe000 ≤ r.first + r.shift && r.last + r.shift < 0x110000)

theorem isProper_of_mem_caseRuns : caseRuns.all CaseRun.isProper = true := by
  decide +kernel

theorem isScalar_lowerCode {code : Nat} (h : IsScalar code) (hbeyond : 0x80 ≤ code) :
    IsScalar (lowerCode code) ∧
      (0x80 ≤ lowerCode code ∨ 0x61 ≤ lowerCode code ∧ lowerCode code ≤ 0x7a) := by
  rw [lowerCode, if_neg (Nat.not_lt.mpr hbeyond)]
  cases hrun : caseRuns.find? (·.covers code) with
  | none => exact ⟨h, .inl hbeyond⟩
  | some run =>
    have hproper := List.all_eq_true.mp isProper_of_mem_caseRuns run (List.mem_of_find?_eq_some hrun)
    have hcovers := List.find?_some hrun
    simp only [CaseRun.covers, Bool.and_eq_true, decide_eq_true_eq] at hcovers
    simp only [CaseRun.isProper, Bool.and_eq_true, Bool.or_eq_true, decide_eq_true_eq] at hproper
    unfold IsScalar
    dsimp only
    omega

theorem isLetter_of_bounds {n : Nat} (hlow : 0x61 ≤ n) (hhigh : n ≤ 0x7a) :
    Ascii.isLetter n.toUInt8 = true := by
  have hn : n.toUInt8.toNat = n := toNat_toUInt8 (by omega)
  simp only [Ascii.isLetter, Ascii.isLower, Bool.or_eq_true, Bool.and_eq_true, decide_eq_true_eq,
    UInt8.le_iff_toNat_le, hn]
  exact .inl ⟨hlow, hhigh⟩

/-- What the encoding of a small letter has in ASCII is a letter, unless it is what the character itself is
encoded as. -/
theorem mem_encode_of_mem_encode_lowerCode {code : Nat} {b : UInt8} (h : IsScalar code)
    (hb : b < 0x80) (hletter : Ascii.isLetter b = false) (hmem : b ∈ encode (lowerCode code)) :
    b ∈ encode code := by
  rcases Nat.lt_or_ge code 0x80 with hascii | hbeyond
  · have hbyte : code.toUInt8 < 0x80 := by
      rwa [UInt8.lt_iff_toNat_lt, toNat_toUInt8 (by omega)]
    have hlower : lowerCode code = (Ascii.toLower code.toUInt8).toNat := by
      rw [lowerCode, if_pos hascii]
    rw [hlower, encode_one (UInt8.lt_iff_toNat_lt.mp (toLower_lt.mpr hbyte)), toUInt8_eq rfl,
      List.mem_singleton] at hmem
    rw [encode_one hascii, List.mem_singleton, (Ascii.toLower_eq_iff hletter).mp hmem.symm]
  · obtain ⟨hscalar, hplace | ⟨hlow, hhigh⟩⟩ := isScalar_lowerCode h hbeyond
    · exact absurd (le_of_mem_encode hscalar hplace b hmem) (UInt8.not_le.mpr hb)
    · rw [encode_one (by omega), List.mem_singleton] at hmem
      rw [hmem, isLetter_of_bounds hlow hhigh] at hletter
      cases hletter

theorem encode_ne_nil (code : Nat) : encode code ≠ [] := by
  unfold encode
  split
  · simp
  · split
    · simp
    · split <;> simp

theorem suffix_first (a : UInt8) (rest : Bytes) : (first a rest).2 <:+ a :: rest := by
  rcases hfirst : first a rest with ⟨code | byte, after⟩
  · exact ⟨encode code, (first_eq_point hfirst).2⟩
  · unfold first at hfirst
    split at hfirst
    · cases hfirst
    · split at hfirst
      · cases hfirst
      · cases hfirst
        exact List.suffix_cons a rest

/-- The bytes of a character that is read in a text are bytes of the text. -/
theorem subset_of_mem_pieces {s : Bytes} {code : Nat} (h : .point code ∈ pieces s) :
    IsScalar code ∧ encode code ⊆ s := by
  fun_induction pieces s with
  | case1 => exact absurd h (List.not_mem_nil)
  | case2 a rest ih =>
    rcases List.mem_cons.mp h with hfirst | hlater
    · obtain ⟨hscalar, htext⟩ := first_eq_point (Prod.ext hfirst.symm rfl)
      exact ⟨hscalar, htext ▸ List.subset_append_left _ _⟩
    · obtain ⟨hscalar, hsubset⟩ := ih hlater
      exact ⟨hscalar, List.Subset.trans hsubset (suffix_first a rest).subset⟩

end Utf8

namespace Bytes

/-! ## The small letters of a text -/

theorem mem_of_mem_lower {s : Bytes} {b : UInt8} (hb : b < 0x80) (hletter : Ascii.isLetter b = false)
    (h : b ∈ s.lower) : b ∈ s := by
  by_cases hascii : s.isAscii = true
  · rw [lower_of_isAscii hascii, lowerAscii, List.mem_map] at h
    obtain ⟨c, hc, hcb⟩ := h
    rwa [(Ascii.toLower_eq_iff hletter).mp hcb] at hc
  · rw [lower, if_neg hascii, List.mem_flatMap] at h
    obtain ⟨piece, hpiece, hmem⟩ := h
    cases piece with
    | point code =>
      obtain ⟨hscalar, hsubset⟩ := Utf8.subset_of_mem_pieces hpiece
      exact hsubset (Utf8.mem_encode_of_mem_encode_lowerCode hscalar hb hletter hmem)
    | stray byte =>
      -- The replacement character has no small letter.
      have hcode : Utf8.lowerCode Utf8.replacement = Utf8.replacement := by decide +kernel
      rw [Utf8.Piece.code, hcode] at hmem
      have hbeyond : ∀ c ∈ Utf8.encode Utf8.replacement, 0x80 ≤ c :=
        Utf8.le_of_mem_encode (.inr (by decide)) (by decide)
      exact absurd (hbeyond b hmem) (UInt8.not_le.mpr hb)

theorem period_notMem_lower {s : Bytes} (h : Ascii.period ∉ s) : Ascii.period ∉ s.lower :=
  fun hmem => h (mem_of_mem_lower (by decide) (by decide) hmem)

theorem lower_ne_nil {s : Bytes} (h : s ≠ []) : s.lower ≠ [] := by
  obtain ⟨a, rest, rfl⟩ := List.exists_cons_of_ne_nil h
  by_cases hascii : isAscii (a :: rest) = true
  · rw [lower_of_isAscii hascii, lowerAscii]
    simp
  · rw [lower, if_neg hascii, Utf8.pieces]
    simp [Utf8.encode_ne_nil]

end Bytes

end OnePass
