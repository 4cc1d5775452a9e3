import OnePass.Text.Lowercase
set_option autoImplicit false

/-!
# Valid UTF-8

A text is valid if and only if it is made of the encodings of characters (`isValid_iff`): an encoding is
read as the character that it is the encoding of, whatever stands behind it (`first_encode`), and what is
read as a character is its encoding (`first_eq_point`).  So nothing has to be replaced in a valid text
(`scrub_of_isValid`), and valid texts can be put together.
-/

namespace OnePass.Utf8

/-! ## Characters and their encodings -/

/-- Whether a number is that of a character: there are none beyond `0x10ffff`, and the halves of surrogate
pairs are none. -/
def IsScalar (code : Nat) : Prop := code < 0xd800 ∨ 0xe000 ≤ code ∧ code < 0x110000

theorem toNat_toUInt8 {n : Nat} (h : n < 0x100) : n.toUInt8.toNat = n := by
  simp [Nat.toUInt8, UInt8.toNat_ofNat']
  omega

theorem toUInt8_eq {n : Nat} {b : UInt8} (h : n = b.toNat) : n.toUInt8 = b := by
  rw [h]
  simp

theorem isTail_iff {b : UInt8} : isTail b = true ↔ 0x80 ≤ b.toNat ∧ b.toNat < 0xc0 := by
  simp only [isTail, Bool.and_eq_true, decide_eq_true_eq, UInt8.le_iff_toNat_le]
  exact and_congr_right fun _ => Nat.lt_succ_iff.symm

theorem encode_one {code : Nat} (h : code < 0x80) : encode code = [code.toUInt8] := by
  rw [encode, if_pos h]

theorem encode_two {code : Nat} (h : 0x80 ≤ code) (h' : code < 0x800) :
    encode code = [(0xc0 + code / 0x40).toUInt8, (0x80 + code % 0x40).toUInt8] := by
  rw [encode, if_neg (Nat.not_lt.mpr h), if_pos h']

theorem encode_three {code : Nat} (h : 0x800 ≤ code) (h' : code < 0x10000) :
    encode code = [(0xe0 + code / 0x1000).toUInt8, (0x80 + code / 0x40 % 0x40).toUInt8,
      (0x80 + code % 0x40).toUInt8] := by
  rw [encode, if_neg (by omega), if_neg (by omega), if_pos h']

theorem encode_four {code : Nat} (h : 0x10000 ≤ code) :
    encode code = [(0xf0 + code / 0x40000).toUInt8, (0x80 + code / 0x1000 % 0x40).toUInt8,
      (0x80 + code / 0x40 % 0x40).toUInt8, (0x80 + code % 0x40).toUInt8] := by
  rw [encode, if_neg (by omega), if_neg (by omega), if_neg (by omega)]

/-- Beyond ASCII no byte of an encoding is that of a character by itself. -/
theorem le_of_mem_encode {code : Nat} (h : IsScalar code) (hbeyond : 0x80 ≤ code) :
    ∀ b ∈ encode code, 0x80 ≤ b := by
  have hbyte (n : Nat) (hlow : 0x80 ≤ n) (hhigh : n < 0x100) : 0x80 ≤ n.toUInt8 := by
    rw [UInt8.le_iff_toNat_le, toNat_toUInt8 hhigh]
    exact hlow
  unfold IsScalar at h
  rcases Nat.lt_or_ge code 0x800 with htwo | hthree
  · rw [encode_two hbeyond htwo]
    simp only [List.forall_mem_cons]
    exact ⟨hbyte _ (by omega) (by omega), hbyte _ (by omega) (by omega), List.forall_mem_nil _⟩
  rcases Nat.lt_or_ge code 0x10000 with hthree' | hfour
  · rw [encode_three hthree hthree']
    simp only [List.forall_mem_cons]
    exact ⟨hbyte _ (by omega) (by omega), hbyte _ (by omega) (by omega),
      hbyte _ (by omega) (by omega), List.forall_mem_nil _⟩
  · rw [encode_four hfour]
    simp only [List.forall_mem_cons]
    exact ⟨hbyte _ (by omega) (by omega), hbyte _ (by omega) (by omega),
      hbyte _ (by omega) (by omega), hbyte _ (by omega) (by omega), List.forall_mem_nil _⟩

/-! ## Reading one character -/

section Reading

variable {a b c d : UInt8} {rest after : Bytes} {code : Nat}

theorem leads_two_iff : (0xc2 ≤ a && a ≤ 0xdf && isTail b) = true ↔
    0xc2 ≤ a.toNat ∧ a.toNat ≤ 0xdf ∧ 0x80 ≤ b.toNat ∧ b.toNat < 0xc0 := by
  simp only [Bool.and_eq_true, decide_eq_true_eq, UInt8.le_iff_toNat_le, isTail_iff, and_assoc]
  rfl

theorem leads_three_iff : (0xe0 ≤ a && a ≤ 0xef && isTail b && isTail c && 0x800 ≤ code
      && !(0xd800 ≤ code && code ≤ 0xdfff)) = true ↔
    0xe0 ≤ a.toNat ∧ a.toNat ≤ 0xef ∧ (0x80 ≤ b.toNat ∧ b.toNat < 0xc0) ∧
      (0x80 ≤ c.toNat ∧ c.toNat < 0xc0) ∧ 0x800 ≤ code ∧ (code < 0xd800 ∨ 0xe000 ≤ code) := by
  have hsurrogate : (!(0xd800 ≤ code && code ≤ 0xdfff)) = true ↔ code < 0xd800 ∨ 0xe000 ≤ code := by
    simp only [Bool.not_eq_true', Bool.and_eq_false_iff, decide_eq_false_iff_not]
    omega
  simp only [Bool.and_eq_true, decide_eq_true_eq, UInt8.le_iff_toNat_le, isTail_iff, hsurrogate, and_assoc]
  rfl

theorem leads_four_iff : (0xf0 ≤ a && a ≤ 0xf4 && isTail b && isTail c && isTail d && 0x10000 ≤ code
      && code ≤ 0x10ffff) = true ↔
    0xf0 ≤ a.toNat ∧ a.toNat ≤ 0xf4 ∧ (0x80 ≤ b.toNat ∧ b.toNat < 0xc0) ∧
      (0x80 ≤ c.toNat ∧ c.toNat < 0xc0) ∧ (0x80 ≤ d.toNat ∧ d.toNat < 0xc0) ∧ 0x10000 ≤ code ∧
      code ≤ 0x10ffff := by
  simp only [Bool.and_eq_true, decide_eq_true_eq, UInt8.le_iff_toNat_le, isTail_iff, and_assoc]
  rfl

/-- What is read as a character is its encoding. -/
theorem of_two? (h : two? a rest = some (code, after)) :
    IsScalar code ∧ encode code ++ after = a :: rest := by
  unfold two? at h
  split at h
  · next b rest =>
    split at h
    · next hlead =>
      obtain ⟨hlow, hhigh, htail⟩ := leads_two_iff.mp hlead
      cases h
      unfold tailBits IsScalar
      rw [encode_two (by omega) (by omega)]
      refine ⟨by omega, ?_⟩
      rw [toUInt8_eq (b := a) (by omega), toUInt8_eq (b := b) (by omega)]
      rfl
    · cases h
  · cases h

theorem of_three? (h : three? a rest = some (code, after)) :
    IsScalar code ∧ encode code ++ after = a :: rest := by
  unfold three? at h
  split at h
  · next b c rest =>
    dsimp only at h
    split at h
    · next hlead =>
      obtain ⟨hlow, hhigh, htail, htail', hlong, hscalar⟩ := leads_three_iff.mp hlead
      cases h
      unfold tailBits at hlong hscalar ⊢
      rw [encode_three hlong (by omega)]
      refine ⟨hscalar.imp_right fun hle => ⟨hle, by omega⟩, ?_⟩
      rw [toUInt8_eq (b := a) (by omega), toUInt8_eq (b := b) (by omega), toUInt8_eq (b := c) (by omega)]
      rfl
    · cases h
  · cases h

theorem of_four? (h : four? a rest = some (code, after)) :
    IsScalar code ∧ encode code ++ after = a :: rest := by
  unfold four? at h
  split at h
  · next b c d rest =>
    dsimp only at h
    split at h
    · next hlead =>
      obtain ⟨hlow, hhigh, htail, htail', htail'', hlong, hscalar⟩ := leads_four_iff.mp hlead
      cases h
      unfold tailBits at hlong hscalar ⊢
      rw [encode_four hlong]
      refine ⟨.inr ⟨by omega, by omega⟩, ?_⟩
      rw [toUInt8_eq (b := a) (by omega), toUInt8_eq (b := b) (by omega), toUInt8_eq (b := c) (by omega),
        toUInt8_eq (b := d) (by omega)]
      rfl
    · cases h
  · cases h

theorem first_eq_point (h : first a rest = (.point code, after)) :
    IsScalar code ∧ encode code ++ after = a :: rest := by
  unfold first at h
  split at h
  · next hascii =>
    cases h
    have hlt := UInt8.lt_iff_toNat_lt.mp hascii
    refine ⟨.inl (Nat.lt_of_lt_of_le hlt (by decide)), ?_⟩
    rw [encode_one hlt, toUInt8_eq rfl]
    rfl
  · split at h
    · next found after' hfound =>
      cases h
      cases htwo : two? a rest with
      | some _ =>
        rw [htwo] at hfound
        exact of_two? (htwo.trans hfound)
      | none =>
        cases hthree : three? a rest with
        | some _ =>
          rw [htwo, hthree] at hfound
          exact of_three? (hthree.trans hfound)
        | none =>
          rw [htwo, hthree] at hfound
          exact of_four? hfound
    · cases h

/-- The first byte of a longer encoding tells its length. -/
theorem two?_eq_none (h : 0xe0 ≤ a.toNat) (rest : Bytes) : two? a rest = none := by
  cases rest with
  | nil => rfl
  | cons b rest =>
    refine if_neg fun hlead => ?_
    have hhigh := (leads_two_iff.mp hlead).2.1
    omega

theorem three?_eq_none (h : 0xf0 ≤ a.toNat) (rest : Bytes) : three? a rest = none := by
  rcases rest with _ | ⟨b, _ | ⟨c, rest⟩⟩
  · rfl
  · rfl
  · refine if_neg fun hlead => ?_
    have hhigh := (leads_three_iff.mp hlead).2.1
    omega

theorem first_of_two? (ha : 0x80 ≤ a.toNat) (h : two? a rest = some (code, after)) :
    first a rest = (.point code, after) := by
  have hbeyond : ¬a < 0x80 := fun hlt => Nat.not_lt.mpr ha (UInt8.lt_iff_toNat_lt.mp hlt)
  rw [first, if_neg hbeyond, h]
  rfl

theorem first_of_three? (ha : 0xe0 ≤ a.toNat) (h : three? a rest = some (code, after)) :
    first a rest = (.point code, after) := by
  have hbeyond : ¬a < 0x80 :=
    fun hlt => Nat.not_lt.mpr (Nat.le_trans (by decide) ha) (UInt8.lt_iff_toNat_lt.mp hlt)
  rw [first, if_neg hbeyond, two?_eq_none ha, h]
  rfl

theorem first_of_four? (ha : 0xf0 ≤ a.toNat) (h : four? a rest = some (code, after)) :
    first a rest = (.point code, after) := by
  have hbeyond : ¬a < 0x80 :=
    fun hlt => Nat.not_lt.mpr (Nat.le_trans (by decide) ha) (UInt8.lt_iff_toNat_lt.mp hlt)
  rw [first, if_neg hbeyond, two?_eq_none (Nat.le_trans (by decide) ha), three?_eq_none ha, h]
  rfl

/-- The encoding of a character is read as that character. -/
theorem first_encode (h : IsScalar code) (t : Bytes) :
    ∃ a rest, encode code ++ t = a :: rest ∧ first a rest = (.point code, t) := by
  unfold IsScalar at h
  have htail (n : Nat) : (0x80 + n % 0x40).toUInt8.toNat = 0x80 + n % 0x40 := toNat_toUInt8 (by omega)
  by_cases hone : code < 0x80
  · have ha := toNat_toUInt8 (n := code) (by omega)
    rw [encode_one hone]
    refine ⟨_, _, rfl, ?_⟩
    rw [first, if_pos (UInt8.lt_iff_toNat_lt.mpr (by rw [ha]; exact hone)), ha]
    rfl
  by_cases htwo : code < 0x800
  · have ha := toNat_toUInt8 (n := 0xc0 + code / 0x40) (by omega)
    rw [encode_two (by omega) htwo]
    refine ⟨_, _, rfl, first_of_two? (by omega) ?_⟩
    refine (if_pos (leads_two_iff.mpr ?_)).trans ?_
    · rw [ha, htail]
      omega
    · simp only [ha, tailBits, htail]
      congr 2
      omega
  by_cases hthree : code < 0x10000
  · have ha := toNat_toUInt8 (n := 0xe0 + code / 0x1000) (by omega)
    rw [encode_three (by omega) hthree]
    refine ⟨_, _, rfl, first_of_three? (by omega) ?_⟩
    refine (if_pos (leads_three_iff.mpr ?_)).trans ?_
    · simp only [ha, tailBits, htail]
      omega
    · simp only [ha, tailBits, htail]
      congr 2
      omega
  · have ha := toNat_toUInt8 (n := 0xf0 + code / 0x40000) (by omega)
    rw [encode_four (by omega)]
    refine ⟨_, _, rfl, first_of_four? (by omega) ?_⟩
    refine (if_pos (leads_four_iff.mpr ?_)).trans ?_
    · simp only [ha, tailBits, htail]
      omega
    · simp only [ha, tailBits, htail]
      congr 2
      omega

end Reading

/-! ## Texts -/

section Texts

variable {code : Nat} {codes : List Nat} {s t : Bytes}

theorem pieces_encode_append (h : IsScalar code) (t : Bytes) :
    pieces (encode code ++ t) = .point code :: pieces t := by
  obtain ⟨a, rest, heq, hfirst⟩ := first_encode h t
  rw [heq, pieces, hfirst]

theorem pieces_flatMap_encode (h : ∀ code ∈ codes, IsScalar code) :
    pieces (codes.flatMap encode) = codes.map .point := by
  induction codes with
  | nil => rw [List.flatMap_nil, pieces, List.map_nil]
  | cons code codes ih =>
    obtain ⟨hcode, hcodes⟩ := List.forall_mem_cons.mp h
    rw [List.flatMap_cons, pieces_encode_append hcode, ih hcodes, List.map_cons]

theorem isValid_flatMap_encode (h : ∀ code ∈ codes, IsScalar code) :
    isValid (codes.flatMap encode) = true := by
  rw [isValid, pieces_flatMap_encode h, List.all_map]
  exact List.all_eq_true.mpr fun _ _ => rfl

/-- A valid text is made of the encodings of characters. -/
theorem exists_codes_of_isValid (h : isValid s = true) :
    ∃ codes : List Nat, (∀ code ∈ codes, IsScalar code) ∧ s = codes.flatMap encode := by
  unfold isValid at h
  fun_induction pieces s with
  | case1 => exact ⟨[], fun _ hmem => absurd hmem List.not_mem_nil, rfl⟩
  | case2 a rest ih =>
    rw [List.all_cons] at h
    obtain ⟨hpoint, hrest⟩ := Bool.and_eq_true_iff.mp h
    obtain ⟨codes, hcodes, heq⟩ := ih hrest
    cases hfirst : first a rest with
    | mk u after =>
      rw [hfirst] at hpoint heq
      cases u with
      | stray byte => cases hpoint
      | point code =>
        obtain ⟨hscalar, hencode⟩ := first_eq_point hfirst
        refine ⟨code :: codes, List.forall_mem_cons.mpr ⟨hscalar, hcodes⟩, ?_⟩
        rw [List.flatMap_cons, ← heq, hencode]

theorem isValid_iff : isValid s = true ↔
    ∃ codes : List Nat, (∀ code ∈ codes, IsScalar code) ∧ s = codes.flatMap encode := by
  refine ⟨exists_codes_of_isValid, ?_⟩
  rintro ⟨codes, hcodes, rfl⟩
  exact isValid_flatMap_encode hcodes

/-- Nothing has to be replaced in a valid text. -/
theorem scrub_of_isValid (h : isValid s = true) : scrub s = s := by
  obtain ⟨codes, hcodes, rfl⟩ := exists_codes_of_isValid h
  rw [scrub, pieces_flatMap_encode hcodes, List.flatMap_map]
  rfl

theorem isValid_append (hs : isValid s = true) (ht : isValid t = true) :
    isValid (s ++ t) = true := by
  obtain ⟨codes, hcodes, rfl⟩ := exists_codes_of_isValid hs
  obtain ⟨more, hmore, rfl⟩ := exists_codes_of_isValid ht
  rw [← List.flatMap_append]
  exact isValid_flatMap_encode (List.forall_mem_append.mpr ⟨hcodes, hmore⟩)

theorem isValid_encode (h : IsScalar code) : isValid (encode code) = true := by
  have hcodes : ∀ c ∈ [code], IsScalar c := by simpa using h
  have hvalid := isValid_flatMap_encode hcodes
  rwa [List.flatMap_singleton] at hvalid

theorem isAscii_iff : s.isAscii = true ↔ ∀ b ∈ s, b < 0x80 := by
  simp [Bytes.isAscii]

/-- A byte of ASCII is a character by itself. -/
theorem codes_of_isAscii (h : s.isAscii = true) :
    (∀ code ∈ s.map UInt8.toNat, IsScalar code) ∧ s = (s.map UInt8.toNat).flatMap encode := by
  rw [isAscii_iff] at h
  constructor
  · intro code hmem
    obtain ⟨b, hb, rfl⟩ := List.mem_map.mp hmem
    exact .inl (Nat.lt_of_lt_of_le (UInt8.lt_iff_toNat_lt.mp (h b hb)) (by decide))
  · induction s with
    | nil => rfl
    | cons b s ih =>
      obtain ⟨hb, hs⟩ := List.forall_mem_cons.mp h
      rw [List.map_cons, List.flatMap_cons, ← ih hs, encode_one (UInt8.lt_iff_toNat_lt.mp hb),
        toUInt8_eq rfl]
      rfl

theorem isValid_of_isAscii (h : s.isAscii = true) : isValid s = true :=
  isValid_iff.mpr ⟨s.map UInt8.toNat, codes_of_isAscii h⟩

end Texts

end OnePass.Utf8
