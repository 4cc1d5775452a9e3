import OnePass.Proofs.Gap
import OnePass.Proofs.Lexical
set_option autoImplicit false

/-!
# Sources in small letters

Making the capitals of a source small changes neither where its tokens stand nor what kinds they are
of, and changes their texts in the same way (`TokenStream.ofSource_lowerAscii`): a reader of gaps or
lexemes tells bytes apart by classes that hold all letters or none (`Ascii.apply_toLower`).
-/

namespace OnePass

/-! ## Bytes -/

namespace Ascii

theorem bounds_of_isLetter {b : UInt8} (h : isLetter b = true) :
    0x41 ≤ b.toNat ∧ b.toNat ≤ 0x7a := by
  simp only [isLetter, isLower, isUpper, Bool.or_eq_true, Bool.and_eq_true, decide_eq_true_eq,
    UInt8.le_iff_toNat_le, UInt8.reduceToNat] at h
  omega

theorem toLower_of_not_isLetter {b : UInt8} (h : isLetter b = false) : toLower b = b := by
  unfold isLetter at h
  rw [toLower, (Bool.or_eq_false_iff.mp h).2]
  rfl

/-- A class of bytes that holds all letters or none of them does not tell cases apart. -/
theorem apply_toLower {p : UInt8 → Bool} (v : Bool) (h : ∀ b, isLetter b = true → p b = v)
    (b : UInt8) : p (toLower b) = p b := by
  cases hb : isLetter b with
  | false => rw [toLower_of_not_isLetter hb]
  | true => rw [h b hb, h (toLower b) ((isLetter_toLower b).trans hb)]

theorem isBlank_toLower (b : UInt8) : isBlank (toLower b) = isBlank b := by
  refine apply_toLower false (fun b hb => ?_) b
  have hbounds := bounds_of_isLetter hb
  simp only [isBlank, Bool.or_eq_false_iff, decide_eq_false_iff_not]
  refine ⟨⟨⟨?_, ?_⟩, ?_⟩, ?_⟩ <;>
    · rintro rfl
      exact absurd hbounds (by decide)

theorem toLower_of_isDigit {b : UInt8} (h : isDigit b = true) : toLower b = b := by
  refine toLower_of_not_isLetter (Bool.eq_false_iff.mpr fun hb => ?_)
  have hbounds := bounds_of_isLetter hb
  simp only [isDigit, Bool.and_eq_true, decide_eq_true_eq, UInt8.le_iff_toNat_le,
    UInt8.reduceToNat] at h
  omega

/-- A byte that is no letter is told apart from the others also by their small letters. -/
theorem toLower_eq_iff {b c : UInt8} (hc : isLetter c = false) : toLower b = c ↔ b = c := by
  constructor
  · rintro rfl
    rw [isLetter_toLower] at hc
    exact (toLower_of_not_isLetter hc).symm
  · rintro rfl
    exact toLower_of_not_isLetter hc

end Ascii

theorem Bytes.lowerAscii_cons (b : UInt8) (s : Bytes) :
    Bytes.lowerAscii (b :: s) = Ascii.toLower b :: Bytes.lowerAscii s := rfl

/-! ## Small letters beyond ASCII -/

namespace Utf8

theorem toLower_of_le {b : UInt8} (h : 0x80 ≤ b) : Ascii.toLower b = b := by
  refine Ascii.toLower_of_not_isLetter (Bool.eq_false_iff.mpr fun hb => ?_)
  have hbounds := Ascii.bounds_of_isLetter hb
  simp only [UInt8.le_iff_toNat_le, UInt8.reduceToNat] at h
  omega

theorem toLower_lt {b : UInt8} : Ascii.toLower b < 0x80 ↔ b < 0x80 := by
  have hclass := Ascii.apply_toLower (p := fun b => decide (b < 0x80)) true (fun b hb => ?_) b
  · simpa using hclass
  · have hbounds := Ascii.bounds_of_isLetter hb
    simp only [decide_eq_true_eq, UInt8.lt_iff_toNat_lt, UInt8.reduceToNat]
    omega

theorem toLower_of_isTail {b : UInt8} (h : isTail b = true) : Ascii.toLower b = b := by
  unfold isTail at h
  exact toLower_of_le (of_decide_eq_true (Bool.and_eq_true_iff.mp h).1)

theorem isTail_toLower (b : UInt8) : isTail (Ascii.toLower b) = isTail b := by
  refine Ascii.apply_toLower false (fun b hb => ?_) b
  have hbounds := Ascii.bounds_of_isLetter hb
  simp only [isTail, Bool.and_eq_false_iff, decide_eq_false_iff_not, UInt8.le_iff_toNat_le,
    UInt8.reduceToNat]
  omega

theorem lowerCode_of_lt {b : UInt8} (h : b < 0x80) :
    lowerCode b.toNat = (Ascii.toLower b).toNat := by
  simp only [UInt8.lt_iff_toNat_lt, UInt8.reduceToNat] at h
  rw [lowerCode, if_pos h, Nat.toUInt8, UInt8.ofNat_toNat]

theorem lowerCode_toLower {b : UInt8} (h : b < 0x80) :
    lowerCode (Ascii.toLower b).toNat = lowerCode b.toNat := by
  rw [lowerCode_of_lt h, lowerCode_of_lt (toLower_lt.mpr h), Ascii.toLower_toLower]

theorem two?_lowerAscii (a : UInt8) (s : Bytes) :
    two? a s.lowerAscii = (two? a s).map fun r => (r.1, r.2.lowerAscii) := by
  cases s with
  | nil => rfl
  | cons b rest =>
    unfold two?
    simp only [Bytes.lowerAscii_cons, isTail_toLower]
    cases hb : isTail b with
    | false => simp
    | true =>
      rw [toLower_of_isTail hb]
      split <;> rfl

theorem three?_lowerAscii (a : UInt8) (s : Bytes) :
    three? a s.lowerAscii = (three? a s).map fun r => (r.1, r.2.lowerAscii) := by
  rcases s with _ | ⟨b, _ | ⟨c, rest⟩⟩
  · rfl
  · rfl
  · unfold three?
    simp only [Bytes.lowerAscii_cons, isTail_toLower]
    cases hb : isTail b with
    | false => simp
    | true =>
      cases hc : isTail c with
      | false => simp
      | true =>
        rw [toLower_of_isTail hb, toLower_of_isTail hc]
        split <;> rfl

theorem four?_lowerAscii (a : UInt8) (s : Bytes) :
    four? a s.lowerAscii = (four? a s).map fun r => (r.1, r.2.lowerAscii) := by
  rcases s with _ | ⟨b, _ | ⟨c, _ | ⟨d, rest⟩⟩⟩
  · rfl
  · rfl
  · rfl
  · unfold four?
    simp only [Bytes.lowerAscii_cons, isTail_toLower]
    cases hb : isTail b with
    | false => simp
    | true =>
      cases hc : isTail c with
      | false => simp
      | true =>
        cases hd : isTail d with
        | false => simp
        | true =>
          rw [toLower_of_isTail hb, toLower_of_isTail hc, toLower_of_isTail hd]
          split <;> rfl

theorem first_lowerAscii (a : UInt8) (rest : Bytes) :
    (first (Ascii.toLower a) rest.lowerAscii).2 = (first a rest).2.lowerAscii ∧
      lowerCode (first (Ascii.toLower a) rest.lowerAscii).1.code =
        lowerCode (first a rest).1.code := by
  unfold first
  by_cases ha : a < 0x80
  · rw [if_pos ha, if_pos (toLower_lt.mpr ha)]
    exact ⟨rfl, lowerCode_toLower ha⟩
  · rw [toLower_of_le (UInt8.not_lt.mp ha), if_neg ha, if_neg ha, two?_lowerAscii,
      three?_lowerAscii, four?_lowerAscii]
    cases two? a rest with
    | some r => exact ⟨rfl, rfl⟩
    | none =>
      cases three? a rest with
      | some r => exact ⟨rfl, rfl⟩
      | none => cases four? a rest <;> exact ⟨rfl, rfl⟩

theorem map_lowerCode_pieces (s : Bytes) :
    (pieces s.lowerAscii).map (fun p => lowerCode p.code) =
      (pieces s).map fun p => lowerCode p.code := by
  fun_induction pieces s with
  | case1 => simp [Bytes.lowerAscii, pieces]
  | case2 a rest ih =>
    obtain ⟨hrest, hcode⟩ := first_lowerAscii a rest
    rw [Bytes.lowerAscii_cons, pieces, List.map_cons, List.map_cons, hrest, hcode, ih]

end Utf8

namespace Bytes

theorem isAscii_lowerAscii (s : Bytes) : s.lowerAscii.isAscii = s.isAscii := by
  unfold isAscii lowerAscii
  rw [List.all_map]
  congr
  funext b
  simp [Utf8.toLower_lt]

/-- Making capitals small first makes no difference to the text in small letters. -/
theorem lower_lowerAscii (s : Bytes) : s.lowerAscii.lower = s.lower := by
  unfold lower
  rw [isAscii_lowerAscii]
  split
  · exact lowerAscii_lowerAscii s
  · have hcodes := congrArg (List.flatMap Utf8.encode) (Utf8.map_lowerCode_pieces s)
    simpa [List.flatMap_map] using hcodes

theorem lower_eq_of_lowerAscii_eq {s t : Bytes} (h : s.lowerAscii = t.lowerAscii) :
    s.lower = t.lower := by
  rw [← lower_lowerAscii s, h, lower_lowerAscii]

end Bytes

/-! ## Gaps -/

namespace Place

theorem advance_lowerAscii (p : Place) (s : Bytes) : p.advance s.lowerAscii = p.advance s := by
  unfold advance Bytes.lowerAscii
  rw [List.foldl_map]
  congr
  funext p b
  simp only [step, Ascii.toLower_eq_iff (c := Ascii.newline) (by decide)]

end Place

namespace Gap

theorem keep_lowerAscii (b : UInt8) (parts : Bytes × Bytes) :
    keep (Ascii.toLower b) (parts.1.lowerAscii, parts.2.lowerAscii) =
      ((keep b parts).1.lowerAscii, (keep b parts).2.lowerAscii) := rfl

theorem splitFrom_of_not_isBlank {b : UInt8} (h : Ascii.isBlank b = false) (hne : b ≠ Ascii.slash)
    (rest : Bytes) : splitFrom .blank (b :: rest) = ([], b :: rest) := by
  cases rest <;> simp [splitFrom, h, hne]

theorem splitFrom_lowerAscii (mode : Mode) (s : Bytes) :
    splitFrom mode s.lowerAscii =
      ((splitFrom mode s).1.lowerAscii, (splitFrom mode s).2.lowerAscii) := by
  have hslash (b : UInt8) : Ascii.toLower b = Ascii.slash ↔ b = Ascii.slash :=
    Ascii.toLower_eq_iff (by decide)
  have hstar (b : UInt8) : Ascii.toLower b = Ascii.star ↔ b = Ascii.star :=
    Ascii.toLower_eq_iff (by decide)
  have hnewline (b : UInt8) : Ascii.toLower b = Ascii.newline ↔ b = Ascii.newline :=
    Ascii.toLower_eq_iff (by decide)
  have hopens (b c : UInt8) := and_congr (hslash b) (hstar c)
  have hcloses (b c : UInt8) := and_congr (hstar b) (hslash c)
  fun_induction splitFrom mode s with
  | case1 mode => simp [splitFrom, Bytes.lowerAscii]
  | case2 b rest hblank ih =>
    rw [Bytes.lowerAscii_cons, splitFrom_of_isBlank (by rw [Ascii.isBlank_toLower, hblank]), ih,
      keep_lowerAscii]
  | case3 hblank => rfl
  | case4 more hblank ih =>
    change keep (Ascii.toLower _)
      (keep (Ascii.toLower _) (splitFrom .line (Bytes.lowerAscii more))) = _
    rw [ih, keep_lowerAscii, keep_lowerAscii]
  | case5 more hblank hne ih =>
    change keep (Ascii.toLower _)
      (keep (Ascii.toLower _) (splitFrom (.block 0) (Bytes.lowerAscii more))) = _
    rw [ih, keep_lowerAscii, keep_lowerAscii]
  | case6 c more hblank hne hne' =>
    simp [splitFrom, Bytes.lowerAscii, Ascii.isBlank_toLower, hblank, hslash, hstar, hne, hne']
  | case7 b rest hblank hne =>
    rw [Bytes.lowerAscii_cons, splitFrom_of_not_isBlank]
    · rfl
    · simpa [Ascii.isBlank_toLower] using hblank
    · rwa [ne_eq, hslash]
  | case8 b rest ih =>
    rw [Bytes.lowerAscii_cons, splitFrom]
    simp only [hnewline, ih]
    rw [keep_lowerAscii]
  | case9 outer b => simp [splitFrom, Bytes.lowerAscii]
  | case10 outer b c more hopen ih =>
    rw [Bytes.lowerAscii_cons, Bytes.lowerAscii_cons, splitFrom, if_pos ((hopens b c).mpr hopen),
      ih, keep_lowerAscii, keep_lowerAscii]
  | case11 outer b c more hopen hclose ih =>
    rw [Bytes.lowerAscii_cons, Bytes.lowerAscii_cons, splitFrom, if_neg (mt (hopens b c).mp hopen),
      if_pos ((hcloses b c).mpr hclose), ih, keep_lowerAscii, keep_lowerAscii]
  | case12 outer b c more hopen hclose ih =>
    rw [Bytes.lowerAscii_cons, Bytes.lowerAscii_cons, splitFrom, if_neg (mt (hopens b c).mp hopen),
      if_neg (mt (hcloses b c).mp hclose), ← Bytes.lowerAscii_cons, ih, keep_lowerAscii]

theorem split_lowerAscii (s : Bytes) :
    split s.lowerAscii = ((split s).1.lowerAscii, (split s).2.lowerAscii) :=
  splitFrom_lowerAscii .blank s

end Gap

/-! ## Lexemes -/

namespace Lexeme

/-- The lexeme in small letters. -/
def lowerAscii (l : Lexeme) : Lexeme := { l with raw := l.raw.lowerAscii }

theorem isNumberByte_toLower (b : UInt8) : isNumberByte (Ascii.toLower b) = isNumberByte b := by
  refine Ascii.apply_toLower false (fun b hb => ?_) b
  have hbounds := Ascii.bounds_of_isLetter hb
  refine Bool.eq_false_iff.mpr fun hnumber => ?_
  simp only [isNumberByte, Ascii.isDigit, Bool.or_eq_true, Bool.and_eq_true, decide_eq_true_eq,
    UInt8.le_iff_toNat_le, UInt8.reduceToNat] at hnumber
  rcases hnumber with hdigit | rfl
  · omega
  · exact absurd hbounds (by decide)

theorem isContent_toLower (b : UInt8) : isContent (Ascii.toLower b) = isContent b :=
  Ascii.apply_toLower true (fun b hb => by simp [isContent, hb]) b

/-- A run of bytes of a class that holds both letters or neither. -/
theorem takeWhile_lowerAscii {p : UInt8 → Bool} (hp : ∀ b, p (Ascii.toLower b) = p b) (s : Bytes) :
    s.lowerAscii.takeWhile p = Bytes.lowerAscii (s.takeWhile p) := by
  unfold Bytes.lowerAscii
  rw [List.takeWhile_map, funext (f := p ∘ Ascii.toLower) hp]

theorem dropWhile_lowerAscii {p : UInt8 → Bool} (hp : ∀ b, p (Ascii.toLower b) = p b) (s : Bytes) :
    s.lowerAscii.dropWhile p = Bytes.lowerAscii (s.dropWhile p) := by
  unfold Bytes.lowerAscii
  rw [List.dropWhile_map, funext (f := p ∘ Ascii.toLower) hp]

theorem ofWord_lowerAscii (s : Bytes) : TokenKind.ofWord s.lowerAscii = TokenKind.ofWord s := by
  unfold TokenKind.ofWord
  rw [Bytes.lower_lowerAscii]

theorem numberKind_lowerAscii (s : Bytes) : numberKind s.lowerAscii = numberKind s := by
  have hcount : s.lowerAscii.count Ascii.period = s.count Ascii.period := by
    unfold Bytes.lowerAscii List.count
    rw [List.countP_map]
    refine List.countP_congr fun b _ => ?_
    simp [Ascii.toLower_eq_iff (c := Ascii.period) (by decide)]
  unfold numberKind
  rw [hcount]

theorem quotedTail_lowerAscii {delimiter : UInt8} (hd : Ascii.isLetter delimiter = false)
    (s : Bytes) :
    quotedTail delimiter s.lowerAscii =
      (Bytes.lowerAscii (quotedTail delimiter s).1, (quotedTail delimiter s).2.1,
        Bytes.lowerAscii (quotedTail delimiter s).2.2) := by
  induction s with
  | nil => rfl
  | cons b rest ih =>
    have hnewline : Ascii.toLower b = Ascii.newline ↔ b = Ascii.newline :=
      Ascii.toLower_eq_iff (by decide)
    rw [Bytes.lowerAscii_cons]
    unfold quotedTail
    simp only [hnewline, Ascii.toLower_eq_iff hd, ih, isContent_toLower]
    split
    · rfl
    · split <;> rfl

theorem quoted_lowerAscii {delimiter : UInt8} (hd : Ascii.isLetter delimiter = false)
    (kind : TokenKind) (rest : Bytes) :
    quoted delimiter kind rest.lowerAscii =
      ((quoted delimiter kind rest).1.lowerAscii, (quoted delimiter kind rest).2.lowerAscii) := by
  unfold quoted
  rw [quotedTail_lowerAscii hd]
  simp only [lowerAscii, Bytes.lowerAscii_cons, Ascii.toLower_of_not_isLetter hd]

theorem Mark.read_lowerAscii {m : Mark} {a : UInt8} (ha : Ascii.isLetter a = false)
    (hm : Ascii.isLetter m.second = false) (rest : Bytes) :
    m.read a rest.lowerAscii = ((m.read a rest).1.lowerAscii, (m.read a rest).2.lowerAscii) := by
  have hsame := Ascii.toLower_of_not_isLetter ha
  cases rest with
  | nil => simp [Mark.read, Bytes.lowerAscii, lowerAscii, hsame]
  | cons b rest =>
    rw [Bytes.lowerAscii_cons]
    simp only [Mark.read, Ascii.toLower_eq_iff hm]
    split <;> simp [Bytes.lowerAscii, lowerAscii, hsame]

theorem read_lowerAscii (a : UInt8) (rest : Bytes) :
    read (Ascii.toLower a) rest.lowerAscii =
      ((read a rest).1.lowerAscii, (read a rest).2.lowerAscii) := by
  by_cases hletter : Ascii.isLetter a = true
  · unfold read
    rw [Ascii.isLetter_toLower, if_pos hletter, if_pos hletter]
    dsimp only
    rw [takeWhile_lowerAscii isWordByte_toLower, dropWhile_lowerAscii isWordByte_toLower,
      ← Bytes.lowerAscii_cons, ofWord_lowerAscii]
    rfl
  -- A byte that is no letter is the same in small letters, and so is the way to read on from it.
  rw [Bool.not_eq_true] at hletter
  have hsame := Ascii.toLower_of_not_isLetter hletter
  have hread := reading_read a
  rw [hsame]
  generalize read a = f at hread ⊢
  cases hread with
  | word letter => simp [hletter] at letter
  | number =>
    have hcons (s : Bytes) : a :: s.lowerAscii = Bytes.lowerAscii (a :: s) := by
      rw [Bytes.lowerAscii_cons, hsame]
    dsimp only
    rw [takeWhile_lowerAscii isNumberByte_toLower, dropWhile_lowerAscii isNumberByte_toLower,
      hcons, numberKind_lowerAscii]
    rfl
  | quoted => exact quoted_lowerAscii hletter _ _
  | mark _ listed =>
    have hseconds : ∀ entry ∈ marks, Ascii.isLetter entry.2.second = false := by decide
    exact Mark.read_lowerAscii hletter (hseconds _ listed) rest
  | single => simp [lowerAscii, Bytes.lowerAscii, hsame]

theorem encode_toLower (b : UInt8) :
    Utf8.encode (Ascii.toLower b).toNat = Bytes.lowerAscii (Utf8.encode b.toNat) :=
  Ascii.forall_byte
    (p := fun b => Utf8.encode (Ascii.toLower b).toNat = Bytes.lowerAscii (Utf8.encode b.toNat))
    (by decide +kernel) b

theorem literal_lowerAscii {l : Lexeme}
    (h : l.kind.isReserved = true → ∀ b ∈ l.raw, isWordByte b = true) :
    l.lowerAscii.literal = l.literal.lowerAscii := by
  obtain ⟨kind, raw⟩ := l
  have hother : (if kind.isReserved then raw.lowerAscii.lower else raw.lowerAscii) =
      Bytes.lowerAscii (if kind.isReserved then raw.lower else raw) := by
    split
    · next hreserved =>
      rw [Bytes.lower_lowerAscii, lower_eq_of_isWordByte (h hreserved),
        Bytes.lowerAscii_lowerAscii]
    · rfl
  rcases raw with _ | ⟨b, _ | ⟨c, rest⟩⟩
  · cases kind <;> exact hother
  · cases kind with
    | error => exact encode_toLower b
    | _ => exact hother
  · cases kind <;> exact hother

theorem IsDigits.lowerAscii_eq {s : Bytes} (h : IsDigits s) : s.lowerAscii = s := by
  have hsame : s.map Ascii.toLower = s.map id :=
    List.map_congr_left fun b hb => Ascii.toLower_of_isDigit (List.all_eq_true.mp h.2 b hb)
  exact hsame.trans (List.map_id s)

end Lexeme

/-! ## Tokens -/

/-- The token with its text in small letters. -/
def Token.lowerAscii (t : Token) : Token := { t with literal := t.literal.lowerAscii }

namespace TokenStream

theorem scan_lowerAscii (place : Place) (s : Bytes) :
    scan place s.lowerAscii =
      ⟨(scan place s).tokens.map Token.lowerAscii, (scan place s).eof.lowerAscii⟩ := by
  induction place, s using scan_induction with
  | nil place s hsplit =>
    rw [scan_nil hsplit, scan_nil (by rw [Gap.split_lowerAscii, hsplit]; rfl),
      Gap.split_lowerAscii, Place.advance_lowerAscii]
    rfl
  | cons place s a rest hsplit ih =>
    have hsplit' : (Gap.split s.lowerAscii).2 = Ascii.toLower a :: Bytes.lowerAscii rest := by
      rw [Gap.split_lowerAscii, hsplit, Bytes.lowerAscii_cons]
    have hliteral := Lexeme.literal_lowerAscii (l := (Lexeme.read a rest).1) fun h =>
      List.all_eq_true.mp (Lexeme.isReserved_read h).1
    rw [scan_cons hsplit, scan_cons hsplit', Lexeme.read_lowerAscii, Gap.split_lowerAscii]
    simp only [Place.advance_lowerAscii, hliteral]
    rw [Lexeme.lowerAscii, Place.advance_lowerAscii, ih]
    rfl

/-- The tokens of a source in small letters are its tokens in small letters. -/
theorem ofSource_lowerAscii (s : Bytes) :
    ofSource s.lowerAscii =
      ⟨(ofSource s).tokens.map Token.lowerAscii, (ofSource s).eof.lowerAscii⟩ :=
  scan_lowerAscii .start s

theorem lexed_eof {place : Place} {s : Bytes} : (scan place s).eof.Lexed := by
  have hkind := kind_eof place s
  constructor
  · intro hname
    cases hkind.symm.trans hname
  · intro hinteger
    cases hkind.symm.trans hinteger

end TokenStream

end OnePass
