import OnePass.Token.Stream
set_option autoImplicit false

/-!
# The texts of tokens

What the text of a token looks like whose kind carries one: a name is a word that is not reserved,
and an integer is made of digits.  Every token of a source is such (`TokenStream.lexed_of_mem`).
Names in small letters are again words, and hold no period.
-/

namespace OnePass

namespace Lexeme

/-- A word that is not reserved: a letter, and then letters, digits and underscores. -/
def IsName (s : Bytes) : Prop :=
  s.head?.any Ascii.isLetter = true ∧ s.all isWordByte = true ∧ TokenKind.ofWord s = .identifier

instance (s : Bytes) : Decidable (IsName s) := inferInstanceAs (Decidable (_ ∧ _ ∧ _))

/-- A number without a sign and without a decimal point. -/
def IsDigits (s : Bytes) : Prop := s ≠ [] ∧ s.all Ascii.isDigit = true

instance (s : Bytes) : Decidable (IsDigits s) := inferInstanceAs (Decidable (_ ∧ _))

theorem isWordByte_of_isLetter {b : UInt8} (h : Ascii.isLetter b = true) :
    isWordByte b = true := by
  simp [isWordByte, h]

/-! ## Lexemes -/

theorem ofWord_ne {kind : TokenKind} (hwords : ∀ entry ∈ TokenKind.reservedWords, entry.2 ≠ kind)
    (hname : .identifier ≠ kind) (s : Bytes) : TokenKind.ofWord s ≠ kind := by
  unfold TokenKind.ofWord
  cases h : TokenKind.reservedWords.lookup s.lower with
  | none => exact hname
  | some kind =>
    obtain ⟨before, after, hsplit, -⟩ := List.lookup_eq_some_iff.mp h
    exact hwords (s.lower, kind) (by simp [hsplit])

theorem not_period_of_numberKind {s : Bytes} (h : numberKind s = .literal .integer) :
    Ascii.period ∉ s := by
  unfold numberKind at h
  split at h
  · next hcount => exact List.count_eq_zero.mp hcount
  · simp at h
  · simp at h

theorem numberKind_mem (s : Bytes) :
    numberKind s ∈ [.literal .integer, .literal .float, .error] := by
  unfold numberKind
  split <;> simp

theorem quoted_kind_mem (delimiter : UInt8) (kind : TokenKind) (rest : Bytes) :
    (quoted delimiter kind rest).1.kind ∈ [kind, .error] := by
  simp only [quoted]
  split <;> simp

theorem Mark.read_kind_mem (m : Mark) (a : UInt8) (rest : Bytes) :
    (m.read a rest).1.kind ∈ [m.single, m.double] := by
  cases rest with
  | nil => simp [Mark.read]
  | cons b rest =>
    simp only [Mark.read]
    split <;> simp

/-- The kinds of lexemes that are no words. -/
def plainKinds : List TokenKind :=
  [.literal .integer, .literal .float, .literal .char, .literal .string, .error]
    ++ marks.flatMap (fun entry => [entry.2.single, entry.2.double]) ++ singles.map Prod.snd

/-- A lexeme is a word if it starts with a letter, and otherwise of one of the other kinds. -/
theorem Reading.cases_word {a : UInt8} {f : Bytes → Lexeme × Bytes} (h : Reading a f) (rest : Bytes) :
    Ascii.isLetter a = true ∧
      (f rest).1 = ⟨.ofWord (a :: rest.takeWhile isWordByte), a :: rest.takeWhile isWordByte⟩ ∨
    (f rest).1.kind ∈ plainKinds := by
  simp only [plainKinds, List.mem_append, List.mem_flatMap, List.mem_map]
  cases h with
  | word letter => exact .inl ⟨letter, rfl⟩
  | number =>
    have hkind := numberKind_mem (a :: rest.takeWhile isNumberByte)
    simp only [List.mem_cons, List.not_mem_nil, or_false] at hkind
    rcases hkind with hkind | hkind | hkind <;> simp [hkind]
  | @quoted _ l delimited =>
    have hkind := quoted_kind_mem a (.literal l) rest
    simp only [List.mem_cons, List.not_mem_nil, or_false] at hkind
    rcases delimited with rfl | rfl <;> rcases hkind with hkind | hkind <;> simp [hkind]
  | @mark _ m listed => exact .inr (.inl (.inr ⟨_, listed, m.read_kind_mem a rest⟩))
  | single _ listed =>
    rcases listed with rfl | listed
    · simp
    · exact .inr (.inr ⟨_, listed, rfl⟩)

theorem all_isWordByte_takeWhile {a : UInt8} (ha : Ascii.isLetter a = true) (rest : Bytes) :
    (a :: rest.takeWhile isWordByte).all isWordByte = true := by
  simp [isWordByte_of_isLetter ha, List.all_takeWhile]

theorem isName_read {a : UInt8} {rest : Bytes} (h : (read a rest).1.kind = .identifier) :
    IsName (read a rest).1.raw := by
  rcases (reading_read a).cases_word rest with ⟨letter, hword⟩ | hplain
  · rw [hword] at h ⊢
    exact ⟨letter, all_isWordByte_takeWhile letter rest, h⟩
  · rw [h] at hplain
    exact absurd hplain (by decide)

theorem isDigits_read {a : UInt8} {rest : Bytes} (h : (read a rest).1.kind = .literal .integer) :
    IsDigits (read a rest).1.raw := by
  have hread := reading_read a
  generalize read a = f at hread h ⊢
  cases hread with
  | word => exact absurd h (ofWord_ne (by decide) (by simp) _)
  | number _ digit =>
    refine ⟨by simp, ?_⟩
    have hnumber : ∀ b ∈ a :: rest.takeWhile isNumberByte, isNumberByte b = true := by
      have htail := List.all_eq_true.mp (List.all_takeWhile (p := isNumberByte) (l := rest))
      simpa [isNumberByte, digit] using htail
    have hperiod : Ascii.period ∉ a :: rest.takeWhile isNumberByte :=
      not_period_of_numberKind h
    rw [List.all_eq_true]
    intro b hb
    have hb' := hnumber b hb
    simp only [isNumberByte, Bool.or_eq_true, decide_eq_true_eq] at hb'
    rcases hb' with hdigit | rfl
    · exact hdigit
    · exact absurd hb hperiod
  | @quoted _ l delimited =>
    have hkind := quoted_kind_mem a (.literal l) rest
    rw [h] at hkind
    rcases delimited with rfl | rfl <;> exact absurd hkind (by decide)
  | @mark _ m listed =>
    have hmarks : ∀ entry ∈ marks, .literal .integer ∉ [entry.2.single, entry.2.double] := by decide
    exact absurd (h ▸ m.read_kind_mem a rest) (hmarks _ listed)
  | single _ listed =>
    have hsingles : ∀ entry ∈ singles, entry.2 ≠ .literal .integer := by decide
    rcases listed with rfl | listed
    · cases h
    · exact absurd h (hsingles _ listed)

/-- A lexeme of a reserved kind is a word, in any case, that stands for the kind. -/
theorem isReserved_read {a : UInt8} {rest : Bytes} (h : (read a rest).1.kind.isReserved = true) :
    (read a rest).1.raw.all isWordByte = true ∧
      TokenKind.ofWord (read a rest).1.raw = (read a rest).1.kind := by
  rcases (reading_read a).cases_word rest with ⟨letter, hword⟩ | hplain
  · rw [hword]
    exact ⟨all_isWordByte_takeWhile letter rest, rfl⟩
  · have hfree : ∀ k ∈ plainKinds, k.isReserved = false := by decide
    rw [hfree _ hplain] at h
    cases h

/-- No lexeme is of the kind that marks the end. -/
theorem read_kind_ne_eof (a : UInt8) (rest : Bytes) : (read a rest).1.kind ≠ .eof := by
  rcases (reading_read a).cases_word rest with ⟨-, hword⟩ | hplain
  · rw [hword]
    exact ofWord_ne (by decide) (by simp) _
  · intro heof
    rw [heof] at hplain
    exact absurd hplain (by decide)

/-- The text of a lexeme that is neither reserved nor faulty is the lexeme itself. -/
theorem literal_eq_raw {l : Lexeme} (hreserved : l.kind.isReserved = false)
    (herror : l.kind ≠ .error) : l.literal = l.raw := by
  unfold literal
  split
  · next hkind _ => exact absurd hkind herror
  · simp [hreserved]

end Lexeme

/-! ## Tokens -/

/-- The text of a token is one that its kind admits. -/
structure Token.Lexed (t : Token) : Prop where
  name : t.kind = .identifier → Lexeme.IsName t.literal
  digits : t.kind = .literal .integer → Lexeme.IsDigits t.literal

namespace TokenStream

theorem scan_cons {place : Place} {s : Bytes} {a : UInt8} {rest : Bytes}
    (h : (Gap.split s).2 = a :: rest) :
    scan place s =
      let here := place.advance (Gap.split s).1
      let stream := scan (here.advance (Lexeme.read a rest).1.raw) (Lexeme.read a rest).2
      ⟨⟨(Lexeme.read a rest).1.kind, (Lexeme.read a rest).1.literal, here.line, here.column⟩
        :: stream.tokens, stream.eof⟩ := by
  rw [scan]
  split
  · next heq _ => simp [h] at heq
  · next heq _ =>
    obtain ⟨rfl, rfl⟩ := List.cons.inj (h.symm.trans heq)
    rfl

theorem scan_nil {place : Place} {s : Bytes} (h : (Gap.split s).2 = []) :
    scan place s =
      let here := place.advance (Gap.split s).1
      ⟨[], ⟨.eof, [], here.line, here.column⟩⟩ := by
  rw [scan]
  split
  · rfl
  · next heq _ => simp [h] at heq

/-- What holds of a text without tokens, and of a text with a first token if it holds of the text
behind that token, holds of all texts. -/
@[elab_as_elim]
theorem scan_induction {motive : Place → Bytes → Prop}
    (nil : ∀ place s, (Gap.split s).2 = [] → motive place s)
    (cons : ∀ place s a rest, (Gap.split s).2 = a :: rest →
      motive ((place.advance (Gap.split s).1).advance (Lexeme.read a rest).1.raw)
        (Lexeme.read a rest).2 → motive place s)
    (place : Place) (s : Bytes) : motive place s := by
  induction hn : s.length using Nat.strongRecOn generalizing place s with
  | ind n ih =>
    subst hn
    cases hsplit : (Gap.split s).2 with
    | nil => exact nil place s hsplit
    | cons a rest =>
      refine cons place s a rest hsplit (ih _ ?_ _ _ rfl)
      have hgap := Gap.length_split_le s
      have hread := Lexeme.length_read_le a rest
      rw [hsplit, List.length_cons] at hgap
      omega

/-- A token of a text is read behind a gap in the text. -/
theorem exists_read_of_mem {place : Place} {s : Bytes} {t : Token} (ht : t ∈ (scan place s).tokens) :
    ∃ u a rest, u <:+ s ∧ (Gap.split u).2 = a :: rest ∧ t.kind = (Lexeme.read a rest).1.kind ∧
      t.literal = (Lexeme.read a rest).1.literal := by
  induction place, s using scan_induction with
  | nil place s hsplit => simp [scan_nil hsplit] at ht
  | cons place s a rest hsplit ih =>
    rw [scan_cons hsplit] at ht
    rcases List.mem_cons.mp ht with rfl | ht
    · exact ⟨s, a, rest, List.suffix_refl s, hsplit, rfl, rfl⟩
    · obtain ⟨u, a', rest', hu, hread⟩ := ih ht
      refine ⟨u, a', rest', hu.trans ⟨(Gap.split s).1 ++ (Lexeme.read a rest).1.raw, ?_⟩, hread⟩
      rw [List.append_assoc, Lexeme.read_append, ← hsplit, Gap.split_append]

theorem lexed_of_mem {place : Place} {s : Bytes} {t : Token} (ht : t ∈ (scan place s).tokens) :
    t.Lexed := by
  obtain ⟨u, a, rest, -, -, hkind, hliteral⟩ := exists_read_of_mem ht
  constructor <;> rw [hkind, hliteral]
  · intro hkind
    have hname := Lexeme.isName_read hkind
    rwa [← Lexeme.literal_eq_raw (by simp [hkind, TokenKind.isReserved]) (by simp [hkind])] at hname
  · intro hkind
    have hdigits := Lexeme.isDigits_read hkind
    rwa [← Lexeme.literal_eq_raw (by simp [hkind, TokenKind.isReserved]) (by simp [hkind])] at hdigits

theorem kind_eof (place : Place) (s : Bytes) : (scan place s).eof.kind = .eof := by
  induction place, s using scan_induction with
  | nil place s hsplit => simp [scan_nil hsplit]
  | cons place s a rest hsplit ih =>
    rw [scan_cons hsplit]
    exact ih

theorem kind_ne_eof_of_mem {place : Place} {s : Bytes} {t : Token}
    (ht : t ∈ (scan place s).tokens) : t.kind ≠ .eof := by
  obtain ⟨u, a, rest, -, -, hkind, -⟩ := exists_read_of_mem ht
  rw [hkind]
  exact Lexeme.read_kind_ne_eof a rest

end TokenStream

/-! ## Names in small letters -/

namespace Lexeme

theorem isWordByte_toLower (b : UInt8) : isWordByte (Ascii.toLower b) = isWordByte b :=
  Ascii.forall_byte (p := fun b => isWordByte (Ascii.toLower b) = isWordByte b) (by decide +kernel) b

theorem lt_of_isWordByte {b : UInt8} (h : isWordByte b = true) : b < 0x80 :=
  Ascii.forall_byte (p := fun b => isWordByte b = true → b < 0x80) (by decide +kernel) b h

theorem lower_eq_of_isWordByte {s : Bytes} (h : ∀ b ∈ s, isWordByte b = true) :
    s.lower = s.lowerAscii := by
  refine Bytes.lower_of_isAscii ?_
  rw [Bytes.isAscii, List.all_eq_true]
  exact fun b hb => decide_eq_true (lt_of_isWordByte (h b hb))

theorem IsName.ne_nil {s : Bytes} (h : IsName s) : s ≠ [] := by
  rintro rfl
  simp [IsName] at h

theorem IsName.lower_eq {s : Bytes} (h : IsName s) : s.lower = s.lowerAscii :=
  lower_eq_of_isWordByte (List.all_eq_true.mp h.2.1)

theorem IsName.isWordByte_of_mem_lower {s : Bytes} (h : IsName s) {b : UInt8} (hb : b ∈ s.lower) :
    isWordByte b = true := by
  rw [h.lower_eq, Bytes.lowerAscii, List.mem_map] at hb
  obtain ⟨c, hc, rfl⟩ := hb
  rw [isWordByte_toLower]
  exact List.all_eq_true.mp h.2.1 c hc

theorem IsName.lower_lower {s : Bytes} (h : IsName s) : s.lower.lower = s.lower := by
  rw [lower_eq_of_isWordByte fun _ => h.isWordByte_of_mem_lower, h.lower_eq,
    Bytes.lowerAscii_lowerAscii]

theorem IsName.lower_ne_nil {s : Bytes} (h : IsName s) : s.lower ≠ [] := by
  rw [h.lower_eq, Bytes.lowerAscii]
  simpa using h.ne_nil

theorem IsName.period_notMem_lower {s : Bytes} (h : IsName s) : Ascii.period ∉ s.lower := by
  intro hmem
  exact absurd (h.isWordByte_of_mem_lower hmem) (by decide)

end Lexeme

end OnePass
