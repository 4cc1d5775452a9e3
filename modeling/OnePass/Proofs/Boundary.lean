import OnePass.Proofs.Partition
set_option autoImplicit false

/-!
# Texts one behind the other

What is read of a text stays the same when more text follows, as long as the place where reading
stops is settled: by a byte of the text itself, or by a newline that the following text starts with.
A newline ends every lexeme and every comment but one between marks, so the tokens of two texts with
a newline between them are those of the first and then those of the second (`ofSource_newline_iff`).
A period settles where it ends by itself, so the tokens up to a period do not depend on what follows
the text (`tokens_followed`).
-/

namespace OnePass

/-- Whether it is settled that reading stops in front of `after`, when `more` follows: there is a byte
to stop at, or a newline follows. -/
def Settled (after more : Bytes) : Prop := after = [] → more.head? = some Ascii.newline

/-! ## Lexemes -/

namespace Lexeme

variable {more : Bytes}

theorem takeWhile_followed {p : UInt8 → Bool} (hp : p Ascii.newline = false) {s : Bytes}
    (h : Settled (s.dropWhile p) more) :
    (s ++ more).takeWhile p = s.takeWhile p ∧ (s ++ more).dropWhile p = s.dropWhile p ++ more := by
  induction s with
  | nil =>
    obtain ⟨rest, rfl⟩ := List.head?_eq_some_iff.mp (h rfl)
    simp [hp]
  | cons b s ih =>
    by_cases hb : p b = true
    · rw [List.dropWhile_cons_of_pos hb] at h ⊢
      obtain ⟨htake, hdrop⟩ := ih h
      rw [List.cons_append, List.takeWhile_cons_of_pos hb, List.dropWhile_cons_of_pos hb,
        List.takeWhile_cons_of_pos hb, htake]
      exact ⟨rfl, hdrop⟩
    · simp [hb]

theorem quotedTail_followed {delimiter : UInt8} {s : Bytes}
    (h : Settled (quotedTail delimiter s).2.2 more) :
    quotedTail delimiter (s ++ more) = ((quotedTail delimiter s).1, (quotedTail delimiter s).2.1,
      (quotedTail delimiter s).2.2 ++ more) := by
  induction s with
  | nil =>
    obtain ⟨rest, rfl⟩ := List.head?_eq_some_iff.mp (h rfl)
    simp [quotedTail]
  | cons b s ih =>
    unfold quotedTail at h ⊢
    by_cases hnewline : b = Ascii.newline
    · simp [hnewline]
    by_cases hdelimiter : b = delimiter
    · subst hdelimiter
      simp [hnewline]
    · simp only [hnewline, hdelimiter, if_false] at h
      simp [hnewline, hdelimiter, ih h]

theorem Mark.read_followed {m : Mark} (hsecond : m.second ≠ Ascii.newline) {a : UInt8} {rest : Bytes}
    (h : Settled (m.read a rest).2 more) :
    m.read a (rest ++ more) = ((m.read a rest).1, (m.read a rest).2 ++ more) := by
  cases rest with
  | nil =>
    obtain ⟨rest, rfl⟩ := List.head?_eq_some_iff.mp (h rfl)
    simp [Mark.read, hsecond.symm]
  | cons b rest =>
    by_cases hb : b = m.second
    · simp [Mark.read, hb]
    · simp [Mark.read, hb]

/-- A lexeme whose end is settled is read alike whatever follows. -/
theorem read_followed {a : UInt8} {rest : Bytes} (h : Settled (read a rest).2 more) :
    read a (rest ++ more) = ((read a rest).1, (read a rest).2 ++ more) := by
  have hsecond : ∀ entry ∈ marks, entry.2.second ≠ Ascii.newline := by decide
  have hread := reading_read a
  generalize read a = f at hread h ⊢
  cases hread with
  | word =>
    obtain ⟨htake, hdrop⟩ := takeWhile_followed (p := isWordByte) (by decide) h
    simp only [htake, hdrop]
  | number =>
    obtain ⟨htake, hdrop⟩ := takeWhile_followed (p := isNumberByte) (by decide) h
    simp only [htake, hdrop]
  | quoted =>
    rw [quoted, quotedTail_followed h]
    rfl
  | mark _ listed => exact Mark.read_followed (hsecond _ listed) h
  | single => rfl

end Lexeme

/-! ## Gaps -/

namespace Gap

variable {more : Bytes}

/-- A text that starts with no gap starts with none when more follows, unless the text is a single
slash. -/
theorem split_cons_followed {a : UInt8} {rest : Bytes} (h : (split (a :: rest)).1 = [])
    (hslash : a = Ascii.slash → Settled rest more) :
    split (a :: (rest ++ more)) = ([], a :: (rest ++ more)) := by
  unfold split at h ⊢
  have hblank : ¬Ascii.isBlank a = true := by
    intro hblank
    simp [splitFrom_of_isBlank hblank, keep] at h
  by_cases ha : a = Ascii.slash
  · subst ha
    cases rest with
    | nil =>
      obtain ⟨rest, rfl⟩ := List.head?_eq_some_iff.mp (hslash rfl rfl)
      rfl
    | cons c rest =>
      rw [splitFrom, if_neg hblank, if_pos rfl] at h
      rw [List.cons_append, splitFrom, if_neg hblank, if_pos rfl]
      by_cases hline : c = Ascii.slash
      · simp [hline, keep] at h
      by_cases hblock : c = Ascii.star
      · simp [if_neg hline, if_pos hblock, keep] at h
      · rw [if_neg hline, if_neg hblock]
  · cases hrest : rest ++ more with
    | nil => rw [splitFrom, if_neg hblank, if_neg ha]
    | cons c rest => rw [splitFrom, if_neg hblank, if_neg ha]

/-- A gap whose end is settled is split off alike whatever follows. -/
theorem split_followed {s : Bytes} {a : UInt8} {rest : Bytes} (h : (split s).2 = a :: rest)
    (hslash : a = Ascii.slash → Settled rest more) :
    split (s ++ more) = ((split s).1, a :: (rest ++ more)) := by
  have hgap := isGap_split s
  rw [h, eq_false (List.cons_ne_nil a rest)] at hgap
  have hwhole : s = (split s).1 ++ a :: rest := by
    rw [← h, split_append]
  have hagain := congrArg Prod.fst (split_append_of_isGap hgap (a :: rest))
  rw [← hwhole] at hagain
  replace hagain := List.self_eq_append_right.mp hagain
  rw [hwhole, List.append_assoc, List.cons_append, split_append_of_isGap hgap,
    split_cons_followed hagain hslash, ← hwhole, List.append_nil]

/-- A gap at the end of a text ends inside a comment between marks, or with its line at the latest. -/
theorem isGap_newline {gap : Bytes} (h : IsGap True gap) :
    (∃ ended body, gap = ended ++ Ascii.slash :: Ascii.star :: body ∧ IsGap False ended ∧
      OpenComment body) ∨ IsGap False (gap ++ [Ascii.newline]) := by
  induction h with
  | nil => exact .inr (.blank (by decide) .nil)
  | blank blank _ ih =>
    rcases ih with ⟨ended, body, rfl, hended, hbody⟩ | hnewline
    · exact .inl ⟨_ :: ended, body, rfl, .blank blank hended, hbody⟩
    · exact .inr (.blank blank hnewline)
  | @line content _ inside _ ih =>
    rcases ih with ⟨ended, body, rfl, hended, hbody⟩ | hnewline
    · exact .inl ⟨_, body, by simp, .line inside hended, hbody⟩
    · refine .inr ?_
      rw [List.cons_append, List.cons_append, List.append_assoc, List.cons_append]
      exact .line inside hnewline
  | block comment _ ih =>
    rcases ih with ⟨ended, body, rfl, hended, hbody⟩ | hnewline
    · exact .inl ⟨_, body, by simp, .block comment hended, hbody⟩
    · refine .inr ?_
      rw [List.cons_append, List.cons_append, List.append_assoc]
      exact .block comment hnewline
  | openLine _ inside => exact .inr (.line inside .nil)
  | openBlock _ comment => exact .inl ⟨[], _, rfl, .nil, comment⟩

/-- A comment that is not ended goes on over the beginning of a line. -/
theorem OpenComment.followed {body : Bytes} (h : OpenComment body) (b : UInt8) :
    OpenComment (body ++ [Ascii.newline, b]) := by
  have hplain (c : UInt8) : isMark c Ascii.newline = false ∧ isMark Ascii.newline c = false := by
    simp [isMark, show Ascii.newline ≠ Ascii.slash by decide,
      show Ascii.newline ≠ Ascii.star by decide]
  induction h with
  | nil => exact .content (hplain b).2 (.last b)
  | last c => exact .content (hplain c).1 (.content (hplain b).2 (.last b))
  | content plain _ ih => exact .content plain ih
  | nested comment _ ih =>
    rw [List.cons_append, List.cons_append, List.append_assoc]
    exact .nested comment ih
  | unended _ ih => exact .unended ih

end Gap

/-! ## Tokens -/

/-- A token at the place that its own place is moved to. -/
def Token.moved (move : Place → Place) (t : Token) : Token :=
  { t with line := (move ⟨t.line, t.column⟩).line, column := (move ⟨t.line, t.column⟩).column }

/-- A place a number of lines further down. -/
def Place.down (n : Nat) (p : Place) : Place := ⟨p.line + n, p.column⟩

/-- A token a number of lines further down. -/
def Token.down (n : Nat) (t : Token) : Token := { t with line := t.line + n }

/-- A move of places that the bytes of a text do not notice: it moves the place behind a byte to the
place behind the byte, as far as places are of a kind that is not left. -/
structure Place.Commutes (kind : Place → Prop) (move : Place → Place) : Prop where
  kept {p : Place} (b : UInt8) : kind p → kind (p.step b)
  moved {p : Place} (b : UInt8) : kind p → (move p).step b = move (p.step b)

namespace Place.Commutes

variable {kind : Place → Prop} {move : Place → Place} {p : Place}

theorem advance (h : Commutes kind move) (hp : kind p) (s : Bytes) :
    kind (p.advance s) ∧ (move p).advance s = move (p.advance s) := by
  induction s generalizing p with
  | nil => exact ⟨hp, rfl⟩
  | cons b s ih =>
    change kind ((p.step b).advance s) ∧ ((move p).step b).advance s = move ((p.step b).advance s)
    rw [h.moved b hp]
    exact ih (h.kept b hp)

end Place.Commutes

theorem Place.commutes_down (n : Nat) : Commutes (fun _ => True) (Place.down n) := by
  constructor
  · intro p b _
    trivial
  · intro p b _
    unfold step down
    split
    · rw [Nat.add_right_comm]
    · rfl

namespace TokenStream

/-- The tokens of a text that is moved are moved. -/
theorem scan_moved {kind : Place → Prop} {move : Place → Place} (h : Place.Commutes kind move)
    {place : Place} (hplace : kind place) (s : Bytes) :
    scan (move place) s =
      ⟨(scan place s).tokens.map (Token.moved move), (scan place s).eof.moved move⟩ := by
  induction place, s using scan_induction with
  | nil place s hsplit =>
    obtain ⟨-, hgap⟩ := h.advance hplace (Gap.split s).1
    rw [scan_nil hsplit, scan_nil hsplit, hgap]
    rfl
  | cons place s a rest hsplit ih =>
    obtain ⟨hkind, hgap⟩ := h.advance hplace (Gap.split s).1
    obtain ⟨hkind', hraw⟩ := h.advance hkind (Lexeme.read a rest).1.raw
    rw [scan_cons hsplit, scan_cons hsplit]
    dsimp only
    rw [hgap, hraw, ih hkind']
    rfl

/-- The tokens of a text that starts further down stand further down. -/
theorem scan_down (n : Nat) (place : Place) (s : Bytes) :
    scan (place.down n) s =
      ⟨(scan place s).tokens.map (Token.down n), (scan place s).eof.down n⟩ :=
  scan_moved (Place.commutes_down n) trivial s

/-- A gap in front of a text only moves the text. -/
theorem scan_append_of_isGap {gap : Bytes} (h : Gap.IsGap False gap) (place : Place) (s : Bytes) :
    scan place (gap ++ s) = scan (place.advance gap) s := by
  have hgap := Gap.split_append_of_isGap h s
  cases hsplit : (Gap.split s).2 with
  | nil =>
    rw [scan_nil ((congrArg Prod.snd hgap).trans hsplit), scan_nil hsplit, hgap, Place.advance_append]
  | cons a rest =>
    rw [scan_cons ((congrArg Prod.snd hgap).trans hsplit), scan_cons hsplit, hgap, Place.advance_append]

end TokenStream

/-! ## Newlines -/

/-- Whether a text ends inside a comment between marks: there is one behind the last lexeme that is
not ended. -/
inductive EndsInComment : Bytes → Prop where
  | comment {gap body : Bytes} (ended : Gap.IsGap False gap) (unended : Gap.OpenComment body) :
      EndsInComment (gap ++ Ascii.slash :: Ascii.star :: body)
  | lexeme {s : Bytes} {a : UInt8} {rest : Bytes} (first : (Gap.split s).2 = a :: rest)
      (after : EndsInComment (Lexeme.read a rest).2) : EndsInComment s

namespace TokenStream

/-- The tokens of a text that ends outside of comments, and of another one behind a newline. -/
theorem scan_newline {s : Bytes} (h : ¬EndsInComment s) (place : Place) (t : Bytes) :
    scan place (s ++ Ascii.newline :: t) =
      let below := scan (place.advance (s ++ [Ascii.newline])) t
      ⟨(scan place s).tokens ++ below.tokens, below.eof⟩ := by
  induction place, s using scan_induction with
  | nil place s hsplit =>
    have hgap := Gap.isGap_split s
    have hwhole := Gap.split_append s
    rw [hsplit, List.append_nil] at hwhole
    rw [hwhole, hsplit, eq_true rfl] at hgap
    rcases Gap.isGap_newline hgap with ⟨ended, body, rfl, hended, hbody⟩ | hnewline
    · exact absurd (.comment hended hbody) h
    · have hscan := scan_append_of_isGap hnewline place t
      rw [List.append_assoc] at hscan
      rw [scan_nil hsplit]
      exact hscan
  | cons place s a rest hsplit ih =>
    have hnewline (after : Bytes) : Settled after (Ascii.newline :: t) := fun _ => rfl
    have hgap := Gap.split_followed hsplit fun _ => hnewline rest
    have hread := Lexeme.read_followed (hnewline (Lexeme.read a rest).2)
    have hwhole : s ++ [Ascii.newline] = (Gap.split s).1 ++ (Lexeme.read a rest).1.raw
        ++ ((Lexeme.read a rest).2 ++ [Ascii.newline]) := by
      rw [← List.append_assoc, List.append_assoc (Gap.split s).1, Lexeme.read_append, ← hsplit,
        Gap.split_append]
    have htail := ih fun hafter => h (.lexeme hsplit hafter)
    rw [← Place.advance_append, ← Place.advance_append, ← hwhole] at htail
    rw [scan_cons (congrArg Prod.snd hgap), scan_cons hsplit, hgap, hread]
    dsimp only at htail ⊢
    rw [← Place.advance_append, htail, List.cons_append, Place.advance_append]

/-- A text that ends inside a comment between marks has no tokens on the next line. -/
theorem tokens_scan_of_endsInComment {s : Bytes} (h : EndsInComment s) (place : Place) (b : UInt8) :
    (scan place (s ++ [Ascii.newline, b])).tokens = (scan place s).tokens := by
  have hopen {body : Bytes} (hbody : Gap.OpenComment body) :
      (Gap.split (Ascii.slash :: Ascii.star :: body)).2 = [] := by
    rw [Gap.split_mark, Gap.splitFrom_openComment hbody]
    rfl
  induction h generalizing place with
  | comment hgap hbody =>
    rw [List.append_assoc, List.cons_append, List.cons_append, scan_append_of_isGap hgap,
      scan_append_of_isGap hgap, scan_nil (hopen hbody), scan_nil (hopen (hbody.followed b))]
  | @lexeme s a rest hsplit _ ih =>
    have hnewline (after : Bytes) : Settled after [Ascii.newline, b] := fun _ => rfl
    have hgap := Gap.split_followed hsplit fun _ => hnewline rest
    have hread := Lexeme.read_followed (hnewline (Lexeme.read a rest).2)
    rw [scan_cons (congrArg Prod.snd hgap), scan_cons hsplit, hgap, hread]
    dsimp only
    rw [ih]

/-- A newline is a boundary between tokens exactly if it does not stand in a comment between marks:
the tokens of the text before it, malformed ones included, are followed by those of the text behind
it, as many lines further down as the newline is. -/
theorem ofSource_newline_iff (a : Bytes) :
    ¬EndsInComment a ↔ ∀ b : Bytes, (ofSource (a ++ Ascii.newline :: b)).toList =
      (ofSource a).tokens ++ (ofSource b).toList.map (Token.down (1 + a.count Ascii.newline)) := by
  constructor
  · intro h b
    have hplace : Place.start.advance (a ++ [Ascii.newline]) =
        Place.start.down (1 + a.count Ascii.newline) := by
      rw [Place.advance_start]
      simp [Bytes.sinceNewline, Place.down, Place.start, Nat.add_comm]
    unfold toList ofSource
    rw [scan_newline h, hplace, scan_down, List.map_append, List.append_assoc]
    rfl
  · intro h hopen
    -- A letter on the next line would be a token.
    have hletter := congrArg List.length (h [0x61])
    have htokens := tokens_scan_of_endsInComment hopen .start 0x61
    have hone : (ofSource [0x61]).tokens ≠ [] := by
      rw [ofSource, scan_cons rfl]
      exact List.cons_ne_nil _ _
    unfold toList at hletter
    rw [ofSource, htokens] at hletter
    simp only [List.length_append, List.length_map, List.length_singleton] at hletter
    rw [ofSource] at hletter
    have hpos := List.length_pos_iff.mpr hone
    omega

end TokenStream

/-! ## Periods -/

/-- A period is a lexeme by itself, whatever follows. -/
theorem Lexeme.read_period {a : UInt8} {rest : Bytes} (h : (read a rest).1.kind = .period)
    (more : Bytes) :
    a ≠ Ascii.slash ∧ read a (rest ++ more) = ((read a rest).1, (read a rest).2 ++ more) := by
  refine ⟨?_, ?_⟩
  · rintro rfl
    have hread : read Ascii.slash rest = (⟨.op .divide, [Ascii.slash]⟩, rest) := rfl
    rw [hread] at h
    cases h
  have hread := reading_read a
  generalize read a = f at hread h ⊢
  cases hread with
  | word => exact absurd h (ofWord_ne (by decide) (by simp) _)
  | number =>
    have hkind := numberKind_mem (a :: rest.takeWhile isNumberByte)
    dsimp only at h
    rw [h] at hkind
    simp at hkind
  | @quoted _ l =>
    have hkind := quoted_kind_mem a (.literal l) rest
    rw [h] at hkind
    simp at hkind
  | @mark _ m listed =>
    have hmarks : ∀ entry ∈ marks, .period ∉ [entry.2.single, entry.2.double] := by decide
    exact absurd (h ▸ m.read_kind_mem a rest) (hmarks _ listed)
  | single => rfl

namespace TokenStream

/-- The tokens of a text up to a period are the same whatever follows the text. -/
theorem tokens_followed {place : Place} {s : Bytes} {before rest : List Token} {t : Token}
    (h : (scan place s).tokens = before ++ t :: rest) (ht : t.kind = .period) (more : Bytes) :
    ∃ rest', (scan place (s ++ more)).tokens = before ++ t :: rest' := by
  induction place, s using scan_induction generalizing before with
  | nil place s hsplit =>
    rw [scan_nil hsplit] at h
    simp at h
  | cons place s a after hsplit ih =>
    rw [scan_cons hsplit] at h
    cases before with
    | nil =>
      obtain ⟨rfl, -⟩ := List.cons.inj h
      obtain ⟨hslash, hread⟩ := Lexeme.read_period ht more
      have hgap : Gap.split (s ++ more) = ((Gap.split s).1, a :: (after ++ more)) :=
        Gap.split_followed hsplit fun ha => absurd ha hslash
      rw [scan_cons (congrArg Prod.snd hgap), hgap, hread]
      exact ⟨_, rfl⟩
    | cons u before =>
      obtain ⟨rfl, htail⟩ := List.cons.inj h
      -- There are tokens behind this lexeme, so a byte settles its end.
      have hmore : (Lexeme.read a after).2 ≠ [] := by
        intro hnil
        rw [hnil, scan_nil rfl] at htail
        simp at htail
      have hafter : after ≠ [] := by
        rintro rfl
        exact hmore (List.eq_nil_of_length_eq_zero (Nat.le_zero.mp (Lexeme.length_read_le a [])))
      have hgap : Gap.split (s ++ more) = ((Gap.split s).1, a :: (after ++ more)) :=
        Gap.split_followed hsplit fun _ hnil => absurd hnil hafter
      have hread : Lexeme.read a (after ++ more) =
          ((Lexeme.read a after).1, (Lexeme.read a after).2 ++ more) :=
        Lexeme.read_followed fun hnil => absurd hnil hmore
      obtain ⟨rest', hrest⟩ := ih htail
      rw [scan_cons (congrArg Prod.snd hgap), hgap, hread]
      exact ⟨rest', congrArg (List.cons _) hrest⟩

end TokenStream

end OnePass
