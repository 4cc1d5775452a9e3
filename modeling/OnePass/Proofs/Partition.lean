import OnePass.Proofs.Gap
import OnePass.Proofs.Lexical
set_option autoImplicit false

/-!
# A source and its tokens

The tokens of a source and the gaps between them are the whole source, byte for byte, and every
token stands where its lexeme does (`ofSource_partition`).  A `Scanner` reads one token after
another; reading on at the end gives the end again, at the same place.
-/

namespace OnePass

/-! ## Places -/

/-- The number of bytes behind the last newline of a text. -/
def Bytes.sinceNewline (s : Bytes) : Nat := (s.reverse.takeWhile (· ≠ Ascii.newline)).length

/-- The place behind a text counts its newlines, and the bytes behind the last one. -/
theorem Place.advance_start (s : Bytes) :
    Place.start.advance s = ⟨1 + s.count Ascii.newline, 1 + s.sinceNewline⟩ := by
  -- From the end on, since the last byte decides whether a line has just begun.
  have hreverse (t : Bytes) : Place.start.advance t.reverse =
      ⟨1 + t.count Ascii.newline, 1 + (t.takeWhile (· ≠ Ascii.newline)).length⟩ := by
    induction t with
    | nil => rfl
    | cons b t ih =>
      rw [List.reverse_cons, advance_append, ih]
      by_cases hb : b = Ascii.newline
      · simp [advance, step, hb, Nat.add_assoc]
      · simp [advance, step, hb, Nat.add_assoc]
  have hs := hreverse s.reverse
  rw [List.reverse_reverse, List.count_reverse] at hs
  exact hs

/-! ## Lexemes -/

namespace Lexeme

theorem newline_notMem_takeWhile {p : UInt8 → Bool} (hp : p Ascii.newline = false) (s : Bytes) :
    Ascii.newline ∉ s.takeWhile p := by
  intro hmem
  have hall := List.all_eq_true.mp (List.all_takeWhile (p := p) (l := s)) _ hmem
  exact absurd hall (by simp [hp])

theorem newline_notMem_quotedTail (delimiter : UInt8) (s : Bytes) :
    Ascii.newline ∉ (quotedTail delimiter s).1 := by
  induction s with
  | nil => exact List.not_mem_nil
  | cons b rest ih =>
    unfold quotedTail
    split
    · exact List.not_mem_nil
    · next hb =>
      split
      · exact List.not_mem_cons_of_ne_of_not_mem (Ne.symm hb) List.not_mem_nil
      · exact List.not_mem_cons_of_ne_of_not_mem (Ne.symm hb) ih

theorem newline_notMem_markRead {a : UInt8} {mark : Mark} (ha : a ≠ Ascii.newline)
    (hmark : (a, mark) ∈ marks) (rest : Bytes) :
    Ascii.newline ∉ (mark.read a rest).1.raw := by
  have hsecond : ∀ entry ∈ marks, entry.2.second ≠ Ascii.newline := by decide
  have hb := hsecond _ hmark
  cases rest with
  | nil => simpa [Mark.read] using ha.symm
  | cons b rest =>
    simp only [Mark.read]
    split
    · next heq =>
      subst heq
      simpa using ⟨ha.symm, hb.symm⟩
    · simpa using ha.symm

/-- A lexeme does not leave its line. -/
theorem newline_notMem_read {a : UInt8} (ha : a ≠ Ascii.newline) (rest : Bytes) :
    Ascii.newline ∉ (read a rest).1.raw := by
  have hcons {s : Bytes} (hs : Ascii.newline ∉ s) : Ascii.newline ∉ a :: s :=
    List.not_mem_cons_of_ne_of_not_mem ha.symm hs
  have hread := reading_read a
  generalize read a = f at hread ⊢
  cases hread with
  | word => exact hcons (newline_notMem_takeWhile (by decide) rest)
  | number => exact hcons (newline_notMem_takeWhile (by decide) rest)
  | quoted => exact hcons (newline_notMem_quotedTail a rest)
  | mark _ listed => exact newline_notMem_markRead ha listed rest
  | single => exact hcons List.not_mem_nil

end Lexeme

/-- What a token of a kind carries of its lexeme: a reserved word in small letters, a single byte
that is no token as the code point of that number, and anything else as it is written. -/
inductive Carries (raw : Bytes) : TokenKind → Bytes → Prop where
  | reserved {kind : TokenKind} (word : TokenKind.ofWord raw = kind)
      (reserved : kind.isReserved = true) : Carries raw kind raw.lowerAscii
  | stray {b : UInt8} (single : raw = [b]) : Carries raw .error (Utf8.encode b.toNat)
  | same {kind : TokenKind} (free : kind.isReserved = false)
      (whole : kind = .error → raw.length ≠ 1) : Carries raw kind raw

theorem Lexeme.carries_literal {l : Lexeme}
    (hword : l.kind.isReserved = true →
      l.raw.all isWordByte = true ∧ TokenKind.ofWord l.raw = l.kind) :
    Carries l.raw l.kind l.literal := by
  obtain ⟨kind, raw⟩ := l
  dsimp only at hword ⊢
  by_cases hreserved : kind.isReserved = true
  · obtain ⟨hbytes, hkind⟩ := hword hreserved
    have hliteral : literal ⟨kind, raw⟩ = raw.lowerAscii := by
      unfold literal
      split
      · next herror _ =>
        dsimp only at herror
        rw [herror] at hreserved
        cases hreserved
      · rw [if_pos hreserved, lower_eq_of_isWordByte (List.all_eq_true.mp hbytes)]
    rw [hliteral]
    exact .reserved hkind hreserved
  · unfold literal
    split
    · next b herror hsingle =>
      dsimp only at herror hsingle
      rw [herror]
      exact .stray hsingle
    · next hsingle =>
      rw [if_neg hreserved]
      refine .same (Bool.eq_false_iff.mpr hreserved) fun herror hlength => ?_
      obtain ⟨b, hb⟩ := List.length_eq_one_iff.mp hlength
      exact hsingle b herror hb

/-! ## Reading one token after another -/

/-- A reader of tokens: where it stands, and the text that it has not read. -/
structure Scanner where
  place : Place
  rest : Bytes
  deriving DecidableEq, Repr, Inhabited

namespace Scanner

/-- A reader at the beginning of a source. -/
def ofSource (source : Bytes) : Scanner := ⟨.start, source⟩

/-- Reads a token: skips the gap, and takes the lexeme behind it if there is one. -/
def next (r : Scanner) : Token × Scanner :=
  let here := r.place.advance (Gap.split r.rest).1
  match (Gap.split r.rest).2 with
  | [] => (⟨.eof, [], here.line, here.column⟩, ⟨here, []⟩)
  | a :: rest =>
    let lexeme := (Lexeme.read a rest).1
    (⟨lexeme.kind, lexeme.literal, here.line, here.column⟩,
      ⟨here.advance lexeme.raw, (Lexeme.read a rest).2⟩)

/-- The token that the reader gives when it is asked for the token with a number, from zero on. -/
def nth (r : Scanner) : Nat → Token
  | 0 => r.next.1
  | n + 1 => r.next.2.nth n

theorem nth_end (place : Place) (n : Nat) :
    (⟨place, []⟩ : Scanner).nth n = ⟨.eof, [], place.line, place.column⟩ := by
  induction n with
  | zero => rfl
  | succ n ih => exact ih

/-- Reading one token after another gives the tokens of the text, and then the end for ever. -/
theorem nth_eq (place : Place) (s : Bytes) (n : Nat) :
    (⟨place, s⟩ : Scanner).nth n =
      (TokenStream.scan place s).tokens.getD n (TokenStream.scan place s).eof := by
  induction place, s using TokenStream.scan_induction generalizing n with
  | nil place s hsplit =>
    rw [TokenStream.scan_nil hsplit]
    cases n with
    | zero => simp [nth, next, hsplit]
    | succ n =>
      simp only [nth, next, hsplit]
      rw [nth_end]
      rfl
  | cons place s a rest hsplit ih =>
    rw [TokenStream.scan_cons hsplit]
    cases n with
    | zero => simp [nth, next, hsplit]
    | succ n =>
      simp only [nth, next, hsplit]
      exact ih n

end Scanner

/-! ## Pieces of a source -/

/-- A token with its lexeme and the gap before it. -/
structure Piece where
  gap : Bytes
  raw : Bytes
  token : Token
  deriving DecidableEq, Repr, Inhabited

namespace Piece

/-- The bytes of a piece. -/
def text (p : Piece) : Bytes := p.gap ++ p.raw

/-- Whether a piece stands behind a text: its gap is one, its lexeme is not empty and does not leave
its line, and its token carries the lexeme and the place that the lexeme starts at. -/
structure Stands (before : Bytes) (p : Piece) : Prop where
  gap : Gap.IsGap False p.gap
  raw_ne_nil : p.raw ≠ []
  newline_notMem : Ascii.newline ∉ p.raw
  kind : p.token.kind ≠ .eof
  literal : Carries p.raw p.token.kind p.token.literal
  line : p.token.line = 1 + (before ++ p.gap).count Ascii.newline
  column : p.token.column = 1 + (before ++ p.gap).sinceNewline

end Piece

/-- The token that marks the end of a source: it stands just behind the last byte. -/
def Token.ending (source : Bytes) : Token :=
  ⟨.eof, [], 1 + source.count Ascii.newline, 1 + source.sinceNewline⟩

/-- The piece of a lexeme behind a gap that starts at a place. -/
def Piece.ofLexeme (place : Place) (gap : Bytes) (l : Lexeme) : Piece :=
  ⟨gap, l.raw, ⟨l.kind, l.literal, (place.advance gap).line, (place.advance gap).column⟩⟩

/-- The first token of a text stands behind what comes before the text. -/
theorem Piece.stands_read {before s : Bytes} {a : UInt8} {rest : Bytes}
    (hsplit : (Gap.split s).2 = a :: rest) :
    (ofLexeme (Place.start.advance before) (Gap.split s).1 (Lexeme.read a rest).1).Stands before := by
  have hgap := Gap.isGap_split s
  have hblank : Ascii.isBlank a = false := Gap.not_isBlank_of_splitFrom hsplit
  have hplace := Place.advance_start (before ++ (Gap.split s).1)
  rw [hsplit, eq_false (List.cons_ne_nil a rest)] at hgap
  rw [Place.advance_append] at hplace
  refine ⟨hgap, Lexeme.read_raw_ne_nil a rest, Lexeme.newline_notMem_read ?_ rest,
    Lexeme.read_kind_ne_eof a rest, Lexeme.carries_literal Lexeme.isReserved_read, ?_, ?_⟩
  · rintro rfl
    exact absurd hblank (by decide)
  · exact congrArg Place.line hplace
  · exact congrArg Place.column hplace

/-- A text behind another one is cut into the pieces of its tokens and a last gap.  What holds of every
first piece of a text, whatever stands before it, holds of all of them. -/
theorem scan_pieces {Holds : Bytes → Piece → Prop}
    (hfirst : ∀ {before s : Bytes} {a : UInt8} {rest : Bytes}, (Gap.split s).2 = a :: rest →
      Holds before (.ofLexeme (.advance .start before) (Gap.split s).1 (Lexeme.read a rest).1))
    (place : Place) (s before : Bytes) (hplace : place = Place.start.advance before) :
    ∃ (pieces : List Piece) (last : Bytes),
      s = pieces.flatMap Piece.text ++ last ∧ Gap.IsGap True last ∧
      (∀ done p rest, pieces = done ++ p :: rest → Holds (before ++ done.flatMap Piece.text) p) ∧
      (TokenStream.scan place s).tokens = pieces.map Piece.token ∧
      (TokenStream.scan place s).eof = .ending (before ++ s) := by
  induction place, s using TokenStream.scan_induction generalizing before with
  | nil place s hsplit =>
    have hwhole := Gap.split_append s
    have hgap := Gap.isGap_split s
    rw [hsplit, List.append_nil] at hwhole
    rw [hsplit] at hgap
    refine ⟨[], (Gap.split s).1, hwhole.symm, by simpa using hgap, ?_, ?_, ?_⟩
    · intro done p rest h
      simp at h
    · rw [TokenStream.scan_nil hsplit]
      rfl
    · rw [TokenStream.scan_nil hsplit, hplace]
      dsimp only
      rw [← Place.advance_append, hwhole, Place.advance_start]
      rfl
  | cons place s a rest hsplit ih =>
    subst hplace
    let first := Piece.ofLexeme (.advance .start before) (Gap.split s).1 (Lexeme.read a rest).1
    have hwhole : s = first.text ++ (Lexeme.read a rest).2 := by
      change s = (Gap.split s).1 ++ (Lexeme.read a rest).1.raw ++ (Lexeme.read a rest).2
      rw [List.append_assoc, Lexeme.read_append, ← hsplit, Gap.split_append]
    obtain ⟨pieces, last, htext, hlast, hholds, htokens, heof⟩ := ih (before ++ first.text) (by
      rw [← Place.advance_append, ← Place.advance_append]
      rfl)
    refine ⟨first :: pieces, last, ?_, hlast, ?_, ?_, ?_⟩
    · rw [List.flatMap_cons, List.append_assoc, ← htext]
      exact hwhole
    · intro done p rest' hpieces
      cases done with
      | nil =>
        obtain ⟨rfl, -⟩ := List.cons.inj hpieces
        rw [List.flatMap_nil, List.append_nil]
        exact hfirst hsplit
      | cons q done =>
        obtain ⟨rfl, hrest⟩ := List.cons.inj hpieces
        rw [List.flatMap_cons, ← List.append_assoc]
        exact hholds done p rest' hrest
    · rw [TokenStream.scan_cons hsplit, List.map_cons, ← htokens]
      rfl
    · have hend : before ++ s = before ++ first.text ++ (Lexeme.read a rest).2 := by
        rw [List.append_assoc, ← hwhole]
      rw [TokenStream.scan_cons hsplit, hend]
      exact heof

/-- A source is cut into its lexemes, in the order of its tokens, and the gaps around them.  Every
token stands where its lexeme does, and the end stands behind the last byte, however often it is
asked for. -/
theorem ofSource_partition (source : Bytes) :
    ∃ (pieces : List Piece) (last : Bytes),
      source = pieces.flatMap Piece.text ++ last ∧ Gap.IsGap True last ∧
      (∀ done p rest, pieces = done ++ p :: rest → p.Stands (done.flatMap Piece.text)) ∧
      (TokenStream.ofSource source).toList = pieces.map Piece.token ++ [.ending source] ∧
      ∀ n, (Scanner.ofSource source).nth n = (pieces.map Piece.token).getD n (.ending source) := by
  obtain ⟨pieces, last, htext, hlast, hstands, htokens, heof⟩ :=
    scan_pieces Piece.stands_read .start source [] rfl
  refine ⟨pieces, last, htext, hlast, hstands, ?_, fun n => ?_⟩
  · rw [TokenStream.toList, TokenStream.ofSource, htokens, heof]
    rfl
  · rw [Scanner.ofSource, Scanner.nth_eq, htokens, heof]
    rfl

end OnePass
