import Mathlib.Data.List.TakeWhile
import OnePass.Proofs.Boundary
import OnePass.Proofs.Folding.Lexical
set_option autoImplicit false

/-!
# Tokens printed one to a line

The texts of tokens can be printed and read again.  A lexeme is read alike when nothing else is there
(`Lexeme.read_raw`), and so is the text that its token carries, if the source is made of ASCII bytes
(`isToken_of_mem`): a reserved word in small letters is the same word, and a malformed literal is
malformed in the same way.  A newline behind a text ends its token, so the tokens of the printed texts
are those of the source, each at the beginning of a line (`tokens_ofSource_printed`).
-/

namespace OnePass

/-- A text without a newline moves a place along its line. -/
theorem Place.advance_of_notMem {s : Bytes} (h : Ascii.newline ∉ s) (p : Place) :
    p.advance s = ⟨p.line, p.column + s.length⟩ := by
  induction s generalizing p with
  | nil => rfl
  | cons b s ih =>
    obtain ⟨hb, hs⟩ := List.ne_and_not_mem_of_not_mem_cons h
    have hstep : p.step b = ⟨p.line, p.column + 1⟩ := if_neg hb.symm
    change (p.step b).advance s = _
    rw [hstep, ih hs, List.length_cons, Nat.add_assoc, Nat.add_comm 1]

/-! ## Lexemes by themselves -/

namespace Lexeme

theorem dropWhile_takeWhile (p : UInt8 → Bool) (s : Bytes) :
    (s.takeWhile p).dropWhile p = [] := by
  rw [List.dropWhile_eq_nil_iff]
  exact List.all_eq_true.mp List.all_takeWhile

theorem quotedTail_raw (delimiter : UInt8) (s : Bytes) :
    quotedTail delimiter (quotedTail delimiter s).1 =
      ((quotedTail delimiter s).1, (quotedTail delimiter s).2.1, []) := by
  induction s with
  | nil => rfl
  | cons b rest ih =>
    by_cases hnewline : b = Ascii.newline
    · simp [quotedTail, hnewline]
    by_cases hdelimiter : b = delimiter
    · subst hdelimiter
      simp [quotedTail, hnewline]
    · simp [quotedTail, hnewline, hdelimiter, ih]

theorem quoted_raw (delimiter : UInt8) (kind : TokenKind) (rest : Bytes) :
    quoted delimiter kind (quoted delimiter kind rest).1.raw.tail =
      ((quoted delimiter kind rest).1, []) := by
  simp only [quoted, List.tail_cons, quotedTail_raw]

theorem Mark.read_raw (m : Mark) (a : UInt8) (rest : Bytes) :
    m.read a (m.read a rest).1.raw.tail = ((m.read a rest).1, []) := by
  cases rest with
  | nil => rfl
  | cons b rest =>
    by_cases hb : b = m.second
    · simp [Mark.read, hb]
    · simp [Mark.read, hb]

/-- A lexeme is read alike when there is nothing behind it. -/
theorem read_raw (a : UInt8) (rest : Bytes) :
    read a (read a rest).1.raw.tail = ((read a rest).1, []) := by
  have hread := reading_read a
  generalize read a = f at hread ⊢
  cases hread with
  | word => simp only [List.tail_cons, List.takeWhile_idem, dropWhile_takeWhile]
  | number => simp only [List.tail_cons, List.takeWhile_idem, dropWhile_takeWhile]
  | quoted => exact quoted_raw a _ rest
  | mark => exact Mark.read_raw _ a rest
  | single => rfl

theorem raw_eq_cons_tail (a : UInt8) (rest : Bytes) :
    (read a rest).1.raw = a :: (read a rest).1.raw.tail := by
  have happend := read_append a rest
  cases hraw : (read a rest).1.raw with
  | nil => exact absurd hraw (read_raw_ne_nil a rest)
  | cons b tail =>
    rw [hraw, List.cons_append] at happend
    rw [(List.cons.inj happend).1, List.tail_cons]

theorem encode_of_lt {b : UInt8} (h : b < 0x80) : Utf8.encode b.toNat = [b] := by
  have hnat : b.toNat < 0x80 := UInt8.lt_iff_toNat_lt.mp h
  simp [Utf8.encode, hnat]

/-- The text of a lexeme of ASCII bytes that is not reserved is the lexeme itself. -/
theorem literal_of_isAscii {l : Lexeme} (hreserved : l.kind.isReserved = false)
    (hascii : l.raw.isAscii = true) : l.literal = l.raw := by
  unfold literal
  split
  · next b _ hsingle =>
    rw [hsingle, Bytes.isAscii, List.all_cons, Bool.and_eq_true, decide_eq_true_eq] at hascii
    rw [hsingle, encode_of_lt hascii.1]
  · rw [hreserved]
    rfl

/-- The text of a reserved word is the word in small letters. -/
theorem literal_of_isReserved {a : UInt8} {rest : Bytes}
    (h : (read a rest).1.kind.isReserved = true) :
    (read a rest).1.literal = (read a rest).1.raw.lowerAscii := by
  have hbytes := List.all_eq_true.mp (isReserved_read h).1
  unfold literal
  split
  · next herror _ =>
    rw [herror] at h
    cases h
  · rw [if_pos h, lower_eq_of_isWordByte hbytes]

end Lexeme

/-! ## Texts of one token -/

/-- Whether a text is read as one token of a kind, and the token carries the text itself. -/
inductive IsToken : TokenKind → Bytes → Prop where
  | intro {kind : TokenKind} {a : UInt8} {rest : Bytes}
      (split : Gap.split (a :: rest) = ([], a :: rest))
      (read : Lexeme.read a rest = (⟨kind, a :: rest⟩, []))
      (literal : Lexeme.literal ⟨kind, a :: rest⟩ = a :: rest) : IsToken kind (a :: rest)

namespace IsToken

variable {kind : TokenKind} {s : Bytes}

theorem newline_notMem (h : IsToken kind s) : Ascii.newline ∉ s := by
  cases h with
  | @intro a rest split read literal =>
    have ha : a ≠ Ascii.newline := by
      rintro rfl
      exact absurd (Gap.not_isBlank_of_splitFrom (congrArg Prod.snd split)) (by decide)
    have hraw := Lexeme.newline_notMem_read ha rest
    rw [read] at hraw
    exact hraw

/-- A text of one token has that token. -/
theorem tokens_scan (h : IsToken kind s) (place : Place) :
    (TokenStream.scan place s).tokens = [⟨kind, s, place.line, place.column⟩] := by
  cases h with
  | intro split read literal =>
    rw [TokenStream.scan_cons (congrArg Prod.snd split), split, read]
    dsimp only
    rw [TokenStream.scan_nil rfl, literal]
    rfl

/-- A text of one token has that token also if another line follows. -/
theorem tokens_scan_newline (h : IsToken kind s) (place : Place) (t : Bytes) :
    (TokenStream.scan place (s ++ Ascii.newline :: t)).tokens =
      ⟨kind, s, place.line, place.column⟩ :: (TokenStream.scan ⟨place.line + 1, 1⟩ t).tokens := by
  have hbelow : TokenStream.scan (place.advance s) (Ascii.newline :: t) =
      TokenStream.scan ⟨place.line + 1, 1⟩ t := by
    have hgap : Gap.IsGap False [Ascii.newline] := .blank (by decide) .nil
    rw [Place.advance_of_notMem h.newline_notMem]
    exact TokenStream.scan_append_of_isGap hgap _ t
  cases h with
  | @intro a rest split read literal =>
    have hnewline (after : Bytes) : Settled after (Ascii.newline :: t) := by
      intro
      rfl
    have hsplit := Gap.split_followed (congrArg Prod.snd split) fun _ => hnewline rest
    have hread := Lexeme.read_followed (hnewline (Lexeme.read a rest).2)
    rw [split] at hsplit
    rw [read, List.nil_append] at hread
    rw [TokenStream.scan_cons (congrArg Prod.snd hsplit), hsplit, hread, literal, ← hbelow]
    rfl

end IsToken

namespace Lexeme

variable {s : Bytes} {a : UInt8} {rest : Bytes}

/-- There is no gap in front of a lexeme, also if there is nothing behind it. -/
theorem split_raw (h : (Gap.split s).2 = a :: rest) :
    Gap.split (read a rest).1.raw = ([], (read a rest).1.raw) := by
  have hblank : Ascii.isBlank a = false := Gap.not_isBlank_of_splitFrom h
  by_cases ha : a = Ascii.slash
  · subst ha
    rfl
  · rw [raw_eq_cons_tail]
    exact Gap.splitFrom_of_not_isBlank hblank ha _

/-- A lexeme whose text is the lexeme itself is read as its token. -/
theorem isToken_raw (h : (Gap.split s).2 = a :: rest)
    (hliteral : (read a rest).1.literal = (read a rest).1.raw) :
    IsToken (read a rest).1.kind (read a rest).1.raw := by
  have hsplit := split_raw h
  have hread := read_raw a rest
  have hraw := raw_eq_cons_tail a rest
  rw [hraw] at hsplit ⊢
  apply IsToken.intro hsplit
  · rw [hread, ← hraw]
  · rw [← hraw]
    exact hliteral

/-- A reserved word is read as its token in small letters. -/
theorem isToken_lowerAscii (h : (Gap.split s).2 = a :: rest)
    (hreserved : (read a rest).1.kind.isReserved = true) :
    IsToken (read a rest).1.kind (read a rest).1.raw.lowerAscii := by
  have hliteral := literal_of_isReserved hreserved
  have hlower : (Gap.split s.lowerAscii).2 = Ascii.toLower a :: Bytes.lowerAscii rest := by
    rw [Gap.split_lowerAscii, h, Bytes.lowerAscii_cons]
  have hsame := isToken_raw hlower
  rw [read_lowerAscii] at hsame
  apply hsame
  rw [literal_lowerAscii fun _ => List.all_eq_true.mp (isReserved_read hreserved).1, hliteral]
  exact Bytes.lowerAscii_lowerAscii _

/-- The text that a token of ASCII bytes carries is read as that token. -/
theorem isToken_literal (h : (Gap.split s).2 = a :: rest)
    (hascii : (read a rest).1.raw.isAscii = true) :
    IsToken (read a rest).1.kind (read a rest).1.literal := by
  by_cases hreserved : (read a rest).1.kind.isReserved = true
  · rw [literal_of_isReserved hreserved]
    exact isToken_lowerAscii h hreserved
  · have hliteral := literal_of_isAscii (Bool.eq_false_iff.mpr hreserved) hascii
    rw [hliteral]
    exact isToken_raw h hliteral

end Lexeme

/-! ## Printing -/

/-- The tokens of a text, printed one to a line. -/
def TokenStream.printed (stream : TokenStream) : Bytes :=
  Bytes.join [Ascii.newline] (stream.tokens.map Token.literal)

namespace TokenStream

/-- Texts of one token each, printed one to a line. -/
theorem tokens_scan_join (tokens : List Token) (h : ∀ t ∈ tokens, IsToken t.kind t.literal)
    (line : Nat) :
    (scan ⟨line, 1⟩ (Bytes.join [Ascii.newline] (tokens.map Token.literal))).tokens =
      tokens.mapIdx fun i t => ⟨t.kind, t.literal, line + i, 1⟩ := by
  induction tokens generalizing line with
  | nil => rw [scan_nil rfl]; rfl
  | cons t tokens ih =>
    obtain ⟨ht, htokens⟩ := List.forall_mem_cons.mp h
    cases tokens with
    | nil =>
      rw [List.map_singleton, Bytes.join, List.intercalate_singleton, ht.tokens_scan]
      rfl
    | cons u tokens =>
      have hjoin : Bytes.join [Ascii.newline] ((t :: u :: tokens).map Token.literal) =
          t.literal ++ Ascii.newline ::
            Bytes.join [Ascii.newline] ((u :: tokens).map Token.literal) := by
        simp [Bytes.join, List.intercalate_cons_cons]
      rw [hjoin, ht.tokens_scan_newline, ih htokens, List.mapIdx_cons (l := u :: tokens)]
      simp only [Nat.add_zero, Nat.add_assoc, Nat.add_comm 1]

/-- The tokens of a text of ASCII bytes carry texts of one token. -/
theorem isToken_of_mem {place : Place} {s : Bytes} (h : s.isAscii = true) {t : Token}
    (ht : t ∈ (scan place s).tokens) : IsToken t.kind t.literal := by
  obtain ⟨u, a, rest, hu, hsplit, hkind, hliteral⟩ := exists_read_of_mem ht
  have hraw : (Lexeme.read a rest).1.raw <:+: s := by
    refine List.IsInfix.trans ⟨(Gap.split u).1, (Lexeme.read a rest).2, ?_⟩ hu.isInfix
    rw [List.append_assoc, Lexeme.read_append, ← hsplit, Gap.split_append]
  rw [hkind, hliteral]
  exact Lexeme.isToken_literal hsplit
    (List.all_eq_true.mpr fun b hb => List.all_eq_true.mp h b (hraw.subset hb))

/-- Printing the tokens of a source of ASCII bytes, one to a line, and reading them again gives the
same tokens, malformed ones included, each at the beginning of its line. -/
theorem tokens_ofSource_printed {s : Bytes} (h : s.isAscii = true) :
    (ofSource (ofSource s).printed).tokens =
      (ofSource s).tokens.mapIdx fun i t => ⟨t.kind, t.literal, i + 1, 1⟩ := by
  have hprinted := tokens_scan_join (ofSource s).tokens (fun t ht => isToken_of_mem h ht) 1
  simp only [Nat.add_comm 1] at hprinted
  exact hprinted

/-- A source with malformed literals, stray bytes and marks that look at what is behind them. -/
def straySource : Bytes := text "BEGIN \"a#b\" 'c d\n1.2.3:=!*/ // end\n/ * \x01 \""

/-- The tokens of the source are read again from the lines that they are printed on. -/
theorem straySource_printed :
    let printed := text "begin\n\"a#b\"\n'c d\n1.2.3\n:=\n!\n*/\n/\n*\n\x01\n\""
    (ofSource straySource).tokens.map Token.kind = [.kwBegin, .error, .error, .error, .assign, .error,
      .error, .op .divide, .op .times, .error, .error] ∧
    (ofSource straySource).printed = printed ∧
    (ofSource printed).tokens =
      (ofSource straySource).tokens.mapIdx fun i t => ⟨t.kind, t.literal, i + 1, 1⟩ := by
  intro printed
  have hprinted : (ofSource straySource).printed = printed := by decide +kernel
  rw [← hprinted]
  exact ⟨by decide +kernel, rfl, tokens_ofSource_printed (by decide +kernel)⟩

end TokenStream

end OnePass
