import OnePass.Proofs.Numeral
import OnePass.Proofs.Partition
import OnePass.Proofs.Pieces
import OnePass.Source
set_option autoImplicit false

/-!
# Excerpts under tokens

Tokens count lines and columns in the bytes of a source, and an excerpt is taken from the lines that the
source is cut into, without carriage returns at their ends and with spaces for tabs.  Both counts agree:
the lines above a text are as many as its newlines (`lines_ofContent_append`), and a line loses bytes
only behind every lexeme.  So the caret of an excerpt stands under the first byte of the token that it is
taken for (`excerpt_pointsAt`).
-/

namespace OnePass

/-! ## The line that a text stands in -/

namespace Bytes

/-- What stands in the last line of a text. -/
def lastLine (s : Bytes) : Bytes := (s.reverse.takeWhile (· ≠ Ascii.newline)).reverse

/-- What stands in the first line of a text. -/
def firstLine (s : Bytes) : Bytes := s.takeWhile (· ≠ Ascii.newline)

variable {s : Bytes}

theorem length_lastLine (s : Bytes) : (lastLine s).length = s.sinceNewline := by
  rw [lastLine, List.length_reverse]
  rfl

theorem newline_notMem_firstLine (s : Bytes) : Ascii.newline ∉ firstLine s :=
  Lexeme.newline_notMem_takeWhile (by decide) s

theorem newline_notMem_lastLine (s : Bytes) : Ascii.newline ∉ lastLine s := by
  rw [lastLine, List.mem_reverse]
  exact newline_notMem_firstLine s.reverse

/-- The first line is the whole text, or a newline ends it. -/
theorem firstLine_cases (s : Bytes) :
    s = firstLine s ∧ Ascii.newline ∉ s ∨ ∃ below, s = firstLine s ++ Ascii.newline :: below := by
  induction s with
  | nil => exact .inl ⟨rfl, List.not_mem_nil⟩
  | cons b s ih =>
    by_cases hb : b = Ascii.newline
    · right
      refine ⟨s, ?_⟩
      simp [firstLine, hb]
    · have hfirst : firstLine (b :: s) = b :: firstLine s := by
        simp [firstLine, hb]
      rw [hfirst]
      rcases ih with ⟨hs, hnewline⟩ | ⟨below, hs⟩
      · left
        exact ⟨congrArg (b :: ·) hs, List.not_mem_cons_of_ne_of_not_mem (Ne.symm hb) hnewline⟩
      · right
        exact ⟨below, congrArg (b :: ·) hs⟩

/-- The last line is the whole text, or it follows a newline. -/
theorem lastLine_cases (s : Bytes) :
    s = lastLine s ∧ Ascii.newline ∉ s ∨ ∃ above, s = above ++ Ascii.newline :: lastLine s := by
  have hlast : (firstLine s.reverse).reverse = lastLine s := rfl
  rcases firstLine_cases s.reverse with ⟨hs, hnewline⟩ | ⟨below, hs⟩
  · left
    refine ⟨?_, by simpa using hnewline⟩
    rw [← hlast, ← hs, List.reverse_reverse]
  · right
    refine ⟨below.reverse, ?_⟩
    have hreverse := congrArg List.reverse hs
    rw [List.reverse_reverse, List.reverse_append, List.reverse_cons, hlast] at hreverse
    rwa [List.append_assoc, List.singleton_append] at hreverse

end Bytes

namespace Source

/-- A line without the carriage return at its end. -/
def withoutReturn (line : Bytes) : Bytes :=
  if line.getLast? = some Ascii.carriageReturn then line.dropLast else line

/-- A line as it is shown: the carriage return in front of the newline that ends it, if one does, is left
out, and tabs are single spaces. -/
def shown (ended : Bool) (line : Bytes) : Bytes :=
  Bytes.replaceByte Ascii.tab Ascii.space (if ended then withoutReturn line else line)

/-! ## Line ends -/

section Lines

variable {line : Bytes}

theorem joinLineEnds_of_notMem (h : Ascii.newline ∉ line) : joinLineEnds line = line := by
  induction line with
  | nil => rfl
  | cons b line ih =>
    obtain ⟨-, hline⟩ := List.ne_and_not_mem_of_not_mem_cons h
    have hhead : ¬line.head? = some Ascii.newline := by
      intro hhead
      exact hline (List.mem_of_head? hhead)
    rw [joinLineEnds, if_neg (fun hb => hhead hb.2), ih hline]

/-- A newline keeps apart what stands on its two sides. -/
theorem exists_joinLineEnds (s : Bytes) :
    ∃ joined, ∀ t, joinLineEnds (s ++ Ascii.newline :: t) =
      joined ++ Ascii.newline :: joinLineEnds t := by
  induction s with
  | nil =>
    refine ⟨[], fun t => ?_⟩
    rw [List.nil_append, joinLineEnds, if_neg (fun hb => absurd hb.1 (by decide))]
    rfl
  | cons b s ih =>
    obtain ⟨joined, hjoined⟩ := ih
    -- The byte behind `b` is one of `s` or the newline, and does not depend on `t`.
    have hhead (t : Bytes) : (s ++ Ascii.newline :: t).head? = (s ++ [Ascii.newline]).head? := by
      cases s <;> rfl
    by_cases hb : b = Ascii.carriageReturn ∧ (s ++ [Ascii.newline]).head? = some Ascii.newline
    · refine ⟨joined, fun t => ?_⟩
      rw [List.cons_append, joinLineEnds, hhead, if_pos hb, hjoined]
    · refine ⟨b :: joined, fun t => ?_⟩
      rw [List.cons_append, joinLineEnds, hhead, if_neg hb, hjoined]
      rfl

/-- A line that is ended loses the carriage return at its end. -/
theorem joinLineEnds_line (h : Ascii.newline ∉ line) (t : Bytes) :
    joinLineEnds (line ++ Ascii.newline :: t) =
      withoutReturn line ++ Ascii.newline :: joinLineEnds t := by
  induction line with
  | nil =>
    rw [List.nil_append, joinLineEnds, if_neg (fun hb => absurd hb.1 (by decide))]
    rfl
  | cons b line ih =>
    obtain ⟨-, hline⟩ := List.ne_and_not_mem_of_not_mem_cons h
    rw [List.cons_append, joinLineEnds, ih hline]
    cases line with
    | nil =>
      by_cases hb : b = Ascii.carriageReturn
      · simp [withoutReturn, hb]
      · simp [withoutReturn, hb]
    | cons c line =>
      have hc : ¬c = Ascii.newline := by
        rintro rfl
        exact hline List.mem_cons_self
      rw [if_neg (by simp [hc])]
      unfold withoutReturn
      rw [List.getLast?_cons_cons]
      split
      · rfl
      · rfl

/-- The lines behind a newline are those of the text behind it; as many stand above them as the text
up to there has newlines. -/
theorem lines_ofContent_append (above rest : Bytes) :
    ∃ lines : List Bytes, lines.length = above.count Ascii.newline + 1 ∧
      (ofContent (above ++ Ascii.newline :: rest)).lines = lines ++ (ofContent rest).lines := by
  obtain ⟨joined, hjoined⟩ := exists_joinLineEnds above
  refine ⟨List.splitOn Ascii.newline joined, ?_, ?_⟩
  · have hcount := count_joinLineEnds (above ++ [Ascii.newline])
    rw [hjoined, List.count_append, List.count_append] at hcount
    rw [Bytes.length_splitOn]
    simpa [joinLineEnds] using hcount
  · unfold ofContent
    rw [hjoined, List.splitOn_append_cons_self]

/-- The first line of a text. -/
theorem exists_lines_ofContent (h : Ascii.newline ∉ line) (after : Bytes) :
    ∃ lines : List Bytes, (ofContent (line ++ after)).lines =
      (if after.contains Ascii.newline then withoutReturn (line ++ after.firstLine)
        else line ++ after.firstLine) :: lines := by
  rcases after.firstLine_cases with ⟨hafter, hnewline⟩ | ⟨below, hafter⟩
  · have hline : Ascii.newline ∉ line ++ after := by
      simpa using ⟨h, hnewline⟩
    refine ⟨[], ?_⟩
    rw [if_neg (by simpa using hnewline), ← hafter]
    unfold ofContent
    rw [joinLineEnds_of_notMem hline, List.splitOn_eq_singleton hline]
  · have hline : Ascii.newline ∉ line ++ after.firstLine := by
      simpa using ⟨h, after.newline_notMem_firstLine⟩
    have hcontains : after.contains Ascii.newline = true := by
      rw [hafter]
      simp
    have hreturn : Ascii.newline ∉ withoutReturn (line ++ after.firstLine) := by
      unfold withoutReturn
      split
      · exact fun hmem => hline (List.dropLast_subset _ hmem)
      · exact hline
    have hwhole : line ++ after = line ++ after.firstLine ++ Ascii.newline :: below := by
      rw [List.append_assoc, ← hafter]
    refine ⟨(ofContent below).lines, ?_⟩
    rw [if_pos hcontains, hwhole]
    unfold ofContent
    rw [joinLineEnds_line hline, List.splitOn_append_cons_self, List.splitOn_eq_singleton hreturn]
    rfl

/-- The line that a text stands in, by its number. -/
theorem line_ofContent {before raw : Bytes} (h : Ascii.newline ∉ raw) (after : Bytes) :
    (ofContent (before ++ raw ++ after)).line ((1 + before.count Ascii.newline : Nat) : Int) =
      if after.contains Ascii.newline then withoutReturn (before.lastLine ++ raw ++ after.firstLine)
      else before.lastLine ++ raw ++ after.firstLine := by
  have hline : Ascii.newline ∉ before.lastLine ++ raw := by
    simpa using ⟨before.newline_notMem_lastLine, h⟩
  obtain ⟨below, hbelow⟩ := exists_lines_ofContent hline after
  have habove : ∃ above : List Bytes, above.length = before.count Ascii.newline ∧
      (ofContent (before ++ raw ++ after)).lines =
        above ++ (ofContent (before.lastLine ++ raw ++ after)).lines := by
    rcases before.lastLine_cases with ⟨hbefore, hnewline⟩ | ⟨above, hbefore⟩
    · refine ⟨[], ?_, ?_⟩
      · rw [List.count_eq_zero_of_not_mem hnewline]
        rfl
      · rw [← hbefore]
        rfl
    · obtain ⟨lines, hlength, hlines⟩ :=
        lines_ofContent_append above (before.lastLine ++ raw ++ after)
      refine ⟨lines, ?_, ?_⟩
      · have hcount := congrArg (List.count Ascii.newline) hbefore
        rw [List.count_append, List.count_cons_self,
          List.count_eq_zero_of_not_mem before.newline_notMem_lastLine] at hcount
        rw [hlength, hcount]
      · have hwhole : before ++ raw ++ after =
            above ++ Ascii.newline :: (before.lastLine ++ raw ++ after) := by
          rw [← List.cons_append, ← List.cons_append, ← List.append_assoc, ← List.append_assoc, ← hbefore]
        rw [hwhole, hlines]
  obtain ⟨above, hlength, hlines⟩ := habove
  have hnumber : ((1 + before.count Ascii.newline : Nat) : Int) - 1 = above.length := by
    omega
  unfold line
  rw [if_neg (by omega), hnumber, Int.toNat_natCast, hlines, hbelow]
  simp

end Lines

/-! ## What is shown -/

section Shown

variable {a : UInt8} {line : Bytes}

theorem newline_notMem_gutter (n : Nat) : Ascii.newline ∉ gutter n := by
  have hdigits : Ascii.newline ∉ Bytes.ofNat n := by
    intro hmem
    exact absurd (Bytes.isDigit_of_mem_ofNat n _ hmem) (by decide)
  have hbar : Ascii.newline ∉ text " | " := by decide
  intro hmem
  rcases List.mem_append.mp hmem with hmem | hmem
  · rcases List.mem_append.mp hmem with hmem | hmem
    · exact absurd (List.eq_of_mem_replicate hmem) (by decide)
    · exact hdigits hmem
  · exact hbar hmem

theorem withoutReturn_subset (line : Bytes) : withoutReturn line ⊆ line := by
  unfold withoutReturn
  split
  · exact List.dropLast_subset line
  · exact List.Subset.refl line

theorem newline_notMem_shown (h : Ascii.newline ∉ line) (ended : Bool) :
    Ascii.newline ∉ shown ended line := by
  intro hmem
  obtain ⟨b, hb, hshown⟩ := List.mem_map.mp hmem
  split at hshown
  · exact absurd hshown (by decide)
  · subst hshown
    split at hb
    · exact h (withoutReturn_subset line hb)
    · exact h hb

/-- Nothing is lost up to a byte that is not blank. -/
theorem exists_withoutReturn (h : Ascii.isBlank a = false) (left right : Bytes) :
    ∃ more, withoutReturn (left ++ a :: right) = left ++ a :: more := by
  unfold withoutReturn
  split
  · next hlast =>
    cases right with
    | nil =>
      have hreturn : a = Ascii.carriageReturn := by
        simpa using hlast
      rw [hreturn] at h
      exact absurd h (by decide)
    | cons b right =>
      refine ⟨(b :: right).dropLast, ?_⟩
      rw [List.dropLast_append_cons]
      rfl
  · exact ⟨right, rfl⟩

/-- A byte that is not blank is shown as it is, where it stands in its line. -/
theorem getElem?_shown (h : Ascii.isBlank a = false) (ended : Bool) (left right : Bytes) :
    (shown ended (left ++ a :: right))[left.length]? = some a := by
  have htab : a ≠ Ascii.tab := by
    rintro rfl
    exact absurd h (by decide)
  obtain ⟨more, hmore⟩ : ∃ more,
      (if ended then withoutReturn (left ++ a :: right) else left ++ a :: right) = left ++ a :: more := by
    cases ended with
    | true => exact exists_withoutReturn h left right
    | false => exact ⟨right, rfl⟩
  unfold shown
  rw [hmore]
  simp [Bytes.replaceByte, htab]

end Shown

/-! ## Excerpts -/

/-- The byte that points at the byte above it. -/
abbrev caret : UInt8 := 0x5e

/-- Whether two lines are an excerpt for a lexeme between two texts: the first one shows the line that
the lexeme stands in, behind its number, and the only caret in the second one stands where the first byte
of the lexeme does in the first one. -/
structure PointsAt (before raw after first second : Bytes) : Prop where
  shown : first = gutter ↑(1 + before.count Ascii.newline) ++
    shown (after.contains Ascii.newline) (before.lastLine ++ raw ++ after.firstLine)
  newline_first : Ascii.newline ∉ first
  newline_second : Ascii.newline ∉ second
  caret : ∃ under, second = under ++ [caret] ∧ caret ∉ under ∧
    under.length = (gutter ↑(1 + before.count Ascii.newline) ++ before.lastLine).length ∧
    first[under.length]? = raw.head?

/-- What stands under a line and its number, up to a column. -/
def underline (number : Int) (width : Nat) : Bytes :=
  List.replicate ((gutter number).length - 2) Ascii.space ++ text "| " ++
    List.replicate width Ascii.space

theorem length_underline (number : Int) (width : Nat) :
    (underline number width).length = (gutter number).length + width := by
  have hbar : (text " | ").length = 3 := rfl
  have hunder : (text "| ").length = 2 := rfl
  have hgutter : 2 ≤ (gutter number).length := by
    rw [gutter, List.length_append, hbar]
    omega
  simp only [underline, List.length_append, List.length_replicate, hunder]
  omega

theorem notMem_underline {b : UInt8} (hspace : b ≠ Ascii.space) (hbar : b ∉ text "| ") (number : Int)
    (width : Nat) : b ∉ underline number width := by
  intro hmem
  rcases List.mem_append.mp hmem with hmem | hmem
  · rcases List.mem_append.mp hmem with hmem | hmem
    · exact hspace (List.eq_of_mem_replicate hmem)
    · exact hbar hmem
  · exact hspace (List.eq_of_mem_replicate hmem)

/-- An excerpt is a line behind its number, and a caret under it. -/
theorem excerpt_eq {s : Source} {line column : Nat} (hline : line < s.lineCount) (file : Bytes) :
    s.excerpt ⟨file, ↑(1 + line), ↑(1 + column)⟩ =
      Bytes.line (gutter ↑(1 + line) ++
        Bytes.replaceByte Ascii.tab Ascii.space (s.line ↑(1 + line))) ++
      Bytes.line (underline ↑(1 + line) column ++ [caret]) := by
  have hvalid : ¬((!Position.isValid ⟨file, ↑(1 + line), ↑(1 + column)⟩) ||
      decide ((s.lineCount : Int) < ↑(1 + line))) = true := by
    simp [Position.isValid]
    omega
  have hcolumn : (((1 + column : Nat) : Int) - 1).toNat = column := by
    omega
  unfold excerpt
  rw [if_neg hvalid]
  dsimp only
  rw [if_pos (by omega), hcolumn]
  rfl

/-- An excerpt at the first byte of a lexeme points at it. -/
theorem exists_excerpt_pointsAt {a : UInt8} {before raw after : Bytes} (hraw : Ascii.newline ∉ raw)
    (hhead : raw.head? = some a) (hblank : Ascii.isBlank a = false) (file : Bytes) :
    ∃ first second,
      (ofContent (before ++ raw ++ after)).excerpt
          ⟨file, ↑(1 + before.count Ascii.newline), ↑(1 + before.sinceNewline)⟩ =
        Bytes.line first ++ Bytes.line second ∧
      PointsAt before raw after first second := by
  have hcount : before.count Ascii.newline < (ofContent (before ++ raw ++ after)).lineCount := by
    rw [lineCount_ofContent, List.count_append, List.count_append]
    omega
  have hline : Ascii.newline ∉ before.lastLine ++ raw ++ after.firstLine := by
    simpa using ⟨before.newline_notMem_lastLine, hraw, after.newline_notMem_firstLine⟩
  have hshown : Bytes.replaceByte Ascii.tab Ascii.space
      ((ofContent (before ++ raw ++ after)).line ↑(1 + before.count Ascii.newline)) =
        shown (after.contains Ascii.newline) (before.lastLine ++ raw ++ after.firstLine) := by
    rw [line_ofContent hraw]
    rfl
  refine ⟨_, _, excerpt_eq hcount file, ?_, ?_, ?_, ?_⟩
  · rw [hshown]
  · rw [hshown]
    exact fun hmem => (List.mem_append.mp hmem).elim (newline_notMem_gutter _)
      (newline_notMem_shown hline _)
  · exact fun hmem => (List.mem_append.mp hmem).elim (notMem_underline (by decide) (by decide) _ _)
      (fun hmem => absurd hmem (by decide))
  · refine ⟨_, rfl, notMem_underline (by decide) (by decide) _ _, ?_, ?_⟩
    · rw [length_underline, List.length_append, Bytes.length_lastLine]
    · obtain ⟨more, rfl⟩ := List.head?_eq_some_iff.mp hhead
      have hbyte := getElem?_shown hblank (after.contains Ascii.newline) before.lastLine
        (more ++ after.firstLine)
      rw [hshown, length_underline, ← Bytes.length_lastLine, List.getElem?_append_right (by omega),
        Nat.add_sub_cancel_left, List.append_assoc, List.cons_append, hbyte]
      rfl

end Source

/-! ## Tokens -/

/-- A lexeme starts with the byte that it is read from. -/
theorem Lexeme.head?_read (a : UInt8) (rest : Bytes) : (read a rest).1.raw.head? = some a := by
  obtain ⟨b, more, hraw⟩ := List.exists_cons_of_ne_nil (read_raw_ne_nil a rest)
  have happend := read_append a rest
  rw [hraw, List.cons_append] at happend
  rw [hraw, List.head?_cons, (List.cons.inj happend).1]

/-- Whether a piece stands behind a text and its lexeme does not start with a blank byte. -/
structure Piece.StandsVisibly (before : Bytes) (p : Piece) : Prop extends p.Stands before where
  visible : ∃ a, p.raw.head? = some a ∧ Ascii.isBlank a = false

theorem Piece.standsVisibly_read {before s : Bytes} {a : UInt8} {rest : Bytes}
    (hsplit : (Gap.split s).2 = a :: rest) :
    (ofLexeme (Place.start.advance before) (Gap.split s).1 (Lexeme.read a rest).1).StandsVisibly
      before :=
  ⟨stands_read hsplit, a, Lexeme.head?_read a rest, Gap.not_isBlank_of_splitFrom hsplit⟩

/-- A source has one line more than newlines, and the excerpt at a token's position points at the
token's lexeme, wherever the lexeme stands. -/
theorem excerpt_pointsAt (source file : Bytes) :
    (Source.ofContent source).lineCount = 1 + source.count Ascii.newline ∧
    ∃ (pieces : List Piece) (last : Bytes),
      source = pieces.flatMap Piece.text ++ last ∧
      (TokenStream.ofSource source).toList = pieces.map Piece.token ++ [.ending source] ∧
      ∀ done p rest, pieces = done ++ p :: rest →
        p.Stands (done.flatMap Piece.text) ∧
        ∃ first second,
          (Source.ofContent source).excerpt (p.token.position file) =
            Bytes.line first ++ Bytes.line second ∧
          Source.PointsAt (done.flatMap Piece.text ++ p.gap) p.raw (rest.flatMap Piece.text ++ last)
            first second := by
  constructor
  · rw [Source.lineCount_ofContent, Nat.add_comm]
  · obtain ⟨pieces, last, htext, -, hstands, htokens, heof⟩ :=
      scan_pieces Piece.standsVisibly_read .start source [] rfl
    refine ⟨pieces, last, htext, ?_, ?_⟩
    · rw [TokenStream.toList, TokenStream.ofSource, htokens, heof]
      rfl
    · intro done p rest hpieces
      obtain ⟨hstands, a, hhead, hblank⟩ : p.StandsVisibly (done.flatMap Piece.text) :=
        hstands done p rest hpieces
      have hsource : source =
          done.flatMap Piece.text ++ p.gap ++ p.raw ++ (rest.flatMap Piece.text ++ last) := by
        rw [htext, hpieces]
        simp [Piece.text]
      have hposition : p.token.position file =
          ⟨file, ↑(1 + (done.flatMap Piece.text ++ p.gap).count Ascii.newline),
            ↑(1 + Bytes.sinceNewline (done.flatMap Piece.text ++ p.gap))⟩ := by
        unfold Token.position
        rw [hstands.line, hstands.column]
      refine ⟨hstands, ?_⟩
      rw [hposition, hsource]
      exact Source.exists_excerpt_pointsAt hstands.newline_notMem hhead hblank file

end OnePass
