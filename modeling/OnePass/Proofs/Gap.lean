import OnePass.Token.Lexeme
set_option autoImplicit false

/-!
# What gaps are made of

A grammar of the text between tokens: blank bytes, comments that end with their line, and comments
between marks, which nest.  A comment that is not ended runs to the end of the source, so only the
last gap can hold one.  The gap that is split off a text follows the grammar (`isGap_split`), and the
byte behind it is not blank (`not_isBlank_of_splitFrom`).  What the grammar derives is split off as a
whole, whatever stands behind it (`split_append_of_isGap`).
-/

namespace OnePass.Gap

/-! ## The grammar -/

/-- Whether two bytes are a mark that a comment starts or ends with. -/
def isMark (b c : UInt8) : Bool :=
  b = Ascii.slash && c = Ascii.star || b = Ascii.star && c = Ascii.slash

/-- The text of a comment behind its first mark, up to and including the mark that ends it.  A byte
is content unless it makes a mark with the next one. -/
inductive Comment : Bytes → Prop where
  | close : Comment [Ascii.star, Ascii.slash]
  | content {b c : UInt8} {rest : Bytes} (plain : isMark b c = false)
      (after : Comment (c :: rest)) : Comment (b :: c :: rest)
  | nested {inner rest : Bytes} (comment : Comment inner) (after : Comment rest) :
      Comment (Ascii.slash :: Ascii.star :: (inner ++ rest))

/-- The text of a comment behind its first mark, if the source ends before the comment does. -/
inductive OpenComment : Bytes → Prop where
  | nil : OpenComment []
  | last (b : UInt8) : OpenComment [b]
  | content {b c : UInt8} {rest : Bytes} (plain : isMark b c = false)
      (after : OpenComment (c :: rest)) : OpenComment (b :: c :: rest)
  | nested {inner rest : Bytes} (comment : Comment inner) (after : OpenComment rest) :
      OpenComment (Ascii.slash :: Ascii.star :: (inner ++ rest))
  | unended {rest : Bytes} (after : OpenComment rest) :
      OpenComment (Ascii.slash :: Ascii.star :: rest)

/-- The text between two tokens, before the first one or behind the last one.  It may end inside a
comment if it is `last`, that is if the source ends with it. -/
inductive IsGap (last : Prop) : Bytes → Prop where
  | nil : IsGap last []
  | blank {b : UInt8} {rest : Bytes} (blank : Ascii.isBlank b = true) (after : IsGap last rest) :
      IsGap last (b :: rest)
  | line {content rest : Bytes} (inside : Ascii.newline ∉ content) (after : IsGap last rest) :
      IsGap last (Ascii.slash :: Ascii.slash :: (content ++ Ascii.newline :: rest))
  | block {body rest : Bytes} (comment : Comment body) (after : IsGap last rest) :
      IsGap last (Ascii.slash :: Ascii.star :: (body ++ rest))
  | openLine {content : Bytes} (atEnd : last) (inside : Ascii.newline ∉ content) :
      IsGap last (Ascii.slash :: Ascii.slash :: content)
  | openBlock {body : Bytes} (atEnd : last) (comment : OpenComment body) :
      IsGap last (Ascii.slash :: Ascii.star :: body)

/-! ## The rest of a gap

What a reader of gaps has in front of it depends on where it stands. -/

/-- The rest of a gap from inside a comment that ends with its line. -/
inductive InLine (last : Prop) : Bytes → Prop where
  | closed {content rest : Bytes} (inside : Ascii.newline ∉ content) (after : IsGap last rest) :
      InLine last (content ++ Ascii.newline :: rest)
  | unended {content : Bytes} (atEnd : last) (inside : Ascii.newline ∉ content) : InLine last content

/-- The rest of a gap from inside a comment with `outer` more around it. -/
inductive InBlock (last : Prop) : Nat → Bytes → Prop where
  | closed {body rest : Bytes} (comment : Comment body) (after : IsGap last rest) :
      InBlock last 0 (body ++ rest)
  | inner {outer : Nat} {body rest : Bytes} (comment : Comment body)
      (after : InBlock last outer rest) : InBlock last (outer + 1) (body ++ rest)
  | unended {outer : Nat} {body : Bytes} (atEnd : last) (comment : OpenComment body) :
      InBlock last outer body

/-- The rest of a gap from where a reader stands. -/
def Mode.Rest (last : Prop) : Mode → Bytes → Prop
  | .blank => IsGap last
  | .line => InLine last
  | .block outer => InBlock last outer

section Rest

variable {last : Prop} {outer : Nat} {b c : UInt8} {rest : Bytes}

theorem InLine.cons (hb : b ≠ Ascii.newline) (h : InLine last rest) : InLine last (b :: rest) := by
  cases h with
  | closed inside after =>
    exact .closed (List.not_mem_cons_of_ne_of_not_mem hb.symm inside) after
  | unended atEnd inside => exact .unended atEnd (List.not_mem_cons_of_ne_of_not_mem hb.symm inside)

theorem InLine.comment (h : InLine last rest) :
    IsGap last (Ascii.slash :: Ascii.slash :: rest) := by
  cases h with
  | closed inside after => exact .line inside after
  | unended atEnd inside => exact .openLine atEnd inside

theorem Comment.cons {body : Bytes} (hplain : isMark b c = false) (h : Comment body)
    (hc : body.head? = some c) : Comment (b :: body) := by
  obtain ⟨rest, rfl⟩ : ∃ rest, body = c :: rest := List.head?_eq_some_iff.mp hc
  exact .content hplain h

theorem Comment.ne_nil {body : Bytes} (h : Comment body) : body ≠ [] := by
  cases h <;> simp

/-- A byte of content stands in front of the rest of a comment. -/
theorem InBlock.cons (hplain : isMark b c = false) (h : InBlock last outer (c :: rest)) :
    InBlock last outer (b :: c :: rest) := by
  generalize htext : c :: rest = text at h
  have hhead {body after : Bytes} (hbody : Comment body) (heq : c :: rest = body ++ after) :
      body.head? = some c := by
    cases body with
    | nil => exact absurd rfl hbody.ne_nil
    | cons d body =>
      obtain ⟨rfl, -⟩ := List.cons.inj heq
      rfl
  cases h with
  | closed comment after => exact .closed (comment.cons hplain (hhead comment htext)) after
  | inner comment after => exact .inner (comment.cons hplain (hhead comment htext)) after
  | unended atEnd comment =>
    subst htext
    exact .unended atEnd (.content hplain comment)

/-- The rest of a comment inside a comment, and its first mark, are content. -/
theorem InBlock.enter (h : InBlock last (outer + 1) rest) :
    InBlock last outer (Ascii.slash :: Ascii.star :: rest) := by
  cases h with
  | unended atEnd comment => exact .unended atEnd (.unended comment)
  | inner comment after =>
    cases after with
    | closed comment' after' =>
      rw [← List.append_assoc]
      exact .closed (.nested comment comment') after'
    | inner comment' after' =>
      rw [← List.append_assoc]
      exact .inner (.nested comment comment') after'
    | unended atEnd comment' => exact .unended atEnd (.nested comment comment')

/-- The mark that ends a comment stands in front of what follows the comment. -/
theorem InBlock.leave (h : (Mode.close outer).Rest last rest) :
    InBlock last outer (Ascii.star :: Ascii.slash :: rest) := by
  cases outer with
  | zero => exact .closed .close h
  | succ outer => exact .inner .close h

theorem InBlock.comment (h : InBlock last 0 rest) :
    IsGap last (Ascii.slash :: Ascii.star :: rest) := by
  cases h with
  | closed comment after => exact .block comment after
  | unended atEnd comment => exact .openBlock atEnd comment

end Rest

/-! ## Splitting -/

/-- Inside a comment nothing is left over but at the end. -/
theorem splitFrom_block_cons (outer : Nat) (b : UInt8) (rest : Bytes) :
    ∃ gap, (splitFrom (.block outer) (b :: rest)).1 = b :: gap := by
  cases rest with
  | nil => exact ⟨[], by simp [splitFrom]⟩
  | cons c more =>
    rw [splitFrom]
    split
    · exact ⟨_, rfl⟩
    · split
      · exact ⟨_, rfl⟩
      · exact ⟨_, rfl⟩

theorem rest_splitFrom (mode : Mode) (s : Bytes) :
    mode.Rest ((splitFrom mode s).2 = []) (splitFrom mode s).1 := by
  fun_induction splitFrom mode s with
  | case1 mode =>
    cases mode with
    | blank => exact IsGap.nil
    | line => exact InLine.unended rfl List.not_mem_nil
    | block outer => exact InBlock.unended rfl .nil
  | case2 b rest hblank ih => exact IsGap.blank hblank ih
  | case3 => exact IsGap.nil
  | case4 more _ ih => exact InLine.comment ih
  | case5 more _ _ ih => exact InBlock.comment ih
  | case6 => exact IsGap.nil
  | case7 => exact IsGap.nil
  | case8 b rest ih =>
    by_cases hb : b = Ascii.newline
    · rw [if_pos hb] at ih ⊢
      subst hb
      exact @InLine.closed _ [] _ List.not_mem_nil ih
    · rw [if_neg hb] at ih ⊢
      exact InLine.cons hb ih
  | case9 outer b => exact InBlock.unended rfl (.last b)
  | case10 outer b c more hopen ih =>
    obtain ⟨rfl, rfl⟩ := hopen
    exact InBlock.enter ih
  | case11 outer b c more _ hclose ih =>
    obtain ⟨rfl, rfl⟩ := hclose
    exact InBlock.leave ih
  | case12 outer b c more hopen hclose ih =>
    have hplain : isMark b c = false := by
      simpa [isMark] using And.intro (not_and.mp hopen) (not_and.mp hclose)
    obtain ⟨gap, hgap⟩ := splitFrom_block_cons outer c more
    simp only [Mode.Rest, keep, hgap] at ih ⊢
    exact InBlock.cons hplain ih

/-- What is split off a text follows the grammar of gaps, and ends inside a comment only where the
text ends. -/
theorem isGap_split (s : Bytes) : IsGap ((split s).2 = []) (split s).1 := rest_splitFrom .blank s

/-- A reader of gaps stops at no blank byte. -/
theorem not_isBlank_of_splitFrom {mode : Mode} {s : Bytes} {a : UInt8} {rest : Bytes}
    (h : (splitFrom mode s).2 = a :: rest) : Ascii.isBlank a = false := by
  fun_induction splitFrom mode s with
  | case1 => cases h
  | case9 => cases h
  -- The reader stops at a slash that starts no comment, or at a byte that is not blank.
  | case3 hblank =>
    obtain ⟨rfl, -⟩ := List.cons.inj h
    exact Bool.eq_false_iff.mpr hblank
  | case6 _ _ _ _ hblank =>
    obtain ⟨rfl, -⟩ := List.cons.inj h
    exact Bool.eq_false_iff.mpr hblank
  | case7 _ _ hblank =>
    obtain ⟨rfl, -⟩ := List.cons.inj h
    exact Bool.eq_false_iff.mpr hblank
  | case2 _ _ _ ih => exact ih h
  | case4 _ _ ih => exact ih h
  | case5 _ _ _ ih => exact ih h
  | case8 _ _ ih => exact ih h
  | case10 _ _ _ _ _ ih => exact ih h
  | case11 _ _ _ _ _ _ ih => exact ih h
  | case12 _ _ _ _ _ _ ih => exact ih h

/-! ## Reading what the grammar derives -/

section Reading

variable {b c : UInt8} {body content gap : Bytes}

theorem not_mark (h : isMark b c = false) :
    ¬(b = Ascii.slash ∧ c = Ascii.star) ∧ ¬(b = Ascii.star ∧ c = Ascii.slash) := by
  constructor
  · rintro ⟨rfl, rfl⟩
    exact absurd h (by decide)
  · rintro ⟨rfl, rfl⟩
    exact absurd h (by decide)

theorem splitFrom_of_isBlank (h : Ascii.isBlank b = true) (t : Bytes) :
    splitFrom .blank (b :: t) = keep b (splitFrom .blank t) := by
  cases t <;> simp [splitFrom, h]

/-- The first mark of a comment leads into the comment. -/
theorem split_mark (t : Bytes) :
    split (Ascii.slash :: Ascii.star :: t) =
      keep Ascii.slash (keep Ascii.star (splitFrom (.block 0) t)) := by
  rw [split, splitFrom, if_neg (by decide), if_pos rfl, if_neg (by decide), if_pos rfl]

/-- A comment in front of a text is read as one. -/
theorem splitFrom_comment (h : Comment body) (outer : Nat) (t : Bytes) :
    splitFrom (.block outer) (body ++ t) =
      (body ++ (splitFrom (.close outer) t).1, (splitFrom (.close outer) t).2) := by
  induction h generalizing outer t with
  | close =>
    have hopen : ¬(Ascii.star = Ascii.slash ∧ Ascii.slash = Ascii.star) := by decide
    simp [splitFrom, hopen, keep]
  | content plain _ ih =>
    obtain ⟨hopen, hclose⟩ := not_mark plain
    have hafter := ih outer t
    rw [List.cons_append] at hafter
    rw [List.cons_append, List.cons_append, splitFrom, if_neg hopen, if_neg hclose, hafter]
    rfl
  | nested _ _ ihinner ihafter =>
    rw [List.cons_append, List.cons_append, List.append_assoc, splitFrom, if_pos ⟨rfl, rfl⟩, ihinner,
      Mode.close, ihafter]
    simp [keep]

theorem splitFrom_line (h : Ascii.newline ∉ content) (t : Bytes) :
    splitFrom .line (content ++ Ascii.newline :: t) =
      (content ++ Ascii.newline :: (split t).1, (split t).2) := by
  induction content with
  | nil => rw [List.nil_append, splitFrom, if_pos rfl]; rfl
  | cons b content ih =>
    simp only [List.mem_cons, not_or] at h
    rw [List.cons_append, splitFrom, if_neg (Ne.symm h.1), ih h.2]
    rfl

/-- A gap in front of a text is split off it, and then the gap that the text starts with. -/
theorem split_append_of_isGap (h : IsGap False gap) (t : Bytes) :
    split (gap ++ t) = (gap ++ (split t).1, (split t).2) := by
  have hslash : ¬Ascii.isBlank Ascii.slash = true := by decide
  induction h with
  | nil => rfl
  | blank blank _ ih =>
    unfold split at ih ⊢
    rw [List.cons_append, splitFrom_of_isBlank blank, ih]
    rfl
  | line inside _ ih =>
    rw [split, List.cons_append, List.cons_append, splitFrom, if_neg hslash, if_pos rfl,
      if_pos rfl, List.append_assoc, List.cons_append, splitFrom_line inside, ih]
    simp [keep]
  | block comment _ ih =>
    rw [List.cons_append, List.cons_append, split_mark, List.append_assoc, splitFrom_comment comment,
      Mode.close]
    unfold split at ih
    rw [ih]
    simp [keep, split]
  | openLine atEnd => exact atEnd.elim
  | openBlock atEnd => exact atEnd.elim

/-- A comment that is not ended takes the rest of a text. -/
theorem splitFrom_openComment (h : OpenComment body) (outer : Nat) :
    splitFrom (.block outer) body = (body, []) := by
  induction h generalizing outer with
  | nil => rfl
  | last b => rfl
  | content plain _ ih =>
    obtain ⟨hopen, hclose⟩ := not_mark plain
    rw [splitFrom, if_neg hopen, if_neg hclose, ih]
    rfl
  | nested comment _ ih =>
    rw [splitFrom, if_pos ⟨rfl, rfl⟩, splitFrom_comment comment, Mode.close, ih]
    rfl
  | unended _ ih =>
    rw [splitFrom, if_pos ⟨rfl, rfl⟩, ih]
    rfl

end Reading

end OnePass.Gap
