import Mathlib.Data.List.Chain
import OnePass.Proofs.Boundary
set_option autoImplicit false

/-!
# Comments inside comments

A comment between marks is a tree: between its marks stand plain bytes and further comments, and the
only rule is that a plain byte must not look like the first half of a mark, whatever the byte behind it
belongs to (`IsBalanced`).  Each such comment is skipped as a whole, to any depth, so that the tokens of
the text behind it are only moved.  A text that starts with the first mark of a comment and with no whole
comment has no tokens (`ofSource_comment`).
-/

namespace OnePass

/-! ## Whole comments -/

namespace Gap

/-- What stands between the marks of a comment: plain bytes and comments, one behind the other. -/
inductive Content where
  | nil
  | plain (b : UInt8) (after : Content)
  | comment (inner after : Content)
  deriving DecidableEq, Repr, Inhabited

/-- A byte of a comment, and whether it is a plain one or belongs to a mark. -/
structure CommentByte where
  byte : UInt8
  plain : Bool
  deriving DecidableEq, Repr, Inhabited

/-- The mark that a comment ends with. -/
def endMark : List CommentByte := [⟨Ascii.star, false⟩, ⟨Ascii.slash, false⟩]

/-- Bytes between the marks of a comment. -/
def enclosed (content : List CommentByte) : List CommentByte :=
  ⟨Ascii.slash, false⟩ :: ⟨Ascii.star, false⟩ :: (content ++ endMark)

/-- The bytes of what stands between the marks of a comment. -/
def Content.bytes : Content → List CommentByte
  | .nil => []
  | .plain b after => ⟨b, true⟩ :: after.bytes
  | .comment inner after => enclosed inner.bytes ++ after.bytes

/-- Whether two bytes may follow one another in a comment: a plain slash is not followed by an
asterisk, and a plain asterisk is not followed by a slash. -/
def Follows (a b : CommentByte) : Prop := a.plain = true → isMark a.byte b.byte = false

instance (a b : CommentByte) : Decidable (Follows a b) :=
  inferInstanceAs (Decidable (_ → _))

/-- Whether a text is a whole comment, with all comments inside it ended. -/
def IsBalanced (c : Bytes) : Prop :=
  ∃ content : Content, (enclosed content.bytes).IsChain Follows ∧
    c = (enclosed content.bytes).map CommentByte.byte

section Balanced

variable {body c s rest : Bytes}

/-- What stands behind the first mark of a comment starts with something. -/
theorem Content.exists_bytes_append (content : Content) :
    ∃ first more, content.bytes ++ endMark = first :: more := by
  cases content with
  | nil => exact ⟨_, _, rfl⟩
  | plain b after => exact ⟨_, _, rfl⟩
  | comment inner after => exact ⟨_, _, rfl⟩

theorem Content.bytes_comment_append (inner after : Content) :
    (comment inner after).bytes ++ endMark =
      ⟨Ascii.slash, false⟩ :: ⟨Ascii.star, false⟩ ::
        ((inner.bytes ++ endMark) ++ (after.bytes ++ endMark)) := by
  simp [bytes, enclosed]

/-- A byte of a mark may be followed by any byte. -/
theorem follows_mark (b : UInt8) (next : CommentByte) : Follows ⟨b, false⟩ next := by
  intro h
  cases h

theorem isChain_mark_cons {b : UInt8} {bytes : List CommentByte} (h : bytes.IsChain Follows) :
    (⟨b, false⟩ :: bytes).IsChain Follows := by
  apply List.IsChain.cons h
  intro next _
  exact follows_mark b next

/-- What follows the end of a comment does not matter to the comment. -/
theorem isChain_endMark_append {first second : List CommentByte}
    (h : (first ++ endMark).IsChain Follows) (h' : second.IsChain Follows) :
    ((first ++ endMark) ++ second).IsChain Follows := by
  apply List.IsChain.append h h'
  intro last hlast next _
  have hslash : (first ++ endMark).getLast? = some ⟨Ascii.slash, false⟩ := by
    simp [endMark]
  rw [hslash] at hlast
  cases hlast
  exact follows_mark _ next

/-- The bytes behind the first mark of a comment are read as the rest of it. -/
theorem Content.comment_of_isChain (content : Content)
    (h : (content.bytes ++ endMark).IsChain Follows) :
    Comment ((content.bytes ++ endMark).map CommentByte.byte) := by
  induction content with
  | nil => exact .close
  | plain b after ih =>
    obtain ⟨first, more, hafter⟩ := after.exists_bytes_append
    rw [bytes, List.cons_append, hafter] at h ⊢
    rw [hafter] at ih
    obtain ⟨hplain, hmore⟩ := List.isChain_cons_cons.mp h
    exact .content (hplain rfl) (ih hmore)
  | comment inner after ihinner ihafter =>
    rw [bytes_comment_append] at h ⊢
    obtain ⟨hinner, hafter, -⟩ := List.isChain_append.mp h.tail.tail
    rw [List.map_cons, List.map_cons, List.map_append]
    exact .nested (ihinner hinner) (ihafter hafter)

/-- What is read behind the first mark of a comment is the content of a whole one. -/
theorem Comment.exists_content (h : Comment body) :
    ∃ content : Content, (content.bytes ++ endMark).IsChain Follows ∧
      body = (content.bytes ++ endMark).map CommentByte.byte := by
  induction h with
  | close => exact ⟨.nil, by decide, rfl⟩
  | @content b c rest plain _ ih =>
    obtain ⟨content, hchain, hbody⟩ := ih
    obtain ⟨first, more, hfirst⟩ := content.exists_bytes_append
    rw [hfirst] at hchain hbody
    obtain ⟨rfl, -⟩ := List.cons.inj hbody
    refine ⟨.plain b content, ?_, ?_⟩
    · rw [Content.bytes, List.cons_append, hfirst]
      exact List.isChain_cons_cons.mpr ⟨fun _ => plain, hchain⟩
    · rw [Content.bytes, List.cons_append, hfirst, hbody]
      rfl
  | @nested inner rest _ _ ihinner ihafter =>
    obtain ⟨content, hinner, rfl⟩ := ihinner
    obtain ⟨more, hafter, rfl⟩ := ihafter
    refine ⟨.comment content more, ?_, ?_⟩
    · rw [Content.bytes_comment_append]
      apply isChain_mark_cons
      apply isChain_mark_cons
      exact isChain_endMark_append hinner hafter
    · simp [Content.bytes_comment_append]

theorem Comment.two_le_length (h : Comment body) : 2 ≤ body.length := by
  cases h <;> simp

/-- A whole comment is its first mark and what is read behind that. -/
theorem isBalanced_iff : IsBalanced c ↔
    ∃ body, Comment body ∧ c = Ascii.slash :: Ascii.star :: body := by
  constructor
  · rintro ⟨content, hchain, rfl⟩
    exact ⟨_, content.comment_of_isChain hchain.tail.tail, rfl⟩
  · rintro ⟨body, hbody, rfl⟩
    obtain ⟨content, hchain, rfl⟩ := hbody.exists_content
    refine ⟨content, ?_, rfl⟩
    apply isChain_mark_cons
    exact isChain_mark_cons hchain

/-- A whole comment is a gap. -/
theorem IsBalanced.isGap (h : IsBalanced c) : IsGap False c := by
  obtain ⟨body, hbody, rfl⟩ := isBalanced_iff.mp h
  have hgap : IsGap False (Ascii.slash :: Ascii.star :: (body ++ [])) := .block hbody .nil
  rwa [List.append_nil] at hgap

/-- A text that starts like a comment starts with a whole comment, or there is nothing behind the gap
that it starts with. -/
theorem exists_isBalanced_or_split (body : Bytes) :
    (∃ c, c <+: Ascii.slash :: Ascii.star :: body ∧ IsBalanced c) ∨
      (split (Ascii.slash :: Ascii.star :: body)).2 = [] := by
  have hrest : InBlock ((splitFrom (.block 0) body).2 = []) 0 (splitFrom (.block 0) body).1 :=
    rest_splitFrom (.block 0) body
  have hwhole := splitFrom_append (.block 0) body
  generalize (splitFrom (.block 0) body).1 = gap at hrest hwhole
  cases hrest with
  | @closed comment after hcomment _ =>
    left
    refine ⟨_, ?_, isBalanced_iff.mpr ⟨comment, hcomment, rfl⟩⟩
    rw [← hwhole, List.append_assoc]
    exact ⟨_, rfl⟩
  | unended atEnd _ =>
    right
    rw [split_mark]
    exact atEnd

end Balanced

end Gap

/-! ## Tokens behind comments -/

/-- A place of a text when the text stands behind another one: all of it is further down by the newlines
of the other text, and the first line is further right by the bytes behind the last of them. -/
def Place.behind (c : Bytes) (p : Place) : Place :=
  ⟨p.line + c.count Ascii.newline, if p.line = 1 then p.column + c.sinceNewline else p.column⟩

/-- A token of a text when the text stands behind another one. -/
def Token.behind (c : Bytes) (t : Token) : Token :=
  { t with
    line := t.line + c.count Ascii.newline
    column := if t.line = 1 then t.column + c.sinceNewline else t.column }

theorem Place.commutes_behind (c : Bytes) : Commutes (fun p => 0 < p.line) (Place.behind c) := by
  constructor
  · intro p b hline
    unfold step
    split
    · exact Nat.succ_pos p.line
    · exact hline
  · intro p b hline
    unfold step behind
    split
    · have hbelow : ¬p.line + 1 = 1 := by omega
      dsimp only
      rw [if_neg hbelow, Nat.add_right_comm]
    · dsimp only
      split
      · rw [Nat.add_right_comm]
      · rfl

theorem Place.behind_start (c : Bytes) : start.behind c = start.advance c := by
  rw [advance_start]
  rfl

namespace TokenStream

/-- The tokens of a text behind a gap are those of the text, moved by the gap. -/
theorem toList_append_of_isGap {gap : Bytes} (h : Gap.IsGap False gap) (s : Bytes) :
    (ofSource (gap ++ s)).toList = (ofSource s).toList.map (Token.behind gap) := by
  have hstart : 0 < Place.start.line := Nat.one_pos
  have hmoved := scan_moved (Place.commutes_behind gap) hstart s
  unfold toList ofSource
  rw [scan_append_of_isGap h, ← Place.behind_start, hmoved, List.map_append]
  rfl

/-- A text without anything behind the gap that it starts with has no token but the end. -/
theorem toList_of_split {s : Bytes} (h : (Gap.split s).2 = []) :
    (ofSource s).toList = [.ending s] := by
  have hwhole := Gap.split_append s
  rw [h, List.append_nil] at hwhole
  unfold toList ofSource
  rw [scan_nil h, hwhole, Place.advance_start]
  rfl

/-- A whole comment is skipped, whatever it holds and whatever follows it; and a comment that is not
ended is skipped to the end of the text. -/
theorem ofSource_comment :
    (∀ c rest : Bytes, Gap.IsBalanced c →
      (ofSource (c ++ rest)).toList = (ofSource rest).toList.map (Token.behind c)) ∧
    (∀ s : Bytes, [Ascii.slash, Ascii.star] <+: s → (∀ c, c <+: s → ¬Gap.IsBalanced c) →
      (ofSource s).toList = [.ending s]) := by
  constructor
  · intro c rest h
    exact toList_append_of_isGap h.isGap rest
  · rintro s ⟨body, rfl⟩ hnone
    apply toList_of_split
    rcases Gap.exists_isBalanced_or_split body with ⟨c, hc, hbalanced⟩ | hsplit
    · exact absurd hbalanced (hnone c hc)
    · exact hsplit

/-- A comment of two lines, in which another one stands right before the end. -/
def quotingComment : Bytes := text "/*//\n\"/**/*/"

/-- A first mark, and a second one that looks like the end of the comment from its other side. -/
def facingMarks : Bytes := text "/*/*/"

theorem facingMarks_not_isBalanced {c : Bytes} (h : c <+: facingMarks) : ¬Gap.IsBalanced c := by
  intro hbalanced
  obtain ⟨body, hbody, rfl⟩ := Gap.isBalanced_iff.mp hbalanced
  obtain ⟨rest, hwhole⟩ := h
  have hrest : body ++ rest = [Ascii.slash, Ascii.star, Ascii.slash] :=
    (List.cons.inj (List.cons.inj hwhole).2).2
  cases hbody with
  | close => cases hrest
  | content plain after =>
    simp only [List.cons_append, List.cons.injEq] at hrest
    rw [hrest.1, hrest.2.1] at plain
    cases plain
  | nested inner after =>
    have hlength := congrArg List.length hrest
    have hinner := inner.two_le_length
    simp at hlength
    omega

theorem quotingComment_skipped :
    Gap.IsBalanced quotingComment ∧
    (ofSource (quotingComment ++ text "x")).toList =
      [⟨.identifier, text "x", 2, 8⟩, ⟨.eof, [], 2, 9⟩] ∧
    (ofSource facingMarks).toList = [⟨.eof, [], 1, 6⟩] := by
  have hbalanced : Gap.IsBalanced quotingComment :=
    ⟨.plain Ascii.slash (.plain Ascii.slash (.plain Ascii.newline
      (.plain Ascii.doubleQuote (.comment .nil .nil)))), by decide, rfl⟩
  refine ⟨hbalanced, ?_, ?_⟩
  · exact (ofSource_comment.1 quotingComment (text "x") hbalanced).trans (by decide +kernel)
  · exact ofSource_comment.2 facingMarks ⟨_, rfl⟩ fun c hc => facingMarks_not_isBalanced hc

end TokenStream

end OnePass
