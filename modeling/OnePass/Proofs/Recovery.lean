import OnePass.Proofs.Grammar
import OnePass.Proofs.Production
set_option autoImplicit false

/-!
# Recovering in a program of the grammar

A statement that is rejected is skipped up to the semicolon at which reading goes on.  In words of
the grammar that is the semicolon behind the statement itself: expressions hold no semicolon at
all, and as long as a statement is open the semicolons inside it are passed, with the statements
in it opening and closing by themselves (`skipped_of_phrase`).
-/

namespace OnePass.Program

open OnePass.Grammar

/-- The kinds of tokens in front of the end of the source that skipping passes without any notice. -/
def Plain (k : TokenKind) : Prop :=
  k ≠ .semicolon ∧ k ≠ .kwEnd ∧ k ≠ .kwIf ∧ k ≠ .kwFor ∧ k ≠ .eof

instance (k : TokenKind) : Decidable (Plain k) := inferInstanceAs (Decidable (_ ∧ _ ∧ _ ∧ _ ∧ _))

theorem eof_notMem_of_plain {w : List TokenKind} (hw : ∀ k ∈ w, Plain k) : TokenKind.eof ∉ w :=
  fun h => (hw _ h).2.2.2.2 rfl

/-- Skipping from tokens, with `depth` statements open, ends in front of `rest`. -/
def Resumes (depth : Int) (ts rest : List Token) : Prop :=
  ∃ n, skipLength depth ts = some n ∧ ts.drop n = rest

/-! ## Single tokens -/

section Tokens

variable {depth : Int} {t : Token} {ts rest : List Token}

theorem Resumes.semicolon (ht : t.kind = .semicolon) (hdepth : depth ≤ 0) :
    Resumes depth (t :: ts) ts := ⟨1, skipLength_of_semicolon ⟨hdepth, ht⟩, rfl⟩

/-- Skipping goes on behind a token that neither ends it nor closes a statement. -/
theorem Resumes.cons (hstay : ¬(depth ≤ 0 ∧ t.kind = .semicolon)) (hopen : t.kind ≠ .kwEnd)
    (h : Resumes (if opensBlock t then depth + 1 else depth) ts rest) :
    Resumes depth (t :: ts) rest := by
  obtain ⟨n, hn, hrest⟩ := h
  refine ⟨n + 1, ?_, hrest⟩
  rw [skipLength_cons hstay fun _ _ hclose => hopen hclose.1, hn]
  rfl

theorem Resumes.inside (ht : t.kind = .semicolon) (hdepth : 0 < depth) (h : Resumes depth ts rest) :
    Resumes depth (t :: ts) rest :=
  .cons (fun hend => Int.not_le.mpr hdepth hend.1) (by simp [ht]) (by simpa [opensBlock, ht] using h)

theorem Resumes.plain (ht : Plain t.kind) (h : Resumes depth ts rest) :
    Resumes depth (t :: ts) rest := by
  obtain ⟨hsemicolon, hend, hif, hfor, -⟩ := ht
  exact .cons (fun h => hsemicolon h.2) hend (by simpa [opensBlock, hif, hfor] using h)

theorem Resumes.opening (ht : t.kind = .kwIf ∨ t.kind = .kwFor)
    (h : Resumes (depth + 1) ts rest) : Resumes depth (t :: ts) rest := by
  rcases ht with ht | ht <;> exact .cons (by simp [ht]) (by simp [ht]) (by simpa [opensBlock, ht] using h)

theorem Resumes.closing {u : Token} (ht : t.kind = .kwEnd) (hu : u.kind = .kwIf ∨ u.kind = .kwFor)
    (h : Resumes (depth - 1) ts rest) : Resumes depth (t :: u :: ts) rest := by
  obtain ⟨n, hn, hrest⟩ := h
  refine ⟨n + 2, ?_, hrest⟩
  rw [skipLength_of_closing ⟨ht, by simpa [opensBlock] using hu⟩, hn]
  rfl

theorem Resumes.plain_append {us : List Token} (hus : ∀ t ∈ us, Plain t.kind)
    (h : Resumes depth ts rest) : Resumes depth (us ++ ts) rest := by
  induction us with
  | nil => exact h
  | cons u us ih =>
    simp only [List.mem_cons, forall_eq_or_imp] at hus
    exact Resumes.plain hus.1 (ih hus.2)

end Tokens

/-! ## Words -/

/-- No token of an expression is noticed. -/
theorem plain_of_mem_expression {level : Level} {w : List TokenKind} (h : Expression level w) :
    ∀ k ∈ w, Plain k := by
  have hkinds : Plain .leftParen ∧ Plain .rightParen ∧ Plain .leftBracket ∧ Plain .rightBracket ∧
      Plain .identifier ∧ Plain .kwNot := by decide
  obtain ⟨hleft, hright, hopen, hclose, hname, hnot⟩ := hkinds
  have hop (o : Operator) : Plain (.op o) := by cases o <;> decide
  have hliteral (l : Literal) : Plain (.literal l) := by simp [Plain]
  induction h with
  | literal l => simpa using hliteral l
  | negative _ ih => simpa using ⟨hop .minus, ih⟩
  | parens _ ih => simpa [or_imp, forall_and] using ⟨hleft, ih, hright⟩
  | name => simpa using hname
  | element _ ih => simpa [or_imp, forall_and] using ⟨hname, hopen, ih, hclose⟩
  | negation _ ih => simpa using ⟨hnot, ih⟩
  | operand _ _ ih => exact ih
  | joined _ _ _ ihv ihw => simpa [or_imp, forall_and] using ⟨ihv, hop _, ihw⟩

theorem plain_of_mem_index {w : List TokenKind} (h : Index w) : ∀ k ∈ w, Plain k := by
  cases h with
  | none => simp
  | some he =>
    have hkinds : Plain .leftBracket ∧ Plain .rightBracket := by decide
    simpa [or_imp, forall_and] using ⟨hkinds.1, plain_of_mem_expression he, hkinds.2⟩

theorem plain_of_mem_assignment {w : List TokenKind} (h : Assignment w) : ∀ k ∈ w, Plain k := by
  obtain ⟨hindex, he⟩ := h
  have hkinds : Plain .identifier ∧ Plain .assign := by decide
  simpa [or_imp, forall_and] using
    ⟨hkinds.1, plain_of_mem_index hindex, hkinds.2, plain_of_mem_expression he⟩

theorem plain_of_mem_arguments {w : List TokenKind} (h : Arguments w) : ∀ k ∈ w, Plain k := by
  have hcomma : Plain .comma := by decide
  induction h with
  | one he => exact plain_of_mem_expression he
  | more he _ ih => simpa [or_imp, forall_and] using ⟨plain_of_mem_expression he, hcomma, ih⟩

theorem plain_of_mem_call {w : List TokenKind} (h : Call w) : ∀ k ∈ w, Plain k := by
  have hkinds : Plain .leftParen ∧ Plain .rightParen := by decide
  cases h with
  | empty => simpa using hkinds
  | arguments ha =>
    simpa [or_imp, forall_and] using ⟨hkinds.1, plain_of_mem_arguments ha, hkinds.2⟩

theorem Resumes.word {depth : Int} {w : List TokenKind} {ts middle rest : List Token}
    (hw : ∀ k ∈ w, Plain k) (hts : Spells w ts middle) (h : Resumes depth middle rest) :
    Resumes depth ts rest := by
  obtain ⟨us, rfl, rfl⟩ := spells_iff.mp hts
  exact Resumes.plain_append (fun t ht => hw _ (List.mem_map_of_mem ht)) h

/-- Skipping passes the tokens of a word whole, as long as `least` statements are open or more. -/
def Skipped (least : Int) (w : List TokenKind) : Prop :=
  ∀ (depth : Int) (ts middle rest : List Token), least ≤ depth → Spells w ts middle →
    Resumes depth middle rest → Resumes depth ts rest

section Skipped

variable {least : Int} {c v w : List TokenKind}

theorem Skipped.of_plain (hw : ∀ k ∈ w, Plain k) : Skipped least w :=
  fun _ _ _ _ _ hts h => h.word hw hts

theorem Skipped.append (hv : Skipped least v) (hw : Skipped least w) : Skipped least (v ++ w) := by
  intro depth ts middle rest hdepth hts h
  obtain ⟨between, hv', hw'⟩ := fills_append.mp hts
  exact hv depth ts between rest hdepth hv' (hw depth between middle rest hdepth hw' h)

theorem Skipped.inside (hw : Skipped 0 w) : Skipped 1 w :=
  fun depth ts middle rest hdepth => hw depth ts middle rest (by omega)

/-- Semicolons are passed inside of statements only. -/
theorem Skipped.semicolon (hw : Skipped 1 w) : Skipped 1 (.semicolon :: w) := by
  rintro depth ts middle rest hdepth ⟨t, more, rfl, ht, hmore⟩ h
  exact .inside ht (by omega) (hw depth more middle rest hdepth hmore h)

theorem Skipped.cons {k : TokenKind} (hk : Plain k) (hw : Skipped least w) : Skipped least (k :: w) :=
  .append (.of_plain (List.forall_mem_singleton.mpr hk)) hw

/-- A statement opens and closes by itself. -/
theorem Skipped.block {k : TokenKind} (hk : k = .kwIf ∨ k = .kwFor) (hw : Skipped 1 w) :
    Skipped 0 (k :: (w ++ [.kwEnd, k])) := by
  intro depth ts middle rest hdepth hts h
  simp only [fills_cons, fills_append, fills_nil] at hts
  obtain ⟨t, _, rfl, ht, m, hw', y, _, rfl, hy, z, _, rfl, hz, rfl⟩ := hts
  refine Resumes.opening (by rwa [ht]) (hw _ _ _ _ (by omega) hw' ?_)
  refine Resumes.closing hy (by rwa [hz]) ?_
  simpa using h

theorem Skipped.ifThen (hc : Expression .logical c) (hw : Skipped 1 w) :
    Skipped 0 (.kwIf :: .leftParen ::
      (c ++ .rightParen :: .kwThen :: (w ++ [.kwEnd, .kwIf]))) := by
  have hbody : Skipped 1 (.rightParen :: .kwThen :: w) := .cons (by decide) (.cons (by decide) hw)
  have hheader : Skipped 1 (.leftParen :: (c ++ .rightParen :: .kwThen :: w)) :=
    .cons (by decide) (.append (.of_plain (plain_of_mem_expression hc)) hbody)
  simpa only [List.append_assoc, List.cons_append] using hheader.block (.inl rfl)

theorem Skipped.ifElse (hc : Expression .logical c) (hv : Skipped 1 v) (hw : Skipped 1 w) :
    Skipped 0 (.kwIf :: .leftParen ::
      (c ++ .rightParen :: .kwThen :: (v ++ .kwElse :: (w ++ [.kwEnd, .kwIf])))) := by
  have helse : Skipped 1 [.kwElse] := .of_plain (by decide)
  have h := Skipped.ifThen hc (hv.append (helse.append hw))
  simpa only [List.append_assoc, List.cons_append, List.nil_append] using h

theorem Skipped.forLoop {a : List TokenKind} (ha : Assignment a) (hc : Expression .logical c)
    (hw : Skipped 1 w) :
    Skipped 0 (.kwFor :: .leftParen ::
      (a ++ .semicolon :: (c ++ .rightParen :: (w ++ [.kwEnd, .kwFor])))) := by
  have hbody : Skipped 1 (c ++ .rightParen :: w) :=
    .append (.of_plain (plain_of_mem_expression hc)) (.cons (by decide) hw)
  have hheader : Skipped 1 (.leftParen :: (a ++ .semicolon :: (c ++ .rightParen :: w))) :=
    .cons (by decide) (.append (.of_plain (plain_of_mem_assignment ha)) hbody.semicolon)
  simpa only [List.append_assoc, List.cons_append] using hheader.block (.inr rfl)

end Skipped

/-- How many statements have to be open around words for skipping to pass them. -/
def skippedFrom : Phrases → Int
  | .one => 0
  | .many _ => 1

/-- Skipping passes a statement, and more than one as long as a statement around them is open. -/
theorem skipped_of_phrase {c : Phrases} {w : List TokenKind} (hw : Phrase c w) :
    Skipped (skippedFrom c) w := by
  induction hw with
  | returns => exact .of_plain (by decide)
  | builtin b hcall =>
    have hb : Plain (.builtin b) := by simp [Plain]
    exact .of_plain (List.forall_mem_cons.mpr ⟨hb, plain_of_mem_call hcall⟩)
  | call hcall =>
    exact .of_plain (List.forall_mem_cons.mpr ⟨by decide, plain_of_mem_call hcall⟩)
  | assignment hassign => exact .of_plain (plain_of_mem_assignment hassign)
  | ifThen hc _ ih => exact .ifThen hc ih
  | ifElse hc _ _ ihv ihw => exact .ifElse hc ihv ihw
  | forLoop ha hc _ ih => exact .forLoop ha hc ih
  | nil => exact .of_plain (List.forall_mem_nil _)
  | cons _ _ ihv ihw => exact ihv.inside.append ihw.semicolon

end OnePass.Program
