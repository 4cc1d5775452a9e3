import OnePass.Proofs.Acceptance.Statement
set_option autoImplicit false

/-!
# Statements with a semicolon left out

`Severed` words are the words before and behind the place of a semicolon that ends a statement
inside of another one.  Put together without the semicolon they are not statements of the grammar.
The first token behind the place is reported, and reading goes on behind the next semicolon, as if
the words up to there were one statement.  Where that semicolon belongs to the same statements, or
to those behind `ELSE`, all that is lost is a statement (`healed_of_severed`).

In front of `END` there is no such semicolon: the word that should have ended the statements around
is skipped as well, up to the semicolon behind it.
-/

namespace OnePass

namespace Grammar

/-- Statements with a semicolon left out: the words before its place and those behind it.  `inside`
tells whether it may be one of the semicolons between the statements themselves; if not it belongs
to statements inside of them. -/
inductive Severed : Bool → Phrases → List TokenKind → List TokenKind → Prop
  | here {n : Nat} {v w : List TokenKind} : Phrase .one v → Phrase (.many n) w →
      Severed true (.many (n + 1)) v w
  | first {inside : Bool} {n : Nat} {v v' w : List TokenKind} : Severed false .one v v' →
      Phrase (.many n) w → Severed inside (.many (n + 1)) v (v' ++ .semicolon :: w)
  | later {inside : Bool} {n : Nat} {v w w' : List TokenKind} : Phrase .one v →
      Severed inside (.many n) w w' → Severed inside (.many (n + 1)) (v ++ .semicolon :: w) w'
  | ifThen {n : Nat} {c w w' : List TokenKind} : Expression .logical c →
      Severed true (.many (n + 1)) w w' →
      Severed false .one (.kwIf :: .leftParen :: (c ++ .rightParen :: .kwThen :: w))
        (w' ++ [.kwEnd, .kwIf])
  | ifElseFirst {m n : Nat} {c v v' w : List TokenKind} : Expression .logical c →
      Severed true (.many (m + 1)) v v' → Phrase (.many (n + 1)) w →
      Severed false .one (.kwIf :: .leftParen :: (c ++ .rightParen :: .kwThen :: v))
        (v' ++ .kwElse :: (w ++ [.kwEnd, .kwIf]))
  | ifElseSecond {m n : Nat} {c v w w' : List TokenKind} : Expression .logical c →
      Phrase (.many (m + 1)) v → Severed true (.many (n + 1)) w w' →
      Severed false .one
        (.kwIf :: .leftParen :: (c ++ .rightParen :: .kwThen :: (v ++ .kwElse :: w)))
        (w' ++ [.kwEnd, .kwIf])
  | forLoop {n : Nat} {a c w w' : List TokenKind} : Assignment a → Expression .logical c →
      Severed true (.many n) w w' →
      Severed false .one
        (.kwFor :: .leftParen :: (a ++ .semicolon :: (c ++ .rightParen :: w)))
        (w' ++ [.kwEnd, .kwFor])

/-- With the semicolon in its place the words are statements. -/
theorem Severed.phrase {inside : Bool} {c : Phrases} {u u' : List TokenKind}
    (h : Severed inside c u u') : Phrase c (u ++ .semicolon :: u') := by
  induction h with
  | here hv hw => exact .cons hv hw
  | first _ hw ih =>
    have h := Phrase.cons ih hw
    simpa using h
  | later hv _ ih =>
    have h := Phrase.cons hv ih
    simpa using h
  | ifThen hc _ ih =>
    have h := Phrase.ifThen hc ih
    simpa using h
  | ifElseFirst hc _ hw ih =>
    have h := Phrase.ifElse hc ih hw
    simpa using h
  | ifElseSecond hc hv _ ih =>
    have h := Phrase.ifElse hc hv ih
    simpa using h
  | forLoop ha hc _ ih =>
    have h := Phrase.forLoop ha hc ih
    simpa using h

theorem Severed.ne_nil {inside : Bool} {u u' : List TokenKind} (h : Severed inside .one u u') :
    u' ≠ [] := by
  cases h <;> simp

end Grammar

namespace Program

open Grammar

/-! ## Skipping -/

/-- The word of a statement that lacks its semicolon, and of the statement behind it, is passed like
the word of one statement. -/
theorem skipped_of_severed {inside : Bool} {c : Phrases} {u u' : List TokenKind}
    (h : Severed inside c u u') : Skipped (skippedFrom c) (u ++ u') := by
  induction h with
  | here hv hw => exact (skipped_of_phrase hv).inside.append (skipped_of_phrase hw)
  | first _ hw ih =>
    have h := ih.inside.append (skipped_of_phrase hw).semicolon
    simpa [skippedFrom] using h
  | later hv _ ih =>
    have h := (skipped_of_phrase hv).inside.append ih.semicolon
    simpa [skippedFrom] using h
  | ifThen hc _ ih =>
    have h := Skipped.ifThen hc ih
    simpa [skippedFrom] using h
  | ifElseFirst hc _ hw ih =>
    have h := Skipped.ifElse hc ih (skipped_of_phrase hw)
    simpa [skippedFrom] using h
  | ifElseSecond hc hv _ ih =>
    have h := Skipped.ifElse hc (skipped_of_phrase hv) ih
    simpa [skippedFrom] using h
  | forLoop ha hc _ ih =>
    have h := Skipped.forLoop ha hc ih
    simpa [skippedFrom] using h

theorem starts_of_severed {u u' : List TokenKind} (h : Severed false .one u u') : Starts u := by
  cases h with
  | ifThen _ _ => exact starts_cons _ (by simp)
  | ifElseFirst _ _ _ => exact starts_cons _ (by simp)
  | ifElseSecond _ _ _ => exact starts_cons _ (by simp)
  | forLoop _ _ _ => exact starts_cons _ (by simp)

/-! ## A statement without its semicolon -/

section Missing

variable {v x w : List TokenKind}

/-- A statement in front of a token that is not its semicolon.  The token is reported and skipped,
and what it is skipped with decides where reading goes on. -/
theorem goesOn_of_missing {k : TokenKind} (hv : Phrase .one v) {depth : Nat} {s : State} {t : Token}
    {more goal : List Token} (ht : t.kind = k) (hsemicolon : k ≠ .semicolon)
    (hbracket : k ≠ .leftBracket) (hop : ∀ o, k ≠ .op o) (hskip : Resumes 0 (t :: more) goal)
    (hdepth : v.length ≤ depth) (hs : Spells v s.cursor.ahead (t :: more)) :
    GoesOn true (statementsWithin depth) s goal := by
  have hfollows : Follows .logical (t :: more) := .of_kind ht hbracket hop
  have hkeeps := Proceeds.wideFrame.keeps (made_statementsWithin depth)
  have hrecovers := accepted_of_phrase hv depth s (t :: more) goal hdepth hfollows hskip hs
  exact terminated_goesOn hkeeps hskip hrecovers fun _ => .inr (by rwa [ht])

/-- Other words behind a statement are skipped up to the semicolon behind them. -/
theorem taken_of_missing {k : TokenKind} (hv : Phrase .one v) (hsemicolon : k ≠ .semicolon)
    (hbracket : k ≠ .leftBracket) (hop : ∀ o, k ≠ .op o) (hx : Skipped 0 (k :: x)) :
    Taken true (v ++ k :: x) := by
  intro depth s t rest hdepth ht hs
  obtain ⟨_, hstatement, y, more, rfl, hy, hmore⟩ := fills_append.mp hs
  have hskip : Resumes 0 (y :: more) rest :=
    hx 0 _ _ rest (Int.le_refl 0) ⟨y, more, rfl, hy, hmore⟩ (.semicolon ht (Int.le_refl 0))
  rw [List.length_append] at hdepth
  exact goesOn_of_missing hv hy hsemicolon hbracket hop hskip (by omega) hstatement

/-- Two statements without a semicolon between them count as one. -/
theorem accepted_missing {n : Nat} (hv : Phrase .one v) (hx : Phrase .one x)
    (hw : Phrase (.many n) w) : Accepted true (.many (n + 1)) (v ++ (x ++ .semicolon :: w)) := by
  obtain ⟨k, y, rfl, hsemicolon, hbracket, hop, -⟩ := starts_of_phrase hx
  have htaken := taken_of_missing hv hsemicolon hbracket hop (skipped_of_phrase hx)
  have h := accepted_cons (Starts.append (starts_of_phrase hv)) htaken (accepted_of_phrase hw)
  simpa using h

/-- So do the last statement in front of `ELSE` and the first one behind it. -/
theorem accepted_missing_else {n : Nat} (hv : Phrase .one v) (hx : Phrase .one x)
    (hw : Phrase (.many n) w) :
    Accepted true (.many (n + 1)) (v ++ .kwElse :: (x ++ .semicolon :: w)) := by
  have helse : Skipped 0 [.kwElse] := .of_plain (by decide)
  have htaken := taken_of_missing hv (by simp) (by simp) (by simp)
    (helse.append (skipped_of_phrase hx))
  have h := accepted_cons (Starts.append (starts_of_phrase hv)) htaken (accepted_of_phrase hw)
  simpa using h

end Missing

/-! ## Statements around it -/

/-- What becomes of severed words that are put together, if what stands behind the place does not
begin with `END`.  Of several statements nothing may stand behind the place; then the statements
behind an `ELSE` are put behind them. -/
def Healed : Phrases → List TokenKind → List TokenKind → Prop
  | .one, u, u' => u'.head? ≠ some .kwEnd → Accepted true .one (u ++ u')
  | .many _, u, u' =>
    (u' ≠ [] → u'.head? ≠ some .kwEnd → ∃ n, Accepted true (.many (n + 1)) (u ++ u')) ∧
    (u' = [] → ∀ {k : Nat} {w : List TokenKind}, Phrase (.many (k + 1)) w →
      ∃ n, Accepted true (.many (n + 1)) (u ++ .kwElse :: w))

section Healed

variable {n : Nat} {c u u' v w : List TokenKind}

theorem healed_here (hv : Phrase .one v) (hw : Phrase (.many n) w) :
    Healed (.many (n + 1)) v w := by
  constructor
  · intro hne _
    cases hw with
    | nil => exact absurd rfl hne
    | cons hx hw => exact ⟨_, accepted_missing hv hx hw⟩
  · intro _ k x hx
    cases hx with
    | cons hx hw => exact ⟨_, accepted_missing_else hv hx hw⟩

theorem head?_ne_of_append {k : TokenKind} {x : List TokenKind} (hne : u' ≠ [])
    (h : (u' ++ x).head? ≠ some k) : u'.head? ≠ some k := by
  obtain ⟨l, y, rfl⟩ := List.exists_cons_of_ne_nil hne
  exact h

/-- Behind the place there is more than the end of the block. -/
theorem ne_nil_of_head {x : List TokenKind} (h : (u' ++ .kwEnd :: x).head? ≠ some .kwEnd) :
    u' ≠ [] := by
  rintro rfl
  exact h rfl

theorem healed_first (hu : Starts u) (hne : u' ≠ []) (h : Healed .one u u')
    (hw : Phrase (.many n) w) : Healed (.many (n + 1)) u (u' ++ .semicolon :: w) := by
  constructor
  · intro _ hend
    have htaken := taken_of_accepted (h (head?_ne_of_append hne hend))
    have haccepted := accepted_cons (Starts.append hu) htaken (accepted_of_phrase hw)
    exact ⟨n, by simpa using haccepted⟩
  · intro hnil
    simp at hnil

theorem healed_later (hv : Phrase .one v) (h : Healed (.many n) u u') :
    Healed (.many (n + 1)) (v ++ .semicolon :: u) u' := by
  have htaken := taken_of_accepted (accepted_of_phrase hv)
  constructor
  · intro hne hend
    obtain ⟨m, hm⟩ := h.1 hne hend
    have haccepted := accepted_cons (starts_of_phrase hv) htaken hm
    exact ⟨m + 1, by simpa using haccepted⟩
  · intro hnil k w hw
    obtain ⟨m, hm⟩ := h.2 hnil hw
    have haccepted := accepted_cons (starts_of_phrase hv) htaken hm
    exact ⟨m + 1, by simpa using haccepted⟩

end Healed

theorem healed_of_severed {inside : Bool} {c : Phrases} {u u' : List TokenKind}
    (h : Severed inside c u u') : Healed c u u' := by
  induction h with
  | here hv hw => exact healed_here hv hw
  | first hsevered hw ih => exact healed_first (starts_of_severed hsevered) hsevered.ne_nil ih hw
  | later hv _ ih => exact healed_later hv ih
  | ifThen hc hsevered ih =>
    intro hend
    have hne := ne_nil_of_head hend
    obtain ⟨m, hm⟩ := ih.1 hne (head?_ne_of_append hne hend)
    have h := accepted_ifThen hc (skipped_of_severed hsevered) hm
    simpa using h
  | @ifElseFirst _ _ _ v v' w hc hsevered hw ih =>
    intro hend
    cases v' with
    | nil =>
      -- both branches become one
      obtain ⟨m, hm⟩ := ih.2 rfl hw
      have helse : Skipped 1 [.kwElse] := .of_plain (by decide)
      have hskipped := (skipped_of_severed hsevered).append (helse.append (skipped_of_phrase hw))
      have h := accepted_ifThen hc (by simpa [skippedFrom] using hskipped) hm
      simpa using h
    | cons k v' =>
      obtain ⟨m, hm⟩ := ih.1 (by simp) (head?_ne_of_append (by simp) hend)
      have h := accepted_ifElse hc (skipped_of_severed hsevered) (skipped_of_phrase hw) hm
        (accepted_of_phrase hw)
      simpa using h
  | ifElseSecond hc hv hsevered ih =>
    intro hend
    have hne := ne_nil_of_head hend
    obtain ⟨m, hm⟩ := ih.1 hne (head?_ne_of_append hne hend)
    have h := accepted_ifElse hc (skipped_of_phrase hv) (skipped_of_severed hsevered)
      (accepted_of_phrase hv) hm
    simpa using h
  | forLoop ha hc hsevered ih =>
    intro hend
    have hne := ne_nil_of_head hend
    obtain ⟨m, hm⟩ := ih.1 hne (head?_ne_of_append hne hend)
    have h := accepted_forLoop ha hc (skipped_of_severed hsevered) hm
    simpa using h

end Program

end OnePass
