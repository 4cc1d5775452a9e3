import OnePass.Proofs.Acceptance.Program
import OnePass.Proofs.Severed.Basic
set_option autoImplicit false

/-!
# Programs with a semicolon left out

A program is recognised, with a diagnostic, when the semicolon behind a statement inside of another
one is left out (`parse_ok_of_severed`): whatever is lost is lost in front of the next semicolon.
This needs that the statement is not the last one in front of `END`.  There the next semicolon is
the one behind the block, the block is never closed, and the tokens run out
(`openSource_unexpectedEnd`).
-/

namespace OnePass

namespace Grammar

/-- Declarations and bodies in which a statement inside of another one has lost its semicolon: the
words before its place and those behind it. -/
inductive SeveredPart : Parts → List TokenKind → List TokenKind → Prop
  | procedureDecl {g h i u u' : List TokenKind} : Optional .kwGlobal g → Header h →
      Optional .kwIs i → SeveredPart (.body .kwProcedure) u u' →
      SeveredPart .declaration (g ++ .kwProcedure :: .identifier :: (h ++ i ++ u)) u'
  | first {v v' w : List TokenKind} : SeveredPart .declaration v v' → Part .declarations w →
      SeveredPart .declarations v (v' ++ .semicolon :: w)
  | later {v w w' : List TokenKind} : Part .declaration v → SeveredPart .declarations w w' →
      SeveredPart .declarations (v ++ .semicolon :: w) w'
  | declared {n : Nat} {terminator : TokenKind} {v v' w : List TokenKind} :
      SeveredPart .declarations v v' → Phrase (.many n) w →
      SeveredPart (.body terminator) v (v' ++ .kwBegin :: (w ++ [.kwEnd, terminator]))
  | stated {n : Nat} {terminator : TokenKind} {v w w' : List TokenKind} : Part .declarations v →
      Severed false (.many n) w w' →
      SeveredPart (.body terminator) (v ++ .kwBegin :: w) (w' ++ [.kwEnd, terminator])

/-- Programs in which a statement inside of another one has lost its semicolon. -/
inductive SeveredProgram : List TokenKind → List TokenKind → Prop
  | mk {u u' : List TokenKind} : SeveredPart (.body .kwProgram) u u' →
      SeveredProgram (.kwProgram :: .identifier :: .kwIs :: u) (u' ++ [.period])

theorem SeveredPart.part {c : Parts} {u u' : List TokenKind} (h : SeveredPart c u u') :
    Part c (u ++ .semicolon :: u') := by
  induction h with
  | procedureDecl hg hh hi _ ih =>
    have h := Part.procedureDecl hg hh hi ih
    simpa using h
  | first _ hw ih =>
    have h := Part.cons ih hw
    simpa using h
  | later hv _ ih =>
    have h := Part.cons hv ih
    simpa using h
  | @declared _ terminator _ _ _ _ hw ih =>
    have h : Part (.body terminator) _ := .body ih hw
    simpa using h
  | @stated _ terminator _ _ _ hv hsevered =>
    have h : Part (.body terminator) _ := .body hv hsevered.phrase
    simpa using h

theorem SeveredPart.ne_nil {c : Parts} {u u' : List TokenKind} (h : SeveredPart c u u') :
    u' ≠ [] := by
  induction h with
  | procedureDecl _ _ _ _ ih => exact ih
  | first _ _ _ => simp
  | later _ _ ih => exact ih
  | declared _ _ _ => simp
  | stated _ _ => simp

/-- With the semicolon in its place the words are a program. -/
theorem SeveredProgram.program {u u' : List TokenKind} (h : SeveredProgram u u') :
    Program (u ++ .semicolon :: u') := by
  cases h with
  | mk h =>
    have h := Program.mk h.part
    simpa using h

end Grammar

namespace Program

open Grammar OnePass.Tree

/-! ## Trees -/

/-- What there is for severed words of a category that are put together. -/
def Heals : Parts → List TokenKind → Prop
  | .declaration, w => ∀ ts rest : List Token, (∀ t ∈ ts, t.Lexed) → Spells w ts rest →
      ∃ (h : Heading) (inner : Declarations) (opening closing : List Token) (inside closes : Bool),
        Shows h.slots ts opening ∧ Laid inside inner opening closing ∧
        Closes closes .kwProcedure closing rest ∧ (inside || closes) = true
  | .declarations, w => ∀ ts rest : List Token, (∀ t ∈ ts, t.Lexed) → Spells w ts rest →
      ∃ ds : Declarations, Laid true ds ts rest
  | .body terminator, w => ∀ ts rest : List Token, Plain terminator → (∀ t ∈ ts, t.Lexed) →
      Spells w ts rest →
      ∃ (ds : Declarations) (closing : List Token) (inside closes : Bool),
        Laid inside ds ts closing ∧ Closes closes terminator closing rest ∧
        (inside || closes) = true

/-- A declaration of the grammar in front of others. -/
theorem exists_laid_later {faulty : Bool} {v : List TokenKind} (hv : Part .declaration v)
    {ds : Declarations} {d : Token} {ts middle rest : List Token} (hts : ∀ t ∈ ts, t.Lexed)
    (hs : Spells v ts (d :: middle)) (hd : d.kind = .semicolon) (hds : Laid faulty ds middle rest) :
    ∃ ds' : Declarations, Laid faulty ds' ts rest := by
  rcases exists_of_part hv _ _ hts hs with ⟨x, hx⟩ | ⟨h, inner, body, hprocedure⟩
  · exact ⟨_, .variableDecl hx hd hds⟩
  · simp only [fills_append] at hprocedure
    obtain ⟨_, hheading, _, hinner, hclosing⟩ := hprocedure
    have hcloses := closes_of_shows body (by decide) hclosing
    exact ⟨_, .procedureDecl body hheading (laid_of_shows inner hinner) hcloses hd hds⟩

theorem heals_of_severed {c : Parts} {u u' : List TokenKind} (h : SeveredPart c u u')
    (hend : u'.head? ≠ some .kwEnd) : Heals c (u ++ u') := by
  induction h with
  | @procedureDecl g h i u u' hg hh hi _ ih =>
    intro ts rest hts hs
    have hsplit : g ++ .kwProcedure :: .identifier :: (h ++ i ++ u) ++ u' =
        (g ++ .kwProcedure :: .identifier :: (h ++ i)) ++ (u ++ u') := by simp
    rw [hsplit] at hs
    obtain ⟨opening, hs, hbody⟩ := fills_append.mp hs
    obtain ⟨heading, hheading⟩ := exists_heading hg hh hi hs hts
    obtain ⟨inner, closing, inside, closes, hinner, hcloses, hfaulty⟩ :=
      ih hend _ _ (by decide) (lexed_of_spells hs hts) hbody
    exact ⟨heading, inner, opening, closing, inside, closes, hheading, hinner, hcloses, hfaulty⟩
  | first hsevered hw ih =>
    intro ts rest hts hs
    rw [← List.append_assoc] at hs
    obtain ⟨_, hs, d, middle, rfl, hd, hmiddle⟩ := fills_append.mp hs
    obtain ⟨h, inner, opening, closing, inside, closes, hheading, hinner, hcloses, hfaulty⟩ :=
      ih (head?_ne_of_append hsevered.ne_nil hend) _ _ hts hs
    obtain ⟨-, hmore⟩ := List.forall_mem_cons.mp (lexed_of_spells hs hts)
    obtain ⟨ds, hds⟩ := exists_of_part hw _ _ hmore hmiddle
    have hlaid := Laid.procedureDecl ⟨0, [], .nil⟩ hheading hinner hcloses hd (laid_of_shows ds hds)
    rw [hfaulty] at hlaid
    exact ⟨_, hlaid⟩
  | later hv hsevered ih =>
    intro ts rest hts hs
    rw [List.append_assoc] at hs
    obtain ⟨_, hs, d, middle, rfl, hd, hmiddle⟩ := fills_append.mp hs
    obtain ⟨-, hmore⟩ := List.forall_mem_cons.mp (lexed_of_spells hs hts)
    obtain ⟨ds, hds⟩ := ih hend _ _ hmore hmiddle
    exact exists_laid_later hv hts hs hd hds
  | declared hsevered hw ih =>
    intro ts rest hplain hts hs
    rw [← List.append_assoc] at hs
    obtain ⟨closing, hs, hclosing⟩ := fills_append.mp hs
    obtain ⟨ds, hds⟩ := ih (head?_ne_of_append hsevered.ne_nil hend) _ _ hts hs
    have hcloses := closes_of_accepted (accepted_of_phrase hw) hplain hclosing
    exact ⟨ds, closing, true, false, hds, hcloses, rfl⟩
  | @stated n terminator v w w' hv hsevered =>
    intro ts rest hplain hts hs
    have hsplit : v ++ .kwBegin :: w ++ (w' ++ [.kwEnd, terminator]) =
        v ++ .kwBegin :: (w ++ w' ++ [.kwEnd, terminator]) := by simp
    rw [hsplit] at hs
    obtain ⟨closing, hs, hclosing⟩ := fills_append.mp hs
    obtain ⟨ds, hds⟩ := exists_of_part hv _ _ hts hs
    have hne := ne_nil_of_head hend
    obtain ⟨m, hm⟩ := (healed_of_severed hsevered).1 hne (head?_ne_of_append hne hend)
    have hcloses := closes_of_accepted hm hplain hclosing
    exact ⟨ds, closing, false, true, laid_of_shows ds hds, hcloses, rfl⟩

/-! ## Programs -/

/-- A program that lacks the semicolon behind a statement inside of another one is recognised with a
diagnostic, unless the statement is the last one of its block. -/
theorem parse_ok_of_severed (file source : Bytes) (target : Target) {before after : List TokenKind}
    (h : SeveredProgram before after) (hend : after.head? ≠ some .kwEnd)
    (hkinds : (TokenStream.ofSource source).tokens.map Token.kind = before ++ after) :
    (∃ p, (parse file source .empty (.new target)).result = .ok p) ∧
      (parse file source .empty (.new target)).state.diagnostics ≠ [] := by
  have hlexed : ∀ t ∈ (TokenStream.ofSource source).tokens, t.Lexed :=
    fun t ht => TokenStream.lexed_of_mem ht
  have hs : Spells (before ++ after) (TokenStream.ofSource source).tokens [] :=
    spells_iff.mpr ⟨_, by simp, hkinds⟩
  obtain ⟨tree, hlaid⟩ : ∃ tree, LaidOut true tree (TokenStream.ofSource source).tokens [] := by
    generalize (TokenStream.ofSource source).tokens = ts at hlexed hs
    cases h with
    | @mk u u' hpart =>
      simp only [List.cons_append, ← List.append_assoc, fills_cons, fills_append, fills_nil] at hs
      obtain ⟨p, _, rfl, hp, n, _, rfl, hn, i, _, rfl, hi, _, hbody, d, _, rfl, hd, rfl⟩ := hs
      simp only [List.forall_mem_cons] at hlexed
      obtain ⟨-, hname, -, hmore⟩ := hlexed
      obtain ⟨name, hname⟩ := exists_name hname hn
      have hend := head?_ne_of_append hpart.ne_nil hend
      obtain ⟨ds, closing, inside, closes, hds, hcloses, hfaulty⟩ :=
        heals_of_severed hpart hend _ _ (by decide) hmore (fills_append.mpr hbody)
      have hlaid : LaidOut _ ⟨name, ds, ⟨0, [], .nil⟩⟩ _ _ := .mk hp hname hi hds hcloses hd
      rw [hfaulty] at hlaid
      exact ⟨_, hlaid⟩
  obtain ⟨hresult, hreported⟩ := parse_laidOut file source target hlaid
  exact ⟨⟨_, hresult⟩, hreported rfl⟩

/-- A procedure with a loop around two branches, of which the first one lacks its last semicolon. -/
def severedSource : Bytes :=
  text "program p is integer y;
    procedure q() begin
      for (y := 1; y < 2) if (true) then y := 2; q() else return; y := 3; end if; end for;
    end procedure;
    begin q(); end program."

theorem severedSource_severed :
    ∃ before after, SeveredProgram before after ∧ after.head? ≠ some .kwEnd ∧
      (TokenStream.ofSource severedSource).tokens.map Token.kind = before ++ after := by
  have hinteger : Grammar.Expression .logical [.literal .integer] := .ofFactor (.literal _)
  have htruth : Grammar.Expression .logical [.literal (.truth true)] := .ofFactor (.literal _)
  have hless := Grammar.Expression.ofRelation (o := .less) rfl .name (.literal .integer)
  have hassign : Grammar.Assignment ([.identifier] ++ .assign :: [.literal .integer]) :=
    .mk .none hinteger
  -- the place is behind the call, in front of `ELSE`
  have hbranch := Severed.later (.assignment hassign) (.here (.call .empty) .nil)
  have hif := Severed.ifElseFirst htruth hbranch
    (.cons .returns (.cons (.assignment hassign) .nil))
  have hfor := Severed.forLoop hassign hless (.first hif .nil)
  have hprocedure := SeveredPart.procedureDecl .none .empty .none
    (.stated .nil (.first hfor .nil))
  have hvariable := Part.variableDecl .integer (.none : Optional .kwGlobal []) .none
  have hprogram := SeveredProgram.mk
    (.declared (.later hvariable (.first hprocedure .nil)) (.cons (.call .empty) .nil))
  refine ⟨_, _, hprogram, by decide, ?_⟩
  decide +kernel

/-- The missing semicolon is the only thing reported, and the program is recognised. -/
theorem severedSource_recognised :
    (parse [] severedSource .empty (.new .standard)).state.diagnostics.length = 1 ∧
      ∃ p, (parse [] severedSource .empty (.new .standard)).result = .ok p := by
  obtain ⟨before, after, hsevered, hend, hkinds⟩ := severedSource_severed
  refine ⟨by decide +kernel, ?_⟩
  exact (parse_ok_of_severed [] severedSource .standard hsevered hend hkinds).1

/-- A block whose only statement lacks its semicolon. -/
def openSource : Bytes :=
  text "program p is begin if (true) then return end if; end program."

/-- The end of the block is skipped along with the statement, and the whole program is given up. -/
theorem openSource_unexpectedEnd :
    (∃ before after, SeveredProgram before after ∧
      (TokenStream.ofSource openSource).tokens.map Token.kind = before ++ after) ∧
    (parse [] openSource .empty (.new .standard)).result = .error (.broken .unexpectedEnd) := by
  have htruth : Grammar.Expression .logical [.literal (.truth true)] := .ofFactor (.literal _)
  have hif := Severed.ifThen htruth (.here .returns .nil)
  have hprogram := SeveredProgram.mk (.stated .nil (.first hif .nil))
  refine ⟨⟨_, _, hprogram, by decide +kernel⟩, ?_⟩
  have herror : (parse [] openSource .empty (.new .standard)).result.casesOn
      (motive := fun _ => Option Error) some (fun _ => none) = some (.broken .unexpectedEnd) := by
    decide +kernel
  cases hresult : (parse [] openSource .empty (.new .standard)).result with
  | ok p =>
    rw [hresult] at herror
    cases herror
  | error e =>
    rw [hresult] at herror
    exact congrArg Except.error (Option.some.inj herror)

end Program

end OnePass
