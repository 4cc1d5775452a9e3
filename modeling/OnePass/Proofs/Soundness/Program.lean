import OnePass.Proofs.Lexical
import OnePass.Proofs.Soundness.Declaration
set_option autoImplicit false

/-!
# Recognised programs are programs of the grammar

A source that is recognised without a diagnostic begins with a program of the grammar, which ends on
the period that reading stopped at.  What follows the period is not looked at.
-/

namespace OnePass.Program

open OnePass.Grammar

/-! ## Bodies -/

theorem bodyTail_sound {terminator : TokenKind} (hterminator : terminator ≠ .eof) {s s' : State}
    {u : Unit} (h : bodyTail terminator s = .ok u s') (hs : s.Marked)
    (hclean : s'.diagnostics = []) :
    ∃ n w, Phrase (.many n) w ∧
      Spells (.kwBegin :: (w ++ [.kwEnd, terminator])) s.cursor.ahead s'.cursor.ahead.tail := by
  rw [unit_ok_iff_ends, bodyTail, ends_bind, ends_mustCurrent, if_false_right] at h
  obtain ⟨hbegin, h⟩ := h
  rw [ends_bind, ends_advance, ends_bind_ok] at h
  obtain ⟨n, s₁, hrun, h⟩ := h
  have hkept : Proceeds _ s₁ := (Proceeds.wideFrame.keeps made_statements).of_ok hrun
  have hs₁ : s₁.Marked := hkept.marked hs
  rw [ends_bind, ends_mustCurrent, if_false_right, ends_mustPeek, if_false_right] at h
  obtain ⟨hend, hword, rfl⟩ := h
  obtain ⟨w, hw, hspells⟩ := statements_sound hrun hs hclean
  have hback : Spells [.kwEnd, terminator] s₁.cursor.ahead s₁.cursor.next.ahead.tail :=
    spells_append (spells_head hs₁ hend rfl) (spells_head hs₁ hword (decide_eq_false hterminator))
  refine ⟨n, w, hw, spells_append (spells_head hs hbegin rfl) ?_⟩
  exact spells_append hspells hback

/-- Declarations that are passed on the way to a state without diagnostics are declarations of the
grammar. -/
def DeclaresCleanly (p : Parser Unit) : Prop :=
  ∀ ⦃s u s'⦄, p s = .ok u s' → s.Marked → s'.diagnostics = [] →
    Spelled (Part .declarations) s.cursor.ahead s'.cursor.ahead

theorem DeclaresCleanly.body {p : Parser Unit} (hp : DeclaresCleanly p)
    (hkeeps : Keeps Proceeds p) {terminator : TokenKind} (hterminator : terminator ≠ .eof) :
    BodyCleanly terminator (do p; bodyTail terminator) := by
  intro s u s' h hs hclean
  rw [unit_ok_iff_ends, ends_bind_ok] at h
  obtain ⟨_, s₁, hrun, h⟩ := h
  have htail : bodyTail terminator s₁ = .ok () s' := unit_ok_iff_ends.mpr h
  have hs₁ : s₁.Marked := (hkeeps.of_ok hrun).marked hs
  have hkept := (Proceeds.wideFrame.keeps (made_bodyTail terminator)).of_ok htail
  obtain ⟨v, hv, hvspells⟩ := hp hrun hs (hkept.clean hclean)
  obtain ⟨n, w, hw, hwspells⟩ := bodyTail_sound hterminator htail hs₁ hclean
  exact ⟨_, .body hv hw, spells_append hvspells hwspells⟩

theorem declarationsWithin_sound (depth : Nat) : DeclaresCleanly (declarationsWithin depth) := by
  have hW := Proceeds.wideFrame
  induction depth with
  | zero =>
    intro s u s' h hs hclean
    cases h
  | succ depth ih =>
    intro s u s' h hs hclean
    have hkeeps := hW.keeps (made_declarationsWithin depth)
    have hbody : BodyCleanly .kwProcedure (do declarationsWithin depth; bodyTail .kwProcedure) :=
      ih.body hkeeps (by simp)
    simp only [unit_ok_iff_ends, declarationsWithin, ends_bind, ends_current, ends_peek] at h
    split at h
    · rw [ends_bind, orRecover, ends_bind, ends_reported, ends_bind_ok] at h
      obtain ⟨complete, s₁, hrun, h⟩ := h
      have hkept : Proceeds s s₁ :=
        Keeps.of_ok (leads_succeeds hW.toFrame.course (hW.keeps (made_separated depth))) hrun
      have hs₁ : s₁.Marked := hkept.marked hs
      split at h
      · next hcomplete =>
        subst hcomplete
        rw [ends_advance] at h
        have hrest : declarationsWithin depth { s₁ with cursor := s₁.cursor.next } = .ok () s' :=
          unit_ok_iff_ends.mpr h
        have hclean₁ : s₁.diagnostics = [] := (hkeeps.of_ok hrest).clean hclean
        have hfirst := succeeds_ok_true hrun
        rw [unit_ok_iff_ends, ends_bind_ok] at hfirst
        obtain ⟨_, s₂, hdeclaration, hsemicolon⟩ := hfirst
        rw [ends_expectPeek, if_false_right] at hsemicolon
        obtain ⟨hsemicolon, rfl⟩ := hsemicolon
        have hs₂ : s₂.Marked := hs₁
        obtain ⟨v, hv, hvspells⟩ := declaration_sound hbody hdeclaration hs hclean₁
        obtain ⟨w, hw, hwspells⟩ := ih hrest hs₁ hclean
        have hsign : Spells [.semicolon] s₂.cursor.ahead.tail s₂.cursor.next.next.ahead :=
          spells_head hs₂ hsemicolon rfl
        exact ⟨_, .cons hv hw, spells_append hvspells (spells_append hsign hwspells)⟩
      · rw [← ends_bind, ends_bind_ok] at h
        obtain ⟨_, s₂, hrecover, h⟩ := h
        have hrest : declarationsWithin depth s₂ = .ok () s' := unit_ok_iff_ends.mpr h
        have hclean₂ : s₂.diagnostics = [] := (hkeeps.of_ok hrest).clean hclean
        exact (recover_reports hkept.diagnostics.length_le hrecover hclean₂).elim
    · rw [ends_pure] at h
      subst h
      exact ⟨[], .nil, rfl⟩

theorem body_sound (terminator : TokenKind) (hterminator : terminator ≠ .eof) :
    BodyCleanly terminator (body terminator) := by
  intro s u s' h hs hclean
  rw [unit_ok_iff_ends, body, ends_bind, ends_remaining] at h
  have hkeeps := Proceeds.wideFrame.keeps (made_declarationsWithin (s.cursor.remaining + 1))
  exact (declarationsWithin_sound _).body hkeeps hterminator (unit_ok_iff_ends (u := u).mpr h) hs
    hclean

/-! ## Programs -/

/-- A run of the production of programs that ends without diagnostics has stepped over a program of
the grammar up to its period, and gives the second token's text. -/
theorem program_sound {s s' : State} {name : Bytes} (h : program s = .ok name s') (hs : s.Marked)
    (hclean : s'.diagnostics = []) :
    ∃ w, Part (.body .kwProgram) w ∧
      Spells (.kwProgram :: .identifier :: .kwIs :: w) s.cursor.ahead s'.cursor.ahead ∧
      Spells [.period] s'.cursor.ahead s'.cursor.ahead.tail ∧ s.cursor.peek.literal = name := by
  rw [ok_iff_ends, program, ends_bind, programOpening, ends_bind, ends_mustCurrent,
    if_false_right] at h
  obtain ⟨hprogram, h⟩ := h
  rw [ends_bind, ends_mustPeek, if_false_right] at h
  obtain ⟨hname, h⟩ := h
  rw [ends_bind, ends_current, ends_bind, ends_modifyTable, ends_bind, ends_mustPeek,
    if_false_right] at h
  obtain ⟨his, h⟩ := h
  rw [ends_bind_ok] at h
  obtain ⟨bound, s₁, hcommit, h⟩ := h
  have hs₁ : s₁.Marked := ((Proceeds.wideFrame.keeps (.commit _)).of_ok hcommit).marked hs
  have hcursor : s₁.cursor = s.cursor.next.next := (commit_ok hcommit).trans rfl
  rw [ends_bind, ends_modify, ends_bind, ends_note, ends_bind, ends_advance, ends_pure,
    ends_bind_ok] at h
  obtain ⟨_, s₂, hbody, h⟩ := h
  rw [programClosing, ends_bind, ends_mustPeek, if_false_right] at h
  obtain ⟨hperiod, hname', rfl⟩ := h
  have hs₂ : s₂.Marked := ((Proceeds.wideFrame.keeps (made_body _)).of_ok hbody).marked hs₁
  obtain ⟨w, hw, hspells⟩ := body_sound .kwProgram (by simp) hbody hs₁ hclean
  have hlast : Spells [.period] s₂.cursor.ahead.tail s₂.cursor.next.ahead.tail :=
    spells_head hs₂ hperiod rfl
  have hfront : Spells [.kwProgram, .identifier, .kwIs] s.cursor.ahead s₁.cursor.next.ahead := by
    rw [hcursor]
    exact spells_append (spells_head hs hprogram rfl)
      (spells_append (spells_head hs hname rfl) (spells_head hs his rfl))
  exact ⟨w, hw, spells_append hfront hspells, hlast, hname'⟩

/-- A source that is recognised without a diagnostic begins with a program of the grammar.  It ends
on the period that reading stopped at, and its second token is the name that was found. -/
theorem grammar_of_parse_clean {file source : Bytes} {table : Table} {builder : Ir.Builder}
    {p : Program} (hok : (parse file source table builder).result = .ok p)
    (hclean : (parse file source table builder).state.diagnostics = []) :
    ∃ word period rest,
      (TokenStream.ofSource source).tokens = word ++ period :: rest ∧
      (parse file source table builder).state.cursor.ahead = period :: rest ∧
      period.kind = .period ∧
      Grammar.Program ((word ++ [period]).map Token.kind) ∧
      word[1]?.map Token.literal = some p.name := by
  have hmarked : (State.start file source table builder).Marked := TokenStream.kind_eof _ _
  obtain ⟨w, hw, hspells, ⟨period, rest, hahead, hperiod, -⟩, hname⟩ :=
    program_sound (program_of_parse_ok hok) hmarked hclean
  obtain ⟨word, htokens, hkinds⟩ := spells_iff.mp hspells
  rw [hahead] at htokens
  refine ⟨word, period, rest, htokens, hahead, hperiod, ?_, ?_⟩
  · rw [List.map_append, hkinds, List.map_singleton, hperiod]
    exact .mk hw
  · obtain ⟨t, _, rfl, -, hkinds⟩ := List.map_eq_cons_iff.mp hkinds
    obtain ⟨u, us, rfl, -⟩ := List.map_eq_cons_iff.mp hkinds
    rw [Cursor.peek_of_ahead htokens] at hname
    exact congrArg some hname

/-- A program with a procedure inside a procedure, an element of an array and nested statements, with
more tokens behind its period. -/
def trailingSource : Bytes :=
  text "program Outer is global float m[-1:4]; integer i;
    procedure q(integer a[2] in, bool b out) is
      procedure r() begin end procedure; begin r(); return; end procedure;
    begin for (i := 0; i <= 4) if (not (i == 2)) then m[i + 1] := -i * 2; end if; end for;
    end program. begin ] again"

/-- The source is recognised without a diagnostic, four tokens before its end. -/
theorem trailingSource_recognised :
    ∃ p, (parse [] trailingSource .empty (.new .standard)).result = .ok p ∧
      (parse [] trailingSource .empty (.new .standard)).state.diagnostics = [] ∧
      (parse [] trailingSource .empty (.new .standard)).state.cursor.remaining = 4 ∧
      ∃ word period rest,
        (TokenStream.ofSource trailingSource).tokens = word ++ period :: rest ∧
        (parse [] trailingSource .empty (.new .standard)).state.cursor.ahead = period :: rest ∧
        period.kind = .period ∧
        Grammar.Program ((word ++ [period]).map Token.kind) ∧
        word[1]?.map Token.literal = some p.name := by
  obtain ⟨hok, hclean, hremaining⟩ :
      (parse [] trailingSource .empty (.new .standard)).result.isOk = true ∧
        (parse [] trailingSource .empty (.new .standard)).state.diagnostics = [] ∧
        (parse [] trailingSource .empty (.new .standard)).state.cursor.remaining = 4 := by
    decide +kernel
  cases hp : (parse [] trailingSource .empty (.new .standard)).result with
  | error e =>
    rw [hp] at hok
    cases hok
  | ok p => exact ⟨p, rfl, hclean, hremaining, grammar_of_parse_clean hp hclean⟩

end OnePass.Program
