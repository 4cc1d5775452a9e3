import OnePass.Proofs.Soundness.Expression
set_option autoImplicit false

/-!
# Recognised statements are statements of the grammar

Calls and assignments are words of the grammar whenever their productions succeed.  Statements with
statements inside may have recovered from an error on the way, and then they prove nothing; but
recovering always leaves a diagnostic, and diagnostics stay.  So the statements that were passed on
the way to a state without diagnostics are statements of the grammar.
-/

namespace OnePass.Program

open OnePass.Grammar

/-! ## Calls and assignments -/

theorem checkArgument_ok {start : Token} {p : Parameter} {operand : Operand} {s s' : State}
    {u : Unit} (h : checkArgument start p operand s = .ok u s') : s' = s := by
  simp only [unit_ok_iff_ends, checkArgument] at h
  split at h
  · simp only [ends_bind, lookup?, ends_get, ends_pure] at h
    split at h
    · exact h.symm
    · exact h.elim
  · split at h
    · exact h.elim
    · exact h.symm

theorem argument_sound (expected : Option (List Parameter)) :
    Sound (Expression .logical) (argument expected) := by
  intro s a s' h hs
  simp only [ok_iff_ends, argument, ends_bind, ends_current] at h
  split at h
  · rw [ends_bind_ok] at h
    obtain ⟨operand, s₁, hrun, -, rfl⟩ := h
    exact expression_sound _ hrun hs
  · exact h.elim
  · rw [ends_bind_ok] at h
    obtain ⟨operand, s₁, hrun, h⟩ := h
    rw [ends_bind_ok] at h
    obtain ⟨_, s₂, hcheck, -, rfl⟩ := h
    rw [checkArgument_ok hcheck]
    exact expression_sound _ hrun hs

theorem argumentsWithin_sound (count : Nat) :
    ∀ expected, SoundBehind Arguments (argumentsWithin count expected) := by
  induction count with
  | zero =>
    intro expected s a s' h hs
    cases h
  | succ count ih =>
    intro expected s a s' h hs
    rw [ok_iff_ends, argumentsWithin, ends_bind, ends_advance, ends_bind_ok] at h
    obtain ⟨left, s₁, hargument, h⟩ := h
    obtain ⟨hs₁, v, hv, hspells⟩ := argument_sound expected hargument hs
    simp only [ends_bind, ends_peekIs] at h
    split at h
    · next hcomma =>
      rw [ends_bind, ends_advance] at h
      obtain ⟨hs', w, hw, hspells'⟩ := ih left (ok_iff_ends.mpr h) hs₁
      have hsign : Spells [.comma] s₁.cursor.ahead.tail s₁.cursor.next.ahead.tail :=
        spells_head hs₁ (of_decide_eq_true hcomma) rfl
      exact ⟨hs', _, .more hv hw, spells_append hspells (spells_append hsign hspells')⟩
    · obtain ⟨-, rfl⟩ := h
      exact ⟨hs₁, v, .one hv, hspells⟩

theorem callArguments_sound (expected : Option (List Parameter)) :
    SoundBehind (fun w => Call (.leftParen :: w)) (callArguments expected) := by
  intro s a s' h hs
  -- The part behind the arguments is the same whether there are any or not.
  have hclose {s₁ : State} {left : Option (List Parameter)}
      (h : Ends (do
          expectPeek .rightParen
          if left.any (! ·.isEmpty) then rejectToken (← current) : Parser Unit) s₁
        (fun _ t => t = s') (fun _ _ => False)) (hs₁ : s₁.Marked) :
      s'.Marked ∧ Spells [.rightParen] s₁.cursor.ahead.tail s'.cursor.ahead.tail := by
    simp only [ends_bind, ends_expectPeek, ends_ite, ends_current, ends_rejectToken, ends_pure,
      if_false_right, if_false_left] at h
    obtain ⟨hparen, -, rfl⟩ := h
    exact ⟨hs₁, spells_head hs₁ hparen rfl⟩
  simp only [unit_ok_iff_ends, callArguments, ends_bind, ends_peekIs] at h
  split at h
  · rw [ends_bind, ends_pure] at h
    obtain ⟨hs', hspells⟩ := hclose h hs
    exact ⟨hs', _, .empty, hspells⟩
  · rw [ends_bind, ends_remaining, ends_bind_ok] at h
    obtain ⟨left, s₁, hrun, h⟩ := h
    obtain ⟨hs₁, w, hw, hspells⟩ := argumentsWithin_sound _ _ hrun hs
    obtain ⟨hs', hspells'⟩ := hclose h hs₁
    exact ⟨hs', _, .arguments hw, spells_append hspells hspells'⟩

theorem builtinCall_sound {s s' : State} {u : Unit} {b : Builtin} (h : builtinCall s = .ok u s')
    (hs : s.Marked) (hcallee : s.cursor.current.kind = .builtin b) :
    Spelled (Phrase .one) s.cursor.ahead s'.cursor.ahead.tail := by
  simp only [unit_ok_iff_ends, builtinCall, ends_bind, ends_current, ends_get] at h
  split at h
  · exact h.elim
  · rw [ends_bind, ends_expectPeek, if_false_right] at h
    obtain ⟨hopen, h⟩ := h
    rw [ends_bind_ok] at h
    obtain ⟨_, s₁, hrun, rfl⟩ := h
    obtain ⟨-, w, hw, hspells⟩ := callArguments_sound _ hrun hs
    have hword : Spells [.builtin b] s.cursor.ahead s.cursor.ahead.tail :=
      spells_head hs hcallee rfl
    have hparen : Spells [.leftParen] s.cursor.ahead.tail s.cursor.next.ahead.tail :=
      spells_head hs hopen rfl
    exact ⟨_, .builtin b hw, spells_append hword (spells_append hparen hspells)⟩

theorem procedureCall_sound {s s' : State} {u : Unit} {callee : Token} {found : Option Symbol}
    (h : procedureCall callee found s = .ok u s') (hs : s.Marked)
    (hcallee : s.cursor.current.kind = .identifier) (hopen : s.cursor.peek.kind = .leftParen) :
    Spelled (Phrase .one) s.cursor.ahead s'.cursor.ahead.tail := by
  simp only [unit_ok_iff_ends, procedureCall] at h
  split at h
  · rw [ends_bind] at h
    exact h.elim
  · rw [ends_bind, ends_advance, ends_bind_ok] at h
    obtain ⟨_, s₁, hrun, rfl⟩ := h
    obtain ⟨-, w, hw, hspells⟩ := callArguments_sound _ hrun hs
    have hword : Spells [.identifier] s.cursor.ahead s.cursor.ahead.tail :=
      spells_head hs hcallee rfl
    have hparen : Spells [.leftParen] s.cursor.ahead.tail s.cursor.next.ahead.tail :=
      spells_head hs hopen rfl
    exact ⟨_, .call hw, spells_append hword (spells_append hparen hspells)⟩

theorem assignmentContext_ok {target : Token} {s s' : State} {ctx : Context}
    (h : assignmentContext target s = .ok ctx s') : s' = s := by
  simp only [ok_iff_ends, assignmentContext, ends_bind, lookup?, ends_get, ends_pure] at h
  split at h
  · split at h
    · exact h.2.symm
    · exact h.elim
  · exact h.2.symm

theorem assignmentTail_sound (ctx : Context) :
    SoundBehind (fun w => Assignment (.identifier :: w)) (assignmentTail ctx) := by
  intro s a s' h hs
  -- The part behind the index is the same whether there is one or not.
  have hvalue {s₁ : State}
      (h : Ends (do
          expectPeek .assign
          advance
          let _ ← expression ctx : Parser Unit) s₁
        (fun _ t => t = s') (fun _ _ => False)) (hs₁ : s₁.Marked) :
      s'.Marked ∧ ∃ w, Expression .logical w ∧
        Spells (.assign :: w) s₁.cursor.ahead.tail s'.cursor.ahead.tail := by
    rw [ends_bind, ends_expectPeek, if_false_right] at h
    obtain ⟨hassign, h⟩ := h
    rw [ends_bind, ends_advance, ends_bind_ok] at h
    obtain ⟨_, s₂, hrun, rfl⟩ := h
    obtain ⟨hs₂, w, hw, hspells⟩ := expression_sound ctx hrun hs₁
    have hsign : Spells [.assign] s₁.cursor.ahead.tail s₁.cursor.next.next.ahead :=
      spells_head hs₁ hassign rfl
    exact ⟨hs₂, w, hw, spells_append hsign hspells⟩
  simp only [unit_ok_iff_ends, assignmentTail, ends_bind, ends_peekIs] at h
  split at h
  · next hbracket =>
    rw [ends_bind, ends_advance, ends_bind, ends_advance, ends_bind_ok] at h
    obtain ⟨_, s₁, hindex, h⟩ := h
    obtain ⟨hs₁, v, hv, hspells⟩ := expression_sound _ hindex hs
    rw [ends_bind, ends_expectPeek, if_false_right] at h
    obtain ⟨hclose, h⟩ := h
    obtain ⟨hs', w, hw, hspells'⟩ := hvalue h hs₁
    have hindex := spells_index hs hs₁ (of_decide_eq_true hbracket) hspells hclose
    exact ⟨hs', _, .mk (.some hv) hw, spells_append hindex hspells'⟩
  · obtain ⟨hs', w, hw, hspells⟩ := hvalue h hs
    exact ⟨hs', _, .mk .none hw, hspells⟩

theorem nameStatement_sound {s s' : State} {u : Unit} (h : nameStatement s = .ok u s')
    (hs : s.Marked) (hname : s.cursor.current.kind = .identifier) :
    Spelled (Phrase .one) s.cursor.ahead s'.cursor.ahead.tail := by
  simp only [unit_ok_iff_ends, nameStatement, ends_bind, ends_current, ends_peekIs] at h
  split at h
  · next hopen =>
    simp only [lookup?, ends_bind, ends_get, ends_pure] at h
    exact procedureCall_sound (u := u) (unit_ok_iff_ends.mpr h) hs hname (of_decide_eq_true hopen)
  · rw [assignment, ends_bind_ok] at h
    obtain ⟨ctx, s₁, hctx, h⟩ := h
    rw [assignmentContext_ok hctx, ends_bind_ok] at h
    obtain ⟨_, s₂, hrun, rfl⟩ := h
    obtain ⟨-, w, hw, hspells⟩ := assignmentTail_sound ctx hrun hs
    have hword : Spells [.identifier] s.cursor.ahead s.cursor.ahead.tail :=
      spells_head hs hname rfl
    exact ⟨_, .assignment hw, spells_append hword hspells⟩

/-! ## Runs without diagnostics -/

theorem Proceeds.clean {s s' : State} (h : Proceeds s s') (hs' : s'.diagnostics = []) :
    s.diagnostics = [] := by
  have hpre := h.diagnostics
  rw [hs'] at hpre
  exact List.prefix_nil.mp hpre

/-- Recovering leaves a diagnostic, its own or one from before. -/
theorem recover_reports {mark : Nat} {depth : Int} {s s' : State} {u : Unit}
    (hmark : mark ≤ s.diagnostics.length) (h : recover mark depth s = .ok u s') :
    s'.diagnostics ≠ [] := by
  rw [unit_ok_iff_ends, ends_recover] at h
  split at h
  · subst h
    exact append_overdue_ne_nil hmark
  · exact h.elim

theorem succeeds_ok_true {p : Parser Unit} {s s' : State} (h : succeeds p s = .ok true s') :
    p s = .ok () s' := by
  rw [ok_iff_ends, ends_succeeds] at h
  rw [unit_ok_iff_ends]
  refine h.mono (fun _ _ hs' => hs'.2) fun stop _ hs' => ?_
  cases stop with
  | reject => cases hs'.1
  | fatal e => exact hs'

/-! ## Statements with statements inside -/

/-- Statements that are passed on the way to a state without diagnostics are as many statements of
the grammar as were counted. -/
def CountsCleanly (p : Parser Nat) : Prop :=
  ∀ ⦃s n s'⦄, p s = .ok n s' → s.Marked → s'.diagnostics = [] →
    Spelled (Phrase (.many n)) s.cursor.ahead s'.cursor.ahead

section Inside

variable {inner : Parser Nat} (hkeeps : Keeps Proceeds inner) (hinner : CountsCleanly inner)

theorem branch_ok {s s' : State} {u : Unit} (h : branch inner s = .ok u s') :
    ∃ n, inner { s with cursor := s.cursor.next } = .ok (n + 1) s' := by
  rw [unit_ok_iff_ends, branch, ends_bind, ends_advance, ends_bind_ok] at h
  obtain ⟨n, s₁, hrun, h⟩ := h
  split at h
  · exact h.elim
  · next hn =>
    obtain ⟨m, rfl⟩ := Nat.exists_eq_succ_of_ne_zero hn
    rw [ends_pure] at h
    exact ⟨m, h ▸ hrun⟩

theorem blockEnd_ok {word : TokenKind} {s s' : State} {u : Unit} (h : blockEnd word s = .ok u s') :
    s.cursor.current.kind = .kwEnd ∧ s.cursor.peek.kind = word ∧
      s' = { s with cursor := s.cursor.next, nesting := s.nesting - 1 } := by
  simp only [unit_ok_iff_ends, blockEnd, ends_bind, ends_currentIs] at h
  split at h
  · next hend =>
    simp only [ends_bind, ends_expectPeek, if_false_right, closeBlock, ends_modify] at h
    exact ⟨of_decide_eq_true hend, h.1, h.2.symm⟩
  · exact h.elim

include hkeeps hinner

theorem ifStatement_sound {s s' : State} {u : Unit} (h : ifStatement inner s = .ok u s')
    (hs : s.Marked) (hword : s.cursor.current.kind = .kwIf) (hclean : s'.diagnostics = []) :
    Spelled (Phrase .one) s.cursor.ahead s'.cursor.ahead.tail := by
  rw [unit_ok_iff_ends, ifStatement, ends_bind, ends_expectPeek, if_false_right] at h
  obtain ⟨hopen, h⟩ := h
  rw [ends_bind, openBlock, ends_modify, ends_bind, ends_advance, ends_bind_ok] at h
  obtain ⟨_, s₁, hcondition, h⟩ := h
  obtain ⟨hs₁, c, hc, hcspells⟩ := expression_sound _ hcondition hs
  rw [ends_bind, ends_expectPeek, if_false_right] at h
  obtain ⟨hclose, h⟩ := h
  rw [ends_bind, ends_expectPeek, if_false_right] at h
  obtain ⟨hthen, h⟩ := h
  rw [ends_bind_ok] at h
  obtain ⟨_, s₂, hbranch, h⟩ := h
  obtain ⟨m, hbranch⟩ := branch_ok hbranch
  have hs₂ : s₂.Marked := (hkeeps.of_ok hbranch).marked hs₁
  have hfront : Spells [.kwIf, .leftParen] s.cursor.ahead s.cursor.next.next.ahead :=
    spells_append (spells_head hs hword rfl) (spells_head hs hopen rfl)
  have hmiddle : Spells [.rightParen, .kwThen] s₁.cursor.ahead.tail
      s₁.cursor.next.next.next.ahead :=
    spells_append (spells_head hs₁ hclose rfl) (spells_head hs₁ hthen rfl)
  simp only [ends_bind, ends_currentIs] at h
  split at h
  · next helse =>
    rw [ends_bind_ok] at h
    obtain ⟨_, s₃, hbranch', h⟩ := h
    obtain ⟨n, hbranch'⟩ := branch_ok hbranch'
    have hkept := hkeeps.of_ok hbranch'
    rw [ends_bind_ok] at h
    obtain ⟨_, s₄, hblock, rfl⟩ := h
    obtain ⟨hend, hif, rfl⟩ := blockEnd_ok hblock
    have hs₃ : s₃.Marked := hkept.marked hs₂
    obtain ⟨v, hv, hvspells⟩ := hinner hbranch hs₁ (hkept.clean hclean)
    obtain ⟨w, hw, hwspells⟩ := hinner hbranch' hs₂ hclean
    have hback : Spells [.kwEnd, .kwIf] s₃.cursor.ahead s₃.cursor.next.ahead.tail :=
      spells_append (spells_head hs₃ hend rfl) (spells_head hs₃ hif rfl)
    have hsecond : Spells (.kwElse :: (w ++ [.kwEnd, .kwIf])) s₂.cursor.ahead
        s₃.cursor.next.ahead.tail :=
      spells_append (spells_head hs₂ (of_decide_eq_true helse) rfl)
        (spells_append hwspells hback)
    refine ⟨_, .ifElse hc hv hw, spells_append hfront (spells_append hcspells ?_)⟩
    exact spells_append hmiddle (spells_append hvspells hsecond)
  · rw [ends_bind_ok] at h
    obtain ⟨_, s₃, hblock, rfl⟩ := h
    obtain ⟨hend, hif, rfl⟩ := blockEnd_ok hblock
    obtain ⟨w, hw, hwspells⟩ := hinner hbranch hs₁ hclean
    have hback : Spells [.kwEnd, .kwIf] s₂.cursor.ahead s₂.cursor.next.ahead.tail :=
      spells_append (spells_head hs₂ hend rfl) (spells_head hs₂ hif rfl)
    refine ⟨_, .ifThen hc hw, spells_append hfront (spells_append hcspells ?_)⟩
    exact spells_append hmiddle (spells_append hwspells hback)

theorem forStatement_sound {s s' : State} {u : Unit} (h : forStatement inner s = .ok u s')
    (hs : s.Marked) (hword : s.cursor.current.kind = .kwFor) (hclean : s'.diagnostics = []) :
    Spelled (Phrase .one) s.cursor.ahead s'.cursor.ahead.tail := by
  rw [unit_ok_iff_ends, forStatement, ends_bind, ends_expectPeek, if_false_right] at h
  obtain ⟨hopen, h⟩ := h
  rw [ends_bind, openBlock, ends_modify, ends_bind, ends_expectPeek, if_false_right] at h
  obtain ⟨hname, h⟩ := h
  rw [ends_bind, ends_current, ends_bind_ok] at h
  obtain ⟨ctx, _, hctx, h⟩ := h
  obtain rfl := assignmentContext_ok hctx
  rw [ends_bind_ok] at h
  obtain ⟨_, s₁, hassign, h⟩ := h
  obtain ⟨hs₁, a, ha, haspells⟩ := assignmentTail_sound ctx hassign hs
  rw [ends_bind, ends_expectPeek, if_false_right] at h
  obtain ⟨hsemicolon, h⟩ := h
  rw [ends_bind, ends_advance, ends_bind_ok] at h
  obtain ⟨_, s₂, hcondition, h⟩ := h
  obtain ⟨hs₂, c, hc, hcspells⟩ := expression_sound _ hcondition hs₁
  rw [ends_bind, ends_expectPeek, if_false_right] at h
  obtain ⟨hclose, h⟩ := h
  rw [ends_bind, ends_advance, ends_bind_ok] at h
  obtain ⟨n, s₃, hrun, h⟩ := h
  have hs₃ : s₃.Marked := (hkeeps.of_ok hrun).marked hs₂
  rw [ends_bind_ok] at h
  obtain ⟨_, s₄, hblock, rfl⟩ := h
  obtain ⟨hend, hfor, rfl⟩ := blockEnd_ok hblock
  obtain ⟨w, hw, hwspells⟩ := hinner hrun hs₂ hclean
  have hfront : Spells [.kwFor, .leftParen] s.cursor.ahead s.cursor.next.ahead.tail :=
    spells_append (spells_head hs hword rfl) (spells_head hs hopen rfl)
  have hassignment : Spells (.identifier :: a) s.cursor.next.ahead.tail s₁.cursor.ahead.tail :=
    spells_append (spells_head hs hname rfl) haspells
  have hsign : Spells [.semicolon] s₁.cursor.ahead.tail s₁.cursor.next.next.ahead :=
    spells_head hs₁ hsemicolon rfl
  have hparen : Spells [.rightParen] s₂.cursor.ahead.tail s₂.cursor.next.next.ahead :=
    spells_head hs₂ hclose rfl
  have hback : Spells [.kwEnd, .kwFor] s₃.cursor.ahead s₃.cursor.next.ahead.tail :=
    spells_append (spells_head hs₃ hend rfl) (spells_head hs₃ hfor rfl)
  refine ⟨_, .forLoop ha hc hw, spells_append hfront (spells_append hassignment ?_)⟩
  refine spells_append hsign (spells_append hcspells ?_)
  exact spells_append hparen (spells_append hwspells hback)

theorem statement_sound {s s' : State} {u : Unit} (h : statement inner s = .ok u s')
    (hs : s.Marked) (hclean : s'.diagnostics = []) :
    Spelled (Phrase .one) s.cursor.ahead s'.cursor.ahead.tail := by
  simp only [unit_ok_iff_ends, statement, ends_bind, ends_current] at h
  split at h
  case h_1 hreturn =>
    rw [ends_note] at h
    subst h
    exact ⟨_, .returns, spells_head hs hreturn rfl⟩
  case h_2 b hbuiltin =>
    exact builtinCall_sound (u := u) (unit_ok_iff_ends.mpr h) hs hbuiltin
  case h_3 hname => exact nameStatement_sound (u := u) (unit_ok_iff_ends.mpr h) hs hname
  case h_4 hif =>
    exact ifStatement_sound hkeeps hinner (u := u) (unit_ok_iff_ends.mpr h) hs hif hclean
  case h_5 hfor =>
    exact forStatement_sound hkeeps hinner (u := u) (unit_ok_iff_ends.mpr h) hs hfor hclean
  case h_6 => exact h.elim

/-- A statement and its semicolon, if nothing was reported: every way through recovering leaves a
diagnostic. -/
theorem terminated_sound {s s' : State} {u : Unit} (h : terminated inner s = .ok u s')
    (hs : s.Marked) (hclean : s'.diagnostics = []) :
    ∃ w, Phrase .one w ∧ Spells (w ++ [.semicolon]) s.cursor.ahead s'.cursor.ahead := by
  have hrecover {s₁ : State} {base : Nat} (h : Ends (recoverFrom s.diagnostics.length base) s₁
      (fun _ t => t = s') (fun _ _ => False)) (hkept : Proceeds s s₁) : False := by
    rw [recoverFrom, ends_bind, ends_get, ends_bind_ok] at h
    obtain ⟨_, s₂, hrun, rfl⟩ := h
    exact recover_reports hkept.diagnostics.length_le hrun hclean
  rw [unit_ok_iff_ends, terminated, ends_bind, ends_reported, ends_bind, ends_get,
    ends_bind_ok] at h
  obtain ⟨complete, s₁, hrun, h⟩ := h
  have hR := Proceeds.wideFrame.toFrame
  have hkept : Proceeds s s₁ :=
    Keeps.of_ok (leads_succeeds hR.course (hR.keeps (made_statement (.given hkeeps)))) hrun
  simp only [endStatement, ends_bind, ends_peekIs] at h
  split at h
  · next hboth =>
    simp only [Bool.and_eq_true, decide_eq_true_eq] at hboth
    obtain ⟨rfl, hsemicolon⟩ := hboth
    rw [ends_bind, ends_advance, ends_advance] at h
    subst h
    obtain ⟨w, hw, hspells⟩ :=
      statement_sound hkeeps hinner (succeeds_ok_true hrun) hs hclean
    exact ⟨w, hw, spells_append hspells (spells_head (hkept.marked hs) hsemicolon rfl)⟩
  · split at h
    · rw [ends_bind, ends_peek, ends_bind, ends_unexpected, ends_bind, ends_advance] at h
      refine (hrecover h ?_).elim
      exact hkept.trans (hR.trans (hR.report s₁ _) (hR.next _))
    · exact (hrecover h hkept).elim

end Inside

theorem statementsWithin_sound (depth : Nat) : CountsCleanly (statementsWithin depth) := by
  have hR := Proceeds.wideFrame.toFrame
  induction depth with
  | zero =>
    intro s n s' h hs hclean
    cases h
  | succ depth ih =>
    intro s n s' h hs hclean
    simp only [ok_iff_ends, statementsWithin, ends_bind, ends_current] at h
    split at h
    · rw [ends_bind_ok] at h
      obtain ⟨_, s₁, hfirst, h⟩ := h
      rw [ends_bind_ok] at h
      obtain ⟨m, s₂, hrest, rfl, rfl⟩ := h
      have hkeeps := hR.keeps (made_statementsWithin depth)
      have hs₁ : s₁.Marked := ((hR.keeps (made_terminated (.given hkeeps))).of_ok hfirst).marked hs
      have hclean₁ : s₁.diagnostics = [] := (hkeeps.of_ok hrest).clean hclean
      obtain ⟨v, hv, hvspells⟩ := terminated_sound hkeeps ih hfirst hs hclean₁
      obtain ⟨w, hw, hwspells⟩ := ih hrest hs₁ hclean
      refine ⟨_, .cons hv hw, ?_⟩
      rw [List.append_cons]
      exact spells_append hvspells hwspells
    · obtain ⟨rfl, rfl⟩ := h
      exact ⟨[], .nil, rfl⟩

/-- The statements that are passed on the way to a state without diagnostics are statements of the
grammar. -/
theorem statements_sound : CountsCleanly statements := by
  intro s n s' h hs hclean
  rw [ok_iff_ends, statements, ends_bind, ends_remaining] at h
  exact statementsWithin_sound _ (ok_iff_ends.mpr h) hs hclean

end OnePass.Program
