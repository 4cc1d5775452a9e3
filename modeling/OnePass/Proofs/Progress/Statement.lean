import OnePass.Proofs.Progress.Expression
set_option autoImplicit false

/-!
# How statements go over tokens

A statement that is recognised ends on a token.  Lists of arguments and of statements are loops:
each is written here as one round and what follows it (`argumentsStep`, `statementsStep`), every
round passes a token, and so a loop that is cut off after more rounds than there are tokens ahead
does not notice.  Statements give the program up at its end only.
-/

namespace OnePass.Program

/-! ## Calls -/

/-- Steps onto a comma behind the current token if there is one, and tells whether there was. -/
def optionalComma : Parser Bool := do
  if ← peekIs .comma then
    advance
    return true
  else return false

/-- One round of the loop over arguments, from the token before the argument on: the argument, and
the comma behind it if there is one. -/
def argumentRound (expected : Option (List Parameter)) :
    Parser (Option (List Parameter) × Bool) := do
  advance
  let left ← argument expected
  return (left, ← optionalComma)

/-- The loop over arguments: a round, and `again` behind a comma. -/
def argumentsStep (again : Option (List Parameter) → Parser (Option (List Parameter)))
    (expected : Option (List Parameter)) : Parser (Option (List Parameter)) := do
  let (left, more) ← argumentRound expected
  if more then again left else return left

theorem argumentsWithin_succ (count : Nat) (expected : Option (List Parameter)) :
    argumentsWithin (count + 1) expected = argumentsStep (argumentsWithin count) expected := by
  unfold argumentsWithin argumentsStep argumentRound optionalComma
  simp only [bind_assoc, pure_bind]
  congr; funext _; congr; funext left; congr; funext comma
  cases comma <;> rfl

section Calls

variable {s : State}

theorem checkArgument_paces (start : Token) (p : Parameter) (operand : Operand)
    (hpos : 0 < s.cursor.remaining) :
    Paces 0 (checkArgument start p operand) s
      fun _ c => 0 < c.remaining := by
  unfold checkArgument
  split
  · unfold Paces lookup?
    simp only [bind_assoc, pure_bind]
    rw [strides_bind_get]
    split
    · exact paces_pure hpos
    · exact paces_rejectArgument _
  · split
    · exact paces_rejectArgument _
    · exact paces_pure hpos

theorem argument_paces (hs : s.Delimited) (expected : Option (List Parameter)) :
    Paces 0 (argument expected) s fun _ c => 0 < c.remaining := by
  unfold Paces argument
  rw [strides_bind_current]
  split
  · refine (expression_paces hs _).bind fun _ s₁ _ hpos => ?_
    exact paces_pure hpos
  · exact paces_rejectArgument _
  · refine (expression_paces hs _).bind fun operand s₁ _ hpos => ?_
    refine (checkArgument_paces _ _ operand hpos).bind fun _ s₂ _ hpos₂ => ?_
    exact paces_pure hpos₂

theorem optionalComma_paces (hs : s.Delimited) (hpos : 0 < s.cursor.remaining) :
    Paces 0 optionalComma s fun _ c => 0 < c.remaining := by
  unfold Paces optionalComma
  rw [strides_bind_peekIs]
  split
  · next hcomma =>
    refine (paces_onto hs (by simp [of_decide_eq_true hcomma])).bind fun _ s₁ _ hpos₁ => ?_
    exact paces_pure hpos₁.1
  · exact paces_pure hpos

/-- What a round of a loop recognises behind its first step. -/
theorem item_paces {α : Type} {p : Parser α} (hs : s.Delimited)
    (hp : Paces 0 p s fun _ c => 0 < c.remaining) :
    Paces 0 (do
      let a ← p
      return (a, ← optionalComma)) s fun _ c => 0 < c.remaining := by
  refine hp.bind fun a s₁ h₁ hpos₁ => ?_
  refine (optionalComma_paces (h₁.delimited hs) hpos₁).bind fun comma s₂ _ hpos₂ => ?_
  exact paces_pure hpos₂

theorem argumentRound_paces (hs : s.Delimited) (hpos : 0 < s.cursor.remaining)
    (expected : Option (List Parameter)) :
    Paces 0 (argumentRound expected) s
      fun _ c => 0 < c.remaining ∧ c.remaining < s.cursor.remaining :=
  have hs₁ := (Reports.next s).delimited hs
  paces_stepped hpos (item_paces hs₁ (argument_paces hs₁ expected))

theorem argumentsWithin_strides
    (cut : Option (List Parameter) → Parser (Option (List Parameter))) (count : Nat) :
    ∀ n expected s, s.Delimited → 0 < s.cursor.remaining → s.cursor.remaining < count →
      s.cursor.remaining < n →
      Strides 0 (argumentsWithin count expected) (Nat.repeat argumentsStep n cut expected) s
        fun _ c => 0 < c.remaining := by
  induction count with
  | zero =>
    intro n expected s hs hpos hcount
    omega
  | succ count ih =>
    intro n expected s hs hpos hcount hn
    cases n with
    | zero => omega
    | succ n =>
      rw [argumentsWithin_succ]
      refine (argumentRound_paces hs hpos expected).bind ?_
      rintro ⟨left, more⟩ s₁ h₁ ⟨hpos₁, hlt⟩
      cases more with
      | true => exact ih n left s₁ (h₁.delimited hs) hpos₁ (by omega) (by omega)
      | false => exact paces_pure hpos₁

/-- The end of a call behind its arguments. -/
theorem callEnd_paces (hs : s.Delimited) (left : Option (List Parameter)) :
    Paces 0 (do
      expectPeek .rightParen
      if left.any (! ·.isEmpty) then rejectToken (← current) : Parser Unit) s
      fun _ c => 0 < c.remaining := by
  refine (paces_expectPeek hs (by simp)).bind fun _ s₁ _ hclose => ?_
  split
  · exact strides_bind_current.mpr (paces_rejectToken _)
  · exact paces_pure hclose.2.1

theorem callArguments_paces (hs : s.Delimited) (hpos : 0 < s.cursor.remaining)
    (expected : Option (List Parameter)) :
    Paces 0 (callArguments expected) s fun _ c => 0 < c.remaining := by
  unfold Paces callArguments
  rw [strides_bind_peekIs]
  split
  · exact callEnd_paces hs expected
  · rw [strides_bind_remaining]
    have hbound := Nat.lt_add_one s.cursor.remaining
    have harguments :=
      argumentsWithin_strides (fun _ => exhausted) _ _ expected s hs hpos hbound hbound
    refine harguments.self.bind fun left s₁ h₁ _ => ?_
    exact callEnd_paces (h₁.delimited hs) left

theorem builtinCall_paces (hs : s.Delimited) :
    Paces 0 builtinCall s fun _ c => 0 < c.remaining := by
  unfold Paces builtinCall
  rw [strides_bind_current, strides_bind_get]
  dsimp only
  split
  · exact paces_rejectToken _
  · refine (paces_expectPeek hs (by simp)).bind fun _ s₁ h₁ hopen => ?_
    refine (callArguments_paces (h₁.delimited hs) hopen.2.1 _).bind fun _ s₂ _ hpos => ?_
    exact paces_note _ hpos

theorem procedureCall_paces (hs : s.Delimited) (hopen : s.cursor.peek.kind = .leftParen)
    (callee : Token) (found : Option Symbol) :
    Paces 0 (procedureCall callee found) s
      fun _ c => 0 < c.remaining := by
  unfold procedureCall
  split
  · exact paces_rejectToken _
  · refine (paces_onto hs (by simp [hopen])).bind fun _ s₁ h₁ hpos₁ => ?_
    refine (callArguments_paces (h₁.delimited hs) hpos₁.1 _).bind fun _ s₂ _ hpos => ?_
    exact paces_note _ hpos

end Calls

/-! ## Assignments -/

section Assignments

variable {s : State}

theorem assignmentContext_paces (target : Token) :
    Paces 0 (assignmentContext target) s fun _ c => c = s.cursor := by
  unfold Paces assignmentContext lookup?
  simp only [bind_assoc, pure_bind]
  rw [strides_bind_get]
  split
  · split
    · exact paces_pure rfl
    · exact paces_rejectToken _
  · exact paces_pure rfl

/-- The sign of an assignment and the expression behind it. -/
theorem assignedValue_paces (hs : s.Delimited) (ctx : Context) :
    Paces 0 (do
      expectPeek .assign
      advance
      let _ ← expression ctx : Parser Unit) s fun _ c => 0 < c.remaining := by
  refine (paces_expectPeek hs (by simp)).bind fun _ s₁ h₁ hsign => ?_
  refine (paces_advance hsign.2.1).bind fun _ s₂ h₂ _ => ?_
  refine (expression_paces ((h₁.trans h₂).delimited hs) ctx).bind fun _ s₃ _ hpos => ?_
  exact paces_pure hpos

theorem assignmentTail_paces (hs : s.Delimited) (ctx : Context) :
    Paces 0 (assignmentTail ctx) s fun _ c => 0 < c.remaining := by
  unfold Paces assignmentTail
  rw [strides_bind_peekIs]
  split
  · next hopen =>
    refine (paces_onto hs (by simp [of_decide_eq_true hopen])).bind fun _ s₁ h₁ hpos₁ => ?_
    refine (paces_advance hpos₁.1).bind fun _ s₂ h₂ _ => ?_
    have h₂ := h₁.trans h₂
    refine (expression_paces (h₂.delimited hs) _).bind fun _ s₃ h₃ _ => ?_
    have h₃ := h₂.trans h₃
    refine (paces_expectPeek (h₃.delimited hs) (by simp)).bind fun _ s₄ h₄ _ => ?_
    exact assignedValue_paces ((h₃.trans h₄).delimited hs) ctx
  · exact assignedValue_paces hs ctx

theorem nameStatement_paces (hs : s.Delimited) :
    Paces 0 nameStatement s fun _ c => 0 < c.remaining := by
  unfold Paces nameStatement
  rw [strides_bind_current, strides_bind_peekIs]
  split
  · next hopen =>
    unfold lookup?
    simp only [bind_assoc, pure_bind]
    rw [strides_bind_get]
    exact procedureCall_paces hs (of_decide_eq_true hopen) _ _
  · unfold assignment
    refine (assignmentContext_paces _).bind fun ctx s₁ h₁ _ => ?_
    refine (assignmentTail_paces (h₁.delimited hs) ctx).bind fun _ s₂ _ hpos => ?_
    exact paces_note _ hpos

end Assignments

/-! ## Statements with statements inside -/

/-- The loop over statements: a statement with its semicolon, or recovered from, and `again`. -/
def statementsStep (again : Parser Nat) : Parser Nat := do
  if startsStatement (← current) then
    terminated again
    return (← again) + 1
  else return 0

section Blocks

variable {s : State}

theorem paces_openBlock {n : Nat} :
    Paces n openBlock s fun _ c => c = s.cursor :=
  paces_of_still ⟨rfl, rfl⟩

theorem blockEnd_paces {n : Nat} (hs : s.Delimited) {word : TokenKind} (hword : word ≠ .eof) :
    Paces n (blockEnd word) s fun _ c => 0 < c.remaining := by
  unfold Paces blockEnd
  rw [strides_bind_currentIs]
  split
  · refine (paces_expectPeek hs hword).bind fun _ s₁ _ hend => ?_
    exact paces_of_still ⟨rfl, hend.2.1⟩
  · exact strides_bind_current.mpr (paces_rejectToken _)

variable {inner inner' : Parser Nat} {bound : Nat}
  (hinner : ∀ s, s.Delimited → s.cursor.remaining < bound →
    Strides 1 inner inner' s fun _ _ => True)

include hinner

theorem branch_strides (hs : s.Delimited) (hpos : 0 < s.cursor.remaining)
    (hbound : s.cursor.remaining < bound) :
    Strides 1 (branch inner) (branch inner') s fun _ _ => True := by
  unfold branch
  refine (paces_advance hpos).bind fun _ s₁ h₁ _ => ?_
  have hbound₁ := Nat.lt_of_le_of_lt h₁.remaining_le hbound
  refine (hinner s₁ (h₁.delimited hs) hbound₁).bind fun count s₂ h₂ _ => ?_
  split
  · exact strides_bind_current.mpr (paces_rejectToken _)
  · exact paces_pure trivial

/-- The end of an `if` statement. -/
theorem ifEnd_strides (hs : s.Delimited) (hbound : s.cursor.remaining < bound) :
    Strides 1 (do
      if ← currentIs .kwElse then branch inner
      blockEnd .kwIf
      note (text "if"))
      (do
      if ← currentIs .kwElse then branch inner'
      blockEnd .kwIf
      note (text "if")) s fun _ c => 0 < c.remaining := by
  rw [strides_bind_currentIs]
  split
  · next helse =>
    have hpos := remaining_pos hs (by simp [of_decide_eq_true helse])
    refine (branch_strides hinner hs hpos hbound).bind fun _ s₁ h₁ _ => ?_
    refine (blockEnd_paces (h₁.delimited hs) (by simp)).bind fun _ s₂ _ hpos => ?_
    exact paces_note _ hpos
  · refine (blockEnd_paces hs (by simp)).bind fun _ s₁ _ hpos => ?_
    exact paces_note _ hpos

theorem ifStatement_strides (hs : s.Delimited) (hbound : s.cursor.remaining ≤ bound) :
    Strides 1 (ifStatement inner) (ifStatement inner') s fun _ c => 0 < c.remaining := by
  unfold ifStatement
  refine (paces_expectPeek hs (by simp)).bind fun _ s₁ h₁ hopen => ?_
  have hbound₁ : s₁.cursor.remaining < bound := by omega
  refine paces_openBlock.bind fun _ s₂ h₂ hs₂ => ?_
  refine (paces_advance (by rw [hs₂]; exact hopen.2.1)).bind fun _ s₃ h₃ _ => ?_
  have h₃ := h₂.trans h₃
  have hs₃ := h₃.delimited (h₁.delimited hs)
  refine (expression_paces hs₃ _).weaken.bind fun _ s₄ h₄ _ => ?_
  refine (paces_expectPeek (h₄.delimited hs₃) (by simp)).bind fun _ s₅ h₅ _ => ?_
  have h₅ := h₄.trans h₅
  refine (paces_expectPeek (h₅.delimited hs₃) (by simp)).bind fun _ s₆ h₆ hthen => ?_
  have h₆ := h₃.trans (h₅.trans h₆)
  have hs₆ := h₆.delimited (h₁.delimited hs)
  have hbound₆ := Nat.lt_of_le_of_lt h₆.remaining_le hbound₁
  refine (branch_strides hinner hs₆ hthen.2.1 hbound₆).bind fun _ s₇ h₇ _ => ?_
  exact ifEnd_strides hinner (h₇.delimited hs₆) (Nat.lt_of_le_of_lt h₇.remaining_le hbound₆)

theorem forStatement_strides (hs : s.Delimited) (hbound : s.cursor.remaining ≤ bound) :
    Strides 1 (forStatement inner) (forStatement inner') s fun _ c => 0 < c.remaining := by
  unfold forStatement
  refine (paces_expectPeek hs (by simp)).bind fun _ s₁ h₁ hopen => ?_
  have hs₁ := h₁.delimited hs
  have hbound₁ : s₁.cursor.remaining < bound := by omega
  refine paces_openBlock.bind fun _ s₂ h₂ _ => ?_
  refine (paces_expectPeek (h₂.delimited hs₁) (by simp)).bind fun _ s₃ h₃ _ => ?_
  have h₃ := h₂.trans h₃
  rw [strides_bind_current]
  refine (assignmentContext_paces _).weaken.bind fun ctx s₄ h₄ _ => ?_
  have h₄ := h₃.trans h₄
  refine (assignmentTail_paces (h₄.delimited hs₁) ctx).weaken.bind fun _ s₅ h₅ _ => ?_
  have h₅ := h₄.trans h₅
  refine (paces_expectPeek (h₅.delimited hs₁) (by simp)).bind fun _ s₆ h₆ hsemicolon => ?_
  refine (paces_advance hsemicolon.2.1).bind fun _ s₇ h₇ _ => ?_
  have h₇ := (h₅.trans h₆).trans h₇
  refine (expression_paces (h₇.delimited hs₁) _).weaken.bind fun _ s₈ h₈ _ => ?_
  have h₈ := h₇.trans h₈
  refine (paces_expectPeek (h₈.delimited hs₁) (by simp)).bind fun _ s₉ h₉ hclose => ?_
  refine (paces_advance hclose.2.1).bind fun _ s' h' _ => ?_
  have h' := (h₈.trans h₉).trans h'
  have hbound' := Nat.lt_of_le_of_lt h'.remaining_le hbound₁
  refine (hinner s' (h'.delimited hs₁) hbound').bind fun _ s'' h'' _ => ?_
  refine (blockEnd_paces ((h'.trans h'').delimited hs₁) (by simp)).bind fun _ _ _ hpos => ?_
  exact paces_note _ hpos

/-- A statement is recognised and ends on a token, or it is rejected, or given up at the end. -/
theorem statement_strides (hs : s.Delimited) (hbound : s.cursor.remaining ≤ bound) :
    Strides 1 (statement inner) (statement inner') s fun _ c => 0 < c.remaining := by
  unfold statement
  rw [strides_bind_current]
  split
  · next hkind => exact paces_note _ (remaining_pos hs (by simp [hkind]))
  · exact (builtinCall_paces hs).weaken
  · exact (nameStatement_paces hs).weaken
  · exact ifStatement_strides hinner hs hbound
  · exact forStatement_strides hinner hs hbound
  · exact paces_rejectToken _

/-- A statement that is behind its semicolon, or was recovered from, has passed a token. -/
theorem terminated_strides (hs : s.Delimited) (hbound : s.cursor.remaining ≤ bound) :
    Strides 1 (terminated inner) (terminated inner') s
      fun _ c => c.remaining < s.cursor.remaining := by
  have hrecover {s₁ : State} (h₁ : s₁.cursor.remaining ≤ s.cursor.remaining) :
      Paces 1 (recoverFrom s.diagnostics.length s.nesting) s₁
        fun _ c => c.remaining < s.cursor.remaining := by
    refine strides_bind_get.mpr ?_
    refine (paces_recover _ _ Nat.one_pos).bind fun _ s₂ _ hlt => ?_
    exact paces_of_still ⟨rfl, Nat.lt_of_lt_of_le hlt h₁⟩
  unfold terminated
  rw [strides_bind_reported, strides_bind_get]
  refine (statement_strides hinner hs hbound).caught.bind fun complete s₁ h₁ hcomplete => ?_
  have hle := h₁.remaining_le
  unfold endStatement
  rw [strides_bind_peekIs]
  cases complete with
  | true =>
    have hpos := hcomplete rfl
    rw [Bool.true_and]
    split
    · next hsemicolon =>
      have hpeek : s₁.cursor.peek.kind ≠ .eof := by simp [of_decide_eq_true hsemicolon]
      refine (paces_onto (h₁.delimited hs) hpeek).bind fun _ s₂ _ hpos₂ => ?_
      refine (paces_advance hpos₂.1).mono (Nat.le_refl 1) fun _ c hc => ?_
      rw [hc, Cursor.remaining_next]
      omega
    · rw [if_pos rfl, strides_bind_peek]
      refine Strides.bind (P := fun _ c => c = s₁.cursor) (paces_of_still ⟨rfl, rfl⟩) ?_
      intro _ s₂ h₂ hs₂
      refine (paces_advance (by rw [hs₂]; exact hpos)).bind fun _ s₃ h₃ _ => ?_
      exact hrecover (Nat.le_trans (h₂.trans h₃).remaining_le hle)
  | false => exact hrecover hle

end Blocks

theorem statementsWithin_strides (cut : Parser Nat) (depth : Nat) :
    ∀ n s, s.Delimited → s.cursor.remaining < depth → s.cursor.remaining < n →
      Strides 1 (statementsWithin depth) (Nat.repeat statementsStep n cut) s fun _ _ => True := by
  induction depth with
  | zero =>
    intro n s hs hdepth
    omega
  | succ depth ih =>
    intro n s hs hdepth hn
    cases n with
    | zero => omega
    | succ n =>
      have hinner (s' : State) (hs' : s'.Delimited)
          (hlt : s'.cursor.remaining < s.cursor.remaining) :
          Strides 1 (statementsWithin depth) (Nat.repeat statementsStep n cut) s'
            fun _ _ => True :=
        ih n s' hs' (by omega) (by omega)
      unfold statementsWithin Nat.repeat statementsStep
      rw [strides_bind_current]
      split
      · refine (terminated_strides hinner hs (Nat.le_refl _)).bind fun _ s₁ h₁ hlt => ?_
        refine (hinner s₁ (h₁.delimited hs) hlt).bind fun _ s₂ _ _ => ?_
        exact paces_pure trivial
      · exact paces_pure trivial

/-- Statements are recognised, or given up at the end; unrolled more often than there are tokens
ahead, the loop does not notice where it is cut off. -/
theorem statements_strides {s : State} (hs : s.Delimited) {n : Nat} (hn : s.cursor.remaining < n)
    (cut : Parser Nat) :
    Strides 1 statements (Nat.repeat statementsStep n cut) s fun _ _ => True :=
  statementsWithin_strides cut _ n s hs (Nat.lt_succ_self _) hn

end OnePass.Program
