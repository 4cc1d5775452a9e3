import OnePass.Proofs.Progress.Statement
set_option autoImplicit false

/-!
# How declarations go over tokens

The loops over parameters and over declarations are written as one round and what follows it, and
every round passes a token.  A body can be given up anywhere; but a procedure's body comes behind the
word `procedure`, so a round of the loop over declarations has passed a token also if it gives the
program up.
-/

namespace OnePass.Program

/-! ## Bounds -/

section Bounds

variable {s : State}

/-- The digits of a bound, behind its sign if there is one. -/
theorem digits_paces (hs : s.Delimited) (hinteger : s.cursor.peek.kind = .literal .integer)
    (value : Bytes) :
    Paces 0 (do
      advance
      return value) s fun _ c => 0 < c.remaining := by
  refine (paces_onto hs (by simp [hinteger])).bind fun _ s₁ _ hpos₁ => ?_
  exact paces_pure hpos₁.1

theorem bound_paces (hs : s.Delimited) (hpos : 0 < s.cursor.remaining) :
    Paces 0 bound s fun _ c => 0 < c.remaining := by
  unfold Paces bound
  rw [strides_bind_peekIs]
  split
  · next hminus =>
    refine (paces_onto hs (by simp [of_decide_eq_true hminus])).bind fun _ s₁ h₁ hpos₁ => ?_
    rw [strides_bind_peek]
    split
    · next hinteger => exact digits_paces (h₁.delimited hs) hinteger _
    · exact (paces_advance hpos₁.1).bind fun _ _ _ _ => paces_rejectArgument _
    · exact paces_rejectToken _
  · rw [strides_bind_peek]
    split
    · next hinteger => exact digits_paces hs hinteger _
    · exact (paces_advance hpos).bind fun _ _ _ _ => paces_rejectArgument _
    · exact paces_rejectToken _

theorem bounds_paces (hs : s.Delimited) (hpos : 0 < s.cursor.remaining) :
    Paces 0 bounds s fun _ c => 0 < c.remaining := by
  unfold bounds
  refine (bound_paces hs hpos).bind fun first s₁ h₁ hpos₁ => ?_
  have hs₁ := h₁.delimited hs
  rw [strides_bind_peekIs]
  split
  · next hclose =>
    refine (paces_onto hs₁ (by simp [of_decide_eq_true hclose])).bind fun _ s₂ _ hpos₂ => ?_
    exact paces_pure hpos₂.1
  · refine (paces_expectPeek hs₁ (by simp)).bind fun _ s₂ h₂ hcolon => ?_
    have hs₂ := h₂.delimited hs₁
    refine (bound_paces hs₂ hcolon.2.1).bind fun second s₃ h₃ _ => ?_
    refine (paces_expectPeek (h₃.delimited hs₂) (by simp)).bind fun _ s₄ _ hclose => ?_
    exact paces_pure hclose.2.1

theorem optionalBounds_paces (hs : s.Delimited) (hpos : 0 < s.cursor.remaining) :
    Paces 0 optionalBounds s fun _ c => 0 < c.remaining := by
  unfold Paces optionalBounds
  rw [strides_bind_peekIs]
  split
  · next hopen =>
    refine (paces_onto hs (by simp [of_decide_eq_true hopen])).bind fun _ s₁ h₁ hpos₁ => ?_
    refine (bounds_paces (h₁.delimited hs) hpos₁.1).bind fun _ s₂ _ hpos₂ => ?_
    exact paces_pure hpos₂
  · exact paces_pure hpos

end Bounds

/-! ## Parameters -/

/-- One round of the loop over parameters, from the token before the parameter on: the parameter,
and the comma behind it if there is one. -/
def parameterRound : Parser (Parameter × Bool) := do
  advance
  let p ← parameter
  return (p, ← optionalComma)

/-- The loop over parameters: a round, and `again` behind a comma. -/
def parametersStep (again : Parser (List Parameter)) : Parser (List Parameter) := do
  let (p, more) ← parameterRound
  if more then return p :: (← again) else return [p]

theorem parametersWithin_succ (count : Nat) :
    parametersWithin (count + 1) = parametersStep (parametersWithin count) := by
  unfold parametersStep parameterRound optionalComma
  rw [parametersWithin]
  simp only [bind_assoc, pure_bind]
  congr; funext _; congr; funext p; congr; funext comma
  cases comma <;> rfl

section Parameters

variable {s : State}

theorem parameter_paces (hs : s.Delimited) :
    Paces 0 parameter s fun _ c => 0 < c.remaining := by
  unfold Paces parameter
  rw [strides_bind_current]
  split
  · refine (paces_expectPeek hs (by simp)).bind fun _ s₁ h₁ hname => ?_
    rw [strides_bind_current]
    refine (optionalBounds_paces (h₁.delimited hs) hname.2.1).bind fun bounds? s₂ h₂ hpos₂ => ?_
    refine (paces_advance hpos₂).bind fun _ s₃ h₃ _ => ?_
    have hs₃ := ((h₁.trans h₂).trans h₃).delimited hs
    rw [strides_bind_current]
    split
    · next hdirection => exact paces_pure (remaining_pos hs₃ (by simp [hdirection]))
    · exact paces_rejectToken _
  · exact paces_rejectToken _

theorem parameterRound_paces (hs : s.Delimited) (hpos : 0 < s.cursor.remaining) :
    Paces 0 parameterRound s
      fun _ c => 0 < c.remaining ∧ c.remaining < s.cursor.remaining :=
  have hs₁ := (Reports.next s).delimited hs
  paces_stepped hpos (item_paces hs₁ (parameter_paces hs₁))

theorem parametersWithin_strides (cut : Parser (List Parameter)) (count : Nat) :
    ∀ n s, s.Delimited → 0 < s.cursor.remaining → s.cursor.remaining < count →
      s.cursor.remaining < n →
      Strides 0 (parametersWithin count) (Nat.repeat parametersStep n cut) s
        fun _ c => 0 < c.remaining := by
  induction count with
  | zero =>
    intro n s hs hpos hcount
    omega
  | succ count ih =>
    intro n s hs hpos hcount hn
    cases n with
    | zero => omega
    | succ n =>
      rw [parametersWithin_succ]
      refine (parameterRound_paces hs hpos).bind ?_
      rintro ⟨p, more⟩ s₁ h₁ ⟨hpos₁, hlt⟩
      cases more with
      | true =>
        refine (ih n s₁ (h₁.delimited hs) hpos₁ (by omega) (by omega)).bind fun ps s₂ _ hpos₂ => ?_
        exact paces_pure hpos₂
      | false => exact paces_pure hpos₁

theorem parameters_paces (hs : s.Delimited) :
    Paces 0 parameters s fun _ c => 0 < c.remaining := by
  have hclose {s₁ : State} (hs₁ : s₁.Delimited) (ps : List Parameter) :
      Paces 0 (do
        expectPeek .rightParen
        return ps) s₁ fun _ c => 0 < c.remaining := by
    refine (paces_expectPeek hs₁ (by simp)).bind fun _ s₂ _ hparen => ?_
    exact paces_pure hparen.2.1
  unfold parameters
  refine (paces_expectPeek hs (by simp)).bind fun _ s₁ h₁ hopen => ?_
  have hs₁ := h₁.delimited hs
  rw [strides_bind_peekIs]
  split
  · exact hclose hs₁ []
  · rw [strides_bind_remaining]
    have hbound := Nat.lt_add_one s₁.cursor.remaining
    have hparameters := parametersWithin_strides exhausted _ _ s₁ hs₁ hopen.2.1 hbound hbound
    refine hparameters.self.bind fun ps s₂ h₂ _ => ?_
    exact hclose (h₂.delimited hs₁) ps

end Parameters

/-! ## Declarations -/

/-- One round of the loop over declarations: a declaration with its semicolon, or recovered from. -/
def declarationRound (body : Parser Unit) : Parser Unit :=
  orRecover (do declaration body; expectPeek .semicolon)

/-- The loop over declarations: a round, in which `again` recognises the declarations inside, and
`again`. -/
def declarationsStep (again : Parser Unit) : Parser Unit := do
  if startsDeclaration (← current) (← peek) then
    declarationRound (do again; bodyTail .kwProcedure)
    again

theorem declarationsWithin_succ (depth : Nat) :
    declarationsWithin (depth + 1) = declarationsStep (declarationsWithin depth) := rfl

section Declarations

variable {s : State} {n : Nat}

theorem paces_modifyTable (f : Table → Table) :
    Paces n (modifyTable f) s fun _ c => c = s.cursor :=
  paces_of_still ⟨rfl, rfl⟩

theorem paces_commit (place : Token) : Paces n (commit place) s fun _ c => c = s.cursor := by
  refine paces_of_still ?_
  rw [ends_commit_table]
  split
  · exact ⟨rfl, rfl⟩
  · exact ⟨rfl, rfl⟩

theorem Strides.inScope {p p' : Parser Unit} {Q : Unit → Cursor → Prop} (name : Bytes)
    (h : ∀ t, Strides n p p' { s with table := t } Q) :
    Strides n (inScope name p) (inScope name p') s Q :=
  (h (s.table.enter name)).andThenTable Table.exit

theorem Strides.inScopeOf {p p' : Parser Unit} {Q : Unit → Cursor → Prop} (global : Bool)
    (h : ∀ t, Strides n p p' { s with table := t } Q) :
    Strides n (inScopeOf global p) (inScopeOf global p') s Q := by
  cases global with
  | false => exact h s.table
  | true => exact (h s.table.enterGlobal).andThenTable Table.exitGlobal

theorem variableTail_paces (hs : s.Delimited) (hpos : 0 < s.cursor.remaining) (sym : Symbol)
    (name : Token) : Paces 0 (variableTail sym name) s fun _ c => 0 < c.remaining := by
  unfold Paces variableTail
  rw [strides_bind_get]
  refine (optionalBounds_paces hs hpos).orDiscard.bind fun bounds? s₁ _ hpos₁ => ?_
  unfold variableEnd
  refine (paces_modifyTable _).bind fun _ s₂ _ hs₂ => ?_
  rw [strides_bind_get]
  dsimp only
  split
  · refine (paces_modifyTable _).bind fun _ s₃ _ _ => ?_
    split
    · exact paces_rejectArgument _
    · exact paces_rejectToken _
  · refine (paces_commit _).bind fun kept s₃ _ hs₃ => ?_
    rw [hs₂] at hs₃
    split
    · refine Strides.bind (P := fun _ c => c = s₃.cursor) (paces_of_still ⟨rfl, rfl⟩) ?_
      intro _ s₄ _ hs₄
      exact paces_note _ (by rw [hs₄, hs₃]; exact hpos₁)
    · exact paces_pure (by rw [hs₃]; exact hpos₁)

/-- A declaration from the token before its name on, given its part inside the scope of the name. -/
theorem named_strides (hs : s.Delimited) {sym : Token → Symbol}
    {tail tail' : Symbol → Token → Parser Unit} {Q : Unit → Cursor → Prop}
    (htail : ∀ s', s'.Delimited → 0 < s'.cursor.remaining →
      s'.cursor.remaining < s.cursor.remaining →
      ∀ sym name, Strides n (tail sym name) (tail' sym name) s' Q) :
    Strides n (named sym tail) (named sym tail') s Q := by
  unfold named
  refine (paces_expectPeek hs (by simp)).bind fun _ s₁ h₁ hname => ?_
  rw [strides_bind_current]
  refine (paces_modifyTable _).bind fun _ s₂ h₂ hs₂ => ?_
  refine Strides.inScope _ fun t => ?_
  refine htail _ (((h₁.trans h₂).delimited hs).withTable t) ?_ ?_ _ _
  · change 0 < s₂.cursor.remaining
    rw [hs₂]
    exact hname.2.1
  · change s₂.cursor.remaining < s.cursor.remaining
    rw [hs₂]
    omega

theorem variableDeclaration_paces (hs : s.Delimited) (global : Bool) (type : Scalar) :
    Paces 0 (variableDeclaration global type) s fun _ c => 0 < c.remaining :=
  named_strides hs fun _ hs' hpos _ sym name => variableTail_paces hs' hpos sym name

theorem optionalIs_paces (hs : s.Delimited) (hpos : 0 < s.cursor.remaining) :
    Paces n optionalIs s fun _ c => 0 < c.remaining := by
  unfold Paces optionalIs
  rw [strides_bind_peekIs]
  split
  · next his =>
    have hpeek : s.cursor.peek.kind ≠ .eof := by simp [of_decide_eq_true his]
    exact (paces_onto hs hpeek).mono (Nat.le_refl n) fun _ _ h => h.1
  · exact paces_pure hpos

variable {inner inner' : Parser Unit} {bound : Nat}
  (hinner : ∀ s, s.Delimited → s.cursor.remaining < bound →
    Strides bound inner inner' s fun _ c => 0 < c.remaining)

include hinner

/-- A procedure's body and the end of its function. -/
theorem procedureBody_strides (hs : s.Delimited) (hpos : 0 < s.cursor.remaining)
    (hbound : s.cursor.remaining ≤ bound) {key : ScopeKey} {kept : Bool} :
    Strides bound (procedureBody inner key kept) (procedureBody inner' key kept) s
      fun _ c => 0 < c.remaining := by
  unfold procedureBody
  refine (paces_advance hpos).bind fun _ s₁ h₁ hs₁ => ?_
  refine (hinner s₁ (h₁.delimited hs) ?_).bind fun _ s₂ _ hpos₂ => ?_
  · rw [hs₁, Cursor.remaining_next]
    omega
  · rw [strides_bind_get]
    refine Strides.bind (P := fun _ c => c = s₂.cursor) (paces_of_still ?_) ?_
    · rw [leaveFunction, ends_modify]
      split
      · exact ⟨rfl, rfl⟩
      · exact ⟨rfl, rfl⟩
    · intro _ s₃ _ hs₃
      exact paces_note _ (by rw [hs₃]; exact hpos₂)

theorem procedureTail_strides (hs : s.Delimited) (hbound : s.cursor.remaining < bound)
    (sym : Symbol) (name : Token) :
    Strides bound (procedureTail inner sym name) (procedureTail inner' sym name) s
      fun _ c => 0 < c.remaining := by
  unfold procedureTail
  refine (parameters_paces hs).orDiscard.weaken.bind fun ps s₁ h₁ hpos₁ => ?_
  refine (paces_modifyTable _).bind fun _ s₂ h₂ hs₂ => ?_
  rw [strides_bind_get]
  refine (paces_commit _).bind fun kept s₃ h₃ hs₃ => ?_
  unfold openFunction
  rw [strides_bind_get]
  split
  · exact paces_rejectToken _
  · refine Strides.bind (P := fun _ c => c = s₃.cursor) (paces_of_still ⟨rfl, rfl⟩) ?_
    intro _ s₄ h₄ hs₄
    refine (paces_note (Q := fun _ c => c = s₄.cursor) _ rfl).bind fun _ s₅ h₅ hs₅ => ?_
    have h₅ := (((h₁.trans h₂).trans h₃).trans h₄).trans h₅
    have hs₅' := h₅.delimited hs
    have hpos₅ : 0 < s₅.cursor.remaining := by
      rw [hs₅, hs₄, hs₃, hs₂]
      exact hpos₁
    refine (optionalIs_paces hs₅' hpos₅).bind fun _ s₆ h₆ hpos₆ => ?_
    have hle := (h₅.trans h₆).remaining_le
    exact procedureBody_strides hinner (h₆.delimited hs₅') hpos₆ (by omega)

theorem declarationTail_strides (hs : s.Delimited) (hbound : s.cursor.remaining ≤ bound)
    (global : Bool) :
    Strides bound (declarationTail inner global) (declarationTail inner' global) s
      fun _ c => 0 < c.remaining := by
  unfold declarationTail
  rw [strides_bind_current]
  split
  · refine Strides.inScopeOf global fun t => ?_
    refine named_strides (hs.withTable t) fun s' hs' _ hlt sym name => ?_
    exact procedureTail_strides hinner hs' (Nat.lt_of_lt_of_le hlt hbound) sym name
  · refine Strides.inScopeOf global fun t => ?_
    exact (variableDeclaration_paces (hs.withTable t) global _).weaken
  · exact paces_rejectToken _

theorem declaration_strides (hs : s.Delimited) (hbound : s.cursor.remaining ≤ bound) :
    Strides bound (declaration inner) (declaration inner') s fun _ c => 0 < c.remaining := by
  unfold declaration
  rw [strides_bind_currentIs]
  split
  · next hglobal =>
    have hpos := remaining_pos hs (by simp [of_decide_eq_true hglobal])
    refine (paces_advance hpos).bind fun _ s₁ h₁ _ => ?_
    exact declarationTail_strides hinner (h₁.delimited hs) (Nat.le_trans h₁.remaining_le hbound) true
  · exact declarationTail_strides hinner hs hbound false

/-- A declaration that is behind its semicolon, or was recovered from, has passed a token. -/
theorem declarationRound_strides (hs : s.Delimited) (hpos : 0 < s.cursor.remaining)
    (hbound : s.cursor.remaining ≤ bound) :
    Strides bound (declarationRound inner) (declarationRound inner') s
      fun _ c => c.remaining < s.cursor.remaining := by
  have hseparated : Strides bound (do declaration inner; expectPeek .semicolon)
      (do declaration inner'; expectPeek .semicolon) s
      fun _ c => 0 < c.remaining ∧ c.remaining < s.cursor.remaining := by
    refine (declaration_strides hinner hs hbound).bind fun _ s₁ h₁ _ => ?_
    refine (paces_expectPeek (h₁.delimited hs) (by simp)).mono (Nat.le_refl _) ?_
    rintro _ c ⟨-, hpos₂, hremaining⟩
    have hle := h₁.remaining_le
    exact ⟨hpos₂, by omega⟩
  unfold declarationRound orRecover
  rw [strides_bind_reported]
  refine hseparated.caught.bind fun complete s₁ h₁ hcomplete => ?_
  have hle := h₁.remaining_le
  cases complete with
  | true =>
    obtain ⟨hpos₁, hlt⟩ := hcomplete rfl
    refine (paces_advance hpos₁).mono (Nat.le_refl _) fun _ c hc => ?_
    rw [hc, Cursor.remaining_next]
    omega
  | false =>
    refine (paces_recover _ _ (by omega)).mono (Nat.le_refl _) fun _ c hlt => ?_
    omega

end Declarations

/-! ## Bodies -/

section Bodies

variable {s : State} {n : Nat}

theorem paces_mustCurrent (hn : s.cursor.remaining < n) (kind : TokenKind) :
    Paces n (mustCurrent kind) s fun _ c => c = s.cursor ∧ c.current.kind = kind := by
  refine ⟨rfl, ?_⟩
  rw [ends_mustCurrent]
  split
  · next hkind => exact ⟨.refl _, rfl, hkind⟩
  · exact ⟨.refl _, fun _ => hn⟩

theorem paces_mustPeek (hs : s.Delimited) (hn : s.cursor.remaining < n) {kind : TokenKind}
    (hkind : kind ≠ .eof) : Paces n (mustPeek kind) s fun _ c => 0 < c.remaining := by
  refine ⟨rfl, ?_⟩
  rw [ends_mustPeek]
  split
  · next hpeek =>
    obtain ⟨-, hcrosses, hremaining⟩ := @paces_onto n s hs (by rwa [hpeek])
    exact ⟨hcrosses, hremaining.1⟩
  · exact ⟨.refl _, fun _ => hn⟩

theorem bodyTail_paces (hs : s.Delimited) (hn : s.cursor.remaining < n) {terminator : TokenKind}
    (hterminator : terminator ≠ .eof) :
    Paces n (bodyTail terminator) s fun _ c => 0 < c.remaining := by
  unfold bodyTail
  refine (paces_mustCurrent hn _).bind ?_
  rintro _ s₁ h₁ ⟨-, hbegin⟩
  have hpos₁ := remaining_pos (h₁.delimited hs) (by simp [hbegin])
  refine (paces_advance hpos₁).bind fun _ s₂ h₂ _ => ?_
  have h₂ := h₁.trans h₂
  have hbound := Nat.lt_add_one s₂.cursor.remaining
  have hstatements := (statements_strides (h₂.delimited hs) hbound exhausted).self
  refine (hstatements.mono (by omega) fun _ _ h => h).bind fun _ s₃ h₃ _ => ?_
  have h₃ := h₂.trans h₃
  refine (paces_mustCurrent (Nat.lt_of_le_of_lt h₃.remaining_le hn) _).bind fun _ s₄ h₄ _ => ?_
  have h₄ := h₃.trans h₄
  exact paces_mustPeek (h₄.delimited hs) (Nat.lt_of_le_of_lt h₄.remaining_le hn) hterminator

/-- The body of a procedure, given the loop over its declarations. -/
theorem procedureInner_strides {again again' : Parser Unit} (hs : s.Delimited)
    (hn : s.cursor.remaining < n)
    (hagain : Strides (s.cursor.remaining + 1) again again' s fun _ _ => True) :
    Strides n (do again; bodyTail .kwProcedure) (do again'; bodyTail .kwProcedure) s
      fun _ c => 0 < c.remaining := by
  refine (hagain.mono hn fun _ _ h => h).bind fun _ s₁ h₁ _ => ?_
  exact bodyTail_paces (h₁.delimited hs) (Nat.lt_of_le_of_lt h₁.remaining_le hn) (by simp)

/-- A declaration starts with a token. -/
theorem remaining_pos_of_startsDeclaration (hs : s.Delimited)
    (h : startsDeclaration s.cursor.current s.cursor.peek = true) : 0 < s.cursor.remaining := by
  refine remaining_pos hs fun heof => ?_
  rw [startsDeclaration, heof] at h
  cases h

theorem declarationsWithin_strides (cut : Parser Unit) (depth : Nat) :
    ∀ n s, s.Delimited → s.cursor.remaining < depth → s.cursor.remaining < n →
      Strides (s.cursor.remaining + 1) (declarationsWithin depth)
        (Nat.repeat declarationsStep n cut) s fun _ _ => True := by
  induction depth with
  | zero =>
    intro n s hs hdepth
    omega
  | succ depth ih =>
    intro n s hs hdepth hn
    cases n with
    | zero => omega
    | succ n =>
      have hagain (s' : State) (hs' : s'.Delimited)
          (hlt : s'.cursor.remaining < s.cursor.remaining) :
          Strides (s'.cursor.remaining + 1) (declarationsWithin depth)
            (Nat.repeat declarationsStep n cut) s' fun _ _ => True :=
        ih n s' hs' (by omega) (by omega)
      rw [declarationsWithin_succ, Nat.repeat]
      unfold declarationsStep
      rw [strides_bind_current, strides_bind_peek]
      split
      · next hstarts =>
        have hpos := remaining_pos_of_startsDeclaration hs hstarts
        have hround := declarationRound_strides
          (fun s' hs' hlt => procedureInner_strides hs' hlt (hagain s' hs' hlt)) hs hpos
          (Nat.le_refl _)
        refine (hround.mono (Nat.le_add_right _ 1) fun _ _ h => h).bind fun _ s₁ h₁ hlt => ?_
        exact (hagain s₁ (h₁.delimited hs) hlt).below (by omega)
      · exact paces_pure trivial

theorem body_paces (hs : s.Delimited) (hn : s.cursor.remaining < n) {terminator : TokenKind}
    (hterminator : terminator ≠ .eof) :
    Paces n (body terminator) s fun _ c => 0 < c.remaining := by
  unfold Paces body
  rw [strides_bind_remaining]
  have hbound := Nat.lt_add_one s.cursor.remaining
  have hdeclarations := (declarationsWithin_strides exhausted _ _ s hs hbound hbound).self
  refine (hdeclarations.mono hn fun _ _ h => h).bind fun _ s₁ h₁ _ => ?_
  exact bodyTail_paces (h₁.delimited hs) (Nat.lt_of_le_of_lt h₁.remaining_le hn) hterminator

end Bodies

end OnePass.Program
