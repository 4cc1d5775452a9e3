import OnePass.Proofs.Soundness.Statement
set_option autoImplicit false

/-!
# Recognised declarations are declarations of the grammar

Bounds and parameters are words of the grammar whenever their productions succeed; declarations are
if no diagnostic was reported, as a procedure has statements inside.
-/

namespace OnePass.Program

open OnePass.Grammar

/-! ## Bounds and parameters -/

theorem bound_sound : SoundBehind Bound bound := by
  intro s a s' h hs
  simp only [ok_iff_ends, bound, ends_bind, ends_peekIs] at h
  split at h
  · next hminus =>
    simp only [ends_bind, ends_advance, ends_peek] at h
    split at h
    case h_1 hinteger =>
      obtain ⟨-, rfl⟩ := h
      have hsign : Spells [.op .minus] s.cursor.ahead.tail s.cursor.next.ahead.tail :=
        spells_head hs (of_decide_eq_true hminus) rfl
      exact ⟨hs, _, .negative, spells_append hsign (spells_head hs hinteger rfl)⟩
    case h_2 | h_3 => exact h.elim
  · simp only [ends_bind, ends_peek] at h
    split at h
    case h_1 hinteger =>
      obtain ⟨-, rfl⟩ := h
      exact ⟨hs, _, .plain, spells_head hs hinteger rfl⟩
    case h_2 | h_3 => exact h.elim

theorem bounds_sound : SoundBehind (fun w => Grammar.Bounds (.leftBracket :: w)) bounds := by
  intro s a s' h hs
  rw [ok_iff_ends, bounds, ends_bind_ok] at h
  obtain ⟨first, s₁, hfirst, h⟩ := h
  obtain ⟨hs₁, v, hv, hvspells⟩ := bound_sound hfirst hs
  simp only [ends_bind, ends_peekIs] at h
  split at h
  · next hclose =>
    obtain ⟨-, rfl⟩ := h
    refine ⟨hs₁, _, .upper hv, spells_append hvspells ?_⟩
    exact spells_head hs₁ (of_decide_eq_true hclose) rfl
  · rw [ends_bind, ends_expectPeek, if_false_right] at h
    obtain ⟨hcolon, h⟩ := h
    rw [ends_bind_ok] at h
    obtain ⟨second, s₂, hsecond, h⟩ := h
    obtain ⟨hs₂, w, hw, hwspells⟩ := bound_sound hsecond hs₁
    rw [ends_bind, ends_expectPeek, if_false_right] at h
    obtain ⟨hclose, -, rfl⟩ := h
    refine ⟨hs₂, _, .both hv hw, spells_append hvspells ?_⟩
    refine spells_append (spells_head hs₁ hcolon rfl) (spells_append hwspells ?_)
    exact spells_head hs₂ hclose rfl

theorem optionalBounds_sound : SoundBehind Grammar.Bounds optionalBounds := by
  intro s a s' h hs
  simp only [ok_iff_ends, optionalBounds, ends_bind, ends_peekIs] at h
  split at h
  · next hopen =>
    rw [ends_bind, ends_advance, ends_bind_ok] at h
    obtain ⟨b, s₁, hrun, -, rfl⟩ := h
    obtain ⟨hs₁, w, hw, hspells⟩ := bounds_sound hrun hs
    have hbracket : Spells [.leftBracket] s.cursor.ahead.tail s.cursor.next.ahead.tail :=
      spells_head hs (of_decide_eq_true hopen) rfl
    exact ⟨hs₁, _, hw, spells_append hbracket hspells⟩
  · obtain ⟨-, rfl⟩ := h
    exact ⟨hs, [], .none, rfl⟩

/-- A parameter's words. -/
def IsParameter (w : List TokenKind) : Prop :=
  ∃ type direction v, Grammar.Bounds v ∧
    w = .typeMark type :: .identifier :: (v ++ [.direction direction])

theorem parameter_sound : Sound IsParameter parameter := by
  intro s a s' h hs
  simp only [ok_iff_ends, parameter, ends_bind, ends_current] at h
  split at h
  case h_2 => exact h.elim
  case h_1 type htype =>
    rw [ends_bind, ends_expectPeek, if_false_right] at h
    obtain ⟨hname, h⟩ := h
    rw [ends_bind, ends_current, ends_bind_ok] at h
    obtain ⟨b, s₁, hbounds, h⟩ := h
    obtain ⟨hs₁, v, hv, hspells⟩ := optionalBounds_sound hbounds hs
    simp only [ends_bind, ends_advance, ends_current] at h
    split at h
    case h_2 => exact h.elim
    case h_1 direction hdirection =>
      obtain ⟨-, rfl⟩ := h
      have hfront : Spells [.typeMark type, .identifier] s.cursor.ahead s.cursor.next.ahead.tail :=
        spells_append (spells_head hs htype rfl) (spells_head hs hname rfl)
      refine ⟨hs₁, _, ⟨type, direction, v, hv, rfl⟩, spells_append hfront ?_⟩
      exact spells_append hspells (spells_head hs₁ hdirection rfl)

theorem parametersWithin_sound (count : Nat) : SoundBehind Parameters (parametersWithin count) := by
  induction count with
  | zero =>
    intro s a s' h hs
    cases h
  | succ count ih =>
    intro s a s' h hs
    rw [ok_iff_ends, parametersWithin, ends_bind, ends_advance, ends_bind_ok] at h
    obtain ⟨p, s₁, hfirst, h⟩ := h
    obtain ⟨hs₁, _, ⟨type, direction, v, hv, rfl⟩, hspells⟩ := parameter_sound hfirst hs
    simp only [ends_bind, ends_peekIs] at h
    split at h
    · next hcomma =>
      rw [ends_bind, ends_advance, ends_bind_ok] at h
      obtain ⟨ps, s₂, hrest, -, rfl⟩ := h
      obtain ⟨hs₂, w, hw, hspells'⟩ := ih hrest hs₁
      have hsign : Spells [.comma] s₁.cursor.ahead.tail s₁.cursor.next.ahead.tail :=
        spells_head hs₁ (of_decide_eq_true hcomma) rfl
      have hall := spells_append hspells (spells_append hsign hspells')
      refine ⟨hs₂, _, .more type direction hv hw, ?_⟩
      simpa only [List.cons_append, List.append_assoc, List.nil_append, Cursor.ahead_next] using hall
    · obtain ⟨-, rfl⟩ := h
      exact ⟨hs₁, _, .one type direction hv, hspells⟩

theorem parameters_sound : SoundBehind Header parameters := by
  intro s a s' h hs
  rw [ok_iff_ends, parameters, ends_bind, ends_expectPeek, if_false_right] at h
  obtain ⟨hopen, h⟩ := h
  have hfront : Spells [.leftParen] s.cursor.ahead.tail s.cursor.next.ahead.tail :=
    spells_head hs hopen rfl
  simp only [ends_bind, ends_peekIs] at h
  split at h
  · rw [ends_bind, ends_pure, ends_bind, ends_expectPeek, if_false_right] at h
    obtain ⟨hclose, -, rfl⟩ := h
    exact ⟨hs, _, .empty, spells_append hfront (spells_head hs hclose rfl)⟩
  · rw [ends_bind, ends_remaining, ends_bind_ok] at h
    obtain ⟨ps, s₁, hrun, h⟩ := h
    obtain ⟨hs₁, w, hw, hspells⟩ := parametersWithin_sound _ hrun hs
    rw [ends_bind, ends_expectPeek, if_false_right] at h
    obtain ⟨hclose, -, rfl⟩ := h
    refine ⟨hs₁, _, .parameters hw, spells_append hfront ?_⟩
    exact spells_append hspells (spells_head hs₁ hclose rfl)

/-! ## Steps of declarations -/

theorem commit_ok {place : Token} {s s' : State} {b : Bool} (h : commit place s = .ok b s') :
    s'.cursor = s.cursor := by
  rw [ok_iff_ends, ends_commit_table] at h
  split at h
  · rw [← h.2]
  · rw [← h.2]

theorem leaveFunction_ok {leave : Ir.Builder → Except Ir.Error Ir.Builder} {s s' : State} {u : Unit}
    (h : leaveFunction leave s = .ok u s') :
    s'.cursor = s.cursor ∧ s'.diagnostics = s.diagnostics := by
  rw [unit_ok_iff_ends, leaveFunction, ends_modify] at h
  split at h
  · rw [← h]
    exact ⟨rfl, rfl⟩
  · rw [← h]
    exact ⟨rfl, rfl⟩

/-- A production that starts on the token before a word of a category and ends on the last token of
the word, whenever it leads to a state without diagnostics. -/
def CleanBehind {α : Type} (G : List TokenKind → Prop) (p : Parser α) : Prop :=
  ∀ ⦃s a s'⦄, p s = .ok a s' → s.Marked → s'.diagnostics = [] →
    Spelled G s.cursor.ahead.tail s'.cursor.ahead.tail

section Scopes

variable {α : Type} {G : List TokenKind → Prop} {p : Parser α}

theorem CleanBehind.within (hp : CleanBehind G p) (enter leave : Table → Table) :
    CleanBehind G (do modifyTable enter; andThenTable p leave) := by
  intro s a s' h hs hclean
  rw [ok_iff_ends, ends_bind, ends_modifyTable, ends_andThenTable] at h
  cases hrun : p { s with table := enter s.table } with
  | ok b s₁ =>
    obtain ⟨-, rfl⟩ := (ends_of_ok hrun).mp h
    have hspelled := hp hrun hs hclean
    exact hspelled
  | error stop s₁ => exact ((ends_of_error hrun).mp h).elim

theorem CleanBehind.inScopeOf (hp : CleanBehind G p) (global : Bool) :
    CleanBehind G (inScopeOf global p) := by
  cases global with
  | false => exact hp
  | true => exact hp.within _ _

theorem orDiscard_ok {s s' : State} {a : α} (h : orDiscard p s = .ok a s') : p s = .ok a s' := by
  rw [ok_iff_ends, ends_orDiscard] at h
  exact ok_iff_ends.mpr h

end Scopes

/-! ## Variables and procedures -/

theorem variableTail_sound (sym : Symbol) (name : Token) :
    CleanBehind Grammar.Bounds (variableTail sym name) := by
  intro s a s' h hs hclean
  rw [unit_ok_iff_ends, variableTail, ends_bind, ends_get, ends_bind_ok] at h
  obtain ⟨b, s₁, hbounds, h⟩ := h
  obtain ⟨-, hw⟩ := optionalBounds_sound (orDiscard_ok hbounds) hs
  simp only [variableEnd, ends_bind, ends_modifyTable, ends_get] at h
  split at h
  · split at h
    · exact h.elim
    · exact h.elim
  · rw [ends_bind_ok] at h
    obtain ⟨bound, s₂, hcommit, h⟩ := h
    have hcursor : s₂.cursor = s₁.cursor := (commit_ok hcommit).trans rfl
    split at h
    · simp only [ends_bind, ends_emitStorage, ends_note] at h
      rw [← h, hcursor]
      exact hw
    · rw [ends_pure] at h
      rw [← h, hcursor]
      exact hw

/-- What is declared starts with its name. -/
theorem named_sound {symbol : Token → Symbol} {tail : Symbol → Token → Parser Unit}
    {G : List TokenKind → Prop} (htail : ∀ sym name, CleanBehind G (tail sym name)) :
    CleanBehind (fun w => ∃ v, G v ∧ w = .identifier :: v) (named symbol tail) := by
  intro s a s' h hs hclean
  rw [unit_ok_iff_ends, ends_named, if_false_right] at h
  obtain ⟨hname, h⟩ := h
  obtain ⟨w, hw, hspells⟩ :=
    (htail _ _).within _ _ (unit_ok_iff_ends (u := a).mpr h) hs hclean
  exact ⟨_, ⟨w, hw, rfl⟩, spells_append (spells_head hs hname rfl) hspells⟩

/-- What follows the name of a procedure. -/
def IsProcedureTail (w : List TokenKind) : Prop :=
  ∃ h i v, Header h ∧ Optional .kwIs i ∧ Part (.body .kwProcedure) v ∧ w = h ++ i ++ v

/-- A body that is passed on the way to a state without diagnostics is a body of the grammar. -/
def BodyCleanly (terminator : TokenKind) (p : Parser Unit) : Prop :=
  ∀ ⦃s u s'⦄, p s = .ok u s' → s.Marked → s'.diagnostics = [] →
    Spelled (Part (.body terminator)) s.cursor.ahead s'.cursor.ahead.tail

section Inside

variable {inner : Parser Unit} (hinner : BodyCleanly .kwProcedure inner)

include hinner

theorem procedureTail_sound (sym : Symbol) (name : Token) :
    CleanBehind IsProcedureTail (procedureTail inner sym name) := by
  intro s a s' h hs hclean
  -- The part behind the optional word is the same whether it is there or not.
  have hbody {s₁ : State} {key : ScopeKey} {bound : Bool}
      (h : Ends (procedureBody inner key bound) s₁ (fun _ t => t = s') (fun _ _ => False))
      (hs₁ : s₁.Marked) :
      Spelled (Part (.body .kwProcedure)) s₁.cursor.ahead.tail s'.cursor.ahead.tail := by
    rw [procedureBody, ends_bind, ends_advance, ends_bind_ok] at h
    obtain ⟨_, s₂, hrun, h⟩ := h
    rw [ends_bind, ends_get, ends_bind_ok] at h
    obtain ⟨_, s₃, hleave, rfl⟩ := h
    obtain ⟨hcursor, hdiagnostics⟩ := leaveFunction_ok hleave
    have hspelled := hinner hrun hs₁ (hdiagnostics ▸ hclean)
    rw [← hcursor] at hspelled
    exact hspelled
  rw [unit_ok_iff_ends, procedureTail, ends_bind_ok] at h
  obtain ⟨ps, s₁, hparameters, h⟩ := h
  obtain ⟨hs₁, v, hv, hvspells⟩ := parameters_sound (orDiscard_ok hparameters) hs
  rw [ends_bind, ends_modifyTable, ends_bind, ends_get, ends_bind_ok] at h
  obtain ⟨bound, s₂, hcommit, h⟩ := h
  have hs₂ : s₂.Marked := ((Proceeds.wideFrame.keeps (.commit name)).of_ok hcommit).marked hs₁
  have hcursor : s₂.cursor = s₁.cursor := (commit_ok hcommit).trans rfl
  rw [← hcursor] at hvspells
  rw [openFunction, ends_bind, ends_get] at h
  split at h
  · exact h.elim
  · simp only [procedureInside, ends_bind, ends_set, ends_note, ends_optionalIs] at h
    split at h
    · next his =>
      obtain ⟨w, hw, hwspells⟩ := hbody h hs₂
      refine ⟨_, ⟨v, _, w, hv, .some, hw, rfl⟩, spells_append (spells_append hvspells ?_) hwspells⟩
      exact spells_head hs₂ his rfl
    · obtain ⟨w, hw, hwspells⟩ := hbody h hs₂
      refine ⟨_, ⟨v, _, w, hv, .none, hw, rfl⟩, spells_append (spells_append hvspells ?_) hwspells⟩
      exact rfl

/-- A declaration from its type or its word `procedure` on; it may have the word that makes it global
in front of it. -/
theorem declarationTail_sound {global : Bool} {s s' : State} {u : Unit}
    (h : declarationTail inner global s = .ok u s') (hs : s.Marked) (hclean : s'.diagnostics = []) :
    Spelled (fun w => ∀ g, Optional .kwGlobal g → Part .declaration (g ++ w)) s.cursor.ahead
      s'.cursor.ahead.tail := by
  simp only [unit_ok_iff_ends, declarationTail, ends_bind, ends_current] at h
  split at h
  case h_1 hprocedure =>
    obtain ⟨_, ⟨_, ⟨v, i, w, hv, hi, hw, rfl⟩, rfl⟩, hspells⟩ :=
      (named_sound (procedureTail_sound hinner)).inScopeOf global
        (unit_ok_iff_ends (u := u).mpr h) hs hclean
    refine ⟨_, fun g hg => .procedureDecl hg hv hi hw, ?_⟩
    exact spells_append (spells_head hs hprocedure rfl) hspells
  case h_2 type htype =>
    obtain ⟨_, ⟨w, hw, rfl⟩, hspells⟩ :=
      (named_sound variableTail_sound).inScopeOf global
        (unit_ok_iff_ends (u := u).mpr h) hs hclean
    refine ⟨_, fun g hg => .variableDecl type hg hw, ?_⟩
    exact spells_append (spells_head hs htype rfl) hspells
  case h_3 => exact h.elim

theorem declaration_sound {s s' : State} {u : Unit} (h : declaration inner s = .ok u s')
    (hs : s.Marked) (hclean : s'.diagnostics = []) :
    Spelled (Part .declaration) s.cursor.ahead s'.cursor.ahead.tail := by
  simp only [unit_ok_iff_ends, declaration, ends_bind, ends_currentIs] at h
  split at h
  · next hglobal =>
    rw [ends_bind, ends_advance] at h
    obtain ⟨w, hw, hspells⟩ :=
      declarationTail_sound hinner (unit_ok_iff_ends (u := u).mpr h) hs hclean
    have hword : Spells [.kwGlobal] s.cursor.ahead s.cursor.next.ahead :=
      spells_head hs (of_decide_eq_true hglobal) rfl
    exact ⟨_, hw _ .some, spells_append hword hspells⟩
  · obtain ⟨w, hw, hspells⟩ :=
      declarationTail_sound hinner (unit_ok_iff_ends (u := u).mpr h) hs hclean
    exact ⟨_, hw _ .none, hspells⟩

end Inside

end OnePass.Program
