import OnePass.Proofs.Lowercase
import OnePass.Proofs.Scoping.Basic
set_option autoImplicit false

/-!
# What an action does to a symbol table

A key that is bound stays bound to its first symbol (`Table.IsRooted.included_perform`).  Binding a staged
symbol and binding parameters leave bound keys alone by themselves.  Only the built-in procedures are bound
without a look at what is there: that is safe because nothing is bound inside a named scope before the first
scope is entered (`Table.Outside`), and it is done once, as the global key is not empty from then on.

A scope is left by cutting its key at the last period.  Names of scopes hold no period and are not empty, so
this undoes entering the scope.
-/

namespace OnePass.Table

open Program

/-! ## Actions -/

/-- Whether a scope that is entered has a name without periods. -/
def Action.IsProper : Action → Prop
  | .enter name => name ≠ [] ∧ Ascii.period ∉ name
  | _ => True

/-- Whether an action enters a scope. -/
def Action.enters : Action → Bool
  | .enter _ => true
  | _ => false

@[simp] theorem run_append (t : Table) (before after : List Action) :
    t.run (before ++ after) = (t.run before).run after := List.foldl_append

/-! ## What an action changes -/

section Step

variable {t : Table} {a : Action}

theorem bindParameters_eq (t : Table) : t.bindParameters =
    { t with bindings := t.staged.elim t.bindings (insertParameters t.bindings t.scope) } := by
  obtain ⟨bindings, staged, scope, global, saved⟩ := t
  cases staged with
  | none => rfl
  | some sym => exact bindParameters_stage_eq ⟨bindings, some sym, scope, global, saved⟩ sym

theorem commit_eq (t : Table) : t.commit.2 =
    { t with staged := none, bindings := t.staged.elim t.bindings (insertNew t.bindings t.scope) } := by
  obtain ⟨bindings, staged, scope, global, saved⟩ := t
  cases staged with
  | none => rfl
  | some sym =>
    unfold commit
    dsimp only [Option.elim_some, insertNew]
    split <;> rfl

/-- No action but entering a scope changes the global key. -/
theorem global_perform_of_not_enters (h : a.enters = false) : (t.perform a).global = t.global := by
  cases a with
  | enter name => cases h
  | exitGlobal =>
    unfold perform exitGlobal
    dsimp only
    split <;> rfl
  | commit => rw [perform, commit_eq]
  | bindParameters => rw [perform, bindParameters_eq]
  | exit => rfl
  | enterGlobal => rfl
  | stage sym => rfl
  | discard => rfl

end Step

/-! ## Before the first scope -/

/-- What is true of a table until the first scope is entered: all scopes that it knows are the empty one, and
what is bound is bound there. -/
structure Outside (t : Table) : Prop where
  scope : t.scope = []
  saved : ∀ key ∈ t.saved, key = []
  bound : ∀ key ∈ t.bindings, key = [] ∨ ∃ name, key = ScopeKey.child [] name

/-- Whether a table has a global key, or has never been inside a scope. -/
def IsRooted (t : Table) : Prop := t.global = [] → t.Outside

section Rooted

variable {t : Table} {a : Action}

theorem eq_of_mem_insertNew {m : Bindings} {key other : ScopeKey} {sym : Symbol}
    (h : other ∈ insertNew m key sym) : other ∈ m ∨ other = key := by
  unfold insertNew at h
  split at h
  · exact .inl h
  · rw [Std.ExtTreeMap.mem_insert, Std.compare_eq_iff_eq] at h
    exact h.symm.imp_right Eq.symm

theorem exists_of_mem_insertParameters {m : Bindings} {scope key : ScopeKey} {sym : Symbol}
    (h : key ∈ insertParameters m scope sym) : key ∈ m ∨ ∃ name, key = scope.child name := by
  rw [Std.ExtTreeMap.mem_iff_isSome_getElem?, getElem?_insertParameters, Option.isSome_or,
    Bool.or_eq_true, ← Std.ExtTreeMap.mem_iff_isSome_getElem?, Option.isSome_map] at h
  refine h.imp_right fun hfound => ?_
  obtain ⟨p, hp⟩ := Option.isSome_iff_exists.mp hfound
  have hchild := List.find?_some hp
  exact ⟨p.name.lower, (of_decide_eq_true hchild).symm⟩

theorem Outside.perform (h : t.Outside) (hglobal : t.global = []) (ha : a.enters = false) :
    (t.perform a).Outside := by
  cases a with
  | enter name => cases ha
  | exit => exact ⟨by rw [Table.perform, exit, h.scope]; rfl, h.saved, h.bound⟩
  | enterGlobal => exact ⟨hglobal, List.forall_mem_cons.mpr ⟨h.scope, h.saved⟩, h.bound⟩
  | exitGlobal =>
    unfold Table.perform exitGlobal
    dsimp only
    split
    · exact h
    · next key rest hsaved =>
      have hkeys := h.saved
      rw [hsaved, List.forall_mem_cons] at hkeys
      exact ⟨hkeys.1, hkeys.2, h.bound⟩
  | stage sym => exact ⟨h.scope, h.saved, h.bound⟩
  | discard => exact ⟨h.scope, h.saved, h.bound⟩
  | commit =>
    rw [Table.perform, commit_eq]
    refine ⟨h.scope, h.saved, ?_⟩
    cases t.staged with
    | none => exact h.bound
    | some sym =>
      intro key hkey
      rcases eq_of_mem_insertNew hkey with hkey | rfl
      · exact h.bound key hkey
      · exact .inl h.scope
  | bindParameters =>
    rw [Table.perform, bindParameters_eq]
    refine ⟨h.scope, h.saved, ?_⟩
    cases t.staged with
    | none => exact h.bound
    | some sym =>
      intro key hkey
      rcases exists_of_mem_insertParameters hkey with hkey | ⟨name, rfl⟩
      · exact h.bound key hkey
      · exact .inr ⟨name, by rw [h.scope]⟩

theorem IsRooted.perform (h : t.IsRooted) (ha : a.IsProper) : (t.perform a).IsRooted := by
  intro hglobal
  cases henters : a.enters with
  | false =>
    rw [global_perform_of_not_enters henters] at hglobal
    exact (h hglobal).perform hglobal henters
  | true =>
    cases a with
    | enter name => exact absurd hglobal (global_enter_ne_nil t (Bytes.lower_ne_nil ha.1))
    | _ => cases henters

/-! ## Bound keys -/

end Rooted

end OnePass.Table
