import OnePass.Proofs.Scoping.History
import OnePass.Proofs.Scoping.Record
set_option autoImplicit false

/-!
# Symbol tables in memory

A table hands out the records that are staged, and binds copies of them.  A copy holds the cells of the
parameters' bounds together with the record that it is a copy of.  What the table shows (`SharedTable.view`)
is the table of symbols: each action on the one is the same action on the other (`Shows.perform`).

A record that is staged shares no cell with one that is bound, so that editing it changes nothing that is
bound.  A record that was handed out before can be edited as well, by whoever has kept it.  Bound symbols do
not see that, with one exception: if bounds of a parameter are written to in place, the copies that hold the
cell have other bounds as well.  Apart from this bindings are permanent (`run_permanent`).
-/

namespace OnePass

/-- A symbol table as it lies in memory. -/
structure SharedTable where
  memory : Memory := []
  /-- the records that were handed out, in the order in which they were staged -/
  handed : List Record := []
  /-- which of them is under construction -/
  staged : Option Nat := none
  bindings : Std.ExtTreeMap ScopeKey Record compare := ∅
  scope : ScopeKey := []
  global : ScopeKey := []
  saved : List ScopeKey := []

namespace SharedTable

/-- The record under construction. -/
def stagedRecord (t : SharedTable) : Option Record := t.staged.bind (t.handed[·]?)

/-- Binds a new record with the fields of a symbol. -/
def store (t : SharedTable) (key : ScopeKey) (sym : Symbol) : SharedTable :=
  { t with
    memory := (Record.build t.memory sym).1
    bindings := t.bindings.insert key (Record.build t.memory sym).2 }

/-- Enters the scope of a name. -/
def enter (t : SharedTable) (name : Bytes) : SharedTable :=
  let name := name.lower
  if t.global = [] then
    Builtin.all.foldl (fun t b => t.store (ScopeKey.child name b.word) (.ofBuiltin b))
      { t with global := name, scope := name }
  else if t.scope = [] then { t with scope := name }
  else { t with scope := t.scope.child name }

/-- Binds a copy of the staged record under the key of the current scope. -/
def commit (t : SharedTable) : Except Table.Error Record × SharedTable :=
  match t.stagedRecord with
  | none => (.error .nothingStaged, t)
  | some r =>
    if t.scope ∈ t.bindings then (.error (.duplicate t.scope), { t with staged := none })
    else (.ok r, { t with staged := none, bindings := t.bindings.insert t.scope r })

/-- Binds a parameter inside the current scope, unless its name is bound there. -/
def bindParameter (t : SharedTable) (line : Int) (p : Parameter) : SharedTable :=
  if t.scope.child p.name.lower ∈ t.bindings then t
  else t.store (t.scope.child p.name.lower) (.ofParameter p line)

/-- The table after an action. -/
def perform (t : SharedTable) : Table.Action → SharedTable
  | .enter name => t.enter name
  | .exit => { t with scope := t.scope.parent }
  | .enterGlobal => { t with scope := t.global, saved := t.scope :: t.saved }
  | .exitGlobal =>
    match t.saved with
    | [] => t
    | key :: rest => { t with scope := key, saved := rest }
  | .stage sym =>
    { t with
      memory := (Record.build t.memory sym).1
      handed := t.handed ++ [(Record.build t.memory sym).2]
      staged := some t.handed.length }
  | .discard => { t with staged := none }
  | .commit => t.commit.2
  | .bindParameters =>
    match t.stagedRecord with
    | none => t
    | some r => (r.parameters t.memory).foldl (·.bindParameter r.line) t

/-- The table after a record that was handed out has been edited. -/
def edit (t : SharedTable) (i : Nat) (e : Edit) : SharedTable :=
  match t.handed[i]? with
  | none => t
  | some r =>
    { t with memory := (e.apply (t.memory, r)).1, handed := t.handed.set i (e.apply (t.memory, r)).2 }

/-- What can be done to a table and to the records that it has handed out. -/
inductive Action where
  | table (a : Table.Action)
  /-- edits the staged record -/
  | mutate (e : Edit)
  /-- edits a record that was handed out at some time -/
  | amend (i : Nat) (e : Edit)

/-- What an action does to the table itself. -/
def Action.table? : Action → Option Table.Action
  | .table a => some a
  | _ => none

/-- Whether a scope that is entered has a name without periods. -/
def Action.IsProper (a : Action) : Prop := ∀ b ∈ a.table?, b.IsProper

/-- The table after an action. -/
def act (t : SharedTable) : Action → SharedTable
  | .table a => t.perform a
  | .mutate e => t.staged.elim t (t.edit · e)
  | .amend i e => t.edit i e

/-- The table after a history. -/
def run (t : SharedTable) (actions : List Action) : SharedTable := actions.foldl act t

/-- The table of the symbols that the records stand for. -/
def view (t : SharedTable) : Table where
  bindings := t.bindings.map fun _ r => r.symbol t.memory
  staged := t.stagedRecord.map (·.symbol t.memory)
  scope := t.scope
  global := t.global
  saved := t.saved

/-- What is true of records in memory: they fit, and what is staged shares no cell with what is bound. -/
structure Sound (t : SharedTable) : Prop where
  handed {r : Record} : r ∈ t.handed → r.Fits t.memory
  bound {key : ScopeKey} {r : Record} : t.bindings[key]? = some r → r.Fits t.memory
  apart {r r' : Record} {key : ScopeKey} {c : Nat} : t.stagedRecord = some r →
    t.bindings[key]? = some r' → some c ∈ r.cells → some c ∉ r'.cells

/-- A table in memory, and the table that is seen. -/
structure Shows (t : SharedTable) (u : Table) : Prop where
  sound : t.Sound
  bindings (key : ScopeKey) : u.bindings[key]? = t.bindings[key]?.map (·.symbol t.memory)
  staged : u.staged = t.stagedRecord.map (·.symbol t.memory)
  scope : u.scope = t.scope
  global : u.global = t.global
  saved : u.saved = t.saved

/-! ## Actions on a table -/

section Step

variable {t : SharedTable} {u : Table}

theorem Sound.shows (h : t.Sound) : Shows t t.view :=
  ⟨h, fun _ => Std.ExtTreeMap.getElem?_map, rfl, rfl, rfl, rfl⟩

theorem Shows.view_eq (h : Shows t u) : t.view = u := by
  obtain ⟨bindings, staged, scope, global, saved⟩ := u
  obtain ⟨-, hbindings, rfl, rfl, rfl, rfl⟩ := h
  have hmap : t.view.bindings = bindings :=
    Std.ExtTreeMap.ext_getElem? fun key => Std.ExtTreeMap.getElem?_map.trans (hbindings key).symm
  rw [← hmap]
  rfl

theorem Shows.mem_iff (h : Shows t u) (key : ScopeKey) : key ∈ u.bindings ↔ key ∈ t.bindings := by
  rw [Std.ExtTreeMap.mem_iff_isSome_getElem?, h.bindings, Option.isSome_map,
    ← Std.ExtTreeMap.mem_iff_isSome_getElem?]

theorem Sound.fits_stagedRecord (h : t.Sound) {r : Record} (hr : t.stagedRecord = some r) :
    r.Fits t.memory := by
  obtain ⟨i, -, hi⟩ := Option.bind_eq_some_iff.mp hr
  exact h.handed (List.mem_of_getElem? hi)

theorem edited_build (m : Memory) (sym : Symbol) : Edited (m, {}) (Record.build m sym) :=
  edited_foldl _ _

theorem symbol_build_of_fits {m : Memory} {r : Record} (h : r.Fits m) (sym : Symbol) :
    r.symbol (Record.build m sym).1 = r.symbol m :=
  (edited_build m sym).symbol_eq h fun _ hc => absurd hc List.not_mem_nil

/-- The cells of a new record are new. -/
theorem le_of_mem_build {m : Memory} {sym : Symbol} {c : Nat} (h : some c ∈ (Record.build m sym).2.cells) :
    m.length ≤ c :=
  ((edited_build m sym).cells h).resolve_left List.not_mem_nil

theorem Shows.store (h : Shows t u) (key : ScopeKey) (sym : Symbol) :
    Shows (t.store key sym) { u with bindings := u.bindings.insert key sym } := by
  obtain ⟨hsym, hfits⟩ := Record.symbol_build t.memory sym
  have hlength := (edited_build t.memory sym).length
  refine ⟨⟨fun hr => (h.sound.handed hr).mono hlength, fun hr => ?_, fun hr hr' hc hc' => ?_⟩,
    fun other => ?_, h.staged.trans ?_, h.scope, h.global, h.saved⟩
  · rw [SharedTable.store, Std.ExtTreeMap.getElem?_insert] at hr
    split at hr
    · cases hr
      exact hfits
    · exact (h.sound.bound hr).mono hlength
  · rw [SharedTable.store, Std.ExtTreeMap.getElem?_insert] at hr'
    split at hr'
    · cases hr'
      exact Nat.not_lt.mpr (le_of_mem_build hc') ((h.sound.fits_stagedRecord hr).below hc)
    · exact h.sound.apart hr hr' hc hc'
  · dsimp only [SharedTable.store]
    rw [Std.ExtTreeMap.getElem?_insert, Std.ExtTreeMap.getElem?_insert]
    split
    · exact congrArg some hsym.symm
    · rw [h.bindings]
      exact Option.map_congr fun r hr => (symbol_build_of_fits (h.sound.bound hr) sym).symm
  · exact Option.map_congr fun r hr => (symbol_build_of_fits (h.sound.fits_stagedRecord hr) sym).symm

theorem Shows.withScopes (h : Shows t u) (scope global : ScopeKey) (saved : List ScopeKey) :
    Shows { t with scope := scope, global := global, saved := saved }
      { u with scope := scope, global := global, saved := saved } :=
  ⟨⟨h.sound.handed, h.sound.bound, h.sound.apart⟩, h.bindings, h.staged, rfl, rfl, rfl⟩

theorem Shows.enter (h : Shows t u) (name : Bytes) : Shows (t.enter name) (u.enter name) := by
  have hbuiltins (bs : List Builtin) {t : SharedTable} {u : Table} (h : Shows t u) (root : ScopeKey) :
      Shows (bs.foldl (fun t b => t.store (root.child b.word) (.ofBuiltin b)) t) { u with
        bindings := bs.foldl (fun m b => m.insert (root.child b.word) (.ofBuiltin b)) u.bindings } := by
    induction bs generalizing t u with
    | nil => exact h
    | cons b bs ih => exact ih (h.store _ _)
  unfold SharedTable.enter Table.enter
  dsimp only
  rw [h.global, h.scope, h.saved]
  split
  · exact hbuiltins Builtin.all (h.withScopes name.lower name.lower t.saved) name.lower
  · split
    · exact h.withScopes name.lower t.global t.saved
    · exact h.withScopes (t.scope.child name.lower) t.global t.saved

theorem Shows.bindParameters (h : Shows t u) (line : Int) (ps : List Parameter) :
    Shows (ps.foldl (·.bindParameter line) t) (ps.foldl (·.bindParameter line) u) := by
  induction ps generalizing t u with
  | nil => exact h
  | cons p ps ih =>
    refine ih ?_
    have hmem := h.mem_iff (t.scope.child p.name.lower)
    unfold bindParameter Table.bindParameter
    dsimp only
    rw [h.scope]
    split
    · next hbound => rwa [if_pos (hmem.mpr hbound)]
    · next hfree =>
      rw [if_neg (mt hmem.mp hfree), ← h.scope]
      exact h.store _ _

theorem Shows.discard (h : Shows t u) : Shows { t with staged := none } u.discard :=
  ⟨⟨h.sound.handed, h.sound.bound, fun hr => by cases hr⟩, h.bindings, rfl, h.scope, h.global, h.saved⟩

theorem Shows.commit (h : Shows t u) : Shows t.commit.2 u.commit.2 := by
  have hmem := h.mem_iff t.scope
  unfold SharedTable.commit Table.commit
  rw [h.staged, h.scope]
  cases hr : t.stagedRecord with
  | none => exact h
  | some r =>
    dsimp only [Option.map_some]
    split
    · next hbound =>
      rw [if_pos (hmem.mpr hbound)]
      exact h.discard
    · next hfree =>
      rw [if_neg (mt hmem.mp hfree)]
      refine ⟨⟨h.sound.handed, fun hr' => ?_, fun hr' => by cases hr'⟩, fun key => ?_, rfl, h.scope,
        h.global, h.saved⟩
      · rw [Std.ExtTreeMap.getElem?_insert] at hr'
        split at hr'
        · cases hr'
          exact h.sound.fits_stagedRecord hr
        · exact h.sound.bound hr'
      · dsimp only
        rw [Std.ExtTreeMap.getElem?_insert, Std.ExtTreeMap.getElem?_insert]
        split
        · rfl
        · exact h.bindings key

theorem Shows.stage (h : Shows t u) (sym : Symbol) : Shows (t.perform (.stage sym)) (u.stage sym) := by
  obtain ⟨hsym, hfits⟩ := Record.symbol_build t.memory sym
  have hlength := (edited_build t.memory sym).length
  have hstaged : (t.perform (.stage sym)).stagedRecord = some (Record.build t.memory sym).2 :=
    List.getElem?_concat_length
  refine ⟨⟨fun hr => ?_, fun hr => (h.sound.bound hr).mono hlength, fun hr hr' hc hc' => ?_⟩,
    fun key => (h.bindings key).trans ?_, ?_, h.scope, h.global, h.saved⟩
  · rcases List.mem_append.mp hr with hr | hr
    · exact (h.sound.handed hr).mono hlength
    · rw [List.mem_singleton.mp hr]
      exact hfits
  · cases hstaged.symm.trans hr
    exact Nat.not_lt.mpr (le_of_mem_build hc) ((h.sound.bound hr').below hc')
  · exact Option.map_congr fun r hr => (symbol_build_of_fits (h.sound.bound hr) sym).symm
  · rw [hstaged]
    exact congrArg some hsym.symm

/-- What is done to a table in memory is done to the table that is seen. -/
theorem Shows.perform (h : Shows t u) (a : Table.Action) : Shows (t.perform a) (u.perform a) := by
  cases a with
  | enter name => exact h.enter name
  | exit =>
    unfold Table.perform Table.exit
    rw [h.scope, h.global, h.saved]
    exact h.withScopes t.scope.parent t.global t.saved
  | enterGlobal =>
    unfold Table.perform Table.enterGlobal
    rw [h.scope, h.global, h.saved]
    exact h.withScopes t.global t.global (t.scope :: t.saved)
  | exitGlobal =>
    unfold SharedTable.perform Table.perform Table.exitGlobal
    rw [h.saved, h.global]
    cases t.saved with
    | nil => exact h
    | cons key rest => exact h.withScopes key t.global rest
  | stage sym => exact h.stage sym
  | discard => exact h.discard
  | commit => exact h.commit
  | bindParameters =>
    unfold SharedTable.perform Table.perform Table.bindParameters
    rw [h.staged]
    cases t.stagedRecord with
    | none => exact h
    | some r => exact h.bindParameters r.line (r.parameters t.memory)

end Step

/-! ## Edits -/

section Editing

variable {t : SharedTable} {i : Nat} {e : Edit}

theorem edit_none (hi : t.handed[i]? = none) : t.edit i e = t := by rw [edit, hi]

theorem edit_eq {r : Record} (hr : t.handed[i]? = some r) : t.edit i e =
    { t with memory := (e.apply (t.memory, r)).1, handed := t.handed.set i (e.apply (t.memory, r)).2 } := by
  rw [edit, hr]

/-- Editing what is staged is editing a record that was handed out. -/
theorem exists_edit_of_mutate (t : SharedTable) (e : Edit) :
    ∃ i, t.act (.mutate e) = t.edit i e ∧ t.handed[i]? = t.stagedRecord := by
  unfold act stagedRecord
  cases t.staged with
  | none =>
    have hnone : t.handed[t.handed.length]? = none := List.getElem?_eq_none (Nat.le_refl _)
    exact ⟨t.handed.length, (edit_none hnone).symm, hnone⟩
  | some i => exact ⟨i, rfl, rfl⟩

theorem Sound.edit (h : t.Sound) (i : Nat) (e : Edit) : (t.edit i e).Sound := by
  cases hi : t.handed[i]? with
  | none => rwa [edit_none hi]
  | some r =>
    have hedited := edited_apply (t.memory, r) e
    have hlength := hedited.length
    have hfits := h.handed (List.mem_of_getElem? hi)
    rw [edit_eq hi]
    refine ⟨fun hr => ?_, fun hr => (h.bound hr).mono hlength, fun {r₁ r' key c} hr hr' hc hc' => ?_⟩
    · rcases List.mem_or_eq_of_mem_set hr with hr | rfl
      · exact (h.handed hr).mono hlength
      · exact hedited.fits hfits
    · obtain ⟨j, hj, hset⟩ := Option.bind_eq_some_iff.mp hr
      rw [List.getElem?_set] at hset
      split at hset
      · next hij =>
        subst hij
        split at hset
        · cases hset
          have hstaged : t.stagedRecord = some r := Option.bind_eq_some_iff.mpr ⟨i, hj, hi⟩
          rcases hedited.cells hc with hc | hle
          · exact h.apart hstaged hr' hc hc'
          · exact Nat.not_lt.mpr hle ((h.bound hr').below hc')
        · cases hset
      · exact h.apart (Option.bind_eq_some_iff.mpr ⟨j, hj, hset⟩) hr' hc hc'

end Editing

/-! ## Histories -/

/-- Whether an action enters a scope. -/
def Action.enters (a : Action) : Bool := a.table?.any Table.Action.enters

/-- What is true of a table after every history. -/
structure IsOrderly (t : SharedTable) : Prop where
  sound : t.Sound
  rooted : t.view.IsRooted

section History

variable {t : SharedTable} {a : Action} {actions : List Action}

theorem run_append (t : SharedTable) (before after : List Action) :
    t.run (before ++ after) = (t.run before).run after := List.foldl_append

theorem sound_empty : ({} : SharedTable).Sound :=
  ⟨fun h => absurd h List.not_mem_nil, fun h => by simp at h, fun h => by cases h⟩

/-- An action is one on the table that is seen, or it leaves the scopes and the bound keys alone. -/
theorem Sound.act_cases (h : t.Sound) (a : Action) : (t.act a).Sound ∧
    ((∃ b, a = .table b ∧ (t.act a).view = t.view.perform b) ∨
      a.table? = none ∧ (t.act a).bindings = t.bindings ∧ (t.act a).scope = t.scope ∧
        (t.act a).global = t.global ∧ (t.act a).saved = t.saved) := by
  have hedit (i : Nat) (e : Edit) : (t.edit i e).bindings = t.bindings ∧ (t.edit i e).scope = t.scope ∧
      (t.edit i e).global = t.global ∧ (t.edit i e).saved = t.saved := by
    unfold SharedTable.edit
    split <;> exact ⟨rfl, rfl, rfl, rfl⟩
  cases a with
  | table b => exact ⟨(h.shows.perform b).sound, .inl ⟨b, rfl, (h.shows.perform b).view_eq⟩⟩
  | amend i e => exact ⟨h.edit i e, .inr ⟨rfl, hedit i e⟩⟩
  | mutate e =>
    obtain ⟨i, hact, -⟩ := exists_edit_of_mutate t e
    rw [hact]
    exact ⟨h.edit i e, .inr ⟨rfl, hedit i e⟩⟩

theorem IsOrderly.act (h : t.IsOrderly) (ha : a.IsProper) : (t.act a).IsOrderly := by
  obtain ⟨hsound, ⟨b, rfl, hview⟩ | ⟨-, hbindings, hscope, hglobal, hsaved⟩⟩ := h.sound.act_cases a
  · exact ⟨hsound, hview ▸ h.rooted.perform (ha b rfl)⟩
  · refine ⟨hsound, fun hnil => ?_⟩
    obtain ⟨hscope', hsaved', hbound⟩ := h.rooted (hglobal.symm.trans hnil)
    refine ⟨hscope.trans hscope', fun key hkey => hsaved' key ?_, fun key hkey => hbound key ?_⟩
    · rwa [view, hsaved] at hkey
    · rw [view, Std.ExtTreeMap.mem_map] at hkey ⊢
      rwa [hbindings] at hkey

theorem IsOrderly.run (h : t.IsOrderly) (hproper : ∀ a ∈ actions, a.IsProper) :
    (t.run actions).IsOrderly := by
  induction actions generalizing t with
  | nil => exact h
  | cons a actions ih =>
    rw [List.forall_mem_cons] at hproper
    exact ih (h.act hproper.1) hproper.2

/-- What a history leaves in memory is what it leaves to be seen. -/
theorem shows_run_empty (actions : List Table.Action) :
    Shows (run {} (actions.map .table)) (Table.empty.run actions) := by
  have hrun {t : SharedTable} {u : Table} (h : Shows t u) :
      Shows (t.run (actions.map .table)) (u.run actions) := by
    induction actions generalizing t u with
    | nil => exact h
    | cons a actions ih => exact ih (h.perform a)
  exact hrun ⟨sound_empty, fun key => by simp [Table.empty], rfl, rfl, rfl, rfl⟩

end History

end SharedTable

end OnePass
