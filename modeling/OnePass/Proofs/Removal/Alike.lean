import OnePass.Proofs.Translation.Program
set_option autoImplicit false

/-!
# Declarations over different bindings

What declarations add to the code depends on the bindings before them only in which of their keys are
bound, and on the numbers of their lines not at all.  So declarations add the same lines over two
bindings, of which the first ones hold further keys `K`, if no variable and no procedure among them has
a key in `K` (`elaborate_alike`).  Parameters may have such keys, for they are not emitted by their keys.
-/

namespace OnePass.Tree

/-! ## Trees without numbers of lines -/

/-- A name without the number of its line. -/
def Name.unlined (n : Name) : Name := { n with line := 0 }

/-- A variable without the number of its line. -/
def Variable.unlined (v : Variable) : Variable := { v with name := v.name.unlined }

/-- A parameter without the number of its line. -/
def Formal.unlined (f : Formal) : Formal := { f with name := f.name.unlined }

/-- A heading without the numbers of its lines. -/
def Heading.unlined (h : Heading) : Heading :=
  { h with name := h.name.unlined, formals := h.formals.map Formal.unlined }

/-- Declarations without the numbers of their lines. -/
def Declarations.unlined : Declarations → Declarations
  | .nil => .nil
  | .variableDecl v rest => .variableDecl v.unlined rest.unlined
  | .procedureDecl h inner body rest => .procedureDecl h.unlined inner.unlined body rest.unlined

/-- A program without the numbers of its lines. -/
def unlined (t : Tree) : Tree := ⟨t.name.unlined, t.declarations.unlined, t.statements⟩

section Unlined

variable {h : Heading} {key : ScopeKey}

theorem Variable.declaration_unlined (v : Variable) (name : Bytes) :
    Ir.declaration name v.unlined.symbol = Ir.declaration name v.symbol := rfl

theorem Heading.map_emitted_unlined :
    h.unlined.formals.map Formal.emitted = h.formals.map Formal.emitted := by
  rw [Heading.unlined, List.map_map]
  rfl

theorem Heading.keys_unlined : h.unlined.keys key = h.keys key := by
  rw [Heading.keys, Heading.keys, Heading.unlined, List.map_map]
  rfl

theorem Heading.unit_unlined (ls : List Ir.Line) : h.unlined.unit key ls = h.unit key ls := by
  rw [Heading.unit, Heading.unit, Heading.map_emitted_unlined]

end Unlined

/-! ## Declared keys -/

/-- The keys of variables and procedures, those inside of procedures included. -/
def Declarations.declared (root : ScopeKey) : Declarations → ScopeKey → List ScopeKey
  | .nil, _ => []
  | .variableDecl v rest, scope => v.key root scope :: rest.declared root scope
  | .procedureDecl h inner _ rest, scope =>
    let key := h.key root scope
    key :: (inner.declared root key ++ rest.declared root scope)

/-! ## Two runs of declarations -/

/-- Whether the first bindings hold the second ones and besides the keys in `K`. -/
def Beyond (K : ScopeKey → Prop) (e e' : Env) : Prop :=
  ∀ k, k ∈ e.bindings ↔ k ∈ e'.bindings ∨ K k

/-- Whether lines are all that was added to the code, with whatever bindings. -/
def Adds (e e₁ : Env) (globals units locals : List Ir.Line) : Prop :=
  ∃ keys, Added e e₁ globals units locals keys

/-- Whether the same lines were added to `e` and to `e'`, and the first bindings still hold the keys in
`K` besides the second ones. -/
structure Alike (K : ScopeKey → Prop) (e e₁ e' e₁' : Env) (globals units locals : List Ir.Line) :
    Prop where
  first : Adds e e₁ globals units locals
  second : Adds e' e₁' globals units locals
  beyond : Beyond K e₁ e₁'

section Alike

variable {K : ScopeKey → Prop} {e e₁ e₂ e' e₁' e₂' : Env} {gs gs' us us' ls ls' : List Ir.Line}
  {key : ScopeKey}

theorem Adds.refl (e : Env) : Adds e e [] [] [] := ⟨[], .refl e⟩

theorem Adds.trans (h : Adds e e₁ gs us ls) (h' : Adds e₁ e₂ gs' us' ls') :
    Adds e e₂ (gs ++ gs') (us ++ us') (ls ++ ls') := by
  obtain ⟨ks, hks⟩ := h
  obtain ⟨ks', hks'⟩ := h'
  exact ⟨ks ++ ks', hks.trans hks'⟩

theorem Alike.trans (h : Alike K e e₁ e' e₁' gs us ls) (h' : Alike K e₁ e₂ e₁' e₂' gs' us' ls') :
    Alike K e e₂ e' e₂' (gs ++ gs') (us ++ us') (ls ++ ls') :=
  ⟨h.first.trans h'.first, h.second.trans h'.second, h'.beyond⟩

theorem Beyond.mem_iff (h : Beyond K e e') (hkey : ¬K key) : key ∈ e.bindings ↔ key ∈ e'.bindings := by
  rw [h key]
  exact or_iff_left hkey

/-- Both bindings get the same keys. -/
theorem Beyond.of_added {ks : List ScopeKey} (h : Beyond K e e') (h₁ : Added e e₁ gs us ls ks)
    (h₁' : Added e' e₁' gs' us' ls' ks) : Beyond K e₁ e₁' := by
  intro k
  rw [h₁.bindings, h₁'.bindings, h k, or_right_comm]

theorem Variable.elaborate_alike (v : Variable) (h : Beyond K e e') (hkey : ¬K key) :
    ∃ gs ls, Alike K e (v.elaborate key e) e' (v.unlined.elaborate key e') gs [] ls := by
  have hsame := h.mem_iff hkey
  rw [Variable.elaborate, Variable.elaborate, v.declaration_unlined]
  cases Ir.declaration key.irName v.symbol with
  | error _ => exact ⟨[], [], .refl e, .refl e', h⟩
  | ok line =>
    by_cases hbound : key ∈ e.bindings
    · dsimp only
      rw [if_pos hbound, if_pos (hsame.mp hbound)]
      exact ⟨[], [], .refl e, .refl e', h⟩
    · dsimp only
      rw [if_neg hbound, if_neg fun hbound' => hbound (hsame.mpr hbound')]
      have hfirst := added_line e key v.symbol v.global line
      have hsecond := added_line e' key v.unlined.symbol v.global line
      exact ⟨_, _, ⟨_, hfirst⟩, ⟨_, hsecond⟩, h.of_added hfirst hsecond⟩

theorem Heading.enter_beyond (h : Heading) (hbeyond : Beyond K e e') :
    Beyond K (h.enter key e) (h.unlined.enter key e') := by
  intro k
  rw [Heading.mem_enter, Heading.mem_enter, Heading.keys_unlined, hbeyond k, or_right_comm]

theorem Heading.exit_adds (h : Heading) {inside : Env} (hinside : Adds (h.enter key e) inside gs us ls) :
    Adds e (h.exit key e inside) gs (us ++ h.ownUnit key e.bindings ls) [] := by
  obtain ⟨ks, hks⟩ := hinside
  exact ⟨_, h.exit_added key e hks⟩

/-- A procedure is kept over both bindings or dropped over both. -/
theorem Heading.ownUnit_unlined (h : Heading) (hbeyond : Beyond K e e') (hkey : ¬K key) :
    h.unlined.ownUnit key e'.bindings ls = h.ownUnit key e.bindings ls := by
  have hformals : h.unlined.formals.map (fun f => key.child f.name.lower) =
      h.formals.map fun f => key.child f.name.lower := by
    rw [Heading.unlined, List.map_map]
    rfl
  have hsame : key ∈ h.unlined.bindFormals key e'.bindings ↔ key ∈ h.bindFormals key e.bindings := by
    rw [mem_bindFormals, mem_bindFormals, hformals, hbeyond.mem_iff hkey]
  rw [Heading.ownUnit, Heading.ownUnit, Heading.unit_unlined]
  simp only [hsame]

/-- What is inside of a procedure is added alike, and then the procedure itself. -/
theorem Heading.exit_alike (h : Heading) (hbeyond : Beyond K e e') (hkey : ¬K key) {inside inside' : Env}
    (hinside : Alike K (h.enter key e) inside (h.unlined.enter key e') inside' gs us ls) :
    Alike K e (h.exit key e inside) e' (h.unlined.exit key e' inside') gs
      (us ++ h.ownUnit key e.bindings ls) [] := by
  refine ⟨h.exit_adds hinside.first, ?_, hinside.beyond⟩
  rw [← h.ownUnit_unlined hbeyond hkey]
  exact h.unlined.exit_adds hinside.second

/-- Declarations add the same lines over both bindings. -/
theorem elaborate_alike (root scope : ScopeKey) (ds : Declarations) (hbeyond : Beyond K e e')
    (hds : ∀ key ∈ ds.declared root scope, ¬K key) :
    ∃ gs us ls, Alike K e (ds.elaborate root scope e) e' (ds.unlined.elaborate root scope e') gs us ls := by
  induction ds generalizing scope e e' with
  | nil => exact ⟨[], [], [], .refl e, .refl e', hbeyond⟩
  | variableDecl v rest ih =>
    obtain ⟨hkey, hrest⟩ := List.forall_mem_cons.mp hds
    obtain ⟨gs, ls, hv⟩ := v.elaborate_alike hbeyond hkey
    obtain ⟨gs', us', ls', hmore⟩ := ih scope hv.beyond hrest
    exact ⟨_, _, _, hv.trans hmore⟩
  | procedureDecl h inner body rest ihInner ihRest =>
    obtain ⟨hkey, hothers⟩ := List.forall_mem_cons.mp hds
    obtain ⟨hinner, hrest⟩ := List.forall_mem_append.mp hothers
    obtain ⟨gs, us, ls, hinside⟩ := ihInner (h.key root scope) (h.enter_beyond hbeyond) hinner
    have hprocedure := h.exit_alike hbeyond hkey hinside
    obtain ⟨gs', us', ls', hmore⟩ := ihRest scope hprocedure.beyond hrest
    exact ⟨_, _, _, hprocedure.trans hmore⟩

end Alike

/-! ## Programs -/

theorem Adds.emitted {m : Bindings} {target : Target} {e : Env} {gs us ls : List Ir.Line}
    (h : Adds ⟨m, (Ir.Builder.new target).openProgram⟩ e gs us ls) :
    Program.emitted e.builder =
      gs ++ [.blank] ++ us ++ .main :: (ls ++ [.blank, .returnZero, .close]) := by
  obtain ⟨ks, hks⟩ := h
  exact hks.emitted

theorem start_beyond (t : Tree) (b : Ir.Builder) :
    Beyond (fun _ => False) ⟨t.start, b⟩ ⟨t.unlined.start, b⟩ := by
  intro key
  have hname : t.unlined.name.lower = t.name.lower := rfl
  simp only [Tree.start, hname, Std.ExtTreeMap.mem_insert, or_false]

/-- The code of a program does not depend on the numbers of its lines. -/
theorem emitted_unlined (t : Tree) (target : Target) :
    Program.emitted (t.unlined.elaborate (.new target)).builder =
      Program.emitted (t.elaborate (.new target)).builder := by
  obtain ⟨gs, us, ls, halike⟩ := elaborate_alike t.name.lower t.name.lower t.declarations
    (start_beyond t (Ir.Builder.new target).openProgram) (fun _ _ => id)
  rw [Tree.elaborate, Tree.elaborate, halike.first.emitted]
  exact halike.second.emitted

end OnePass.Tree
