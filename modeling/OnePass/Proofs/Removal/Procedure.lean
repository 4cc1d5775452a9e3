import OnePass.Proofs.Removal.Alike
import OnePass.Proofs.Scoping.Basic
set_option autoImplicit false

/-!
# Procedures that are declared a second time

A procedure whose key is bound already is dropped from the code, but what is declared in it is bound as
ever.  So its own function and its variables are gone, while the global variables and the procedures
inside of it stay.  The code of a program is that of the program without the procedure, with these lines
added in two places, as long as nothing behind the procedure is kept from being bound by what it binds
(`lines_without_duplicate`).
-/

namespace OnePass.Tree

open OnePass.Program (Entry Included included_insertNew getElem?_insertNew insertNew)

/-! ## What is bound and what is emitted -/

/-- Whether bindings were only added to, and lines outside of the current function were added exactly if
a global variable or a procedure was bound. -/
structure Gains (e e₁ : Env) (globals units : List Ir.Line) : Prop where
  included : Included e.bindings e₁.bindings
  emitted : globals ++ units = [] ↔ ∀ (key : ScopeKey) sym, e.bindings[key]? = none →
    e₁.bindings[key]? = some sym → Entry.isEmitted (key, sym) = false

section Gains

variable {e e₁ e₂ : Env} {gs gs' us us' : List Ir.Line} {key : ScopeKey}

theorem Gains.refl (e : Env) : Gains e e [] [] where
  included _ _ h := h
  emitted := by
    refine ⟨fun _ key sym hnone hsome => ?_, fun _ => rfl⟩
    rw [hnone] at hsome
    cases hsome

theorem Gains.trans (h : Gains e e₁ gs us) (h' : Gains e₁ e₂ gs' us') :
    Gains e e₂ (gs ++ gs') (us ++ us') where
  included := h.included.trans h'.included
  emitted := by
    have hsplit : gs ++ gs' ++ (us ++ us') = [] ↔ gs ++ us = [] ∧ gs' ++ us' = [] := by
      simp only [List.append_eq_nil_iff]
      exact and_and_and_comm
    rw [hsplit, h.emitted, h'.emitted]
    constructor
    · rintro ⟨hfirst, hsecond⟩ key sym hnone hsome
      cases hmiddle : e₁.bindings[key]? with
      | none => exact hsecond key sym hmiddle hsome
      | some sym' =>
        have hkept := h'.included key sym' hmiddle
        rw [hsome] at hkept
        cases hkept
        exact hfirst key sym hnone hmiddle
    · intro hall
      refine ⟨fun key sym hnone hsome => hall key sym hnone (h'.included key sym hsome), ?_⟩
      intro key sym hnone hsome
      refine hall key sym ?_ hsome
      cases hbefore : e.bindings[key]? with
      | none => rfl
      | some sym' =>
        rw [h.included key sym' hbefore] at hnone
        cases hnone

/-- A key that gets bound to a symbol, and a line if the symbol is one that is emitted. -/
theorem gains_insert {sym : Symbol} {b : Ir.Builder} (hkey : key ∉ e.bindings)
    (hlines : gs ++ us = [] ↔ Entry.isEmitted (key, sym) = false) :
    Gains e ⟨e.bindings.insert key sym, b⟩ gs us := by
  have hinsert : e.bindings.insert key sym = insertNew e.bindings key sym := (if_neg hkey).symm
  rw [hinsert]
  refine ⟨included_insertNew, hlines.trans ?_⟩
  constructor
  · intro hsilent other sym' hnone hsome
    rw [getElem?_insertNew, hnone, Option.none_or] at hsome
    split at hsome
    · next heq =>
      cases hsome
      rw [← heq]
      exact hsilent
    · cases hsome
  · intro hall
    refine hall key sym (Std.ExtTreeMap.getElem?_eq_none hkey) ?_
    rw [getElem?_insertNew, Std.ExtTreeMap.getElem?_eq_none hkey, if_pos rfl, Option.none_or]

theorem Variable.isEmitted_symbol (v : Variable) : Entry.isEmitted (key, v.symbol) = v.global := by
  simp [Entry.isEmitted, Entry.isVariable, Entry.isProcedure, Variable.symbol, Kind.isScalar]

theorem Variable.elaborate_gains (v : Variable) (key : ScopeKey) (e : Env) :
    ∃ gs ls, Adds e (v.elaborate key e) gs [] ls ∧ Gains e (v.elaborate key e) gs [] := by
  rw [Variable.elaborate]
  cases Ir.declaration key.irName v.symbol with
  | error _ => exact ⟨[], [], .refl e, .refl e⟩
  | ok line =>
    dsimp only
    split
    · exact ⟨[], [], .refl e, .refl e⟩
    · next hkey =>
      refine ⟨_, _, ⟨_, added_line e key v.symbol v.global line⟩, gains_insert hkey ?_⟩
      rw [v.isEmitted_symbol]
      cases v.global <;> simp

/-- Parameters are bound, and nothing is emitted for them. -/
theorem Heading.bindFormals_gains (h : Heading) (key : ScopeKey) (e : Env) (b : Ir.Builder) :
    Gains e ⟨h.bindFormals key e.bindings, b⟩ [] [] := by
  have hfold (fs : List Formal) (m : Bindings) :
      Gains ⟨m, b⟩ ⟨fs.foldl (bindFormal key h.name.line) m, b⟩ [] [] := by
    induction fs generalizing m with
    | nil => exact .refl _
    | cons f fs ih =>
      have hone : Gains ⟨m, b⟩ ⟨bindFormal key h.name.line m f, b⟩ [] [] := by
        unfold bindFormal
        split
        · exact .refl _
        · next hkey => exact gains_insert hkey ⟨fun _ => rfl, fun _ => rfl⟩
      exact hone.trans (ih _)
  exact ⟨(hfold h.formals e.bindings).included, (hfold h.formals e.bindings).emitted⟩

/-- A procedure gains what is gained inside of it, and its own function if its key is new. -/
theorem Heading.exit_gains (h : Heading) {inside : Env} (hinside : Gains (h.enter key e) inside gs us)
    (ls : List Ir.Line) :
    Gains e (h.exit key e inside) gs (us ++ h.ownUnit key e.bindings ls) := by
  have hformals := h.bindFormals_gains key e (h.enter key e).builder
  by_cases hbound : key ∈ h.bindFormals key e.bindings
  · have henter : h.enter key e = ⟨h.bindFormals key e.bindings, (h.enter key e).builder⟩ := by
      rw [Heading.enter, if_pos hbound]
    rw [henter] at hinside
    have hall := hformals.trans hinside
    rw [Heading.ownUnit, if_pos hbound, List.append_nil]
    exact ⟨hall.included, hall.emitted⟩
  · have henter : h.enter key e =
        ⟨(h.bindFormals key e.bindings).insert key h.symbol, (h.enter key e).builder⟩ := by
      rw [Heading.enter, if_neg hbound]
    have hown : Gains ⟨h.bindFormals key e.bindings, (h.enter key e).builder⟩ (h.enter key e) []
        (h.ownUnit key e.bindings ls) := by
      rw [henter]
      refine gains_insert hbound ?_
      rw [Heading.ownUnit, if_neg hbound]
      simp [Heading.unit, Entry.isEmitted, Entry.isProcedure, Heading.symbol]
    have hall := hformals.trans (hown.trans hinside)
    refine ⟨hall.included, Iff.trans ?_ hall.emitted⟩
    simp only [List.nil_append, List.append_eq_nil_iff, and_comm (a := us = [])]

theorem elaborate_gains (root scope : ScopeKey) (ds : Declarations) (e : Env) :
    ∃ gs us ls, Adds e (ds.elaborate root scope e) gs us ls ∧
      Gains e (ds.elaborate root scope e) gs us := by
  induction ds generalizing scope e with
  | nil => exact ⟨[], [], [], .refl e, .refl e⟩
  | variableDecl v rest ih =>
    obtain ⟨gs, ls, hadds, hgains⟩ := v.elaborate_gains (v.key root scope) e
    obtain ⟨gs', us', ls', hadds', hgains'⟩ := ih scope (v.elaborate (v.key root scope) e)
    exact ⟨_, _, _, hadds.trans hadds', hgains.trans hgains'⟩
  | procedureDecl h inner body rest ihInner ihRest =>
    obtain ⟨gs, us, ls, hadds, hgains⟩ := ihInner (h.key root scope) (h.enter (h.key root scope) e)
    obtain ⟨gs', us', ls', hadds', hgains'⟩ := ihRest scope (h.exit (h.key root scope) e
      (inner.elaborate root (h.key root scope) (h.enter (h.key root scope) e)))
    exact ⟨_, _, _, (h.exit_adds hadds).trans hadds', (h.exit_gains hgains ls).trans hgains'⟩

end Gains

/-! ## Declarations with a hole -/

/-- The effect of declaring a procedure in a scope. -/
def Heading.declare (h : Heading) (root scope : ScopeKey) (inner : Declarations) (e : Env) : Env :=
  let key := h.key root scope
  h.exit key e (inner.elaborate root key (h.enter key e))

/-- Declarations with a hole in them, where further ones can stand. -/
inductive Hole where
  /-- the hole, and what follows it in its scope -/
  | here (rest : Declarations)
  | behindVariable (v : Variable) (hole : Hole)
  | behindProcedure (h : Heading) (inner : Declarations) (body : Statements) (hole : Hole)
  | inside (h : Heading) (hole : Hole) (body : Statements) (rest : Declarations)

namespace Hole

/-- The declarations, with something in the hole in front of what follows. -/
def fill (put : Declarations → Declarations) : Hole → Declarations
  | .here rest => put rest
  | .behindVariable v hole => .variableDecl v (hole.fill put)
  | .behindProcedure h inner body hole => .procedureDecl h inner body (hole.fill put)
  | .inside h hole body rest => .procedureDecl h (hole.fill put) body rest

/-- The scope that the hole is in. -/
def scope (root : ScopeKey) : Hole → ScopeKey → ScopeKey
  | .here _, scope => scope
  | .behindVariable _ hole, scope => hole.scope root scope
  | .behindProcedure _ _ _ hole, scope => hole.scope root scope
  | .inside h hole _ _, scope => hole.scope root (h.key root scope)

/-- What there is when the hole is reached. -/
def env (root : ScopeKey) : Hole → ScopeKey → Env → Env
  | .here _, _, e => e
  | .behindVariable v hole, scope, e => hole.env root scope (v.elaborate (v.key root scope) e)
  | .behindProcedure h inner _ hole, scope, e =>
    hole.env root scope (h.declare root scope inner e)
  | .inside h hole _ _, scope, e => hole.env root (h.key root scope) (h.enter (h.key root scope) e)

/-- The keys of variables and procedures that are declared behind the hole. -/
def later (root : ScopeKey) : Hole → ScopeKey → List ScopeKey
  | .here rest, scope => rest.declared root scope
  | .behindVariable _ hole, scope => hole.later root scope
  | .behindProcedure _ _ _ hole, scope => hole.later root scope
  | .inside h hole _ rest, scope => hole.later root (h.key root scope) ++ rest.declared root scope

end Hole

/-! ## Two runs that differ in a procedure -/

/-- Whether the lines that were added to `e` are those that were added to `e'`, with further lines of
global variables and of procedures among them; and the first bindings hold the keys in `K` besides the
second ones. -/
def Apart (K : ScopeKey → Prop) (e e₁ e' e₁' : Env) (globals units : List Ir.Line) : Prop :=
  ∃ gs gs' us us' ls,
    Adds e e₁ (gs ++ globals ++ gs') (us ++ units ++ us') ls ∧
    Adds e' e₁' (gs ++ gs') (us ++ us') ls ∧ Beyond K e₁ e₁'

section Apart

variable {K : ScopeKey → Prop} {e e₁ e₂ e' e₁' e₂' : Env} {globals units gs us ls : List Ir.Line}
  {root scope key : ScopeKey}

theorem Apart.beyond (h : Apart K e e₁ e' e₁' globals units) : Beyond K e₁ e₁' := by
  obtain ⟨gs, gs', us, us', ls, -, -, hbeyond⟩ := h
  exact hbeyond

/-- Two runs that are the same at first. -/
theorem Alike.apart {L : ScopeKey → Prop} (h : Alike L e e₁ e' e₁' gs us ls)
    (h' : Apart K e₁ e₂ e₁' e₂' globals units) : Apart K e e₂ e' e₂' globals units := by
  obtain ⟨gs₁, gs₂, us₁, us₂, ls', hfirst, hsecond, hbeyond⟩ := h'
  refine ⟨gs ++ gs₁, gs₂, us ++ us₁, us₂, ls ++ ls', ?_, ?_, hbeyond⟩
  · have hall := h.first.trans hfirst
    simp only [← List.append_assoc] at hall
    exact hall
  · have hall := h.second.trans hsecond
    simp only [← List.append_assoc] at hall
    exact hall

/-- Two runs that are the same from some point on. -/
theorem Apart.alike (h : Apart K e e₁ e' e₁' globals units) (h' : Alike K e₁ e₂ e₁' e₂' gs us ls) :
    Apart K e e₂ e' e₂' globals units := by
  obtain ⟨gs₁, gs₂, us₁, us₂, ls', hfirst, hsecond, -⟩ := h
  refine ⟨gs₁, gs₂ ++ gs, us₁, us₂ ++ us, ls' ++ ls, ?_, ?_, h'.beyond⟩
  · have hall := hfirst.trans h'.first
    simp only [List.append_assoc] at hall ⊢
    exact hall
  · have hall := hsecond.trans h'.second
    simp only [List.append_assoc] at hall ⊢
    exact hall

/-- Two runs that differ inside of a procedure. -/
theorem Heading.exit_apart (h : Heading) (hsame : Beyond (fun _ => False) e e') {inside inside' : Env}
    (hinside : Apart K (h.enter key e) inside (h.unlined.enter key e') inside' globals units) :
    Apart K e (h.exit key e inside) e' (h.unlined.exit key e' inside') globals units := by
  obtain ⟨gs, gs', us, us', ls, hfirst, hsecond, hbeyond⟩ := hinside
  refine ⟨gs, gs', us, us' ++ h.ownUnit key e.bindings ls, [], ?_, ?_, hbeyond⟩
  · have hexit := h.exit_adds hfirst
    simp only [List.append_assoc] at hexit ⊢
    exact hexit
  · have hexit := h.unlined.exit_adds hsecond
    rw [h.ownUnit_unlined hsame id] at hexit
    simp only [List.append_assoc] at hexit ⊢
    exact hexit

/-- Declarations with a procedure in the hole, next to the same ones without it. -/
theorem Hole.elaborate_apart (hole : Hole) (h : Heading) (inner : Declarations) (body : Statements)
    (hsame : Beyond (fun _ => False) e e')
    (hadds : Adds (hole.env root scope e)
      (h.declare root (hole.scope root scope) inner (hole.env root scope e)) globals units [])
    (hlater : ∀ key ∈ hole.later root scope,
      key ∈ (h.declare root (hole.scope root scope) inner (hole.env root scope e)).bindings →
        key ∈ (hole.env root scope e).bindings) :
    Apart (fun key =>
        key ∈ (h.declare root (hole.scope root scope) inner (hole.env root scope e)).bindings ∧
          key ∉ (hole.env root scope e).bindings)
      e ((hole.fill (.procedureDecl h inner body)).elaborate root scope e)
      e' ((hole.fill id).unlined.elaborate root scope e') globals units := by
  have hunbound {before after : Env} {ks : List ScopeKey}
      (hks : ∀ key ∈ ks, key ∈ after.bindings → key ∈ before.bindings) :
      ∀ key ∈ ks, ¬(key ∈ after.bindings ∧ key ∉ before.bindings) :=
    fun key hkey hnew => hnew.2 (hks key hkey hnew.1)
  induction hole generalizing scope e e' with
  | here rest =>
    obtain ⟨ks, hadded⟩ := hadds
    -- From here on, the keys that the procedure binds are there in one run only.
    have hbeyond : Beyond (fun key => key ∈ (h.declare root scope inner e).bindings ∧
        key ∉ e.bindings) (h.declare root scope inner e) e' := by
      intro key
      rw [← hsame.mem_iff id]
      constructor
      · intro hkey
        by_cases hbefore : key ∈ e.bindings
        · exact .inl hbefore
        · exact .inr ⟨hkey, hbefore⟩
      · rintro (hbefore | hnew)
        · exact (hadded.bindings key).mpr (.inl hbefore)
        · exact hnew.1
    obtain ⟨gs, us, ls, hrest⟩ := elaborate_alike root scope rest hbeyond (hunbound hlater)
    exact ⟨[], gs, [], us, ls, Adds.trans ⟨ks, hadded⟩ hrest.first, hrest.second, hrest.beyond⟩
  | behindVariable v hole ih =>
    obtain ⟨gs, ls, hv⟩ := v.elaborate_alike hsame id
    exact hv.apart (ih hv.beyond hadds hlater)
  | behindProcedure h' inner' body' hole ih =>
    obtain ⟨gs, us, ls, hinside⟩ := elaborate_alike root (h'.key root scope) inner'
      (h'.enter_beyond hsame) (fun _ _ => id)
    have hprocedure := h'.exit_alike hsame id hinside
    exact hprocedure.apart (ih hprocedure.beyond hadds hlater)
  | inside h' hole body' rest ih =>
    obtain ⟨hinner, hrest⟩ := List.forall_mem_append.mp hlater
    have hprocedure := h'.exit_apart hsame (ih (h'.enter_beyond hsame) hadds hinner)
    obtain ⟨gs, us, ls, hmore⟩ := elaborate_alike root scope rest hprocedure.beyond (hunbound hrest)
    exact hprocedure.alike hmore

end Apart

/-! ## Programs -/

/-- A program, and one of the procedures that are declared in it. -/
structure Selection where
  name : Name
  hole : Hole
  heading : Heading
  inner : Declarations
  body : Statements
  statements : Statements

namespace Selection

variable (c : Selection)

/-- The program. -/
def tree : Tree := ⟨c.name, c.hole.fill (.procedureDecl c.heading c.inner c.body), c.statements⟩

/-- The program without the procedure, and without the semicolon behind it. -/
def rest : Tree := ⟨c.name, c.hole.fill id, c.statements⟩

/-- The scope that the procedure is declared in. -/
def scope : ScopeKey := c.hole.scope c.name.lower c.name.lower

/-- The key of the procedure. -/
def key : ScopeKey := c.heading.key c.name.lower c.scope

/-- What there is in front of the procedure. -/
def before (target : Target) : Env :=
  c.hole.env c.name.lower c.name.lower ⟨c.tree.start, (Ir.Builder.new target).openProgram⟩

/-- What there is behind the procedure. -/
def after (target : Target) : Env :=
  c.heading.declare c.name.lower c.scope c.inner (c.before target)

/-- The keys of variables and procedures that are declared behind the procedure. -/
def later : List ScopeKey := c.hole.later c.name.lower c.name.lower

/-- Whether nothing of what gets bound with the procedure is a global variable or a procedure. -/
def BindsOnlyLocals (target : Target) : Prop :=
  ∀ (key : ScopeKey) sym, (c.before target).bindings[key]? = none →
    (c.after target).bindings[key]? = some sym → Entry.isEmitted (key, sym) = false

/-- The code of the program next to that without the procedure, if the key of the procedure is bound
in front of it. -/
theorem emitted_eq (target : Target) (hbound : c.key ∈ (c.before target).bindings)
    (hlater : ∀ key ∈ c.later, key ∈ (c.after target).bindings → key ∈ (c.before target).bindings) :
    ∃ front globals middle units back,
      Program.emitted (c.tree.elaborate (.new target)).builder =
        front ++ globals ++ middle ++ units ++ back ∧
      Program.emitted (c.rest.unlined.elaborate (.new target)).builder = front ++ middle ++ back ∧
      (globals ++ units = [] ↔ c.BindsOnlyLocals target) := by
  obtain ⟨globals, units, ls, hadds, hgains⟩ := elaborate_gains c.name.lower c.key c.inner
    (c.heading.enter c.key (c.before target))
  -- The function of the procedure itself is dropped.
  have hdropped : c.heading.ownUnit c.key (c.before target).bindings ls = [] :=
    if_pos (mem_bindFormals.mpr (.inl hbound))
  have hprocedure := c.heading.exit_adds hadds
  have hemitted := (c.heading.exit_gains hgains ls).emitted
  rw [hdropped, List.append_nil] at hprocedure hemitted
  obtain ⟨gs, gs', us, us', ls', hwith, hwithout, -⟩ := c.hole.elaborate_apart c.heading c.inner c.body
    (start_beyond c.tree (Ir.Builder.new target).openProgram) hprocedure hlater
  refine ⟨gs, globals, gs' ++ .blank :: us, units,
    us' ++ .main :: (ls' ++ [.blank, .returnZero, .close]), ?_, ?_, hemitted⟩
  · refine (Adds.emitted hwith).trans ?_
    simp
  · refine (Adds.emitted hwithout).trans ?_
    simp

end Selection

end OnePass.Tree

namespace OnePass.Program

open OnePass.Tree

/-- **A procedure whose key is bound.**  Two sources are given, of a program and of the same program
without one of its procedures, the numbers of lines apart.  If the key of the procedure is bound in front
of it, and if no variable and no procedure behind it has a key that it binds, both sources are recognised,
and the code of the first one is that of the second one with lines added in two places.  None are added
exactly if the procedure binds no global variable and no procedure. -/
theorem lines_without_duplicate (c : Selection) (other : Tree) (file source source' : Bytes)
    (target : Target) (htokens : Shows c.tree.slots (TokenStream.ofSource source).tokens [])
    (htokens' : Shows other.slots (TokenStream.ofSource source').tokens [])
    (hother : other.unlined = c.rest.unlined) (hbound : c.key ∈ (c.before target).bindings)
    (hlater : ∀ key ∈ c.later, key ∈ (c.after target).bindings → key ∈ (c.before target).bindings) :
    ∃ p p', (parse file source .empty (.new target)).result = .ok p ∧
      (parse file source' .empty (.new target)).result = .ok p' ∧
      (p.lines = p'.lines ↔ c.BindsOnlyLocals target) ∧
      ∃ front globals middle units back,
        p.lines = front ++ globals ++ middle ++ units ++ back ∧ p'.lines = front ++ middle ++ back := by
  obtain ⟨front, globals, middle, units, back, hwith, hwithout, hiff⟩ :=
    c.emitted_eq target hbound hlater
  rw [← hother, emitted_unlined] at hwithout
  have hparse := parse_tree c.tree file source target htokens
  have hparse' := parse_tree other file source' target htokens'
  rw [hwith] at hparse
  rw [hwithout] at hparse'
  generalize Ir.Line.render target.pointers = render at hparse hparse'
  refine ⟨_, _, hparse, hparse', ?_, front.map render, globals.map render, middle.map render,
    units.map render, back.map render, by simp, by simp⟩
  rw [← hiff]
  constructor
  · intro heq
    have hlength := congrArg List.length heq
    simp only [List.length_map, List.length_append] at hlength
    rw [List.append_eq_nil_iff, ← List.length_eq_zero_iff, ← List.length_eq_zero_iff]
    omega
  · intro hnone
    rw [List.append_eq_nil_iff] at hnone
    rw [hnone.1, hnone.2, List.append_nil, List.append_nil]

/-- A program in which a procedure is declared a second time inside of another one, with a variable and a
parameter of its own, and with a variable behind it. -/
def repeatedSource : Bytes :=
  text "program m is procedure f(integer x in)
      procedure h() begin end procedure;
      procedure H(bool y out) integer i; begin i := 1; end procedure;
      float v; begin end procedure;
    integer i; begin end program."

/-- The program without the second declaration. -/
def unrepeatedSource : Bytes :=
  text "program m is procedure f(integer x in)
      procedure h() begin end procedure; float v; begin end procedure;
    integer i; begin end program."

/-- The program, and the second declaration in it. -/
def repeatedSelection : Selection where
  name := ⟨text "m", 1, by decide⟩
  hole := .inside ⟨false, ⟨text "f", 1, by decide⟩, [⟨.integer, ⟨text "x", 1, by decide⟩, .single, .input⟩],
      false⟩
    (.behindProcedure ⟨false, ⟨text "h", 2, by decide⟩, [], false⟩ .nil ⟨0, [], .nil⟩
      (.here (.variableDecl ⟨false, .float, ⟨text "v", 4, by decide⟩, .single⟩ .nil)))
    ⟨0, [], .nil⟩ (.variableDecl ⟨false, .integer, ⟨text "i", 5, by decide⟩, .single⟩ .nil)
  heading := ⟨false, ⟨text "H", 3, by decide⟩, [⟨.bool, ⟨text "y", 3, by decide⟩, .single, .output⟩], false⟩
  inner := .variableDecl ⟨false, .integer, ⟨text "i", 3, by decide⟩, .single⟩ .nil
  body := nestedStatement .integer
  statements := ⟨0, [], .nil⟩

/-- The tree of the program without the second declaration. -/
def unrepeatedTree : Tree where
  name := ⟨text "m", 1, by decide⟩
  declarations :=
    .procedureDecl ⟨false, ⟨text "f", 1, by decide⟩,
        [⟨.integer, ⟨text "x", 1, by decide⟩, .single, .input⟩], false⟩
      (.procedureDecl ⟨false, ⟨text "h", 2, by decide⟩, [], false⟩ .nil ⟨0, [], .nil⟩ <|
        .variableDecl ⟨false, .float, ⟨text "v", 2, by decide⟩, .single⟩ .nil) ⟨0, [], .nil⟩ <|
    .variableDecl ⟨false, .integer, ⟨text "i", 3, by decide⟩, .single⟩ .nil
  statements := ⟨0, [], .nil⟩

/-- The second declaration binds only a parameter and a variable of its own, and so the code is the same
without it. -/
theorem repeatedSource_lines :
    repeatedSelection.key = text "m.f.h" ∧
      ∃ p p', (parse [] repeatedSource .empty (.new .standard)).result = .ok p ∧
        (parse [] unrepeatedSource .empty (.new .standard)).result = .ok p' ∧
        p.lines = p'.lines ∧ repeatedSelection.BindsOnlyLocals .standard := by
  obtain ⟨htokens, htokens', hbound, hlater, hkey, hlines⟩ :
      Shows repeatedSelection.tree.slots (TokenStream.ofSource repeatedSource).tokens [] ∧
      Shows unrepeatedTree.slots (TokenStream.ofSource unrepeatedSource).tokens [] ∧
      repeatedSelection.key ∈ (repeatedSelection.before .standard).bindings ∧
      (∀ key ∈ repeatedSelection.later, key ∈ (repeatedSelection.after .standard).bindings →
        key ∈ (repeatedSelection.before .standard).bindings) ∧
      repeatedSelection.key = text "m.f.h" ∧
      (parse [] repeatedSource .empty (.new .standard)).result.toOption.map Program.lines =
        (parse [] unrepeatedSource .empty (.new .standard)).result.toOption.map Program.lines := by
    decide +kernel
  obtain ⟨p, p', hok, hok', hiff, -⟩ := lines_without_duplicate repeatedSelection unrepeatedTree []
    repeatedSource unrepeatedSource .standard htokens htokens' rfl hbound hlater
  rw [hok, hok'] at hlines
  have hsame : p.lines = p'.lines := Option.some.inj hlines
  exact ⟨hkey, p, p', hok, hok', hsame, hiff.mp hsame⟩

/-- A program in which a procedure is declared a second time, with a global variable and a procedure
inside of the second declaration. -/
def leakingSource : Bytes :=
  text "program m is procedure f() begin end procedure;
    procedure f() global integer g;
      procedure h() begin end procedure; begin end procedure;
    begin end program."

/-- The program without the second declaration. -/
def tightSource : Bytes :=
  text "program m is procedure f() begin end procedure; begin end program."

/-- The program, and the second declaration in it. -/
def leakingSelection : Selection where
  name := ⟨text "m", 1, by decide⟩
  hole := .behindProcedure ⟨false, ⟨text "f", 1, by decide⟩, [], false⟩ .nil ⟨0, [], .nil⟩ (.here .nil)
  heading := ⟨false, ⟨text "f", 2, by decide⟩, [], false⟩
  inner :=
    .variableDecl ⟨true, .integer, ⟨text "g", 2, by decide⟩, .single⟩ <|
    .procedureDecl ⟨false, ⟨text "h", 3, by decide⟩, [], false⟩ .nil ⟨0, [], .nil⟩ .nil
  body := ⟨0, [], .nil⟩
  statements := ⟨0, [], .nil⟩

/-- The second declaration is dropped, but what is inside of it is emitted. -/
theorem leakingSource_lines :
    Shows leakingSelection.tree.slots (TokenStream.ofSource leakingSource).tokens [] ∧
      Shows leakingSelection.rest.slots (TokenStream.ofSource tightSource).tokens [] ∧
      leakingSelection.key ∈ (leakingSelection.before .standard).bindings ∧
      leakingSelection.later = [] ∧
      (parse [] leakingSource .empty (.new .standard)).result.toOption.map Program.lines =
        some [text "@m_g = common global i32 0, align 4", [],
          text "define void @m_f() \x7b", text "ret void", text "\x7d", [],
          text "define void @m_f_h() \x7b", text "ret void", text "\x7d", [],
          text "define i32 @main() \x7b", [], text "ret i32 0", text "\x7d"] ∧
      (parse [] tightSource .empty (.new .standard)).result.toOption.map Program.lines =
        some [[], text "define void @m_f() \x7b", text "ret void", text "\x7d", [],
          text "define i32 @main() \x7b", [], text "ret i32 0", text "\x7d"] := by
  decide +kernel

end OnePass.Program
