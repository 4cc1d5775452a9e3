import OnePass.Proofs.Tree
set_option autoImplicit false

/-!
# What a program tree declares and emits

The symbols of a tree, and the effect of its declarations on the bindings and on the code emitted so
far, by recursion on the tree.  Statements have none.  A second declaration of a key has none
either, except that the body of a procedure is worked through and its function dropped.
-/

namespace OnePass.Tree

/-! ## Symbols of a tree -/

/-- The text of a bound. -/
def Bound.text (b : Bound) : Bytes := (if b.negative then [Ascii.minus] else []) ++ b.digits

/-- The bounds of an array; the lower one is zero if it is left out. -/
def Extent.bounds? : Extent → Option Bounds
  | .single => none
  | .upTo upper => some ⟨OnePass.text "0", upper.text⟩
  | .between lower upper => some ⟨lower.text, upper.text⟩

/-- The name by which keys are formed. -/
def Name.lower (n : Name) : Bytes := n.literal.lower

/-- The symbol of a variable. -/
def Variable.symbol (v : Variable) : Symbol :=
  { kind := .scalar v.type, line := v.name.line, global := v.global, bounds := v.extent.bounds? }

/-- A parameter of the symbol of a procedure. -/
def Formal.parameter (f : Formal) : Parameter :=
  ⟨f.name.lower, .scalar f.type, some f.direction, f.extent.bounds?⟩

/-- A parameter in the header of a function. -/
def Formal.emitted (f : Formal) : Ir.Formal :=
  if f.direction.byReference || f.extent.bounds?.isSome then
    ⟨.pointer (.ofScalar f.type), 8, f.name.lower⟩
  else ⟨.ofScalar f.type, Ir.scalarAlign f.type, f.name.lower⟩

/-- The symbol of a procedure. -/
def Heading.symbol (h : Heading) : Symbol :=
  { kind := .procedure, line := h.name.line, global := h.global,
    parameters := h.formals.map Formal.parameter }

/-- The scope that a declaration belongs to. -/
def scopeOf (global : Bool) (root scope : ScopeKey) : ScopeKey := if global then root else scope

/-- The key of a variable that is declared in a scope. -/
def Variable.key (v : Variable) (root scope : ScopeKey) : ScopeKey :=
  (scopeOf v.global root scope).child v.name.lower

/-- The key of a procedure that is declared in a scope. -/
def Heading.key (h : Heading) (root scope : ScopeKey) : ScopeKey :=
  (scopeOf h.global root scope).child h.name.lower

/-! ## Elaboration -/

/-- What declarations work on: the bindings, and the code emitted so far. -/
structure Env where
  bindings : Bindings
  builder : Ir.Builder

/-- Declares a variable under a key.  Nothing is done if its bounds are no good, or if the key is
bound. -/
def Variable.elaborate (v : Variable) (key : ScopeKey) (e : Env) : Env :=
  match Ir.declaration key.irName v.symbol with
  | .error _ => e
  | .ok line =>
    if key ∈ e.bindings then e
    else
      { bindings := e.bindings.insert key v.symbol
        builder := if v.global then e.builder.addGlobal line else e.builder.addLocal line }

/-- Binds a parameter in the scope with a key, unless its name is bound there. -/
def bindFormal (key : ScopeKey) (line : Int) (m : Bindings) (f : Formal) : Bindings :=
  if key.child f.name.lower ∈ m then m
  else m.insert (key.child f.name.lower) (.ofParameter f.parameter line)

/-- Binds the parameters of a procedure. -/
def Heading.bindFormals (h : Heading) (key : ScopeKey) (m : Bindings) : Bindings :=
  h.formals.foldl (bindFormal key h.name.line) m

/-- Declares a procedure under a key, and goes into its function. -/
def Heading.enter (h : Heading) (key : ScopeKey) (e : Env) : Env where
  bindings :=
    if key ∈ h.bindFormals key e.bindings then h.bindFormals key e.bindings
    else (h.bindFormals key e.bindings).insert key h.symbol
  builder :=
    { e.builder with
      parked := e.builder.current :: e.builder.parked
      current := .ofProcedure key.irName (h.formals.map Formal.emitted) }

/-- Leaves a function for the one around it; the function is kept or dropped. -/
def leave (kept : Bool) (b : Ir.Builder) : Ir.Builder :=
  match b.parked with
  | [] => b
  | outer :: rest =>
    { b with
      finished := if kept then b.finished ++ [(b.current.push .returnVoid).push .close]
        else b.finished
      parked := rest
      current := outer }

/-- Leaves the function of a procedure, given what was there before the procedure and what is there
inside of it.  The function is dropped if the key was bound. -/
def Heading.exit (h : Heading) (key : ScopeKey) (before inside : Env) : Env :=
  { inside with
    builder := leave (decide (key ∉ h.bindFormals key before.bindings)) inside.builder }

theorem leave_of_parked {b : Ir.Builder} {outer : Ir.Function} {rest : List Ir.Function}
    (h : b.parked = outer :: rest) (kept : Bool) :
    leave kept b =
      { b with
        finished := if kept then b.finished ++ [(b.current.push .returnVoid).push .close]
          else b.finished
        parked := rest
        current := outer } := by
  simp [leave, h]

/-- The effect of declarations in a scope. -/
def Declarations.elaborate (root : ScopeKey) : Declarations → ScopeKey → Env → Env
  | .nil, _, e => e
  | .variableDecl v rest, scope, e =>
    rest.elaborate root scope (v.elaborate (v.key root scope) e)
  | .procedureDecl h inner _ rest, scope, e =>
    let key := h.key root scope
    rest.elaborate root scope (h.exit key e (inner.elaborate root key (h.enter key e)))

/-- Declarations leave the functions to return to, and the target, as they were. -/
theorem elaborate_frame (root scope : ScopeKey) (ds : Declarations) (e : Env) :
    (ds.elaborate root scope e).builder.parked = e.builder.parked ∧
      (ds.elaborate root scope e).builder.target = e.builder.target := by
  induction ds generalizing scope e with
  | nil => exact ⟨rfl, rfl⟩
  | variableDecl v ds ih =>
    have hv : (v.elaborate (v.key root scope) e).builder.parked = e.builder.parked ∧
        (v.elaborate (v.key root scope) e).builder.target = e.builder.target := by
      unfold Variable.elaborate
      split
      · exact ⟨rfl, rfl⟩
      · split
        · exact ⟨rfl, rfl⟩
        · dsimp only
          split <;> exact ⟨rfl, rfl⟩
    obtain ⟨hparked, htarget⟩ := ih scope (v.elaborate (v.key root scope) e)
    exact ⟨hparked.trans hv.1, htarget.trans hv.2⟩
  | procedureDecl h inner body ds ihInner ihRest =>
    obtain ⟨hparked, htarget⟩ := ihInner (h.key root scope) (h.enter (h.key root scope) e)
    obtain ⟨hparked', htarget'⟩ := ihRest scope (h.exit (h.key root scope) e
      (inner.elaborate root (h.key root scope) (h.enter (h.key root scope) e)))
    have hleave := leave_of_parked hparked
      (decide (h.key root scope ∉ h.bindFormals (h.key root scope) e.bindings))
    refine ⟨hparked'.trans ?_, htarget'.trans (Eq.trans ?_ htarget)⟩
    · rw [Heading.exit, hleave]
    · rw [Heading.exit, hleave]

/-- The symbol of a program. -/
def symbol (t : Tree) : Symbol := { kind := .program, line := t.name.line, global := true }

/-- The bindings that a program starts with: the built-in procedures and itself. -/
def start (t : Tree) : Bindings :=
  (Table.bindBuiltins ∅ t.name.lower).insert t.name.lower t.symbol

/-- The effect of a program on no bindings and on the code emitted so far. -/
def elaborate (t : Tree) (b : Ir.Builder) : Env :=
  t.declarations.elaborate t.name.lower t.name.lower ⟨t.start, b.openProgram⟩

/-- The table that the declarations of a program start with: the scope of the program's name is entered, and
the program bound there unless the key is. -/
def opening (tree : Tree) (t : Table) : Table :=
  ((t.enter tree.name.literal).stage tree.symbol).commit.2

/-- The effect of a program on a table and on the code emitted so far. -/
def effect (tree : Tree) (t : Table) (b : Ir.Builder) : Env :=
  tree.declarations.elaborate (tree.opening t).global (tree.opening t).scope
    ⟨(tree.opening t).bindings, b.openProgram⟩

theorem opening_eq (tree : Tree) (t : Table) :
    tree.opening t = { t.enter tree.name.literal with
      staged := none
      bindings := if (t.enter tree.name.literal).scope ∈ (t.enter tree.name.literal).bindings then
          (t.enter tree.name.literal).bindings
        else (t.enter tree.name.literal).bindings.insert (t.enter tree.name.literal).scope tree.symbol } := by
  unfold opening Table.commit Table.stage
  dsimp only
  split
  · rfl
  · rfl

end OnePass.Tree
