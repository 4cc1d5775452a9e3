import Std.Data.ExtTreeMap
import OnePass.Failure
import OnePass.Symbol.Basic
import OnePass.Text.Lowercase
set_option autoImplicit false

/-!
# The symbol table

Symbols are bound under scope keys: the names of the enclosing scopes and the symbol's own name,
joined by periods, all in small letters.  The first scope that is ever entered is the global one;
entering it binds the built-in procedures.  A symbol is first staged, filled in, and then bound
under the key of the current scope; a key that is bound stays bound to its first symbol.
-/

namespace OnePass

/-- A key of the symbol table. -/
abbrev ScopeKey : Type := Bytes

namespace ScopeKey

/-- The key of a name inside a scope. -/
def child (key : ScopeKey) (name : Bytes) : ScopeKey := key ++ Ascii.period :: name

/-- The key of the scope that a key stands in; empty if it stands in none. -/
def parent (key : ScopeKey) : ScopeKey :=
  Bytes.join [Ascii.period] (List.splitOn Ascii.period key).dropLast

/-- The name that emitted code uses for a key. -/
def irName (key : ScopeKey) : Bytes := Bytes.replaceByte Ascii.period Ascii.underscore key

end ScopeKey

/-- Symbols by their keys, in the order of the keys. -/
abbrev Bindings : Type := Std.ExtTreeMap ScopeKey Symbol compare

/-- A symbol table. -/
structure Table where
  bindings : Bindings := ∅
  /-- the symbol under construction -/
  staged : Option Symbol := none
  /-- the key of the current scope; empty outside of all scopes -/
  scope : ScopeKey := []
  /-- the key of the global scope; empty until a scope is entered -/
  global : ScopeKey := []
  /-- the scopes to return to from the global one, innermost first -/
  saved : List ScopeKey := []

instance : Inhabited Table := ⟨{}⟩

namespace Table

/-- Why a symbol is not bound. -/
inductive Error where
  /-- no symbol is staged -/
  | nothingStaged
  /-- the key is bound already -/
  | duplicate (key : ScopeKey)
  deriving DecidableEq, Repr, Inhabited

/-- The description of an error. -/
def Error.failure : Error → Failure
  | .nothingStaged => .nothingStaged
  | .duplicate key => .duplicateSymbol key

/-- The table with nothing in it. -/
def empty : Table := {}

/-! ## Scopes -/

/-- Binds the built-in procedures in the scope with a key. -/
def bindBuiltins (bindings : Bindings) (key : ScopeKey) : Bindings :=
  Builtin.all.foldl (fun m b => m.insert (key.child b.word) (.ofBuiltin b)) bindings

/-- Enters the scope of a name. -/
def enter (t : Table) (name : Bytes) : Table :=
  let name := name.lower
  if t.global = [] then
    { t with global := name, scope := name, bindings := bindBuiltins t.bindings name }
  else if t.scope = [] then { t with scope := name }
  else { t with scope := t.scope.child name }

/-- Leaves the current scope for the one that it stands in. -/
def exit (t : Table) : Table := { t with scope := t.scope.parent }

/-- Switches to the global scope, and remembers the current one. -/
def enterGlobal (t : Table) : Table :=
  { t with scope := t.global, saved := t.scope :: t.saved }

/-- Returns to the scope that was left for the global one, if one was. -/
def exitGlobal (t : Table) : Table :=
  match t.saved with
  | [] => t
  | key :: rest => { t with scope := key, saved := rest }

/-- How many switches to the global scope have not been returned from. -/
def switches (t : Table) : Nat := t.saved.length

/-! ## Binding -/

/-- Starts a symbol; one that was started before is dropped. -/
def stage (t : Table) (s : Symbol) : Table := { t with staged := some s }

/-- Changes the staged symbol, if there is one. -/
def modifyStaged (t : Table) (f : Symbol → Symbol) : Table := { t with staged := t.staged.map f }

/-- Drops the staged symbol. -/
def discard (t : Table) : Table := { t with staged := none }

/-- Binds the staged symbol under the key of the current scope.  Afterwards nothing is staged,
whether the symbol was bound or not. -/
def commit (t : Table) : Except Error Symbol × Table :=
  match t.staged with
  | none => (.error .nothingStaged, t)
  | some s =>
    if t.scope ∈ t.bindings then (.error (.duplicate t.scope), t.discard)
    else (.ok s, { t.discard with bindings := t.bindings.insert t.scope s })

/-- Binds a parameter inside the current scope, unless its name is bound there. -/
def bindParameter (t : Table) (line : Int) (p : Parameter) : Table :=
  let key := t.scope.child p.name.lower
  if key ∈ t.bindings then t
  else { t with bindings := t.bindings.insert key (.ofParameter p line) }

/-- Binds the staged symbol's parameters inside the current scope; of two parameters with one
name the first is bound. -/
def bindParameters (t : Table) : Table :=
  match t.staged with
  | none => t
  | some s => s.parameters.foldl (·.bindParameter s.line) t

/-! ## Looking up -/

/-- The symbol under a key, which may be given in any case. -/
def resolve? (t : Table) (key : ScopeKey) : Option Symbol := t.bindings[key.lower]?

/-- The symbol that a name stands for: the current scope is searched, and then the global one. -/
def lookup? (t : Table) (name : Bytes) : Option Symbol :=
  let name := name.lower
  let inner := if t.scope = [] then none else t.bindings[t.scope.child name]?
  let outer := if t.global = [] then none else t.bindings[t.global.child name]?
  inner <|> outer

/-- The number of bindings. -/
def size (t : Table) : Nat := t.bindings.size

/-- The bindings in the order of their keys. -/
def entries (t : Table) : List (ScopeKey × Symbol) := t.bindings.toList

/-- The bindings that a program declares, in the order of their keys. -/
def declared (t : Table) : List (ScopeKey × Symbol) :=
  t.entries.filter fun entry => !entry.2.kind.isBuiltin

/-- The name that emitted code uses for the current scope. -/
def irName (t : Table) : Bytes := t.scope.irName

/-! ## Histories -/

/-- What can be done to a table. -/
inductive Action where
  | enter (name : Bytes)
  | exit
  | enterGlobal
  | exitGlobal
  | stage (sym : Symbol)
  | discard
  | commit
  | bindParameters

/-- The table after an action. -/
def perform (t : Table) : Action → Table
  | .enter name => t.enter name
  | .exit => t.exit
  | .enterGlobal => t.enterGlobal
  | .exitGlobal => t.exitGlobal
  | .stage sym => t.stage sym
  | .discard => t.discard
  | .commit => t.commit.2
  | .bindParameters => t.bindParameters

/-- The table after a history. -/
def run (t : Table) (actions : List Action) : Table := actions.foldl perform t

end Table

end OnePass
