import OnePass.Compilation.Basic
import OnePass.Digest
set_option autoImplicit false

/-!
# Earlier compilations

A cache keeps for every path its last compilation, with the target and a digest of the source that it
was made from.  It is used again only for a source with the same digest and for the same target.
-/

namespace OnePass

/-- A compilation that is kept, and what it was made from. -/
structure CacheEntry where
  /-- the digest of the source -/
  sum : Bytes
  /-- the target as it is shown -/
  target : Bytes
  compilation : Compilation
  deriving DecidableEq, Repr, Inhabited

/-- Earlier compilations by their paths, and how often one was used again or was not. -/
structure Cache where
  entries : Std.ExtTreeMap Bytes CacheEntry compare := ∅
  hits : Nat := 0
  misses : Nat := 0

instance : Inhabited Cache := ⟨{}⟩

namespace Cache

/-- The cache with nothing in it. -/
def empty : Cache := {}

/-- The compilation of a path that was made for a target from a source with the same digest. -/
def find? (c : Cache) (path source : Bytes) (target : Target) : Option Compilation :=
  match c.entries[path]? with
  | some e =>
    if e.sum = Digest.sha256 source ∧ e.target = target.render then some e.compilation else none
  | none => none

/-- A compilation is found if it was kept for the path, and for the same digest and target. -/
theorem find?_eq_some_iff {c : Cache} {path source : Bytes} {target : Target} {found : Compilation} :
    c.find? path source target = some found ↔ ∃ e, c.entries[path]? = some e ∧
      e.sum = Digest.sha256 source ∧ e.target = target.render ∧ e.compilation = found := by
  unfold find?
  cases c.entries[path]? with
  | none => simp
  | some e => simp [and_assoc]

/-- Looks a compilation up and counts whether it was there. -/
def lookup (c : Cache) (path source : Bytes) (target : Target) : Option Compilation × Cache :=
  match c.find? path source target with
  | some found => (some found, { c with hits := c.hits + 1 })
  | none => (none, { c with misses := c.misses + 1 })

/-- Looking up gives what is found. -/
theorem lookup_fst (c : Cache) (path source : Bytes) (target : Target) :
    (c.lookup path source target).1 = c.find? path source target := by
  unfold lookup
  split <;> simp_all

/-- Looking up keeps what is there. -/
theorem lookup_entries (c : Cache) (path source : Bytes) (target : Target) :
    (c.lookup path source target).2.entries = c.entries := by
  unfold lookup
  split <;> rfl

/-- Keeps a compilation in place of an earlier one. -/
def store (c : Cache) (path source : Bytes) (target : Target) (made : Compilation) : Cache :=
  { c with entries := c.entries.insert path ⟨Digest.sha256 source, target.render, made⟩ }

/-- Forgets the compilation of a path. -/
def invalidate (c : Cache) (path : Bytes) : Cache := { c with entries := c.entries.erase path }

end Cache

end OnePass
