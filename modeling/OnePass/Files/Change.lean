set_option autoImplicit false

/-!
# Kinds of changes

What a notification says has happened to a file: a set of five kinds of changes, one bit each.
-/

namespace OnePass

/-- A set of kinds of changes, as bits. -/
structure ChangeSet where
  bits : UInt32
  deriving DecidableEq, Repr, Inhabited

namespace ChangeSet

/-- The file was made. -/
def create : ChangeSet := ⟨1⟩
/-- The file was written to. -/
def write : ChangeSet := ⟨2⟩
/-- The file was removed. -/
def remove : ChangeSet := ⟨4⟩
/-- The file was renamed. -/
def rename : ChangeSet := ⟨8⟩
/-- The permissions of the file were changed. -/
def chmod : ChangeSet := ⟨16⟩

/-- Both sets together. -/
def union (a b : ChangeSet) : ChangeSet := ⟨a.bits ||| b.bits⟩

/-- Whether two sets have a kind in common. -/
def meets (a b : ChangeSet) : Bool := a.bits &&& b.bits ≠ 0

/-- All kinds of changes. -/
def all : ChangeSet := (((create.union write).union remove).union rename).union chmod

/-- The known kinds in a notification's bits. -/
def ofNotification (bits : UInt32) : ChangeSet := ⟨bits &&& all.bits⟩

/-- Only known kinds are taken from a notification. -/
theorem ofNotification_ofNotification (bits : UInt32) :
    ofNotification (ofNotification bits).bits = ofNotification bits := by
  simp [ofNotification, UInt32.and_assoc]

/-- Whether the contents of the file may be different. -/
def changesContents (c : ChangeSet) : Bool := c.meets ((create.union write).union rename)

end ChangeSet

end OnePass
