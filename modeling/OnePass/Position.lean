import OnePass.Path
set_option autoImplicit false

/-!
# Positions

A position names a place in a source file.  Positions of one file are ordered by line and then
by column; files are ordered by name.
-/

namespace OnePass

/-- A place in a source file.  Lines and columns count from one; a column of zero or less is
unknown, and so is the whole place when the line is. -/
structure Position where
  file : Bytes
  line : Int
  column : Int
  deriving DecidableEq, Repr, Inhabited

namespace Position

/-- The position of something that stands nowhere. -/
def unknown : Position := ⟨[], 0, 0⟩

/-- Whether the position names a line. -/
def isValid (p : Position) : Bool := 0 < p.line

/-- The position as `file:line:column`, without the parts that are unknown; the file is shown by
its last component. -/
def render (p : Position) : Bytes :=
  let place :=
    if 0 < p.column then Bytes.ofInt p.line ++ text ":" ++ Bytes.ofInt p.column
    else Bytes.ofInt p.line
  if p.file.isEmpty then place else Path.base p.file ++ text ":" ++ place

/-- Strict order: by file name, then by line, then by column. -/
def Before (p q : Position) : Prop :=
  if p.file ≠ q.file then p.file < q.file
  else if p.line ≠ q.line then p.line < q.line
  else p.column < q.column

instance (p q : Position) : Decidable (p.Before q) := by
  unfold Before
  infer_instance

theorem before_iff_of_file_eq {p q : Position} (h : p.file = q.file) :
    p.Before q ↔ p.line < q.line ∨ (p.line = q.line ∧ p.column < q.column) := by
  unfold Before
  rw [if_neg (by simp [h])]
  split <;> omega

end Position

end OnePass
