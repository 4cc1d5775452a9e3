import OnePass.Position
set_option autoImplicit false

/-!
# Sources shown to a reader

A source is kept as its lines, so that a diagnostic can show the line it speaks of with a caret
under the column.
-/

namespace OnePass

/-- A source text cut into lines. -/
structure Source where
  lines : List Bytes
  deriving DecidableEq, Repr, Inhabited

namespace Source

/-- The text with every carriage return that stands right before a newline left out. -/
def joinLineEnds : Bytes → Bytes
  | [] => []
  | b :: rest =>
    if b = Ascii.carriageReturn ∧ rest.head? = some Ascii.newline then joinLineEnds rest
    else b :: joinLineEnds rest

/-- The lines of a text; the text behind the last newline is a line too. -/
def ofContent (content : Bytes) : Source := ⟨List.splitOn Ascii.newline (joinLineEnds content)⟩

/-- The number of lines. -/
def lineCount (s : Source) : Nat := s.lines.length

/-- A line by its number from one on; empty where there is none. -/
def line (s : Source) (n : Int) : Bytes :=
  if n < 1 then [] else s.lines.getD (n - 1).toNat []

/-- The number of a line as it stands before the line's text. -/
def gutter (n : Int) : Bytes := Bytes.padLeft 4 (Bytes.ofInt n) ++ text " | "

/-- The line at a position, and under it a caret at the column if that is known.  Tabs are shown
as single spaces, so that the caret stands under its byte. -/
def excerpt (s : Source) (p : Position) : Bytes :=
  if !p.isValid || s.lineCount < p.line then []
  else
    let shown := gutter p.line ++ Bytes.replaceByte Ascii.tab Ascii.space (s.line p.line)
    let caret :=
      if 0 < p.column then
        Bytes.line (List.replicate ((gutter p.line).length - 2) Ascii.space ++ text "| "
          ++ List.replicate (p.column - 1).toNat Ascii.space ++ text "^")
      else []
    Bytes.line shown ++ caret

theorem count_joinLineEnds (content : Bytes) :
    (joinLineEnds content).count Ascii.newline = content.count Ascii.newline := by
  induction content with
  | nil => rfl
  | cons b rest ih =>
    unfold joinLineEnds
    split
    · next h => rw [ih, h.1, List.count_cons_of_ne (by decide)]
    · rw [List.count_cons, List.count_cons, ih]

/-- A source has one line more than its text has newlines. -/
theorem lineCount_ofContent (content : Bytes) :
    (ofContent content).lineCount = content.count Ascii.newline + 1 := by
  unfold ofContent lineCount
  rw [Bytes.length_splitOn, count_joinLineEnds]

end Source

end OnePass
