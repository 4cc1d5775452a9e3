import OnePass.Text.Bytes
set_option autoImplicit false

/-!
# Paths

Slash-separated file paths and their purely textual operations: none of them looks at a file
system.
-/

namespace OnePass.Path

/-- Adds one component to a reversed list of kept components.  Empty components and `.` add
nothing, and `..` removes the component before it; at the beginning of a rooted path it
vanishes, at the beginning of any other it stays. -/
def push (rooted : Bool) (kept : List Bytes) (component : Bytes) : List Bytes :=
  if component = [] || component = text "." then kept
  else if component = text ".." then
    match kept with
    | last :: before => if last = text ".." then component :: kept else before
    | [] => if rooted then [] else [component]
  else component :: kept

/-- The shortest path with the same meaning; the empty path becomes `.`. -/
def clean (p : Bytes) : Bytes :=
  let rooted := p.head? = some Ascii.slash
  let kept := ((List.splitOn Ascii.slash p).foldl (push rooted) []).reverse
  let body := Bytes.join (text "/") kept
  if rooted then Ascii.slash :: body
  else if kept.isEmpty then text "." else body

/-- The last component, with trailing slashes ignored: `.` for the empty path and `/` for a path
of slashes only. -/
def base (p : Bytes) : Bytes :=
  if p.isEmpty then text "."
  else
    let trimmed := (p.reverse.dropWhile (· = Ascii.slash)).reverse
    if trimmed.isEmpty then text "/" else (List.splitOn Ascii.slash trimmed).getLastD []

/-- All but the last component, cleaned. -/
def dir (p : Bytes) : Bytes :=
  match (List.splitOn Ascii.slash p).dropLast with
  | [] => text "."
  | parents => clean (Bytes.join (text "/") parents ++ text "/")

/-- Two paths one behind the other, cleaned; an empty one adds nothing. -/
def join (p q : Bytes) : Bytes :=
  if p.isEmpty then if q.isEmpty then [] else clean q
  else if q.isEmpty then clean p
  else clean (p ++ Ascii.slash :: q)

end OnePass.Path
