import OnePass.Files.Memory
set_option autoImplicit false

/-!
# Polling for changes

A poller knows for every watched path the time of the last change that it has seen, and each round
compares these times with the files.  A path that had no file when it was added counts as
changed as soon as there is one.
-/

namespace OnePass

/-- A poller: the watched paths in their order, each with the time of the last change that was
seen. -/
structure Poller where
  watched : Std.ExtTreeMap Bytes (Option Int) compare := ∅

namespace Poller

/-- The poller that watches nothing. -/
def empty : Poller := {}

/-- The time of a path's last change. -/
def lastChange (fs : MemoryFiles) (path : Bytes) : Option Int :=
  (fs.stat path).toOption.map (·.modified)

/-- Starts watching a path; only changes from now on count. -/
def add (p : Poller) (fs : MemoryFiles) (path : Bytes) : Poller :=
  ⟨p.watched.insert path (lastChange fs path)⟩

/-- Stops watching a path. -/
def remove (p : Poller) (path : Bytes) : Poller := ⟨p.watched.erase path⟩

/-- What a round of polling finds. -/
structure Round where
  /-- the paths that have changed, in their order -/
  changed : List Bytes := []
  /-- the first fault -/
  fault : Option FileFault := none
  deriving DecidableEq, Repr, Inhabited

/-- Whether a change at a time is later than the last one seen. -/
def isNews (time : Int) (seen : Option Int) : Bool := seen.all (· < time)

/-- Looks at one watched path. -/
def look (fs : MemoryFiles) (state : Round × Poller) (entry : Bytes × Option Int) : Round × Poller :=
  let (round, p) := state
  match fs.stat entry.1 with
  | .error e => ({ round with fault := round.fault <|> some e }, p)
  | .ok info =>
    if isNews info.modified entry.2 then
      ({ round with changed := round.changed ++ [entry.1] },
        ⟨p.watched.insert entry.1 (some info.modified)⟩)
    else (round, p)

/-- One round of polling. -/
def poll (p : Poller) (fs : MemoryFiles) : Round × Poller :=
  p.watched.toList.foldl (look fs) ({}, p)

end Poller

end OnePass
