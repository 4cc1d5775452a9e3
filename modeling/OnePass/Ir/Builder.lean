import OnePass.Ir.Basic
set_option autoImplicit false

/-!
# Building emitted code

Procedures nest in the source but not in the emitted code.  The builder keeps the function it is
in, the functions that it has left for an inner one, and those that are finished; functions come
out in the order in which they are finished, and the program's own function last.
-/

namespace OnePass.Ir

/-- A function under construction. -/
structure Function where
  header : Line
  body : List Line
  /-- the number of the next slot -/
  temp : Nat
  deriving DecidableEq, Repr, Inhabited

namespace Function

/-- The function with a header and nothing in it. -/
def start (header : Line) : Function := ⟨header, [], 1⟩

/-- The lines of a function. -/
def lines (f : Function) : List Line := f.header :: f.body

/-- Adds a line. -/
def push (f : Function) (line : Line) : Function := { f with body := f.body ++ [line] }

/-- Reserves the next slot for a parameter and stores the parameter there. -/
def pushParameter (f : Function) (p : Formal) : Function :=
  { f with
    body := f.body ++ [.alloca (.slot f.temp) p.ty p.align,
      .store p.ty (.named p.name) (.slot f.temp)]
    temp := f.temp + 1 }

/-- The function of a procedure, with its parameters stored. -/
def ofProcedure (name : Bytes) (formals : List Formal) : Function :=
  formals.foldl pushParameter (start (.procedure name formals))

end Function

/-- The state of building emitted code. -/
structure Builder where
  target : Target
  /-- the global variables in their order -/
  globals : List Line
  /-- the finished functions in their order -/
  finished : List Function
  /-- the functions to return to, innermost first -/
  parked : List Function
  current : Function
  deriving DecidableEq, Repr, Inhabited

namespace Builder

/-- Nothing built yet. -/
def new (target : Target) : Builder := ⟨target, [], [], [], .start .blank⟩

/-- Starts the program's own function in place of the current one. -/
def openProgram (b : Builder) : Builder := { b with current := .start .main }

/-- How many functions there are to return to. -/
def depth (b : Builder) : Nat := b.parked.length

/-- The next slot, and the builder after it is taken. -/
def nextSlot (b : Builder) : Local × Builder :=
  (.slot b.current.temp, { b with current := { b.current with temp := b.current.temp + 1 } })

/-- Adds a global variable. -/
def addGlobal (b : Builder) (line : Line) : Builder := { b with globals := b.globals ++ [line] }

/-- Adds a line to the current function. -/
def addLocal (b : Builder) (line : Line) : Builder := { b with current := b.current.push line }

/-- Starts the function of a procedure and parks the current one.  Nothing changes if a parameter
cannot be emitted. -/
def openProcedure (b : Builder) (name : Bytes) (sym : Symbol) : Except Error Builder := do
  let formals ← sym.parameters.mapM Formal.ofParameter
  return { b with parked := b.current :: b.parked, current := .ofProcedure name formals }

/-- Finishes the current procedure and returns to the function around it. -/
def closeProcedure (b : Builder) : Except Error Builder :=
  match b.parked with
  | [] => .error .unbalanced
  | outer :: rest =>
    .ok { b with
      finished := b.finished ++ [(b.current.push .returnVoid).push .close]
      parked := rest
      current := outer }

/-- Drops the current procedure and returns to the function around it. -/
def discardProcedure (b : Builder) : Except Error Builder :=
  match b.parked with
  | [] => .error .unbalanced
  | outer :: rest => .ok { b with parked := rest, current := outer }

section Procedures

variable {b b' : Builder} {name : Bytes} {sym : Symbol}

theorem openProcedure_of_formals (b : Builder) (name : Bytes) (sym : Symbol) {formals : List Formal}
    (h : sym.parameters.mapM Formal.ofParameter = .ok formals) :
    b.openProcedure name sym =
      .ok { b with parked := b.current :: b.parked, current := .ofProcedure name formals } := by
  unfold openProcedure
  rw [h]
  rfl

/-- A procedure that is opened has parameters that can be emitted, and the function it is in is
parked. -/
theorem openProcedure_eq_ok (h : b.openProcedure name sym = .ok b') :
    ∃ formals, sym.parameters.mapM Formal.ofParameter = .ok formals ∧
      b' = { b with parked := b.current :: b.parked, current := .ofProcedure name formals } := by
  cases hformals : sym.parameters.mapM Formal.ofParameter with
  | error e =>
    unfold openProcedure at h
    rw [hformals] at h
    cases h
  | ok formals =>
    rw [b.openProcedure_of_formals name sym hformals] at h
    exact ⟨formals, rfl, (Except.ok.inj h).symm⟩

/-- A procedure that is closed is finished, and the function parked last is the current one. -/
theorem closeProcedure_eq_ok (h : b.closeProcedure = .ok b') :
    ∃ outer rest, b.parked = outer :: rest ∧
      b' = { b with
        finished := b.finished ++ [(b.current.push .returnVoid).push .close]
        parked := rest
        current := outer } := by
  unfold closeProcedure at h
  split at h
  · cases h
  · next outer rest hparked => exact ⟨outer, rest, hparked, (Except.ok.inj h).symm⟩

/-- A procedure that is dropped leaves nothing, and the function parked last is the current one. -/
theorem discardProcedure_eq_ok (h : b.discardProcedure = .ok b') :
    ∃ outer rest, b.parked = outer :: rest ∧ b' = { b with parked := rest, current := outer } := by
  unfold discardProcedure at h
  split at h
  · cases h
  · next outer rest hparked => exact ⟨outer, rest, hparked, (Except.ok.inj h).symm⟩

end Procedures

/-- All lines of the finished code; every procedure has to be closed. -/
def finish (b : Builder) : Except Error (List Line) :=
  if b.parked.isEmpty then
    .ok (b.globals ++ [Line.blank] ++ b.finished.flatMap (fun f => f.lines ++ [Line.blank])
      ++ b.current.lines ++ [Line.blank, .returnZero, .close])
  else .error (.openUnits b.depth)

/-- The text of a line for the builder's target. -/
def renderLine (b : Builder) (line : Line) : Bytes := line.render b.target.pointers

/-- The text of all lines of the finished code. -/
def finishedText (b : Builder) : Except Error (List Bytes) := do
  return (← b.finish).map b.renderLine

end Builder

end OnePass.Ir
