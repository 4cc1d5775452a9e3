import OnePass.Compilation.Cache
import OnePass.Files.Store
import OnePass.Log
set_option autoImplicit false

/-!
# Compiling files

A file is read, its source is recognised over a table and code of its own, and the code of a
program is written to a file named for the program.  Files are compiled in the order given.
-/

namespace OnePass

/-- How files are compiled. -/
structure CompileOptions where
  /-- the directory that code is written to -/
  outDir : Bytes
  target : Target
  /-- how many files may be compiled at a time -/
  jobs : Int
  /-- whether code is written at all -/
  emit : Bool
  deriving DecidableEq, Repr, Inhabited

namespace CompileOptions

/-- The options with what is not given filled in. -/
def complete (o : CompileOptions) : CompileOptions where
  outDir := if o.outDir = [] then text "." else o.outDir
  target := if o.target.version.isNone then .standard else o.target
  jobs := if o.jobs ≤ 0 then 1 else o.jobs
  emit := o.emit

/-- The file that the code of a program is written to: the program's name as written, with an
extension. -/
def outputPath (o : CompileOptions) (program : Bytes) : Bytes :=
  Path.join o.outDir (program ++ text ".ll")

end CompileOptions

/-- What compiling keeps between files. -/
structure CompileState where
  /-- the earlier compilations, if they are used again -/
  cache : Option Cache := none
  log : Log := { verbosity := none }
  deriving Inhabited

/-- Compiling over a store of files. -/
abbrev CompileM (m : Type → Type) : Type → Type := StateT CompileState m

namespace Compilation

variable {m : Type → Type} [Monad m]

/-- Adds a line to the log. -/
def logLine (level : LogLevel) (message : Bytes) : CompileM m Unit :=
  modify fun s => { s with log := s.log.add level message }

/-- Looks for an earlier compilation. -/
def reuse? (o : CompileOptions) (path source : Bytes) : CompileM m (Option Compilation) := do
  let s ← get
  match s.cache with
  | none => return none
  | some cache =>
    let (found, cache) := cache.lookup path source o.target
    set { s with cache := some cache }
    return found

/-- Keeps a compilation, if nothing went wrong. -/
def keep (o : CompileOptions) (source : Bytes) (made : Compilation) : CompileM m Unit :=
  if made.error.isSome then pure ()
  else modify fun s => { s with cache := s.cache.map (·.store made.path source o.target made) }

/-- Recognises a source that was read, and logs how that went. -/
def recognise (o : CompileOptions) (path source : Bytes) : CompileM m Compilation := do
  logLine .info (text "compiling " ++ path ++ text " (" ++ o.target.render ++ text ")")
  let (made, trace) := ofSource o.target path source
  trace.forM (logLine .debug)
  match made.error with
  | some e => logLine .debug (path ++ text ": " ++ e.message)
  | none => pure ()
  return made

variable [FileStore m]

/-- Writes the code of a compilation, if its source is a program. -/
def emit (o : CompileOptions) (made : Compilation) : CompileM m Compilation := do
  match made.program with
  | none => return made
  | some program =>
    let out := o.outputPath program.name
    match ← (FileStore.writeAll out (Ir.fileText program.lines) : m _) with
    | .ok () =>
      logLine .info (text "wrote " ++ out)
      return { made with output := out }
    | .error fault =>
      logLine .error (text "write " ++ out ++ text ": " ++ fault.message)
      return { made with error := some (.unwritable out fault) }

/-- Compiles a source that was read. -/
def compileSource (o : CompileOptions) (path source : Bytes) : CompileM m Compilation := do
  match ← reuse? o path source with
  | some found =>
    logLine .debug (path ++ text " unchanged, reusing previous result")
    return { found with cached := true }
  | none =>
    let made ← recognise o path source
    let made ← if o.emit then emit o made else pure made
    keep o source made
    return made

/-- Compiles a file. -/
def compile (o : CompileOptions) (path : Bytes) : CompileM m Compilation := do
  match ← (FileStore.readAll path : m _) with
  | .ok source => compileSource o path source
  | .error fault =>
    logLine .error (text "read " ++ path ++ text ": " ++ fault.message)
    return { path := path, error := some (.unreadable path fault) }

/-- Compiles a file, unless the run has been interrupted. -/
def compileUnless (interrupted : Bool) (o : CompileOptions) (path : Bytes) :
    CompileM m Compilation :=
  if interrupted then return { path := path, error := some .interrupted } else compile o path

/-- Compiles files, unless the run has been interrupted. -/
def compileAll (interrupted : Bool) (o : CompileOptions) (paths : List Bytes) :
    CompileM m (List Compilation) :=
  paths.mapM (compileUnless interrupted o)

/-- The wording of an interruption of a whole run. -/
def interruptedRun : Bytes :=
  text "compilation interrupted: " ++ CompileError.interruptedMessage

end Compilation

end OnePass
