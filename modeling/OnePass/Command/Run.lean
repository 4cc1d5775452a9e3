import OnePass.Command.Line
import OnePass.Compilation.Compile
import OnePass.Compilation.Report
import OnePass.Config
import OnePass.Release
set_option autoImplicit false

/-!
# Running commands

What a command line does: it reads and writes files, prints, logs, and may end in an error.
-/

namespace OnePass

/-- Why a command ends in an error. -/
inductive CommandError where
  | usage (error : UsageError)
  | config (error : Config.Error)
  | target (error : Target.Error)
  /-- the run was interrupted -/
  | interrupted
  deriving DecidableEq, Repr, Inhabited

/-- The wording of an error. -/
def CommandError.message : CommandError → Bytes
  | .usage e => e.message
  | .config e => e.message
  | .target e => e.message
  | .interrupted => Compilation.interruptedRun

/-- What a command finds around it. -/
structure Surroundings where
  /-- whether the run has been interrupted before it begins -/
  interrupted : Bool
  /-- whether output goes to a terminal -/
  toTerminal : Bool
  /-- the path of the working directory -/
  workingDirectory : Bytes
  /-- the version of the tools that this was built with -/
  toolchain : Bytes
  platform : Bytes
  architecture : Bytes
  deriving DecidableEq, Repr, Inhabited

/-- What a command does beside reading and writing files. -/
structure CommandResult where
  output : Bytes := []
  log : List LogLine := []
  error : Option CommandError := none
  deriving DecidableEq, Repr, Inhabited

namespace CommandResult

/-- The result of a command that ends in an error at once. -/
def failure (e : CommandError) : CommandResult := { error := some e }

end CommandResult

/-- The settings that a command works with. -/
structure Settings where
  config : Config
  target : Target
  report : ReportOptions
  /-- the log, with what was logged so far -/
  log : Log
  deriving DecidableEq, Repr, Inhabited

namespace Settings

/-- The configuration with the flags' values in place of its own. -/
def override (c : Config) (flags : FlagValues) : Config where
  verbose := flags.verbose.getD c.verbose
  debug := flags.debug.getD c.debug
  outDir := flags.out.getD c.outDir
  llvmVersion := flags.llvmVersion.getD c.llvmVersion
  jobs := flags.jobs.getD c.jobs
  color := flags.color.getD c.color

/-- The line that shows the configuration in the log. -/
def describe (c : Config) (target : Target) : Bytes :=
  text "configuration: out=" ++ c.outDir ++ text " jobs=" ++ Bytes.ofInt c.jobs ++ text " target="
    ++ target.render

/-- The settings that follow from the flags and from the configuration that was read. -/
def resolve (toTerminal : Bool) (flags : FlagValues) (loaded : Except Config.Error Config) :
    Except CommandError Settings := do
  let c ← loaded.mapError .config
  let c ← (override c flags).validate.mapError .config
  let target ← (Target.parse c.llvmVersion).mapError .target
  let log : Log := { verbosity := some ⟨c.verbose, c.debug⟩ }
  return {
    config := c
    target := target
    report := ⟨c.useColor toTerminal, flags.excerpts.getD false⟩
    log := log.add .debug (describe c target) }

/-- How files are compiled under the settings. -/
def options (s : Settings) (emit : Bool) : CompileOptions :=
  (CompileOptions.mk s.config.outDir s.target s.config.jobs emit).complete

end Settings

namespace Command

variable {m : Type → Type} [Monad m] [FileStore m]

/-- The configuration that the flags name.  Without a name nothing is read. -/
def loadConfig (flags : FlagValues) : m (Except Config.Error Config) := do
  match flags.config.getD [] with
  | [] => return .ok .standard
  | path => return Config.ofRead (← FileStore.readAll path)

/-- Compiles files, writes their code and reports. -/
def runCompile (interrupted : Bool) (s : Settings) (paths : List Bytes) : m CommandResult := do
  let (cs, after) ←
    (Compilation.compileAll interrupted (s.options true) paths).run { log := s.log }
  return {
    output := Compilation.reportAll s.report cs
    log := (after.log.add .info (Summary.of cs).render).lines
    error := if interrupted then some .interrupted else none }

/-- What is printed about the symbols of a compilation. -/
def symbolReport (s : Settings) (c : Compilation) : Bytes :=
  Bytes.line (text "== " ++ c.path) ++ c.symbolListing ++ c.report s.report

/-- Recognises files without writing code, and prints their symbols. -/
def runSymbols (interrupted : Bool) (s : Settings) (paths : List Bytes) : m CommandResult := do
  let (cs, after) ←
    (Compilation.compileAll interrupted (s.options false) paths).run { log := s.log }
  return { output := cs.flatMap (symbolReport s), log := after.log.lines }

/-- What is printed about the tokens of a file.  If there are several files, each has a heading,
with an empty line in front of every one but the first. -/
def tokenReport (several first : Bool) (path : Bytes) : Except FileFault Bytes → Bytes
  | .error _ => Bytes.line Compilation.failureLine
  | .ok source =>
    (if several then
        (if first then [] else Bytes.line []) ++ Bytes.line (text "== " ++ path)
      else [])
      ++ TokenStream.listing source

/-- Prints the tokens of files. -/
def runTokens (paths : List Bytes) : m CommandResult := do
  let reports ← paths.zipIdx.mapM fun (path, i) => do
    return tokenReport (paths.length > 1) (i = 0) path (← FileStore.readAll path)
  return { output := reports.flatten }

/-- Prints what release this is. -/
def runVersion (around : Surroundings) (flags : FlagValues) : CommandResult :=
  match Target.parse (flags.llvmVersion.getD Target.defaultVersion) with
  | .error e => .failure (.target e)
  | .ok target =>
    let release :=
      Release.own around.toolchain around.platform around.architecture target.render
    { output := if flags.json.getD false then release.renderJson tool else release.renderLines tool }

/-! ## Watching -/

/-- A path from the root. -/
def absolute (workingDirectory path : Bytes) : Bytes :=
  if path.head? = some Ascii.slash then Path.clean path else Path.join workingDirectory path

/-- The directories of the watched files, each once. -/
def watchedDirectories (workingDirectory : Bytes) (paths : List Bytes) : List Bytes :=
  (paths.map fun p => Path.dir (absolute workingDirectory p)).eraseDups

/-- The reason why the first of some paths that leads nowhere does so.  A path that cannot be put to
the host is passed over, because nothing can change there. -/
def firstObstacle? : List Bytes → m (Option FileReason)
  | [] => return none
  | path :: rest => do
    match ← FileStore.reach path with
    | .ok () | .error .unusable => firstObstacle? rest
    | .error reason => return some reason

/-- Logs how changes will be noticed: by notification if all directories are there, and by looking
again and again if not, or if that is asked for. -/
def logWatching (around : Surroundings) (poll : Bool) (paths : List Bytes) (log : Log) : m Log := do
  if poll then return log
  let directories := watchedDirectories around.workingDirectory paths
  match ← firstObstacle? directories with
  | none =>
    return log.add .debug (text "using native file notifications for "
      ++ Bytes.ofNat directories.length ++ text " director(ies)")
  | some reason =>
    return log.add .warn (text "native file notifications unavailable (" ++ reason.message
      ++ text "), polling instead")

/-- Compiles files for the first time before they are watched. -/
def runWatch (around : Surroundings) (s : Settings) (flags : FlagValues) (paths : List Bytes) :
    m CommandResult := do
  let log ← logWatching around (flags.poll.getD false) paths s.log
  let (cs, after) ← (Compilation.compileAll around.interrupted (s.options true) paths).run
    { cache := some .empty, log := log }
  let watched := (paths.map (absolute around.workingDirectory)).eraseDups
  let done := after.log.add .info (text "watching " ++ Bytes.ofNat watched.length
    ++ text " file(s)")
  return {
    output := Compilation.reportAll s.report cs
    log := if around.interrupted then after.log.lines else done.lines
    error := if around.interrupted then some .interrupted else none }

/-! ## All commands -/

/-- Runs a command that works with settings. -/
def withSettings (around : Surroundings) (flags : FlagValues)
    (run : Settings → m CommandResult) : m CommandResult := do
  match Settings.resolve around.toTerminal flags (← loadConfig flags) with
  | .ok s => run s
  | .error e => return .failure e

/-- Runs a command line that was understood. -/
def runLine (around : Surroundings) (line : CommandLine) : m CommandResult :=
  match line.command with
  | .compile =>
    withSettings around line.flags fun s => runCompile around.interrupted s line.arguments
  | .symbols =>
    withSettings around line.flags fun s => runSymbols around.interrupted s line.arguments
  | .watch => withSettings around line.flags fun s => runWatch around s line.flags line.arguments
  | .tokens => runTokens line.arguments
  | .version => return runVersion around line.flags

/-- Runs the command that the arguments name. -/
def run (around : Surroundings) (args : List Bytes) : m CommandResult :=
  match CommandLine.parse args with
  | .ok line => runLine around line
  | .error e => return .failure (.usage e)

end Command

end OnePass
