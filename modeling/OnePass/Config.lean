import OnePass.Files.Fault
import OnePass.JsonValue.Read
import OnePass.JsonValue.Render
import OnePass.Text.Numeral
set_option autoImplicit false

/-!
# Settings

The settings of a run, as a JSON file holds them.  A file changes the settings that it names and
leaves the others at their defaults; names are matched without regard to case.
-/

namespace OnePass

/-- The settings of a run. -/
structure Config where
  verbose : Bool := false
  debug : Bool := false
  /-- the directory that emitted code is written to -/
  outDir : Bytes := []
  /-- the version that code is emitted for -/
  llvmVersion : Bytes := []
  /-- how many files may be compiled at a time -/
  jobs : Int := 0
  /-- when diagnostics are coloured: `auto`, `always` or `never` -/
  color : Bytes := []
  deriving DecidableEq, Repr, Inhabited

namespace Config

/-- Why there are no settings. -/
inductive Error where
  /-- the file cannot be read -/
  | unreadable (fault : FileFault)
  /-- the file holds no settings -/
  | malformed
  /-- the number of jobs is negative -/
  | negativeJobs (jobs : Int)
  /-- the colour mode is none of the three -/
  | unknownColor (color : Bytes)
  deriving DecidableEq, Repr, Inhabited

/-- The wording of an error. -/
def Error.message : Error → Bytes
  | .unreadable fault => text "failed to read config file: " ++ fault.message
  | .malformed => text "failed to parse config file: no settings in it"
  | .negativeJobs jobs => text "jobs must be positive, got " ++ Bytes.ofInt jobs
  | .unknownColor color =>
    text "invalid color mode " ++ quoted color ++ text " (want auto, always or never)"

/-- The colour mode that leaves it to the output. -/
def colorAuto : Bytes := text "auto"
/-- The colour mode with colours. -/
def colorAlways : Bytes := text "always"
/-- The colour mode without colours. -/
def colorNever : Bytes := text "never"

/-- The settings that hold where nothing else is said. -/
def standard : Config := { outDir := text ".", jobs := 1, color := colorAuto }

/-- Fills in settings that are empty and checks the others; the number of jobs is checked
first. -/
def validate (c : Config) : Except Error Config :=
  let outDir := if c.outDir = [] then text "." else c.outDir
  let jobs := if c.jobs = 0 then 1 else c.jobs
  let color := if c.color = [] then colorAuto else c.color
  if jobs < 0 then .error (.negativeJobs jobs)
  else if color ∈ [colorAuto, colorAlways, colorNever] then
    .ok { c with outDir := outDir, jobs := jobs, color := color }
  else .error (.unknownColor color)

/-- Whether output is coloured. -/
def useColor (c : Config) (toTerminal : Bool) : Bool :=
  if c.color = colorAlways then true
  else if c.color = colorNever then false
  else toTerminal

/-! ## Reading -/

/-- The small letter that a code point is matched as.  Two code points beyond ASCII are matched as
letters: the long s and the Kelvin sign. -/
def foldCode (code : Nat) : Nat :=
  if 0x41 ≤ code && code ≤ 0x5a then code + 0x20
  else if code = 0x17f then 0x73
  else if code = 0x212a then 0x6b
  else code

/-- A name as it is matched. -/
def foldName (s : Bytes) : Bytes := (Utf8.pieces s).flatMap fun u => Utf8.encode (foldCode u.code)

/-- A truth value for a setting; nothing changes for `null`. -/
def bool? (old : Bool) : JsonValue → Option Bool
  | .null => some old
  | .bool b => some b
  | _ => none

/-- A text for a setting; nothing changes for `null`. -/
def string? (old : Bytes) : JsonValue → Option Bytes
  | .null => some old
  | .string s => some s
  | _ => none

/-- An integer of 64 bits for a setting; nothing changes for `null`. -/
def int? (old : Int) : JsonValue → Option Int
  | .null => some old
  | .number digits => (Numeral.readInt digits).toOption
  | _ => none

/-- Changes the setting that a member names; others are ignored. -/
def set? (c : Config) (member : Bytes × JsonValue) : Option Config :=
  let (key, v) := member
  let key := foldName key
  if key = text "verbose" then (bool? c.verbose v).map fun b => { c with verbose := b }
  else if key = text "debug" then (bool? c.debug v).map fun b => { c with debug := b }
  else if key = text "out_dir" then (string? c.outDir v).map fun s => { c with outDir := s }
  else if key = text "llvm_version" then
    (string? c.llvmVersion v).map fun s => { c with llvmVersion := s }
  else if key = text "jobs" then (int? c.jobs v).map fun n => { c with jobs := n }
  else if key = text "color" then (string? c.color v).map fun s => { c with color := s }
  else some c

/-- Changes the settings that a value names. -/
def update? (c : Config) : JsonValue → Option Config
  | .null => some c
  | .object members => members.foldlM set? c
  | _ => none

/-- The settings that a file's text gives. -/
def ofText (s : Bytes) : Except Error Config :=
  match (JsonValue.ofText? s).bind (update? standard) with
  | some c => c.validate
  | none => .error .malformed

/-- The settings that a file gives, if reading it gave its text.  A file that is not there gives
the standard settings. -/
def ofRead : Except FileFault Bytes → Except Error Config
  | .ok s => ofText s
  | .error fault => if fault.isAbsence then .ok standard else .error (.unreadable fault)

/-! ## Writing -/

/-- The settings as a JSON value. -/
def toJson (c : Config) : JsonValue :=
  .object [(text "verbose", .bool c.verbose), (text "debug", .bool c.debug),
    (text "out_dir", .string c.outDir), (text "llvm_version", .string c.llvmVersion),
    (text "jobs", .number (Bytes.ofInt c.jobs)), (text "color", .string c.color)]

/-- The text of a settings file. -/
def render (c : Config) : Bytes := c.toJson.render

/-- Whether the settings are read back from their own text. -/
def roundTrips (c : Config) : Bool :=
  match ofText c.render with
  | .ok back => back = c
  | .error _ => false

end Config

end OnePass
