import Std.Time
import OnePass.Command.Run
set_option autoImplicit false

/-!
# The program

The command line run on the files of the host.  Everything that is decided is decided elsewhere:
here files are read and written, and results are printed.
-/

namespace OnePass.Host

/-- The text of bytes that come from the host or go to it. -/
def toText (s : Bytes) : String :=
  match String.fromUTF8? (ByteArray.mk s.toArray) with
  | some t => t
  | none => ""

/-- The reason that the host gives. -/
def reasonOf : IO.Error → FileReason
  | .noFileOrDirectory .. => .noEntry
  | .inappropriateType _ code _ => if code = 21 then .isDirectory else .notDirectory
  | .alreadyExists .. => .notDirectory
  | .permissionDenied .. => .host (text "permission denied")
  | .invalidArgument _ code _ => if code = 36 then .tooLong else .unusable
  | e => .host (text (toString e))

/-- The path that the host blames: where a file stands in the way of a directory, that file. -/
def culprit (path : Bytes) : IO.Error → Bytes
  | .alreadyExists (some file) .. => text file
  | _ => path

/-- Runs an operation of the host; an error becomes the fault of a path. -/
def attempt {α : Type} (operation : FileOperation) (path : Bytes) (act : IO α) :
    IO (Except FileFault α) := do
  try
    return .ok (← act)
  catch e =>
    return .error (.path operation (culprit path e) (reasonOf e))

/-- The fault of reading a file of the host: a directory can be opened but not read. -/
def readingFault : FileFault → FileFault
  | .path .open path .isDirectory => .path .read path .isDirectory
  | fault => fault

/-- The contents of a file of the host. -/
def readAll (path : Bytes) : IO (Except FileFault Bytes) := do
  let result ← attempt .open path (IO.FS.readBinFile (toText path))
  return (result.map (·.data.toList)).mapError readingFault

/-- Makes the directory that a file of the host is in. -/
def makeParent (path : Bytes) : IO (Except FileFault Unit) := do
  let parent := Path.dir path
  if parent = text "." ∨ parent = text "/" then return .ok ()
  attempt .mkdir parent (IO.FS.createDirAll (toText parent))

/-- Writes a whole file of the host. -/
def writeAll (path data : Bytes) : IO (Except FileFault Unit) := do
  match ← makeParent path with
  | .error e => return .error e
  | .ok () =>
    attempt .open path (IO.FS.writeBinFile (toText path) (ByteArray.mk data.toArray))

instance : FileStore IO where
  readAll := readAll
  writeAll := writeAll
  reach path := do
    try
      let _ ← IO.FS.realPath (toText path)
      return .ok ()
    catch e => return .error (reasonOf e)

/-- Prints a result, and gives the exit code. -/
def deliver (result : CommandResult) : IO UInt32 := do
  let stamp := (← Std.Time.PlainTime.now).format "HH:mm:ss"
  let log := result.log.flatMap (LogLine.render (text stamp ++ text ": "))
  (← IO.getStderr).write (ByteArray.mk log.toArray)
  (← IO.getStdout).write (ByteArray.mk result.output.toArray)
  match result.error with
  | none => return 0
  | some e =>
    (← IO.getStderr).write (ByteArray.mk (Bytes.line (text "Error: " ++ e.message)).toArray)
    return 1

/-- What the program finds around it. -/
def surroundings : IO Surroundings := do
  return {
    interrupted := false
    toTerminal := ← (← IO.getStdout).isTty
    workingDirectory := text (← IO.currentDir).toString
    toolchain := text "unknown"
    platform := text "linux"
    architecture := text "amd64" }

/-- Compiles a watched file again if its contents have changed. -/
def lookAgain (around : Surroundings) (flags : FlagValues) (path : Bytes) (seen : Option Bytes) :
    IO (Option Bytes) := do
  match ← readAll path with
  | .error _ => return seen
  | .ok data =>
    if seen = some data then return seen
    let _ ← deliver (← Command.runLine around ⟨.compile, flags, [path]⟩)
    return some data

/-- Looks at the watched files again and again. -/
partial def watch (around : Surroundings) (flags : FlagValues)
    (files : List (Bytes × Option Bytes)) : IO Unit := do
  let nanoseconds := flags.interval.getD 500000000
  IO.sleep (if nanoseconds ≤ 0 then 500 else (nanoseconds.toNat / 1000000).toUInt32)
  watch around flags (← files.mapM fun (path, seen) => do
    return (path, ← lookAgain around flags path seen))

/-- Starts watching files that have just been compiled. -/
def startWatching (around : Surroundings) (line : CommandLine) : IO Unit := do
  watch around line.flags (← line.arguments.mapM fun path => do
    return (path, (← readAll path).toOption))

end OnePass.Host

open OnePass

/-- Runs the command line. -/
def main (args : List String) : IO UInt32 := do
  let around ← Host.surroundings
  match CommandLine.parse (args.map text) with
  | .error e => Host.deliver (.failure (.usage e))
  | .ok line =>
    let code ← Host.deliver (← Command.runLine around line)
    if line.command = .watch ∧ code = 0 then Host.startWatching around line
    return code
