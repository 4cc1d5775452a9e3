import OnePass.Command.Flag
set_option autoImplicit false

/-!
# Command lines

A command line names a command, or compiles if it names none, and holds flags and arguments in any
order.  The command is looked for first, with the general flags known; then the flags are read,
with those of the command known too; then the arguments are counted.  The first thing that is
wrong decides.
-/

namespace OnePass

/-- The commands. -/
inductive Command where
  | compile
  | tokens
  | symbols
  | watch
  | version
  deriving DecidableEq, Repr, Inhabited

namespace Command

/-- The name of the tool. -/
def tool : Bytes := text "plc"

/-- The command with a name. -/
def named? (name : Bytes) : Option Command :=
  [(text "tokens", tokens), (text "symbols", symbols), (text "watch", watch),
    (text "version", version)].lookup name

/-- The flags that a command knows. -/
def flags : Command → List Flag
  | .watch => Flag.general ++ [.poll, .interval]
  | .version => Flag.general ++ [.json]
  | _ => Flag.general

end Command

/-- What is wrong with a command line. -/
inductive UsageError where
  /-- an argument starts like a flag and is none -/
  | badSyntax (arg : Bytes)
  /-- there is no flag of a name -/
  | unknownName (name : Bytes)
  /-- there is no flag of the first letter of a cluster -/
  | unknownLetter (letter : UInt8) (cluster : Bytes)
  /-- the value of a flag is missing -/
  | valueMissing (arg : Bytes)
  /-- the value of the flag at the end of a cluster is missing -/
  | letterValueMissing (letter : UInt8) (cluster : Bytes)
  /-- the value of a flag does not fit -/
  | badValue (flag : Flag) (value reason : Bytes)
  /-- there is no argument where one is needed -/
  | noArguments
  /-- there is an argument where none is allowed -/
  | extraArgument (arg : Bytes)
  deriving DecidableEq, Repr, Inhabited

/-- The wording of an error. -/
def UsageError.message : UsageError → Bytes
  | .badSyntax arg => text "bad flag syntax: " ++ arg
  | .unknownName name => text "unknown flag: --" ++ name
  | .unknownLetter letter cluster =>
    text "unknown shorthand flag: " ++ quotedCode letter.toNat ++ text " in -" ++ cluster
  | .valueMissing arg => text "flag needs an argument: " ++ arg
  | .letterValueMissing letter cluster =>
    text "flag needs an argument: " ++ quotedCode letter.toNat ++ text " in -" ++ cluster
  | .badValue flag value reason =>
    text "invalid argument " ++ quoted value ++ text " for " ++ quoted flag.spellings
      ++ text " flag: " ++ reason
  | .noArguments => text "requires at least 1 arg(s), only received 0"
  | .extraArgument arg =>
    text "unknown command " ++ quoted arg ++ text " for " ++ quoted (Command.tool ++ text " version")

namespace CommandLine

/-! ## Finding the command -/

/-- Whether an argument is taken for a flag whose value is the next argument.  Flags that are not
known are taken for such. -/
def awaitsNext (known : List Flag) (arg : Bytes) : Bool :=
  match arg with
  | a :: b :: rest =>
    a = Ascii.minus && Ascii.equals ∉ arg
      && (if b = Ascii.minus then !(Flag.named? known rest).any Flag.isSwitch
        else rest = [] && !(Flag.lettered? known b).any Flag.isSwitch)
  | _ => false

/-- The first argument that is neither a flag nor the value of one, and the arguments without it.
There is none behind `--`, and none if a flag with a value is among the last two arguments. -/
def firstWord (known : List Flag) : List Bytes → Option (Bytes × List Bytes)
  | [] => none
  | arg :: rest =>
    if arg = text "--" then none
    else if awaitsNext known arg then
      match rest with
      | value :: next :: more =>
        (firstWord known (next :: more)).map fun (w, others) => (w, arg :: value :: others)
      | _ => none
    else if arg ≠ [] ∧ arg.head? ≠ some Ascii.minus then some (arg, rest)
    else (firstWord known rest).map fun (w, others) => (w, arg :: others)

/-- The command that the arguments name, and the arguments without its name. -/
def findCommand (args : List Bytes) : Command × List Bytes :=
  match firstWord Flag.general args with
  | some (w, others) => match Command.named? w with
    | some c => (c, others)
    | none => (.compile, args)
  | none => (.compile, args)

/-! ## Reading flags -/

/-- How far the arguments have been read. -/
structure Scan where
  values : FlagValues := {}
  /-- the arguments that are no flags, latest first -/
  arguments : List Bytes := []
  /-- the flag whose value comes next, and the error if it does not -/
  awaiting : Option (Flag × UsageError) := none
  /-- whether no more flags are read -/
  ended : Bool := false
  deriving DecidableEq, Repr, Inhabited

namespace Scan

/-- Sets the value of a flag. -/
def set (s : Scan) (flag : Flag) (value : Bytes) : Except UsageError Scan := do
  let values ← (s.values.set flag value).mapError (.badValue flag value)
  return { s with values := values, awaiting := none }

/-- Waits for the value of a flag. -/
def await (s : Scan) (flag : Flag) (missing : UsageError) : Scan :=
  { s with awaiting := some (flag, missing) }

/-- Reads flags behind one dash: a cluster of letters, the last of which may be followed by its
value.  What the testing of programs adds by itself is passed over. -/
def cluster (known : List Flag) (s : Scan) : Bytes → Except UsageError Scan
  | [] => .ok s
  | c :: rest =>
    if (text "test.").isPrefixOf (c :: rest) then .ok s
    else match Flag.lettered? known c with
      | none => .error (.unknownLetter c (c :: rest))
      | some flag =>
        if rest.head? = some Ascii.equals ∧ rest.length > 1 then s.set flag rest.tail
        else if flag.isSwitch then do cluster known (← s.set flag (text "true")) rest
        else if rest ≠ [] then s.set flag rest
        else .ok (s.await flag (.letterValueMissing c (c :: rest)))

/-- Reads a flag behind two dashes. -/
def long (known : List Flag) (s : Scan) (body : Bytes) : Except UsageError Scan :=
  let arg := text "--" ++ body
  if body.head? = some Ascii.minus ∨ body.head? = some Ascii.equals then .error (.badSyntax arg)
  else
    let (name, value?) := Bytes.cut Ascii.equals body
    match Flag.named? known name with
    | none => .error (.unknownName name)
    | some flag => match value? with
      | some value => s.set flag value
      | none =>
        if flag.isSwitch then s.set flag (text "true")
        else .ok (s.await flag (.valueMissing arg))

/-- Reads one argument. -/
def step (known : List Flag) (s : Scan) (arg : Bytes) : Except UsageError Scan :=
  if s.ended then .ok { s with arguments := arg :: s.arguments }
  else match s.awaiting with
    | some (flag, _) => s.set flag arg
    | none => match arg with
      | a :: b :: rest =>
        if a ≠ Ascii.minus then .ok { s with arguments := arg :: s.arguments }
        else if b ≠ Ascii.minus then s.cluster known (b :: rest)
        else if rest = [] then .ok { s with ended := true }
        else s.long known rest
      | _ => .ok { s with arguments := arg :: s.arguments }

end Scan

/-- Reads the flags that are known: their values, and the other arguments in their order. -/
def readFlags (known : List Flag) (args : List Bytes) :
    Except UsageError (FlagValues × List Bytes) := do
  let s ← args.foldlM (Scan.step known) {}
  match s.awaiting with
  | some (_, missing) => throw missing
  | none => return (s.values, s.arguments.reverse)

end CommandLine

/-- A command line that was understood. -/
structure CommandLine where
  command : Command
  flags : FlagValues
  arguments : List Bytes
  deriving DecidableEq, Repr, Inhabited

namespace CommandLine

/-- Checks the number of arguments: the version takes none, every other command at least one. -/
def checkCount (command : Command) (arguments : List Bytes) : Except UsageError Unit :=
  match command, arguments with
  | .version, [] => .ok ()
  | .version, arg :: _ => .error (.extraArgument arg)
  | _, [] => .error .noArguments
  | _, _ => .ok ()

/-- Understands the arguments of a command line. -/
def parse (args : List Bytes) : Except UsageError CommandLine := do
  let (command, others) := findCommand args
  let (flags, arguments) ← readFlags command.flags others
  checkCount command arguments
  return ⟨command, flags, arguments⟩

end CommandLine

end OnePass
