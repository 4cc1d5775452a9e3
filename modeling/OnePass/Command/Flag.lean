import OnePass.Duration
import OnePass.Text.Numeral
set_option autoImplicit false

/-!
# Flags

The flags of the command line and the settings that they carry.  A flag that is given twice
carries the later value.
-/

namespace OnePass

/-- The flags. -/
inductive Flag where
  | config
  | out
  | llvmVersion
  | jobs
  | verbose
  | debug
  | color
  | excerpts
  | json
  | poll
  | interval
  deriving DecidableEq, Repr, Inhabited

namespace Flag

/-- The flags of every command. -/
def general : List Flag :=
  [.config, .out, .llvmVersion, .jobs, .verbose, .debug, .color, .excerpts]

/-- The name behind two dashes. -/
def name : Flag → Bytes
  | .config => text "config"
  | .out => text "out"
  | .llvmVersion => text "llvm-version"
  | .jobs => text "jobs"
  | .verbose => text "verbose"
  | .debug => text "debug"
  | .color => text "color"
  | .excerpts => text "excerpts"
  | .json => text "json"
  | .poll => text "poll"
  | .interval => text "interval"

/-- The letter behind one dash. -/
def letter? : Flag → Option UInt8
  | .config => some 0x63
  | .out => some 0x6f
  | .jobs => some 0x6a
  | .verbose => some 0x76
  | _ => none

/-- Whether a flag is on when it stands alone; any other flag needs a value. -/
def isSwitch : Flag → Bool
  | .verbose | .debug | .excerpts | .json | .poll => true
  | _ => false

/-- The spellings of a flag as they are shown. -/
def spellings (f : Flag) : Bytes :=
  f.letter?.elim [] (fun c => text "-" ++ [c] ++ text ", ") ++ text "--" ++ f.name

/-- The flag with a name, of those given. -/
def named? (known : List Flag) (name : Bytes) : Option Flag := known.find? (·.name = name)

/-- The flag with a letter, of those given. -/
def lettered? (known : List Flag) (c : UInt8) : Option Flag := known.find? (·.letter? = some c)

end Flag

/-- What the flags of a command line say; nothing for a flag that is not given. -/
structure FlagValues where
  config : Option Bytes := none
  out : Option Bytes := none
  llvmVersion : Option Bytes := none
  jobs : Option Int := none
  verbose : Option Bool := none
  debug : Option Bool := none
  color : Option Bytes := none
  excerpts : Option Bool := none
  json : Option Bool := none
  poll : Option Bool := none
  /-- the time between two looks, in nanoseconds -/
  interval : Option Int := none
  deriving DecidableEq, Repr, Inhabited

namespace FlagValues

/-- The spellings of yes and no. -/
def switchWords : List (Bytes × Bool) :=
  ([text "1", text "t", text "T", text "TRUE", text "true", text "True"].map (·, true))
    ++ ([text "0", text "f", text "F", text "FALSE", text "false", text "False"].map (·, false))

/-- Reads yes or no; the error is its wording. -/
def readSwitch (value : Bytes) : Except Bytes Bool :=
  match switchWords.lookup value with
  | some b => .ok b
  | none => .error (Numeral.faultText (text "strconv.ParseBool") value .malformed)

/-- Reads a number; the error is its wording. -/
def readNumber (value : Bytes) : Except Bytes Int :=
  (Numeral.readMarkedInt value).mapError (Numeral.faultText (text "strconv.ParseInt") value)

/-- Sets the value of a flag; the error is its wording. -/
def set (v : FlagValues) (flag : Flag) (value : Bytes) : Except Bytes FlagValues := do
  match flag with
  | .config => return { v with config := some value }
  | .out => return { v with out := some value }
  | .llvmVersion => return { v with llvmVersion := some value }
  | .jobs => return { v with jobs := some (← readNumber value) }
  | .verbose => return { v with verbose := some (← readSwitch value) }
  | .debug => return { v with debug := some (← readSwitch value) }
  | .color => return { v with color := some value }
  | .excerpts => return { v with excerpts := some (← readSwitch value) }
  | .json => return { v with json := some (← readSwitch value) }
  | .poll => return { v with poll := some (← readSwitch value) }
  | .interval =>
    return { v with interval := some (← (Duration.read value).mapError (·.message value)) }

end FlagValues

end OnePass
