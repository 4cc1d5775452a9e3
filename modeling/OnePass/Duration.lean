import OnePass.Rounded
import OnePass.Text.Bytes
set_option autoImplicit false

/-!
# Durations

A duration is written as an optional sign and decimal numbers with a unit each, such as `1h30m` or
`1.5s`; a zero needs no unit.  It is a number of nanoseconds that fits 64 bits.  Digits behind the
period are taken with 53 significant bits, and what is left of a nanosecond is dropped after that.
-/

namespace OnePass.Duration

/-- Why a text is no duration. -/
inductive Error where
  /-- it is not written as one, or it does not fit -/
  | invalid
  /-- a number has no unit -/
  | missingUnit
  /-- there is no such unit -/
  | unknownUnit (unit : Bytes)
  deriving DecidableEq, Repr, Inhabited

/-- A byte as it is shown: beyond printable ASCII as two hexadecimal digits. -/
def shownByte (b : UInt8) : Bytes :=
  if b < 0x20 ∨ 0x80 ≤ b then text "\\x" ++ Bytes.hexPair b
  else if b = Ascii.doubleQuote ∨ b = Ascii.backslash then [Ascii.backslash, b]
  else [b]

/-- A text as it is shown. -/
def shown (s : Bytes) : Bytes := text "\"" ++ s.flatMap shownByte ++ text "\""

/-- The wording of an error in a text. -/
def Error.message (input : Bytes) : Error → Bytes
  | .invalid => text "time: invalid duration " ++ shown input
  | .missingUnit => text "time: missing unit in duration " ++ shown input
  | .unknownUnit unit =>
    text "time: unknown unit " ++ shown unit ++ text " in duration " ++ shown input

/-- The units in nanoseconds. -/
def units : List (Bytes × Nat) :=
  [(text "ns", 1), (text "us", 1000), (text "µs", 1000), (text "μs", 1000),
    (text "ms", 1000000), (text "s", 1000000000), (text "m", 60 * 1000000000),
    (text "h", 3600 * 1000000000)]

/-- The greatest magnitude. -/
def limit : Nat := 0x8000000000000000

/-- The value of decimal digits. -/
def digitsValue (ds : Bytes) : Nat := ds.foldl (fun n b => n * 10 + Ascii.digitValue b) 0

/-- Whether a byte belongs to a number. -/
def isNumeric (b : UInt8) : Bool := b = Ascii.period || Ascii.isDigit b

/-- Reads digits behind a period as a numerator over a power of ten, as many of them as keep the
numerator within the limit. -/
def decimals : Bytes → Nat → Rounded → Nat × Rounded
  | [], numerator, scale => (numerator, scale)
  | d :: rest, numerator, scale =>
    let next := numerator * 10 + Ascii.digitValue d
    if next > limit then (numerator, scale) else decimals rest next (scale.mul (.ofNat 10))

/-- The whole nanoseconds in a fraction of a unit, given the digits behind the period. -/
def fractional (fraction : Bytes) (unit : Nat) : Nat :=
  let (numerator, scale) := decimals fraction 0 (.ofNat 1)
  ((Rounded.ofNat numerator).mul ((Rounded.ofNat unit).div scale)).floor

/-- The number of nanoseconds in a number of units, given the digits before and behind the
period. -/
def magnitude (whole fraction : Bytes) (unit : Nat) : Except Error Nat :=
  let value := digitsValue whole
  if value > limit / unit then .error .invalid
  else
    let total := value * unit + fractional fraction unit
    if total > limit then .error .invalid else .ok total

/-- Reads one number with its unit: the nanoseconds, and the rest. -/
def segment (s : Bytes) : Except Error (Nat × Bytes) := do
  let whole := s.takeWhile Ascii.isDigit
  let rest := s.dropWhile Ascii.isDigit
  if digitsValue whole > limit then throw .invalid
  let behind := if rest.head? = some Ascii.period then rest.tail else []
  let fraction := behind.takeWhile Ascii.isDigit
  let rest := if rest.head? = some Ascii.period then behind.dropWhile Ascii.isDigit else rest
  if whole = [] ∧ fraction = [] then throw .invalid
  match rest.takeWhile (!isNumeric ·) with
  | [] => throw .missingUnit
  | name => match units.lookup name with
    | none => throw (.unknownUnit name)
    | some unit => return (← magnitude whole fraction unit, rest.dropWhile (!isNumeric ·))

/-- Adds the numbers of a text, at most `count` of them, to a sum of 64 bits. -/
def sumWithin : Nat → Nat → Bytes → Except Error Nat
  | _, total, [] => .ok total
  | 0, _, _ => .error .invalid
  | count + 1, total, s => do
    let (n, rest) ← segment s
    let total := (total + n) % 0x10000000000000000
    if total > limit then throw .invalid
    sumWithin count total rest

/-- The number of nanoseconds without the sign.  Every number passes a byte, so the text's length
bounds their number. -/
def unsigned (s : Bytes) : Except Error Nat :=
  if s = text "0" then .ok 0
  else if s = [] then .error .invalid
  else sumWithin s.length 0 s

/-- Reads a duration in nanoseconds. -/
def read (s : Bytes) : Except Error Int := do
  let signed := s.head? = some Ascii.minus || s.head? = some Ascii.plus
  let total ← unsigned (if signed then s.tail else s)
  if s.head? = some Ascii.minus then return -total
  else if total ≥ limit then throw .invalid
  else return total

end OnePass.Duration
