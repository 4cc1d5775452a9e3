import OnePass.Text.Numeral
set_option autoImplicit false

/-!
# Semantic versions

A version is up to three numbers, an optional pre-release and optional build data:
`v1.2.3-rc.1+linux`.  Numbers that are left out are zero.
-/

namespace OnePass

/-- A semantic version. -/
structure Version where
  major : Nat
  minor : Nat
  patch : Nat
  /-- the pre-release, empty for a release -/
  prerelease : Bytes
  /-- the build data, empty if there are none -/
  build : Bytes
  deriving DecidableEq, Repr, Inhabited

namespace Version

/-- Why a text is no version. -/
inductive Error where
  /-- it does not have the form of a version -/
  | malformed
  /-- a number is too large -/
  | tooLarge (number : Bytes)
  /-- a number in the pre-release has a leading zero -/
  | leadingZero
  deriving DecidableEq, Repr, Inhabited

/-- The wording of an error. -/
def Error.message : Error → Bytes
  | .malformed => text "Invalid Semantic Version"
  | .tooLarge number =>
    text "Error parsing version segment: "
      ++ Numeral.faultText (text "strconv.ParseUint") number .outOfRange
  | .leadingZero => text "Version segment starts with 0"

/-- The bytes of an identifier in a pre-release or in build data. -/
def isIdentifierByte (b : UInt8) : Bool := Ascii.isLetter b || Ascii.isDigit b || b = Ascii.minus

/-- Whether a text is identifiers joined by periods. -/
def isDotted (s : Bytes) : Bool :=
  (List.splitOn Ascii.period s).all fun part => !part.isEmpty && part.all isIdentifierByte

/-- Whether an identifier is a number that starts with a needless zero. -/
def hasLeadingZero (part : Bytes) : Bool :=
  part.all Ascii.isDigit && 1 < part.length && part.head? = some Ascii.zero

/-- The parts of a version's text. -/
structure Parts where
  numbers : List Bytes
  prerelease : Option Bytes
  build : Option Bytes
  deriving DecidableEq, Repr, Inhabited

/-- Cuts a version's text into its parts: the build data follow the first plus sign, and the
pre-release follows the first minus sign before that. -/
def parts? (s : Bytes) : Option Parts :=
  let s := (Bytes.dropHead? (text "v") s).getD s
  let (front, build) := Bytes.cut Ascii.plus s
  let (core, prerelease) := Bytes.cut Ascii.minus front
  let numbers := List.splitOn Ascii.period core
  if numbers.length ≤ 3 && numbers.all (fun n => !n.isEmpty && n.all Ascii.isDigit)
      && prerelease.all isDotted && build.all isDotted then
    some ⟨numbers, prerelease, build⟩
  else none

/-- The value of a number of a version; a number that is left out is zero. -/
def number (numbers : List Bytes) (index : Nat) : Except Error Nat :=
  match numbers[index]? with
  | none => .ok 0
  | some digits => (Numeral.readUnsigned digits).mapError fun _ => .tooLarge digits

/-- Reads a version. -/
def parse (s : Bytes) : Except Error Version :=
  match parts? s with
  | none => .error .malformed
  | some p => do
    let major ← number p.numbers 0
    let minor ← number p.numbers 1
    let patch ← number p.numbers 2
    let prerelease := p.prerelease.getD []
    if (List.splitOn Ascii.period prerelease).any hasLeadingZero then throw .leadingZero
    return ⟨major, minor, patch, prerelease, p.build.getD []⟩

/-- A part of a version's text behind its mark; nothing if there is no such part. -/
def marked (mark : UInt8) (part : Bytes) : Bytes := if part.isEmpty then [] else mark :: part

/-- The version's text: all three numbers, and the other parts if there are any. -/
def render (v : Version) : Bytes :=
  Bytes.ofNat v.major ++ text "." ++ Bytes.ofNat v.minor ++ text "." ++ Bytes.ofNat v.patch
    ++ marked Ascii.minus v.prerelease ++ marked Ascii.plus v.build

/-- Whether the version is a release. -/
def isRelease (v : Version) : Bool := v.prerelease.isEmpty

/-- Whether the numbers of a version are those of another or larger ones. -/
def reaches (v bound : Version) : Bool :=
  bound.major < v.major || bound.major = v.major &&
    (bound.minor < v.minor || bound.minor = v.minor && bound.patch ≤ v.patch)

/-- The versions that a constraint allows.  Only lower bounds `>= RELEASE` are read; they allow the
releases from there on, and no pre-release. -/
def constraint (s : Bytes) : Except Bytes (Version → Bool) :=
  match (Bytes.dropHead? (text ">= ") s).map parse with
  | some (.ok bound) =>
    if bound.isRelease then .ok fun v => v.isRelease && v.reaches bound
    else .error (text "improper constraint: " ++ s)
  | _ => .error (text "improper constraint: " ++ s)

end Version

/-- What is needed of a library for versions. -/
structure VersionLibrary where
  /-- reads a version -/
  read : Bytes → Except Version.Error Version
  /-- reads a constraint, which allows some versions; the error is the wording -/
  constraint : Bytes → Except Bytes (Version → Bool)

/-- The library that programs are run with. -/
def VersionLibrary.semantic : VersionLibrary := ⟨Version.parse, Version.constraint⟩

end OnePass
