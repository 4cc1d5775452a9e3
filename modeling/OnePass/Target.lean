import OnePass.Version
set_option autoImplicit false

/-!
# Targets

The version of the code that is emitted decides how pointers are spelled: with the type that they
point to, or all alike.
-/

namespace OnePass

/-- How pointers are spelled. -/
inductive PointerStyle where
  /-- by the type pointed to, as `i8*` -/
  | typed
  /-- all as `ptr` -/
  | untyped
  deriving DecidableEq, Repr, Inhabited

/-- The name of a style. -/
def PointerStyle.name : PointerStyle → Bytes
  | .typed => text "typed"
  | .untyped => text "opaque"

/-- What code is emitted for. -/
structure Target where
  version : Option Version
  pointers : PointerStyle
  deriving DecidableEq, Repr, Inhabited

namespace Target

/-- Why there is no target. -/
inductive Error where
  /-- what is asked for is no version -/
  | version (asked : Bytes) (reason : Version.Error)
  /-- the library does not know the constraint -/
  | constraint (reason : Bytes)
  deriving DecidableEq, Repr, Inhabited

/-- The wording of an error. -/
def Error.message : Error → Bytes
  | .version asked reason =>
    text "invalid llvm version " ++ quoted asked ++ text ": " ++ reason.message
  | .constraint reason => reason

/-- The version that is used if none is asked for. -/
def defaultVersion : Bytes := text "14.0.0"

/-- The versions with untyped pointers. -/
def untypedFrom : Bytes := text ">= 15.0.0"

/-- The version that is meant by what is asked for. -/
def requested (version : Bytes) : Bytes := if version.isEmpty then defaultVersion else version

/-- The target for a version; an empty one is the default. -/
def parseWith (library : VersionLibrary) (version : Bytes) : Except Error Target :=
  match library.read (requested version) with
  | .error reason => .error (.version (requested version) reason)
  | .ok v =>
    match library.constraint untypedFrom with
    | .error reason => .error (.constraint reason)
    | .ok allows => .ok ⟨some v, if allows v then .untyped else .typed⟩

/-- The target for a version. -/
def parse (version : Bytes) : Except Error Target := parseWith .semantic version

/-- The target of the default version. -/
def standard : Target := ⟨some ⟨14, 0, 0, [], []⟩, .typed⟩

/-- The target that is named by no version. -/
def unversioned : Target := ⟨none, .typed⟩

/-- The target as it is shown. -/
def render (t : Target) : Bytes :=
  let style := text "(" ++ t.pointers.name ++ text " pointers)"
  match t.version with
  | some v => text "llvm " ++ v.render ++ text " " ++ style
  | none => text "llvm " ++ style

theorem parse_empty : parse [] = .ok standard := by
  rfl

end Target

end OnePass
