import OnePass.JsonValue.Render
set_option autoImplicit false

/-!
# Release information

Which release of the tool this is, and how that is printed.
-/

namespace OnePass

/-- What is known of a release. -/
structure Release where
  version : Bytes
  buildDate : Bytes
  commit : Bytes
  /-- the version of the tools that the release was built with -/
  toolchain : Bytes
  platform : Bytes
  architecture : Bytes
  /-- the target that code is emitted for; empty if it is not told -/
  target : Bytes
  deriving DecidableEq, Repr, Inhabited

namespace Release

/-- The version of this release. -/
def ownVersion : Bytes := text "0.1.0"

/-- The date of this release. -/
def ownDate : Bytes := text "2026-10-19"

/-- The commit of this release, which is not known. -/
def ownCommit : Bytes := text "unknown"

/-- This release on a platform. -/
def own (toolchain platform architecture target : Bytes) : Release :=
  ⟨ownVersion, ownDate, ownCommit, toolchain, platform, architecture, target⟩

/-- The release of a tool as lines.  A commit and a target that are not known are left out. -/
def renderLines (tool : Bytes) (r : Release) : Bytes :=
  Bytes.unlines <|
    [tool ++ text " v" ++ r.version, text "Build Date: " ++ r.buildDate]
      ++ (if r.commit = [] ∨ r.commit = ownCommit then [] else [text "Commit: " ++ r.commit])
      ++ [text "Go Version: " ++ r.toolchain,
        text "Platform: " ++ r.platform ++ text "/" ++ r.architecture]
      ++ (if r.target = [] then [] else [text "Target: " ++ r.target])

/-- The release as a JSON value. -/
def toJson (r : Release) : JsonValue :=
  .object <|
    [(text "version", JsonValue.string r.version), (text "build_date", .string r.buildDate),
      (text "commit_sha", .string r.commit), (text "go_version", .string r.toolchain),
      (text "platform", .string r.platform), (text "arch", .string r.architecture)]
      ++ (if r.target = [] then [] else [(text "target", .string r.target)])

/-- The release of a tool as JSON. -/
def renderJson (tool : Bytes) (r : Release) : Bytes :=
  Bytes.line (JsonValue.object [(text "tool", .string tool), (text "version_info", r.toJson)]).render

end Release

end OnePass
