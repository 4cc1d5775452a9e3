import OnePass.Compilation.Basic
set_option autoImplicit false

/-!
# Reports

What is printed about a compilation: its diagnostics in their order, and then whether the source
is a program, or that there was a failure.
-/

namespace OnePass

/-- How compilations are reported. -/
structure ReportOptions where
  color : Bool
  /-- whether the line of the source is shown under a diagnostic -/
  excerpts : Bool
  deriving DecidableEq, Repr, Inhabited

namespace Compilation

/-- What is printed about a file that could not be compiled. -/
def failureLine : Bytes := text "Failed to read file path."

/-- What is printed about the outcome. -/
def verdict (c : Compilation) : Bytes :=
  if c.failed then Bytes.line failureLine
  else Bytes.line (if c.isValid then text "true" else text "false") ++ Bytes.line []

/-- The report of a compilation. -/
def report (o : ReportOptions) (c : Compilation) : Bytes :=
  Diagnostic.displayAll ⟨o.color, if o.excerpts then c.source else none⟩ c.diagnostics ++ c.verdict

/-- The reports of compilations in their order. -/
def reportAll (o : ReportOptions) (cs : List Compilation) : Bytes := cs.flatMap (report o)

/-- The list of the bindings that the source declares, in the order of their keys. -/
def symbolListing (c : Compilation) : Bytes :=
  Bytes.unlines (c.declared.map fun (key, s) => s.listing key)

end Compilation

end OnePass
