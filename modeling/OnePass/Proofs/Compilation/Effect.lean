import OnePass.Proofs.Compilation.Outcome
import OnePass.Proofs.Files.Writing
import OnePass.Proofs.Scoping.Program
set_option autoImplicit false

/-!
# What compiling a file does to the files

Compiling reads one file and writes at most one.  What happens to the files is what happens in writing
the code (`make_writesAllOrNothing`).  If the code is written, it is all there, line by line; if it is
not, all files are as they were (`compile_writes_all_or_nothing`).
-/

namespace OnePass

/-! ## The text of a program -/

/-- Lines that are put into a file are found in it again, each with its end. -/
theorem Ir.split_fileText {lines : List Bytes} (hne : lines ≠ [])
    (h : ∀ l ∈ lines, Ascii.newline ∉ l) :
    List.splitOn Ascii.newline (fileText lines) = lines ++ [[]] := by
  induction lines with
  | nil => exact absurd rfl hne
  | cons l lines ih =>
    obtain ⟨hl, hlines⟩ := List.forall_mem_cons.mp h
    cases lines with
    | nil =>
      have htext : fileText [l] = l ++ Ascii.newline :: [] := by
        simp only [fileText, Bytes.join, List.intercalate_singleton]
        rfl
      rw [htext, List.splitOn_append_cons_self_of_not_mem hl]
      rfl
    | cons next lines =>
      have htext : fileText (l :: next :: lines) = l ++ Ascii.newline :: fileText (next :: lines) := by
        simp only [fileText, Bytes.join, List.intercalate_cons_cons, List.append_assoc]
        rfl
      rw [htext, List.splitOn_append_cons_self_of_not_mem hl, ih (List.cons_ne_nil _ _) hlines]
      rfl

theorem Ir.Builder.finish_ne_nil {b : Builder} {lines : List Line} (h : b.finish = .ok lines) :
    lines ≠ [] := by
  unfold Builder.finish at h
  split at h
  · cases h
    simp
  · cases h

/-- The code of a program is made of lines. -/
theorem Program.newline_notMem_of_parse_ok {file source : Bytes} {target : Target} {p : Program}
    (h : (parse file source .empty (.new target)).result = .ok p) :
    p.lines ≠ [] ∧ ∀ l ∈ p.lines, Ascii.newline ∉ l := by
  have hworded := (parse_leavesTree file source (.new target)).code (Ir.Builder.isWorded_new target)
  rw [parse_of_ok (program_of_parse_ok h)] at h
  generalize (parse file source .empty (.new target)).state = s at h hworded
  unfold finish Ir.Builder.finishedText at h
  cases hfinish : s.builder.finish with
  | error e =>
    rw [hfinish] at h
    cases h
  | ok lines =>
    rw [hfinish] at h
    have hp : p.lines = lines.map s.builder.renderLine := congrArg Program.lines (Except.ok.inj h).symm
    have hlines := hworded.finish hfinish
    rw [hp]
    refine ⟨fun hnil => Ir.Builder.finish_ne_nil hfinish (List.map_eq_nil_iff.mp hnil), fun l hl => ?_⟩
    obtain ⟨line, hline, rfl⟩ := List.mem_map.mp hl
    exact (hlines line hline).newline_notMem

namespace Compilation

variable {o : CompileOptions} {path source : Bytes} {fs : MemoryFiles}

/-- What compiling a file does to the files, given what comes of it. -/
structure WritesAllOrNothing (o : CompileOptions) (c : Compilation) (fs fs' : MemoryFiles) : Prop where
  /-- a source that cannot be read or is no program leaves the files as they are -/
  invalid : c.isValid = false → fs' = fs
  /-- and so does every source if no code is to be written -/
  withheld : o.emit = false → fs' = fs
  /-- the code of a program is found in its file, line by line, and all other files stay -/
  written (p : Program) : c.program = some p → c.error = none → o.emit = true →
    c.output = o.outputPath p.name ∧
      fs'.readAll c.output = .ok (Ir.fileText p.lines) ∧
      List.splitOn Ascii.newline (Ir.fileText p.lines) = p.lines ++ [[]] ∧
      fs.Writes c.output (Ir.fileText p.lines) fs' ∧
      ∀ other, MemoryFiles.keyOf other ≠ MemoryFiles.keyOf c.output →
        fs'.readAll other = fs.readAll other
  /-- if the code of a program cannot be written, all files stay -/
  refused (p : Program) (e : CompileError) : c.program = some p → c.error = some e →
    (∃ fault, e = .unwritable (o.outputPath p.name) fault) ∧
      e.failure?.map (fun f => (f.category, f.code)) = some (.files, text "WRITE_FAILED") ∧
      c.output = [] ∧
      fs.AddsDirectories fs' ∧
      ∀ other, fs'.readAll other = fs.readAll other

section Outcomes

variable {c : Compilation} {p : Program} {fs' : MemoryFiles}

theorem writesAllOrNothing_of_none (hp : c.program = none) : WritesAllOrNothing o c fs fs := by
  refine ⟨fun _ => rfl, fun _ => rfl, fun p hp' => ?_, fun p e hp' => ?_⟩
  · rw [hp] at hp'
    cases hp'
  · rw [hp] at hp'
    cases hp'

theorem writesAllOrNothing_of_withheld (hemit : o.emit = false) (herror : c.error = none) :
    WritesAllOrNothing o c fs fs := by
  refine ⟨fun _ => rfl, fun _ => rfl, fun p _ _ hemit' => ?_, fun p e _ herror' => ?_⟩
  · rw [hemit] at hemit'
    cases hemit'
  · rw [herror] at herror'
    cases herror'

theorem writesAllOrNothing_of_written (hp : c.program = some p) (herror : c.error = none)
    (hemit : o.emit = true) (houtput : c.output = o.outputPath p.name)
    (hsplit : List.splitOn Ascii.newline (Ir.fileText p.lines) = p.lines ++ [[]])
    (hwrites : fs.Writes c.output (Ir.fileText p.lines) fs') : WritesAllOrNothing o c fs fs' := by
  refine ⟨fun hvalid => ?_, fun hemit' => ?_, fun p' hp' _ _ => ?_, fun p e _ herror' => ?_⟩
  · rw [isValid, hp] at hvalid
    cases hvalid
  · rw [hemit] at hemit'
    cases hemit'
  · rw [hp] at hp'
    cases hp'
    exact ⟨houtput, hwrites.readAll, hsplit, hwrites,
      fun other hother => (hwrites.others _ hother).readAll⟩
  · rw [herror] at herror'
    cases herror'

theorem writesAllOrNothing_of_refused (hp : c.program = some p) {fault : FileFault}
    (herror : c.error = some (.unwritable (o.outputPath p.name) fault)) (hemit : o.emit = true)
    (houtput : c.output = []) (hadds : fs.AddsDirectories fs') : WritesAllOrNothing o c fs fs' := by
  refine ⟨fun hvalid => ?_, fun hemit' => ?_, fun p _ herror' => ?_, fun p' e hp' herror' => ?_⟩
  · rw [isValid, hp] at hvalid
    cases hvalid
  · rw [hemit] at hemit'
    cases hemit'
  · rw [herror] at herror'
    cases herror'
  · rw [hp] at hp'
    rw [herror] at herror'
    cases hp'
    cases herror'
    exact ⟨⟨fault, rfl⟩, rfl, houtput, hadds, fun other => (hadds.entries _).readAll⟩

end Outcomes

/-- Making a compilation of a source. -/
theorem make_writesAllOrNothing {c : Compilation} {fs' : MemoryFiles}
    (h : (make o path source : StateM MemoryFiles Compilation) fs = (c, fs')) :
    WritesAllOrNothing o c fs fs' := by
  cases hresult : (Program.parse path source .empty (.new o.target)).result with
  | error e =>
    have hnone := ofSource_of_error hresult
    rw [make_of_rejected hnone] at h
    cases h
    exact writesAllOrNothing_of_none hnone
  | ok p =>
    obtain ⟨hp, herror, houtput⟩ := ofSource_of_ok hresult
    obtain ⟨hne, hlines⟩ := Program.newline_notMem_of_parse_ok hresult
    have hsplit := Ir.split_fileText hne hlines
    cases hemit : o.emit with
    | false =>
      rw [make_of_withheld hemit] at h
      cases h
      exact writesAllOrNothing_of_withheld hemit herror
    | true =>
      rcases fs.writeAll_cases (o.outputPath p.name) (Ir.fileText p.lines) with
        ⟨fault, fs₁, hwrite, hadds⟩ | ⟨fs₁, hwrite, hwrites⟩
      · rw [make_of_program hemit hp hwrite] at h
        cases h
        exact writesAllOrNothing_of_refused hp rfl hemit houtput hadds
      · rw [make_of_program hemit hp hwrite] at h
        cases h
        exact writesAllOrNothing_of_written hp herror hemit rfl hsplit hwrites

/-- Compiling a file without a cache writes the whole code of a program and nothing else, or it leaves
all files as they were. -/
theorem compile_writes_all_or_nothing (o : CompileOptions) (path : Bytes) (log : Log)
    (fs : MemoryFiles) :
    let run := (compileUnless false o path : CompileM (StateM MemoryFiles) Compilation)
      { log := log } fs
    WritesAllOrNothing o run.1.1 fs run.2 := by
  intro run
  have hrun : (makeFile o path : StateM MemoryFiles Compilation) fs = (run.1.1, run.2) :=
    makeFile_eq { log := log } rfl o path fs
  cases hsource : fs.readAll path with
  | error fault =>
    rw [makeFile_of_error hsource] at hrun
    obtain ⟨hcompilation, hfiles⟩ := Prod.mk.inj hrun
    rw [← hcompilation, ← hfiles]
    exact writesAllOrNothing_of_none rfl
  | ok source =>
    rw [makeFile_of_ok hsource] at hrun
    exact make_writesAllOrNothing hrun

/-- Files with a source in them, and another one where the first would be compiled to. -/
def crowdedFiles : MemoryFiles :=
  ((MemoryFiles.empty.addFile (text "in/a.src") (text "program P is integer i; begin end program.")).addFile
    (text "in/b.src") (text "program Q is begin end program.")).addFile (text "out/Q.ll/old") []

/-- How the files are compiled. -/
def crowdedOptions : CompileOptions := ⟨text "out", .standard, 1, true⟩

/-- One source is compiled to its file, with the other files kept; the other one is not, since there is
a directory of that name. -/
theorem crowdedFiles_compiled :
    let first := (compileUnless false crowdedOptions (text "in/a.src") :
      CompileM (StateM MemoryFiles) Compilation) { log := { verbosity := none } } crowdedFiles
    let second := (compileUnless false crowdedOptions (text "in/b.src") :
      CompileM (StateM MemoryFiles) Compilation) { log := { verbosity := none } } crowdedFiles
    (∃ p, first.1.1.program = some p ∧ first.1.1.output = text "out/P.ll" ∧
      first.2.readAll (text "out/P.ll") = .ok (Ir.fileText p.lines) ∧
      first.2.readAll (text "in/b.src") = crowdedFiles.readAll (text "in/b.src")) ∧
    second.1.1.output = [] ∧ crowdedFiles.AddsDirectories second.2 := by
  intro first second
  have hfirst := compile_writes_all_or_nothing crowdedOptions (text "in/a.src") { verbosity := none }
    crowdedFiles
  have hsecond := compile_writes_all_or_nothing crowdedOptions (text "in/b.src") { verbosity := none }
    crowdedFiles
  obtain ⟨hprogram, herror, houtput, hother⟩ : first.1.1.program.isSome = true ∧
      first.1.1.error = none ∧ first.1.1.output = text "out/P.ll" ∧
      MemoryFiles.keyOf (text "in/b.src") ≠ MemoryFiles.keyOf first.1.1.output := by
    decide +kernel
  obtain ⟨hprogram', herror'⟩ : second.1.1.program.isSome = true ∧ second.1.1.error.isSome = true := by
    decide +kernel
  obtain ⟨p, hp⟩ := Option.isSome_iff_exists.mp hprogram
  obtain ⟨q, hq⟩ := Option.isSome_iff_exists.mp hprogram'
  obtain ⟨e, he⟩ := Option.isSome_iff_exists.mp herror'
  obtain ⟨-, hread, -, -, hothers⟩ := hfirst.written p hp herror rfl
  obtain ⟨-, -, hnone, hadds, -⟩ := hsecond.refused q e hq he
  refine ⟨⟨p, hp, houtput, ?_, hothers _ hother⟩, hnone, hadds⟩
  rw [← houtput]
  exact hread

end Compilation

end OnePass
