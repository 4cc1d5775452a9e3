import OnePass.Proofs.Compilation.Effect
import OnePass.Proofs.Files.Interleaving
set_option autoImplicit false

/-!
# Compiling files at the same time

Files that are compiled at the same time share one tree: each is read, and its code is written, in steps
that may come between those of any other.  All code goes to one directory, under the names of the
programs; so if these differ, and no code is written where a source is read, none of the compilations
disturbs another (`admissible_makeFile`).  Then it makes no difference in what order they take their steps:
each gives what it gives alone, and the tree is left as if one file was compiled after the other
(`parallel_eq_sequential`).
-/

namespace OnePass

open MemoryFiles OnePass.Path

/-! ## Names of programs -/

namespace Program

theorem program_isName {s : State} (hmarked : s.Marked) (hlexed : ∀ t ∈ s.cursor.ahead, t.Lexed) :
    Ends program s (fun name _ => Lexeme.IsName name) fun _ _ => True := by
  rw [program, ends_bind, programOpening, ends_bind, ends_mustCurrent]
  split
  case isFalse => trivial
  rw [ends_bind, ends_mustPeek]
  split
  case isFalse => trivial
  case isTrue hname =>
  have hisName := isName_peek hmarked hlexed hname
  rw [ends_bind, ends_current]
  -- The name is settled here; the parts behind it do not change it.
  iterate 6 refine ends_bind_of_forall fun _ _ => ?_
  rw [ends_pure, programClosing]
  iterate 4 refine ends_bind_of_forall fun _ _ => ?_
  exact hisName

/-- The name of a program is a name. -/
theorem isName_of_parse_ok {file source : Bytes} {table : Table} {builder : Ir.Builder} {p : Program}
    (h : (parse file source table builder).result = .ok p) : Lexeme.IsName p.name := by
  have hrun := program_isName (s := .start file source table builder)
    (TokenStream.kind_eof _ _) fun _ => TokenStream.lexed_of_mem
  exact hrun.of_parse_ok h

end Program

/-! ## Places of code -/

namespace CompileOptions

variable {o : CompileOptions} {name name' : Bytes}

/-- The components of the file that the code of a program is written to, from the last one on. -/
def outputStack (o : CompileOptions) (name : Bytes) : List Bytes := (name ++ text ".ll") :: stack o.outDir

theorem isStack_outputStack (h : Lexeme.IsName name) : IsStack (isRooted o.outDir) (o.outputStack name) := by
  have hslash : Ascii.slash ∉ name ++ text ".ll" := by
    rw [List.mem_append]
    rintro (hmem | hmem)
    · exact absurd (List.all_eq_true.mp h.2.1 _ hmem) (by decide)
    · exact absurd hmem (by decide)
  -- The extension tells it from the components that say nothing or lead back.
  have hlast : (name ++ text ".ll").getLast? = some 0x6c := by
    rw [List.getLast?_append]
    rfl
  refine .name ⟨?_, ?_, hslash⟩ ?_ (isStack_stack o.outDir)
  · intro heq
    rw [heq] at hlast
    cases hlast
  · intro heq
    rw [heq] at hlast
    exact absurd hlast (by decide)
  · intro heq
    rw [heq] at hlast
    exact absurd hlast (by decide)

theorem outputPath_eq (h : Lexeme.IsName name) :
    o.outputPath name = ofStack (isRooted o.outDir) (o.outputStack name) := by
  have hstack := isStack_outputStack (o := o) h
  rw [outputPath, join_eq _ (hstack.isComponent List.mem_cons_self), push_of_isStack hstack]
  rfl

theorem keyOf_outputPath (h : Lexeme.IsName name) :
    keyOf (o.outputPath name) = body (o.outputStack name) := by
  rw [outputPath_eq h, keyOf_ofStack (isStack_outputStack h) (List.cons_ne_nil _ _)]

/-- Code that is written under the same key is written under the same path. -/
theorem outputPath_eq_of_keyOf (h : Lexeme.IsName name) (h' : Lexeme.IsName name')
    (hkey : keyOf (o.outputPath name) = keyOf (o.outputPath name')) :
    o.outputPath name = o.outputPath name' := by
  rw [keyOf_outputPath h, keyOf_outputPath h'] at hkey
  rw [outputPath_eq h, outputPath_eq h', body_injective (isStack_outputStack h) (isStack_outputStack h')
    (List.cons_ne_nil _ _) (List.cons_ne_nil _ _) hkey]

/-- Code is written under no key of the directory that it is written to. -/
theorem keyOf_outputPath_notMem (h : Lexeme.IsName name) :
    keyOf (o.outputPath name) ∉ directoryKeys (ofStack (isRooted o.outDir) (stack o.outDir)) := by
  rw [keyOf_outputPath h]
  exact body_cons_notMem_directoryKeys (isStack_outputStack h)

end CompileOptions

namespace Compilation

variable {o : CompileOptions} {path source : Bytes} {fs : MemoryFiles} {p : Program}

/-! ## Compiling in steps -/

theorem isName_of_ofSource {target : Target} (h : (ofSource target path source).1.program = some p) :
    Lexeme.IsName p.name := by
  cases hresult : (Program.parse path source .empty (.new target)).result with
  | error e =>
    rw [ofSource_of_error hresult] at h
    cases h
  | ok q =>
    rw [(ofSource_of_ok hresult).1] at h
    cases h
    exact Program.isName_of_parse_ok hresult

theorem program_makeFile (h : fs.readAll path = .ok source) :
    ((makeFile o path : StateM MemoryFiles Compilation) fs).1.program =
      (ofSource o.target path source).1.program := by
  cases hmade : (make o path source : StateM MemoryFiles Compilation) fs with
  | mk made fs' =>
    rw [makeFile_of_ok h, hmade]
    exact (make_sameFindings hmade).1.program

theorem isName_of_makeFile
    (h : ((makeFile o path : StateM MemoryFiles Compilation) fs).1.program = some p) :
    Lexeme.IsName p.name := by
  cases hread : fs.readAll path with
  | error fault =>
    rw [makeFile_of_error hread] at h
    cases h
  | ok source =>
    rw [program_makeFile hread] at h
    exact isName_of_ofSource h

/-- The steps of compiling a source do the same as compiling it at once. -/
theorem run_make (o : CompileOptions) (path source : Bytes) :
    (make o path source : FileSteps Compilation).run = make o path source := by
  unfold make
  split
  · unfold write
    split
    · rfl
    · rw [FileSteps.run_map]
      exact congrArg (_ <$> ·) (funext (FileSteps.run_writeAll _ _))
  · rfl

theorem run_makeFile (o : CompileOptions) (path : Bytes) :
    (makeFile o path : FileSteps Compilation).run = makeFile o path := by
  unfold makeFile
  rw [FileSteps.run_bind]
  refine (congrArg (· >>= _) (funext (FileSteps.run_readAll path))).trans (bind_congr fun r => ?_)
  cases r with
  | ok source => exact run_make o path source
  | error fault => rfl

/-! ## Compiling without disturbing others -/

/-- The file that the code of a compilation goes to, if its source is a program. -/
def destination? (o : CompileOptions) (c : Compilation) : Option Bytes :=
  c.program.map fun p => o.outputPath p.name

theorem isName_of_destination {out : Bytes}
    (h : destination? o ((makeFile o path : StateM MemoryFiles Compilation) fs).1 = some out) :
    ∃ name, Lexeme.IsName name ∧ out = o.outputPath name := by
  obtain ⟨p, hp, rfl⟩ := Option.map_eq_some_iff.mp h
  exact ⟨p.name, isName_of_makeFile hp, rfl⟩

/-- The destinations of the code of files that are compiled alone. -/
def destinations (o : CompileOptions) (paths : List Bytes) (fs : MemoryFiles) : List Bytes :=
  paths.filterMap fun path =>
    destination? o ((makeFile o path : StateM MemoryFiles Compilation) fs).1

/-- A file whose code goes where no other's does is known by its destination. -/
theorem index_unique {α : Type} {xs : List α} {f : α → Option Bytes} (h : (xs.filterMap f).Nodup)
    {i j : Nat} {x y : α} {out : Bytes} (hi : xs[i]? = some x) (hj : xs[j]? = some y)
    (hx : f x = some out) (hy : f y = some out) : i = j := by
  have hpairwise := List.pairwise_iff_getElem.mp (List.pairwise_filterMap.mp h)
  obtain ⟨hi', rfl⟩ := List.getElem?_eq_some_iff.mp hi
  obtain ⟨hj', rfl⟩ := List.getElem?_eq_some_iff.mp hj
  rcases Nat.lt_trichotomy i j with hlt | heq | hlt
  · exact absurd rfl (hpairwise i j hi' hj' hlt out hx out hy)
  · exact heq
  · exact absurd rfl (hpairwise j i hj' hi' hlt out hy out hx)

/-- Every file that is compiled has the destination of its code, and all may make the directory that
code is written to. -/
def territory (o : CompileOptions) (paths : List Bytes) (fs : MemoryFiles)
    (h : (destinations o paths fs).Nodup) : Territory where
  own i key := ∃ path out, paths[i]? = some path ∧
    destination? o ((makeFile o path : StateM MemoryFiles Compilation) fs).1 = some out ∧
    key = keyOf out
  shared key := key ∈ directoryKeys (ofStack (isRooted o.outDir) (stack o.outDir))
  own_unique := by
    rintro i j key ⟨path, out, hi, hout, rfl⟩ ⟨path', out', hj, hout', hkey⟩
    obtain ⟨name, hname, rfl⟩ := isName_of_destination hout
    obtain ⟨name', hname', rfl⟩ := isName_of_destination hout'
    rw [← CompileOptions.outputPath_eq_of_keyOf hname hname' hkey] at hout'
    exact index_unique h hi hj hout hout'
  not_shared := by
    rintro i key ⟨path, out, hi, hout, rfl⟩
    obtain ⟨name, hname, rfl⟩ := isName_of_destination hout
    exact CompileOptions.keyOf_outputPath_notMem hname

section Admissible

variable {t : Territory} {i : Nat}

/-- A source is compiled without disturbing others if the file of its code is its own. -/
theorem admissible_make
    (hown : ∀ p, (ofSource o.target path source).1.program = some p →
      t.own i (keyOf (o.outputPath p.name)))
    (hshared : ∀ key ∈ directoryKeys (ofStack (isRooted o.outDir) (stack o.outDir)), t.shared key) :
    (make o path source : FileSteps Compilation).Admissible t i fs := by
  unfold make
  split
  · unfold write
    cases hprogram : (ofSource o.target path source).1.program with
    | none => trivial
    | some p =>
      have hname := isName_of_ofSource hprogram
      have hkey := hown p hprogram
      rw [CompileOptions.keyOf_outputPath hname] at hkey
      dsimp only
      rw [CompileOptions.outputPath_eq hname]
      exact .bind (FileSteps.admissible_writeAll (CompileOptions.isStack_outputStack hname) hkey hshared _)
        trivial
  · trivial

theorem admissible_makeFile {paths : List Bytes} (hdistinct : (destinations o paths fs).Nodup)
    (hinputs : ∀ out ∈ destinations o paths fs, ∀ path ∈ paths, keyOf out ≠ keyOf path)
    (hi : paths[i]? = some path) :
    (makeFile o path : FileSteps Compilation).Admissible (territory o paths fs hdistinct) i fs := by
  refine .bind (FileSteps.admissible_readAll fun j hj => ?_) ?_
  · obtain ⟨path', out, hj, hout, hkey⟩ := hj
    have hmem : out ∈ destinations o paths fs :=
      List.mem_filterMap.mpr ⟨path', List.mem_of_getElem? hj, hout⟩
    exact absurd hkey.symm (hinputs out hmem path (List.mem_of_getElem? hi))
  · have hrun : (FileStore.readAll path : FileSteps _).run fs = (fs.readAll path, fs) :=
      FileSteps.run_readAll path fs
    rw [hrun]
    cases hread : fs.readAll path with
    | error fault => trivial
    | ok source =>
      refine admissible_make (fun p hp => ?_) fun _ hkey => hkey
      refine ⟨path, _, hi, ?_, rfl⟩
      rw [destination?, program_makeFile hread, hp]
      rfl

end Admissible

/-! ## Compiling in any order -/

/-- The steps of compiling a file without a cache. -/
def steps (o : CompileOptions) (log : Log) (path : Bytes) : FileSteps Compilation :=
  (·.1) <$> (compileUnless false o path : CompileM FileSteps Compilation) { log := log }

/-- What comes of compiling a file alone. -/
def alone (o : CompileOptions) (log : Log) (fs : MemoryFiles) (path : Bytes) : Compilation :=
  ((compileUnless false o path : CompileM (StateM MemoryFiles) Compilation) { log := log } fs).1.1

theorem steps_eq (o : CompileOptions) (log : Log) (path : Bytes) :
    steps o log path = makeFile o path := fst_compile rfl o path

theorem alone_eq (o : CompileOptions) (log : Log) (fs : MemoryFiles) :
    alone o log fs = fun path => ((makeFile o path : StateM MemoryFiles Compilation) fs).1 := by
  funext path
  rw [makeFile_eq { log := log } rfl]
  rfl

/-- Files whose code goes to different files, none of which is a source, are compiled in any order of
their steps, also as time goes on: every order can be brought to an end, and in the end each file gave what
it gives alone, and the tree is what compiling one file after the other leaves. -/
theorem parallel_eq_sequential (o : CompileOptions) (log : Log) (paths : List Bytes) (fs : MemoryFiles)
    (hdistinct : (paths.filterMap fun path => destination? o (alone o log fs path)).Nodup)
    (hinputs : ∀ out ∈ paths.filterMap fun path => destination? o (alone o log fs path),
      ∀ path ∈ paths, keyOf out ≠ keyOf path)
    (turns : List FileTurn) :
    let start : FilePool Compilation := ⟨paths.map (steps o log), fs⟩
    let sequential := (compileAll false o paths : CompileM (StateM MemoryFiles) (List Compilation))
      { log := log } fs
    (∃ more, (start.run (turns ++ more)).results?.isSome) ∧
      ∀ results, (start.run turns).results? = some results →
        results = paths.map (alone o log fs) ∧ results = sequential.1.1 ∧
          SameTree (start.run turns).files sequential.2 := by
  intro start sequential
  rw [alone_eq] at hdistinct hinputs
  have hsteps : FileSteps.run ∘ steps o log = makeFile o := by
    funext path
    rw [Function.comp_apply, steps_eq, run_makeFile]
  have hsequential : start.tasks.mapM FileSteps.run fs = (sequential.1.1, sequential.2) := by
    rw [List.mapM_map, hsteps]
    exact (congrFun (fst_compileAll (m := StateM MemoryFiles) rfl o paths) fs).symm
  refine ⟨?_, fun results hresults => ?_⟩
  · obtain ⟨more, hmore⟩ := (start.run turns).exists_run_results
    exact ⟨more, by rwa [FilePool.run_append]⟩
  · have hadmissible (i : Nat) (p : FileSteps Compilation) (hp : start.tasks[i]? = some p) :
        p.Admissible (territory o paths fs hdistinct) i fs := by
      rw [List.getElem?_map] at hp
      obtain ⟨path, hpath, rfl⟩ := Option.map_eq_some_iff.mp hp
      rw [steps_eq]
      exact admissible_makeFile hdistinct hinputs hpath
    obtain ⟨halone, hall, hsame⟩ := FilePool.run_complete hadmissible hresults
    rw [List.map_map] at halone
    rw [hsequential] at hall hsame
    refine ⟨halone.trans ?_, hall, hsame⟩
    rw [alone_eq, ← hsteps]
    rfl

/-- The crowded files, and one that is not there. -/
def crowdedPaths : List Bytes := [text "in/a.src", text "in/b.src", text "in/c.src"]

/-- Turns in which every file takes one step at a time. -/
def crowdedTurns : List FileTurn :=
  (List.replicate 6 [FileTurn.task 1, .time 7, .task 0, .task 2]).flatten

/-- One file is compiled, another one cannot be written and the third cannot be read, as each of them
would be alone. -/
theorem crowdedFiles_parallel :
    let start : FilePool Compilation :=
      ⟨crowdedPaths.map (steps crowdedOptions { verbosity := none }), crowdedFiles⟩
    ∃ results, (start.run crowdedTurns).results? = some results ∧
      results.map (fun c => (c.isValid, c.failed)) = [(true, false), (true, true), (false, true)] ∧
      results = crowdedPaths.map (alone crowdedOptions { verbosity := none } crowdedFiles) ∧
      SameTree (start.run crowdedTurns).files
        ((compileAll false crowdedOptions crowdedPaths : CompileM (StateM MemoryFiles) (List Compilation))
          { log := { verbosity := none } } crowdedFiles).2 := by
  intro start
  obtain ⟨hdistinct, hinputs, hresults, hkinds⟩ :
      (crowdedPaths.filterMap fun path => destination? crowdedOptions
        (alone crowdedOptions { verbosity := none } crowdedFiles path)).Nodup ∧
      (∀ out ∈ crowdedPaths.filterMap fun path => destination? crowdedOptions
        (alone crowdedOptions { verbosity := none } crowdedFiles path),
        ∀ path ∈ crowdedPaths, keyOf out ≠ keyOf path) ∧
      (start.run crowdedTurns).results?.isSome = true ∧
      (start.run crowdedTurns).results?.map (List.map fun c => (c.isValid, c.failed)) =
        some [(true, false), (true, true), (false, true)] := by
    decide +kernel
  obtain ⟨results, hsome⟩ := Option.isSome_iff_exists.mp hresults
  obtain ⟨-, hcomplete⟩ := parallel_eq_sequential crowdedOptions { verbosity := none } crowdedPaths
    crowdedFiles hdistinct hinputs crowdedTurns
  obtain ⟨halone, -, hsame⟩ := hcomplete results hsome
  rw [hsome] at hkinds
  exact ⟨results, hsome, Option.some.inj hkinds, halone, hsame⟩

end Compilation

end OnePass
