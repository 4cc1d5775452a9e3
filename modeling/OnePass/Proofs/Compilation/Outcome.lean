import OnePass.Compilation.Compile
set_option autoImplicit false

/-!
# Compiling without the log

The log has no part in what comes of a file.  Over every store of files, compiling does the same as a
program that keeps earlier compilations and no log (`unlogged_compile`).  That program reads a file,
looks its source up and, if it is not found, makes a compilation of it (`make`), which is the only part
that writes.  Without a cache there is nothing more to it than reading and making (`fst_compile`).
-/

namespace OnePass.Compilation

variable {m : Type → Type} [Monad m] {α β : Type} {o : CompileOptions} {path source : Bytes}

/-! ## What comes of a source -/

theorem ofSource_of_ok {target : Target} {p : Program}
    (h : (Program.parse path source .empty (.new target)).result = .ok p) :
    (ofSource target path source).1.program = some p ∧
      (ofSource target path source).1.error = none ∧
      (ofSource target path source).1.output = [] := by
  unfold ofSource
  dsimp only
  rw [h]
  exact ⟨rfl, rfl, rfl⟩

theorem ofSource_of_error {target : Target} {e : Program.Error}
    (h : (Program.parse path source .empty (.new target)).result = .error e) :
    (ofSource target path source).1.program = none := by
  unfold ofSource
  dsimp only
  rw [h]

theorem path_ofSource (target : Target) (path source : Bytes) :
    (ofSource target path source).1.path = path := by
  unfold ofSource
  dsimp only
  split <;> rfl

theorem cached_ofSource (target : Target) (path source : Bytes) :
    (ofSource target path source).1.cached = false := by
  unfold ofSource
  dsimp only
  split <;> rfl

/-! ## Parts that only log -/

/-- Whether a part of compiling gives a value and does nothing but add to the log. -/
def Logs (p : CompileM m α) (a : α) : Prop := ∀ st, ∃ log, p st = pure (a, { st with log := log })

theorem logs_pure (a : α) : Logs (pure a : CompileM m α) a := fun st => ⟨st.log, rfl⟩

theorem logs_logLine (level : LogLevel) (message : Bytes) :
    Logs (logLine level message : CompileM m Unit) () :=
  fun st => ⟨st.log.add level message, rfl⟩

variable [LawfulMonad m]

theorem Logs.bind {p : CompileM m α} {f : α → CompileM m β} {a : α} {b : β} (hp : Logs p a)
    (hf : Logs (f a) b) : Logs (p >>= f) b := by
  intro st
  obtain ⟨log, hrun⟩ := hp st
  obtain ⟨log', hrun'⟩ := hf { st with log := log }
  refine ⟨log', ?_⟩
  change (p st >>= fun r => f r.1 r.2) = _
  rw [hrun, pure_bind]
  exact hrun'

theorem logs_forM (level : LogLevel) (lines : List Bytes) :
    Logs (lines.forM (logLine level) : CompileM m PUnit) () := by
  induction lines with
  | nil => exact logs_pure ()
  | cons line lines ih => exact (logs_logLine level line).bind ih

theorem logs_recognise (o : CompileOptions) (path source : Bytes) :
    Logs (recognise o path source : CompileM m Compilation) (ofSource o.target path source).1 := by
  unfold recognise
  generalize ofSource o.target path source = made
  refine (logs_logLine _ _).bind ((logs_forM _ _).bind ?_)
  cases made.1.error with
  | none => exact logs_pure made.1
  | some e => exact (logs_logLine _ _).bind (logs_pure made.1)

/-! ## Leaving the log out -/

/-- Compiling that keeps earlier compilations, but no log. -/
abbrev CacheM (m : Type → Type) : Type → Type := StateT (Option Cache) m

/-- Whether a part of compiling does the same as one without a log. -/
def Unlogged (p : CompileM m α) (q : CacheM m α) : Prop :=
  ∀ st : CompileState, (fun r => (r.1, r.2.cache)) <$> p st = q st.cache

theorem unlogged_pure (a : α) : Unlogged (pure a : CompileM m α) (pure a) :=
  fun _ => map_pure _ _

theorem unlogged_lift (p : m α) : Unlogged (liftM p : CompileM m α) (liftM p) := by
  intro st
  change _ <$> (p >>= fun a => pure (a, st)) = p >>= fun a => pure (a, st.cache)
  rw [map_bind]
  exact bind_congr fun a => map_pure _ _

theorem unlogged_lift_pure (a : α) :
    Unlogged (pure a : CompileM m α) (liftM (pure a : m α)) := by
  intro st
  change _ <$> (pure (a, st) : m (α × CompileState)) = pure a >>= fun a => pure (a, st.cache)
  rw [map_pure, pure_bind]

theorem liftM_map_eq_bind (f : α → β) (p : m α) :
    (liftM (f <$> p) : CacheM m β) = liftM p >>= fun a => pure (f a) := by
  funext cache
  change (f <$> p >>= fun b => pure (b, cache)) =
    (p >>= fun a => pure (a, cache)) >>= fun r => pure (f r.1, r.2)
  rw [bind_map_left, bind_assoc]
  refine bind_congr fun a => ?_
  rw [pure_bind]

theorem Unlogged.bind {p : CompileM m α} {q : CacheM m α} {f : α → CompileM m β}
    {g : α → CacheM m β} (hp : Unlogged p q) (hf : ∀ a, Unlogged (f a) (g a)) :
    Unlogged (p >>= f) (q >>= g) := by
  intro st
  change _ <$> (p st >>= fun r => f r.1 r.2) = q st.cache >>= fun r => g r.1 r.2
  rw [← hp st, map_bind, bind_map_left]
  exact bind_congr fun r => hf r.1 r.2

theorem Unlogged.mapM {γ : Type} {f : γ → CompileM m α} {g : γ → CacheM m α}
    (h : ∀ x, Unlogged (f x) (g x)) (xs : List γ) : Unlogged (xs.mapM f) (xs.mapM g) := by
  induction xs with
  | nil => exact unlogged_pure []
  | cons x xs ih =>
    rw [List.mapM_cons, List.mapM_cons]
    exact (h x).bind fun a => ih.bind fun as => unlogged_pure (a :: as)

/-- A part that only logs is left out. -/
theorem Logs.unlogged_bind {p : CompileM m α} {a : α} {f : α → CompileM m β} {q : CacheM m β}
    (hp : Logs p a) (hf : Unlogged (f a) q) : Unlogged (p >>= f) q := by
  intro st
  obtain ⟨log, hrun⟩ := hp st
  change _ <$> (p st >>= fun r => f r.1 r.2) = _
  rw [hrun, pure_bind]
  exact hf { st with log := log }

/-! ## Compiling a source -/

/-- Looks for an earlier compilation. -/
def lookUp (o : CompileOptions) (path source : Bytes) : CacheM m (Option Compilation) :=
  fun cache => pure (cache.bind fun c => (c.lookup path source o.target).1,
    cache.map fun c => (c.lookup path source o.target).2)

/-- Keeps a compilation, if nothing went wrong. -/
def remember (o : CompileOptions) (source : Bytes) (made : Compilation) : CacheM m Unit :=
  fun cache => pure ((), if made.error.isSome then cache
    else cache.map (·.store made.path source o.target made))

theorem unlogged_reuse? : Unlogged (reuse? o path source : CompileM m _) (lookUp o path source) := by
  intro st
  have hrun : (reuse? o path source : CompileM m _) st =
      pure (st.cache.bind fun c => (c.lookup path source o.target).1,
        { st with cache := st.cache.map fun c => (c.lookup path source o.target).2 }) := by
    refine (pure_bind _ _).trans ?_
    cases st with
    | mk cache log =>
      cases cache with
      | none => rfl
      | some cache =>
        exact pure_bind _ _
  rw [hrun, map_pure]
  rfl

theorem unlogged_keep (made : Compilation) :
    Unlogged (keep o source made : CompileM m Unit) (remember o source made) := by
  intro st
  unfold keep remember
  split
  · exact map_pure _ _
  · exact map_pure _ _

variable [FileStore m]

/-- A compilation with what came of writing its code to a file. -/
def settled (made : Compilation) (out : Bytes) : Except FileFault Unit → Compilation
  | .ok () => { made with output := out }
  | .error fault => { made with error := some (.unwritable out fault) }

/-- Writes the code of a compilation, if its source is a program. -/
def write (o : CompileOptions) (made : Compilation) : m Compilation :=
  match made.program with
  | none => return made
  | some program =>
    settled made (o.outputPath program.name) <$>
      FileStore.writeAll (o.outputPath program.name) (Ir.fileText program.lines)

/-- Makes a compilation of a source, and writes its code if code is written at all. -/
def make (o : CompileOptions) (path source : Bytes) : m Compilation :=
  if o.emit then write o (ofSource o.target path source).1 else return (ofSource o.target path source).1

/-- Supplies the compilation of a source: an earlier one, or a new one that is kept. -/
def supplySource (o : CompileOptions) (path source : Bytes) : CacheM m Compilation := do
  match ← lookUp o path source with
  | some found => return { found with cached := true }
  | none =>
    let made ← (make o path source : m Compilation)
    remember o source made
    return made

/-- Supplies the compilation of a file. -/
def supply (o : CompileOptions) (path : Bytes) : CacheM m Compilation := do
  match ← (FileStore.readAll path : m _) with
  | .ok source => supplySource o path source
  | .error fault => return { path := path, error := some (.unreadable path fault) }

theorem unlogged_emit (made : Compilation) :
    Unlogged (emit o made : CompileM m Compilation) (liftM (write o made : m Compilation)) := by
  cases made with
  | mk path program output diagnostics symbols source error cached =>
    cases program with
    | none => exact unlogged_lift_pure _
    | some program =>
      unfold write
      dsimp only
      rw [liftM_map_eq_bind]
      refine (unlogged_lift _).bind fun r => ?_
      cases r with
      | ok => exact (logs_logLine _ _).unlogged_bind (unlogged_pure _)
      | error fault => exact (logs_logLine _ _).unlogged_bind (unlogged_pure _)

theorem unlogged_compileSource (o : CompileOptions) (path source : Bytes) :
    Unlogged (compileSource o path source : CompileM m Compilation) (supplySource o path source) := by
  refine unlogged_reuse?.bind fun found => ?_
  cases found with
  | some found => exact (logs_logLine _ _).unlogged_bind (unlogged_pure _)
  | none =>
    have hkeep (made : Compilation) : Unlogged (keep o source made >>= fun _ => pure made : CompileM m _)
        (remember o source made >>= fun _ => pure made) :=
      (unlogged_keep made).bind fun _ => unlogged_pure made
    refine (logs_recognise o path source).unlogged_bind ?_
    unfold make
    cases o.emit with
    | true => exact (unlogged_emit _).bind hkeep
    | false => exact (unlogged_lift_pure _).bind hkeep

theorem unlogged_compile (o : CompileOptions) (path : Bytes) :
    Unlogged (compile o path : CompileM m Compilation) (supply o path) := by
  refine (unlogged_lift _).bind fun r => ?_
  cases r with
  | ok source => exact unlogged_compileSource o path source
  | error fault => exact (logs_logLine _ _).unlogged_bind (unlogged_pure _)

/-! ## Compiling without a cache -/

/-- Makes the compilation of a file. -/
def makeFile (o : CompileOptions) (path : Bytes) : m Compilation := do
  match ← FileStore.readAll path with
  | .ok source => make o path source
  | .error fault => return { path := path, error := some (.unreadable path fault) }

theorem supplySource_none (o : CompileOptions) (path source : Bytes) :
    (supplySource o path source : CacheM m Compilation) none =
      (fun c => (c, none)) <$> make o path source := by
  refine (pure_bind _ _).trans ?_
  change ((make o path source >>= fun c => pure (c, none)) >>= fun r =>
    (pure ((), if r.1.error.isSome then r.2 else r.2.map _) : m (Unit × Option Cache)) >>= fun k =>
      pure (r.1, k.2)) = _
  rw [bind_assoc, map_eq_pure_bind]
  refine bind_congr fun c => ?_
  rw [pure_bind, pure_bind]
  split <;> rfl

theorem supply_none (o : CompileOptions) (path : Bytes) :
    (supply o path : CacheM m Compilation) none = (fun c => (c, none)) <$> makeFile o path := by
  unfold makeFile
  rw [map_bind]
  refine (bind_assoc _ _ _).trans (bind_congr fun r => (pure_bind _ _).trans ?_)
  cases r with
  | ok source => exact supplySource_none o path source
  | error fault =>
    dsimp only
    rw [map_pure]
    rfl

/-- Without a cache there is nothing to be seen but what comes of the file. -/
theorem compile_of_no_cache {st : CompileState} (h : st.cache = none) (o : CompileOptions)
    (path : Bytes) : (fun r => (r.1, r.2.cache)) <$> (compile o path : CompileM m Compilation) st =
      (fun c => (c, none)) <$> makeFile o path := by
  rw [unlogged_compile o path st, h, supply_none]

theorem fst_compile {st : CompileState} (h : st.cache = none) (o : CompileOptions) (path : Bytes) :
    (·.1) <$> (compile o path : CompileM m Compilation) st = makeFile o path := by
  have hcompile := congrArg (Prod.fst <$> ·) (compile_of_no_cache (m := m) h o path)
  simpa only [Functor.map_map, id_map'] using hcompile

theorem mapM_supply_none (o : CompileOptions) (paths : List Bytes) :
    (paths.mapM (supply o) : CacheM m (List Compilation)) none =
      (fun cs => (cs, none)) <$> paths.mapM (makeFile o) := by
  induction paths with
  | nil =>
    rw [List.mapM_nil, List.mapM_nil, map_pure]
    rfl
  | cons path paths ih =>
    rw [List.mapM_cons, List.mapM_cons]
    change ((supply o path : CacheM m Compilation) none >>= fun r =>
      (paths.mapM (supply o) : CacheM m (List Compilation)) r.2 >>= fun rs =>
        pure (r.1 :: rs.1, rs.2)) = _
    rw [supply_none, bind_map_left, map_bind]
    refine bind_congr fun c => ?_
    rw [ih, bind_map_left, map_bind]
    refine bind_congr fun cs => ?_
    rw [map_pure]

/-- Without a cache, files are compiled independently of what came of those before, but for what was
written. -/
theorem fst_compileAll {st : CompileState} (h : st.cache = none) (o : CompileOptions)
    (paths : List Bytes) : (·.1) <$> (compileAll false o paths : CompileM m (List Compilation)) st =
      paths.mapM (makeFile o) := by
  have hall : (fun r => (r.1, r.2.cache)) <$>
      (compileAll false o paths : CompileM m (List Compilation)) st = _ :=
    Unlogged.mapM (unlogged_compile o) paths st
  rw [h, mapM_supply_none] at hall
  have hfst := congrArg (Prod.fst <$> ·) hall
  simpa only [Functor.map_map, id_map'] using hfst

/-! ## On files in memory -/

/-- Whether two compilations found the same in their sources. -/
structure SameFindings (c c' : Compilation) : Prop where
  path : c.path = c'.path
  program : c.program = c'.program
  diagnostics : c.diagnostics = c'.diagnostics
  symbols : c.symbols = c'.symbols

theorem SameFindings.refl (c : Compilation) : SameFindings c c := ⟨rfl, rfl, rfl, rfl⟩

theorem SameFindings.symm {c c' : Compilation} (h : SameFindings c c') : SameFindings c' c :=
  ⟨h.path.symm, h.program.symm, h.diagnostics.symm, h.symbols.symm⟩

theorem SameFindings.trans {c c' c'' : Compilation} (h : SameFindings c c') (h' : SameFindings c' c'') :
    SameFindings c c'' :=
  ⟨h.path.trans h'.path, h.program.trans h'.program, h.diagnostics.trans h'.diagnostics,
    h.symbols.trans h'.symbols⟩

section Memory

variable {fs fs' : MemoryFiles} {cache : Cache} {made : Compilation}

theorem make_of_rejected (h : (ofSource o.target path source).1.program = none) :
    (make o path source : StateM MemoryFiles Compilation) fs = ((ofSource o.target path source).1, fs) := by
  unfold make
  split
  · unfold write
    rw [h]
    rfl
  · rfl

theorem make_of_withheld (h : o.emit = false) :
    (make o path source : StateM MemoryFiles Compilation) fs = ((ofSource o.target path source).1, fs) := by
  unfold make
  rw [h]
  rfl

theorem make_of_program {p : Program} (hemit : o.emit = true)
    (hp : (ofSource o.target path source).1.program = some p) {r : Except FileFault Unit}
    (hwrite : fs.writeAll (o.outputPath p.name) (Ir.fileText p.lines) = (r, fs')) :
    (make o path source : StateM MemoryFiles Compilation) fs =
      (settled (ofSource o.target path source).1 (o.outputPath p.name) r, fs') := by
  unfold make write
  rw [if_pos hemit, hp]
  change (settled _ _ (fs.writeAll _ _).1, (fs.writeAll _ _).2) = _
  rw [hwrite]

/-- Writing the code changes nothing that was found in the source. -/
theorem make_sameFindings
    (h : (make o path source : StateM MemoryFiles Compilation) fs = (made, fs')) :
    SameFindings made (ofSource o.target path source).1 ∧ made.cached = false := by
  have hcached := cached_ofSource o.target path source
  cases hp : (ofSource o.target path source).1.program with
  | none =>
    rw [make_of_rejected hp] at h
    cases h
    exact ⟨.refl _, hcached⟩
  | some p =>
    cases hemit : o.emit with
    | false =>
      rw [make_of_withheld hemit] at h
      cases h
      exact ⟨.refl _, hcached⟩
    | true =>
      cases hwrite : fs.writeAll (o.outputPath p.name) (Ir.fileText p.lines) with
      | mk r fs' =>
        rw [make_of_program hemit hp hwrite] at h
        cases h
        cases r with
        | ok => exact ⟨⟨rfl, rfl, rfl, rfl⟩, hcached⟩
        | error fault => exact ⟨⟨rfl, rfl, rfl, rfl⟩, hcached⟩

theorem read_bind {r : Except FileFault Bytes} (h : fs.readAll path = r)
    (f : Except FileFault Bytes → StateM MemoryFiles α) :
    ((FileStore.readAll path : StateM MemoryFiles _) >>= f) fs = f r fs := by
  rw [← h]
  rfl

theorem makeFile_of_ok (h : fs.readAll path = .ok source) :
    (makeFile o path : StateM MemoryFiles Compilation) fs =
      (make o path source : StateM MemoryFiles Compilation) fs := read_bind h _

theorem makeFile_of_error {fault : FileFault} (h : fs.readAll path = .error fault) :
    (makeFile o path : StateM MemoryFiles Compilation) fs =
      ({ path := path, error := some (.unreadable path fault) }, fs) := read_bind h _

/-- Compiling a file without a cache is making its compilation. -/
theorem makeFile_eq (st : CompileState) (h : st.cache = none) (o : CompileOptions) (path : Bytes)
    (fs : MemoryFiles) :
    (makeFile o path : StateM MemoryFiles Compilation) fs =
      (((compile o path : CompileM (StateM MemoryFiles) Compilation) st fs).1.1,
        ((compile o path : CompileM (StateM MemoryFiles) Compilation) st fs).2) :=
  (congrFun (fst_compile (m := StateM MemoryFiles) h o path) fs).symm

/-! ### With a cache -/

theorem supply_eq (o : CompileOptions) (path : Bytes) (st : CompileState) (fs : MemoryFiles) :
    (supply o path : CacheM (StateM MemoryFiles) Compilation) st.cache fs =
      ((((compile o path : CompileM (StateM MemoryFiles) Compilation) st fs).1.1,
        ((compile o path : CompileM (StateM MemoryFiles) Compilation) st fs).1.2.cache),
        ((compile o path : CompileM (StateM MemoryFiles) Compilation) st fs).2) :=
  (congrFun (unlogged_compile (m := StateM MemoryFiles) o path st) fs).symm

theorem lift_bind {p : StateM MemoryFiles β} {b : β} (h : p fs = (b, fs'))
    (f : β → CacheM (StateM MemoryFiles) α) (cache : Option Cache) :
    ((liftM p : CacheM (StateM MemoryFiles) β) >>= f) cache fs = f b cache fs' := by
  change f (p fs).1 cache (p fs).2 = _
  rw [h]

theorem readAll_eq {r : Except FileFault Bytes} (h : fs.readAll path = r) :
    (FileStore.readAll path : StateM MemoryFiles _) fs = (r, fs) := congrArg (·, fs) h

theorem lookUp_bind {found : Option Compilation} (h : cache.find? path source o.target = found)
    (f : Option Compilation → CacheM (StateM MemoryFiles) α) :
    ((lookUp o path source : CacheM (StateM MemoryFiles) _) >>= f) (some cache) fs =
      f found (some (cache.lookup path source o.target).2) fs := by
  rw [← h, ← Cache.lookup_fst]
  rfl

theorem supply_of_error {fault : FileFault} (h : fs.readAll path = .error fault)
    (cache : Option Cache) :
    (supply o path : CacheM (StateM MemoryFiles) Compilation) cache fs =
      (({ path := path, error := some (.unreadable path fault) }, cache), fs) :=
  lift_bind (readAll_eq h) _ cache

theorem supply_of_found {found : Compilation} (h : fs.readAll path = .ok source)
    (hfound : cache.find? path source o.target = some found) :
    (supply o path : CacheM (StateM MemoryFiles) Compilation) (some cache) fs =
      (({ found with cached := true }, some (cache.lookup path source o.target).2), fs) :=
  (lift_bind (readAll_eq h) _ _).trans (lookUp_bind hfound _)

theorem supply_of_missing (h : fs.readAll path = .ok source)
    (hmissing : cache.find? path source o.target = none)
    (hmade : (make o path source : StateM MemoryFiles Compilation) fs = (made, fs')) :
    (supply o path : CacheM (StateM MemoryFiles) Compilation) (some cache) fs =
      ((made, some (if made.error.isSome then (cache.lookup path source o.target).2
        else (cache.lookup path source o.target).2.store made.path source o.target made)), fs') := by
  refine (lift_bind (readAll_eq h) _ _).trans ?_
  refine (lookUp_bind hmissing _).trans ?_
  refine (lift_bind hmade _ _).trans ?_
  change ((made, if made.error.isSome then some _ else some _), fs') = _
  split <;> rfl

/-- What compiling a file with a cache comes to: the compilation, and the cache and the files after
it. -/
inductive Serves (o : CompileOptions) (path : Bytes) (cache : Cache) (fs : MemoryFiles) :
    Compilation → Cache → MemoryFiles → Prop where
  /-- the file cannot be read -/
  | unreadable {fault : FileFault} (source : fs.readAll path = .error fault) :
      Serves o path cache fs { path := path, error := some (.unreadable path fault) } cache fs
  /-- an earlier compilation is used again -/
  | reused {content : Bytes} {found : Compilation} {cache' : Cache}
      (source : fs.readAll path = .ok content)
      (hit : cache.find? path content o.target = some found)
      (entries : cache'.entries = cache.entries) :
      Serves o path cache fs { found with cached := true } cache' fs
  /-- a compilation is made, and something goes wrong -/
  | failed {content : Bytes} {made : Compilation} {cache' : Cache} {fs' : MemoryFiles}
      (source : fs.readAll path = .ok content)
      (missing : cache.find? path content o.target = none)
      (making : (make o path content : StateM MemoryFiles Compilation) fs = (made, fs'))
      (error : made.error ≠ none)
      (entries : cache'.entries = cache.entries) : Serves o path cache fs made cache' fs'
  /-- a compilation is made and kept -/
  | kept {content : Bytes} {made : Compilation} {cache' : Cache} {fs' : MemoryFiles}
      (source : fs.readAll path = .ok content)
      (missing : cache.find? path content o.target = none)
      (making : (make o path content : StateM MemoryFiles Compilation) fs = (made, fs'))
      (clean : made.error = none)
      (entries : cache'.entries =
        cache.entries.insert path ⟨Digest.sha256 content, o.target.render, made⟩) :
      Serves o path cache fs made cache' fs'

theorem serves_supply (o : CompileOptions) (path : Bytes) (cache : Cache) (fs : MemoryFiles) :
    ∃ c cache' fs', (supply o path : CacheM (StateM MemoryFiles) Compilation) (some cache) fs =
      ((c, some cache'), fs') ∧ Serves o path cache fs c cache' fs' := by
  cases hread : fs.readAll path with
  | error fault => exact ⟨_, _, _, supply_of_error hread _, .unreadable hread⟩
  | ok source =>
    have hentries := cache.lookup_entries path source o.target
    cases hfound : cache.find? path source o.target with
    | some found => exact ⟨_, _, _, supply_of_found hread hfound, .reused hread hfound hentries⟩
    | none =>
      cases hmade : (make o path source : StateM MemoryFiles Compilation) fs with
      | mk made fs' =>
        have hsupply := supply_of_missing hread hfound hmade
        cases herror : made.error with
        | some e =>
          rw [herror] at hsupply
          exact ⟨_, _, _, hsupply, .failed hread hfound hmade (herror ▸ Option.some_ne_none e) hentries⟩
        | none =>
          have hpath : made.path = path :=
            (make_sameFindings hmade).1.path.trans (path_ofSource o.target path source)
          rw [herror, hpath] at hsupply
          refine ⟨_, _, _, hsupply, .kept hread hfound hmade herror ?_⟩
          rw [← hentries]
          rfl

theorem serves_compile (o : CompileOptions) (path : Bytes) {st : CompileState}
    (hcache : st.cache = some cache) (fs : MemoryFiles) :
    let run := (compile o path : CompileM (StateM MemoryFiles) Compilation) st fs
    ∃ cache', run.1.2.cache = some cache' ∧ Serves o path cache fs run.1.1 cache' run.2 := by
  intro run
  obtain ⟨c, cache', fs', hsupply, hserves⟩ := serves_supply o path cache fs
  rw [← hcache, supply_eq] at hsupply
  obtain ⟨hpair, hfiles⟩ := Prod.mk.inj hsupply
  obtain ⟨hc, hcache'⟩ := Prod.mk.inj hpair
  rw [← hc, ← hfiles] at hserves
  exact ⟨cache', hcache', hserves⟩

end Memory

end OnePass.Compilation
