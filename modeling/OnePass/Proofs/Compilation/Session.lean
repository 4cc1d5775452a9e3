import OnePass.Proofs.Compilation.Effect
set_option autoImplicit false

/-!
# Compiling again and again

A session compiles files with one cache, while the files are changed and entries of the cache are
forgotten.  Every entry goes back to the compilation that made it, of a source that was there at that time,
and nothing since then has replaced it (`KeptFrom`); and its digest is that of the source which the path had
when it was last compiled without an error (`lastClean`).  A step keeps that up (`Sound.step`), hence so
does a session.

So a cache serves no compilation but of the source that is there, unless digests collide
(`compile_sameFindings_fresh`).  It does not look at the code that was written, though: if that was removed
or overwritten, it stays so (`removedCode_reused`).  A compilation that is used again was written in full
when it was made, and its code is still there unless something else happened to the file
(`compile_written_or_disturbed`).
-/

namespace OnePass.Compilation

open MemoryFiles

/-! ## Sessions -/

/-- What may happen in a session. -/
inductive SessionStep where
  /-- the files are changed -/
  | edit (change : MemoryFiles → MemoryFiles)
  /-- the compilation of a path is forgotten -/
  | invalidate (path : Bytes)
  /-- a file is compiled, unless the run has been interrupted -/
  | compile (interrupted : Bool) (path : Bytes)

/-- What happened in a session. -/
inductive SessionEvent where
  | edited (before after : MemoryFiles)
  | invalidated (path : Bytes)
  /-- a file was compiled, given the source that was read, what came of it and the files after it -/
  | compiled (path : Bytes) (source : Option Bytes) (made : Compilation) (after : MemoryFiles)

/-- A session: what is kept between files, the files, and what happened, from the last event on. -/
structure Session where
  state : CompileState
  files : MemoryFiles
  history : List SessionEvent

namespace Session

/-- A session before anything happened. -/
def start (log : Log) (files : MemoryFiles) : Session :=
  ⟨{ cache := some .empty, log := log }, files, []⟩

/-- The session after a step. -/
def step (o : CompileOptions) (s : Session) : SessionStep → Session
  | .edit change =>
    { s with files := change s.files, history := .edited s.files (change s.files) :: s.history }
  | .invalidate path =>
    { s with
      state := { s.state with cache := s.state.cache.map (·.invalidate path) }
      history := .invalidated path :: s.history }
  | .compile interrupted path =>
    let r := (compileUnless interrupted o path : CompileM (StateM MemoryFiles) Compilation)
      s.state s.files
    let source := if interrupted then none else (s.files.readAll path).toOption
    ⟨r.1.2, r.2, .compiled path source r.1.1 r.2 :: s.history⟩

/-- The session after some steps. -/
def run (o : CompileOptions) (s : Session) (steps : List SessionStep) : Session := steps.foldl (step o) s

end Session

/-! ## What a history says of a path -/

/-- The source that a path had when it was last compiled without an error, unless it was forgotten
since. -/
def lastClean (path : Bytes) : List SessionEvent → Option Bytes
  | [] => none
  | .edited .. :: history => lastClean path history
  | .invalidated other :: history => if other = path then none else lastClean path history
  | .compiled other source made _ :: history =>
    if other = path ∧ made.error = none then source else lastClean path history

/-- The source of a path that was read in an event. -/
def SessionEvent.seen? (path : Bytes) : SessionEvent → Option Bytes
  | .compiled other source _ _ => if other = path then source else none
  | _ => none

/-- The sources of a path that were read. -/
def seen (path : Bytes) (history : List SessionEvent) : List Bytes :=
  history.filterMap (SessionEvent.seen? path)

/-- Whether an event takes the entry of a path out of the cache or puts a new one in its place. -/
def SessionEvent.Replaces (path : Bytes) : SessionEvent → Prop
  | .edited .. => False
  | .invalidated other => other = path
  | .compiled other _ made _ => other = path ∧ made.error = none ∧ made.cached = false

/-- Whether an event does something to the file that the code of a path was written to: an edit changes
it, or the code of another path is written to it. -/
def SessionEvent.Disturbs (path out : Bytes) : SessionEvent → Prop
  | .edited before after => after.readAll out ≠ before.readAll out
  | .invalidated _ => False
  | .compiled other _ made _ =>
    other ≠ path ∧ made.error = none ∧ made.cached = false ∧ keyOf made.output = keyOf out

theorem mem_seen_of_lastClean {path source : Bytes} {history : List SessionEvent}
    (h : lastClean path history = some source) : source ∈ seen path history := by
  induction history with
  | nil => cases h
  | cons event history ih =>
    unfold seen
    rw [List.filterMap_cons]
    cases event with
    | edited before after => exact ih h
    | invalidated other =>
      rw [lastClean] at h
      split at h
      · cases h
      · exact ih h
    | compiled other content made after =>
      rw [lastClean] at h
      split at h
      · next hclean =>
        rw [SessionEvent.seen?, if_pos hclean.1, h]
        exact List.mem_cons_self
      · split
        · exact ih h
        · exact List.mem_cons_of_mem _ (ih h)

/-! ## Where an entry comes from -/

/-- Whether an entry was made in an event of a session, given what happened since and the files now. -/
structure IsOrigin (o : CompileOptions) (path source : Bytes) (made : Compilation)
    (after : MemoryFiles) (since : List SessionEvent) (files : MemoryFiles) (e : CacheEntry) : Prop where
  entry : e = ⟨Digest.sha256 source, o.target.render, made⟩
  clean : made.error = none
  making : ∃ before, (make o path source : StateM MemoryFiles Compilation) before = (made, after)
  kept : ∀ event ∈ since, ¬event.Replaces path
  code : files.readAll made.output = after.readAll made.output ∨
    ∃ event ∈ since, event.Disturbs path made.output

/-- Whether an entry was made in a session. -/
def KeptFrom (o : CompileOptions) (path : Bytes) (history : List SessionEvent) (files : MemoryFiles)
    (e : CacheEntry) : Prop :=
  ∃ since source made after earlier,
    history = since ++ .compiled path (some source) made after :: earlier ∧
      IsOrigin o path source made after since files e

/-- Whether a history explains all that is in a cache. -/
structure Explains (o : CompileOptions) (history : List SessionEvent) (files : MemoryFiles)
    (cache : Cache) : Prop where
  sums (path : Bytes) :
    cache.entries[path]?.map CacheEntry.sum = (lastClean path history).map Digest.sha256
  entries (path : Bytes) (e : CacheEntry) : cache.entries[path]? = some e →
    KeptFrom o path history files e

section Explains

variable {o : CompileOptions} {path source : Bytes} {history : List SessionEvent}
  {files files' : MemoryFiles} {cache cache' : Cache} {event : SessionEvent} {made : Compilation}

theorem KeptFrom.later {e : CacheEntry} (h : KeptFrom o path history files e)
    (hkept : ¬event.Replaces path)
    (hcode : ∀ out, files'.readAll out = files.readAll out ∨ event.Disturbs path out) :
    KeptFrom o path (event :: history) files' e := by
  obtain ⟨since, source, made, after, earlier, rfl, horigin⟩ := h
  refine ⟨event :: since, source, made, after, earlier, rfl, horigin.entry, horigin.clean, horigin.making,
    List.forall_mem_cons.mpr ⟨hkept, horigin.kept⟩, ?_⟩
  rcases hcode made.output with hsame | hdisturbs
  · rcases horigin.code with hcode | ⟨event', hmem, hdisturbs⟩
    · exact .inl (hsame.trans hcode)
    · exact .inr ⟨event', List.mem_cons_of_mem event hmem, hdisturbs⟩
  · exact .inr ⟨event, List.mem_cons_self, hdisturbs⟩

/-- An event that neither changes the cache nor is a compilation without an error. -/
theorem Explains.later (h : Explains o history files cache) (hentries : cache'.entries = cache.entries)
    (hclean : ∀ path, lastClean path (event :: history) = lastClean path history)
    (hkept : ∀ path, ¬event.Replaces path)
    (hcode : ∀ path out, files'.readAll out = files.readAll out ∨ event.Disturbs path out) :
    Explains o (event :: history) files' cache' := by
  refine ⟨fun path => ?_, fun path e he => ?_⟩
  · rw [hentries, hclean]
    exact h.sums path
  · rw [hentries] at he
    exact (h.entries path e he).later (hkept path) (hcode path)

theorem Explains.edited (h : Explains o history files cache) (files' : MemoryFiles) :
    Explains o (.edited files files' :: history) files' cache :=
  h.later rfl (fun _ => rfl) (fun _ => id) fun _ _ => (Classical.em _)

theorem Explains.invalidated (h : Explains o history files cache) (path : Bytes) :
    Explains o (.invalidated path :: history) files (cache.invalidate path) := by
  refine ⟨fun other => ?_, fun other e he => ?_⟩
  · rw [lastClean]
    split
    · next heq => simp [Cache.invalidate, heq]
    · next hne =>
      rw [← h.sums other]
      simp [Cache.invalidate, Std.ExtTreeMap.getElem?_erase, hne]
  · have hne : path ≠ other := by
      rintro rfl
      simp [Cache.invalidate] at he
    refine (h.entries other e ?_).later (fun heq => hne heq) fun _ => .inl rfl
    simpa [Cache.invalidate, Std.ExtTreeMap.getElem?_erase, hne] using he

theorem Explains.failed (h : Explains o history files cache) (hentries : cache'.entries = cache.entries)
    (path : Bytes) (source : Option Bytes) (hfailed : made.error ≠ none)
    (hsame : ∀ out, files'.readAll out = files.readAll out) :
    Explains o (.compiled path source made files' :: history) files' cache' := by
  refine h.later hentries (fun other => ?_) (fun other hreplaces => hfailed hreplaces.2.1)
    fun _ out => .inl (hsame out)
  rw [lastClean, if_neg fun hclean => hfailed hclean.2]

/-- A compilation that is used again stays where it was, and its source is the last one without an
error. -/
theorem Explains.found (h : Explains o history files cache) (hentries : cache'.entries = cache.entries)
    {found : Compilation} (hfound : cache.find? path source o.target = some found) :
    Explains o (.compiled path (some source) { found with cached := true } files :: history) files
      cache' := by
  obtain ⟨e, he, hsum, -, rfl⟩ := Cache.find?_eq_some_iff.mp hfound
  obtain ⟨since, source', made, after, earlier, -, horigin⟩ := h.entries path e he
  have hclean : e.compilation.error = none := by
    rw [horigin.entry]
    exact horigin.clean
  refine ⟨fun other => ?_, fun other e' he' => ?_⟩
  · -- The source may differ from that of the entry, but only if their digests are the same.
    rw [hentries, lastClean]
    by_cases heq : path = other
    · subst heq
      rw [if_pos ⟨rfl, hclean⟩, he]
      exact congrArg some hsum
    · rw [if_neg fun hsame => heq hsame.1]
      exact h.sums other
  · rw [hentries] at he'
    refine (h.entries other e' he').later (fun hreplaces => ?_) fun _ => .inl rfl
    exact absurd hreplaces.2.2 Bool.noConfusion

/-- What making a compilation does to a file. -/
theorem make_readAll
    (hmade : (make o path source : StateM MemoryFiles Compilation) files = (made, files')) (out : Bytes) :
    files'.readAll out = files.readAll out ∨ made.error = none ∧ keyOf made.output = keyOf out := by
  have heffect := make_writesAllOrNothing hmade
  cases hp : made.program with
  | none =>
    have hsame : files' = files := heffect.invalid (by rw [isValid, hp]; rfl)
    exact .inl (by rw [hsame])
  | some p =>
    cases herror : made.error with
    | some e => exact .inl ((heffect.refused p e hp herror).2.2.2.2 out)
    | none =>
      cases hemit : o.emit with
      | false =>
        have hsame : files' = files := heffect.withheld hemit
        exact .inl (by rw [hsame])
      | true =>
        obtain ⟨-, -, -, -, hothers⟩ := heffect.written p hp herror hemit
        by_cases hkey : keyOf made.output = keyOf out
        · exact .inr ⟨rfl, hkey⟩
        · exact .inl (hothers out (Ne.symm hkey))

/-- A compilation that was made without an error takes the place of the one before. -/
theorem Explains.stored (h : Explains o history files cache)
    (hmade : (make o path source : StateM MemoryFiles Compilation) files = (made, files'))
    (hclean : made.error = none)
    (hentries : cache'.entries =
      cache.entries.insert path ⟨Digest.sha256 source, o.target.render, made⟩) :
    Explains o (.compiled path (some source) made files' :: history) files' cache' := by
  refine ⟨fun other => ?_, fun other e he => ?_⟩
  · rw [hentries, lastClean]
    by_cases heq : path = other
    · subst heq
      simp [hclean]
    · rw [if_neg fun hsame => heq hsame.1, ← h.sums other]
      simp [Std.ExtTreeMap.getElem?_insert, heq]
  · rw [hentries, Std.ExtTreeMap.getElem?_insert] at he
    by_cases heq : path = other
    · subst heq
      rw [if_pos (by simp)] at he
      cases he
      exact ⟨[], source, made, files', history, rfl, rfl, hclean, ⟨files, hmade⟩,
        fun _ hmem => absurd hmem List.not_mem_nil, .inl rfl⟩
    · rw [if_neg (by simpa using heq)] at he
      refine (h.entries other e he).later (fun hreplaces => heq hreplaces.1) fun out => ?_
      exact (make_readAll hmade out).imp_right fun hwritten =>
        ⟨heq, hclean, (make_sameFindings hmade).2, hwritten.2⟩

theorem Explains.compiled (h : Explains o history files cache)
    (hserves : Serves o path cache files made cache' files') :
    Explains o (.compiled path (files.readAll path).toOption made files' :: history) files' cache' := by
  cases hserves with
  | unreadable hread => exact h.failed rfl path _ (Option.some_ne_none _) fun _ => rfl
  | reused hread hfound hentries =>
    rw [hread]
    exact h.found hentries hfound
  | failed hread _ hmade herror hentries =>
    exact h.failed hentries path _ herror fun out =>
      (make_readAll hmade out).resolve_right fun hclean => herror hclean.1
  | kept hread _ hmade hclean hentries =>
    rw [hread]
    exact h.stored hmade hclean hentries

/-- A source that was read in a session is among those seen. -/
theorem KeptFrom.mem_seen {since earlier : List SessionEvent} {after : MemoryFiles}
    (h : history = since ++ .compiled path (some source) made after :: earlier) :
    source ∈ seen path history := by
  refine List.mem_filterMap.mpr ⟨.compiled path (some source) made after, ?_, if_pos rfl⟩
  rw [h]
  exact List.mem_append_right since List.mem_cons_self

/-- Unless digests collide, a compilation is found if its source is the last one without an error. -/
theorem Explains.find?_isSome_iff (h : Explains o history files cache)
    (hcollision : ∀ content ∈ seen path history,
      Digest.sha256 content = Digest.sha256 source → content = source) :
    (cache.find? path source o.target).isSome ↔ lastClean path history = some source := by
  have hsums := h.sums path
  constructor
  · intro hsome
    obtain ⟨found, hfound⟩ := Option.isSome_iff_exists.mp hsome
    obtain ⟨e, he, hsum, -, -⟩ := Cache.find?_eq_some_iff.mp hfound
    rw [he] at hsums
    obtain ⟨content, hcontent, hdigest⟩ := Option.map_eq_some_iff.mp hsums.symm
    rw [hcontent, hcollision content (mem_seen_of_lastClean hcontent) (hdigest.trans hsum)]
  · -- One target is used throughout a session, so only the digest could be in the way.
    intro hclean
    rw [hclean] at hsums
    obtain ⟨e, he, hsum⟩ := Option.map_eq_some_iff.mp hsums
    obtain ⟨_, _, _, _, _, -, horigin⟩ := h.entries path e he
    have htarget : e.target = o.target.render := by
      rw [horigin.entry]
    rw [Cache.find?_eq_some_iff.mpr ⟨e, he, hsum, htarget, rfl⟩]
    rfl

/-- Unless digests collide, what is found is what the source gives. -/
theorem Explains.sameFindings (h : Explains o history files cache) {found : Compilation}
    (hfound : cache.find? path source o.target = some found)
    (hcollision : ∀ content ∈ seen path history,
      Digest.sha256 content = Digest.sha256 source → content = source) :
    SameFindings found (ofSource o.target path source).1 := by
  obtain ⟨e, he, hsum, -, rfl⟩ := Cache.find?_eq_some_iff.mp hfound
  obtain ⟨_, content, made, _, _, hhistory, horigin⟩ := h.entries path e he
  obtain ⟨before, hmade⟩ := horigin.making
  rw [horigin.entry] at hsum ⊢
  rw [← hcollision content (KeptFrom.mem_seen hhistory) hsum]
  exact (make_sameFindings hmade).1

/-- Unless digests collide, a file gives what its source gives, whether it is found or not. -/
theorem Explains.sameFindings_serves (h : Explains o history files cache)
    (hserves : Serves o path cache files made cache' files') (hread : files.readAll path = .ok source)
    (hcollision : ∀ content ∈ seen path history,
      Digest.sha256 content = Digest.sha256 source → content = source) :
    SameFindings made (ofSource o.target path source).1 ∧
      (made.cached = true ↔ (cache.find? path source o.target).isSome) := by
  have hnew (hmissing : cache.find? path source o.target = none)
      (hmade : (make o path source : StateM MemoryFiles Compilation) files = (made, files')) :
      SameFindings made (ofSource o.target path source).1 ∧
        (made.cached = true ↔ (cache.find? path source o.target).isSome) := by
    obtain ⟨hfindings, hcached⟩ := make_sameFindings hmade
    refine ⟨hfindings, ?_⟩
    rw [hcached, hmissing]
    simp
  cases hserves with
  | unreadable hread' =>
    rw [hread] at hread'
    cases hread'
  | reused hread' hfound =>
    rw [hread] at hread'
    cases hread'
    have hfindings := h.sameFindings hfound hcollision
    refine ⟨⟨hfindings.path, hfindings.program, hfindings.diagnostics, hfindings.symbols⟩, ?_⟩
    rw [hfound]
    simp
  | failed hread' hmissing hmade =>
    rw [hread] at hread'
    cases hread'
    exact hnew hmissing hmade
  | kept hread' hmissing hmade =>
    rw [hread] at hread'
    cases hread'
    exact hnew hmissing hmade

end Explains

/-! ## What a session keeps up -/

/-- Whether what happened in a session explains its cache. -/
def Session.Sound (o : CompileOptions) (s : Session) : Prop :=
  ∃ cache, s.state.cache = some cache ∧ Explains o s.history s.files cache

section Sound

variable {o : CompileOptions} {s : Session}

theorem Session.sound_start (o : CompileOptions) (log : Log) (files : MemoryFiles) :
    (Session.start log files).Sound o := by
  refine ⟨.empty, rfl, fun path => ?_, fun path e he => ?_⟩
  · simp [Cache.empty, Session.start, lastClean]
  · simp [Cache.empty] at he

theorem Session.Sound.step (h : s.Sound o) (step : SessionStep) : (s.step o step).Sound o := by
  obtain ⟨cache, hcache, hexplains⟩ := h
  cases step with
  | edit change => exact ⟨cache, hcache, hexplains.edited (change s.files)⟩
  | invalidate path =>
    exact ⟨cache.invalidate path, congrArg (Option.map _) hcache, hexplains.invalidated path⟩
  | compile interrupted path =>
    cases interrupted with
    | true => exact ⟨cache, hcache, hexplains.failed rfl path none (Option.some_ne_none _) fun _ => rfl⟩
    | false =>
      obtain ⟨cache', hcache', hserves⟩ := serves_compile o path hcache s.files
      exact ⟨cache', hcache', hexplains.compiled hserves⟩

theorem Session.Sound.run (h : s.Sound o) (steps : List SessionStep) : (s.run o steps).Sound o := by
  induction steps generalizing s with
  | nil => exact h
  | cons step steps ih => exact ih (h.step step)

end Sound

/-- What a file gives without a cache depends on its source and the target alone. -/
theorem fresh_sameFindings {o : CompileOptions} {path source : Bytes} {fs : MemoryFiles}
    (h : fs.readAll path = .ok source) (log : Log) :
    SameFindings ((compileUnless false o path : CompileM (StateM MemoryFiles) Compilation)
      { log := log } fs).1.1 (ofSource o.target path source).1 := by
  have hmade := makeFile_eq { log := log } rfl o path fs
  rw [makeFile_of_ok h] at hmade
  exact (make_sameFindings hmade).1

/-- Whatever happened in a session, a file that can be read gives what its source gives without a cache,
and an earlier compilation is used for it if and only if the path had the same source when it was last
compiled without an error and was not forgotten since; unless the digest of the source is that of another
source of the path. -/
theorem compile_sameFindings_fresh (o : CompileOptions) (log : Log) (files : MemoryFiles)
    (steps : List SessionStep) (path source : Bytes)
    (hread : ((Session.start log files).run o steps).files.readAll path = .ok source)
    (hcollision : ∀ content ∈ seen path ((Session.start log files).run o steps).history,
      Digest.sha256 content = Digest.sha256 source → content = source) :
    let s := (Session.start log files).run o steps
    let c := ((compileUnless false o path : CompileM (StateM MemoryFiles) Compilation)
      s.state s.files).1.1
    (∀ (o' : CompileOptions) (log' : Log) (files' : MemoryFiles), o'.target = o.target →
        files'.readAll path = .ok source →
        SameFindings c ((compileUnless false o' path : CompileM (StateM MemoryFiles) Compilation)
          { log := log' } files').1.1) ∧
      (c.cached = true ↔ lastClean path s.history = some source) := by
  intro s c
  obtain ⟨cache, hcache, hexplains⟩ := (Session.sound_start o log files).run steps
  obtain ⟨cache', -, hserves⟩ := serves_compile o path hcache s.files
  obtain ⟨hfindings, hcached⟩ := hexplains.sameFindings_serves hserves hread hcollision
  refine ⟨fun o' log' files' htarget hread' => ?_,
    hcached.trans (hexplains.find?_isSome_iff hcollision)⟩
  have hfresh := fresh_sameFindings (o := o') hread' log'
  rw [htarget] at hfresh
  exact hfindings.trans hfresh.symm

/-- The source of one of the crowded files. -/
def revertedSource : Bytes := text "program P is integer i; begin end program."

/-- The file is compiled, it is compiled with a source that is no program, and it is set back. -/
def revertingSteps : List SessionStep :=
  [.compile false (text "in/a.src"), .edit (·.addFile (text "in/a.src") (text "program")),
    .compile false (text "in/a.src"), .edit (·.addFile (text "in/a.src") revertedSource)]

/-- The first compilation is used again, since the second one was not kept. -/
theorem revertedSource_reused :
    let s := (Session.start { verbosity := none } crowdedFiles).run crowdedOptions revertingSteps
    let c := ((compileUnless false crowdedOptions (text "in/a.src") :
      CompileM (StateM MemoryFiles) Compilation) s.state s.files).1.1
    c.cached = true ∧ lastClean (text "in/a.src") s.history = some revertedSource ∧
      SameFindings c ((compileUnless false crowdedOptions (text "in/a.src") :
        CompileM (StateM MemoryFiles) Compilation) { log := { verbosity := none } } crowdedFiles).1.1 := by
  intro s c
  obtain ⟨hread, hcollision, hclean, hread'⟩ :
      s.files.readAll (text "in/a.src") = .ok revertedSource ∧
      (∀ content ∈ seen (text "in/a.src") s.history,
        Digest.sha256 content = Digest.sha256 revertedSource → content = revertedSource) ∧
      lastClean (text "in/a.src") s.history = some revertedSource ∧
      crowdedFiles.readAll (text "in/a.src") = .ok revertedSource := by
    decide +kernel
  obtain ⟨hfindings, hcached⟩ := compile_sameFindings_fresh crowdedOptions { verbosity := none }
    crowdedFiles revertingSteps (text "in/a.src") revertedSource hread hcollision
  exact ⟨hcached.mpr hclean, hclean,
    hfindings crowdedOptions { verbosity := none } crowdedFiles rfl hread'⟩

/-! ## The code of a compilation that is used again -/

section Code

variable {o : CompileOptions} {path source : Bytes} {history : List SessionEvent}
  {files files' : MemoryFiles} {cache cache' : Cache} {c made : Compilation} {p : Program}

theorem readAll_make
    (hmade : (make o path source : StateM MemoryFiles Compilation) files = (made, files'))
    (hemit : o.emit = true) (hp : made.program = some p) (hclean : made.error = none) :
    files'.readAll made.output = .ok (Ir.fileText p.lines) :=
  ((make_writesAllOrNothing hmade).written p hp hclean hemit).2.1

theorem Explains.code_serves (h : Explains o history files cache)
    (hserves : Serves o path cache files c cache' files') (hemit : o.emit = true)
    (hp : c.program = some p) (hclean : c.error = none) :
    c.cached = false ∧ files'.readAll c.output = .ok (Ir.fileText p.lines) ∨
      c.cached = true ∧ ∃ since source made after earlier,
        history = since ++ .compiled path source made after :: earlier ∧
        (∀ event ∈ since, ¬event.Replaces path) ∧
        c = { made with cached := true } ∧ made.cached = false ∧
        after.readAll made.output = .ok (Ir.fileText p.lines) ∧
        (files'.readAll made.output = .ok (Ir.fileText p.lines) ∨
          ∃ event ∈ since, event.Disturbs path made.output) := by
  cases hserves with
  | unreadable => cases hp
  | reused _ hfound =>
    obtain ⟨e, he, -, -, rfl⟩ := Cache.find?_eq_some_iff.mp hfound
    obtain ⟨since, content, made, after, earlier, hhistory, horigin⟩ := h.entries path e he
    obtain ⟨before, hmade⟩ := horigin.making
    have hentry : e.compilation = made := by
      rw [horigin.entry]
    rw [hentry] at hp
    have hcode := readAll_make hmade hemit hp horigin.clean
    rw [hentry]
    refine .inr ⟨rfl, since, some content, made, after, earlier, hhistory, horigin.kept, rfl,
      (make_sameFindings hmade).2, hcode, ?_⟩
    exact horigin.code.imp_left fun hsame => hsame.trans hcode
  | failed _ _ _ herror => exact absurd hclean herror
  | kept _ _ hmade =>
    exact .inl ⟨(make_sameFindings hmade).2, readAll_make hmade hemit hp hclean⟩

end Code

/-- Whatever happened in a session: if compiling a file gives a program and no error, then either its code
was written now and is found in its file; or it was made by an earlier compilation of the same path, in
place of which there is no other since.  In the second case the code was found in its file then, and it is
found there now unless the file was changed since, or the code of another path was written to it. -/
theorem compile_written_or_disturbed (o : CompileOptions) (hemit : o.emit = true) (log : Log)
    (files : MemoryFiles) (steps : List SessionStep) (interrupted : Bool) (path : Bytes) (p : Program) :
    let s := (Session.start log files).run o steps
    let run := (compileUnless interrupted o path : CompileM (StateM MemoryFiles) Compilation)
      s.state s.files
    run.1.1.program = some p → run.1.1.error = none →
      run.1.1.cached = false ∧ run.2.readAll run.1.1.output = .ok (Ir.fileText p.lines) ∨
      run.1.1.cached = true ∧ ∃ since source made after earlier,
        s.history = since ++ .compiled path source made after :: earlier ∧
        (∀ event ∈ since, ¬event.Replaces path) ∧
        run.1.1 = { made with cached := true } ∧ made.cached = false ∧
        after.readAll made.output = .ok (Ir.fileText p.lines) ∧
        (run.2.readAll made.output = .ok (Ir.fileText p.lines) ∨
          ∃ event ∈ since, event.Disturbs path made.output) := by
  intro s run hp herror
  cases interrupted with
  | true => cases herror
  | false =>
    obtain ⟨cache, hcache, hexplains⟩ := (Session.sound_start o log files).run steps
    obtain ⟨cache', -, hserves⟩ := serves_compile o path hcache s.files
    exact hexplains.code_serves hserves hemit hp herror

/-- A file is compiled, and its code is removed. -/
def removingSteps : List SessionStep :=
  [.compile false (text "in/a.src"), .edit fun fs => (fs.remove (text "out/P.ll")).toOption.getD fs]

/-- The crowded files after these steps. -/
def removedSession : Session :=
  (Session.start { verbosity := none } crowdedFiles).run crowdedOptions removingSteps

/-- The file is compiled once more: the compilation is used again, and its code is not there. -/
theorem removedSession_compiled :
    let run := (compileUnless false crowdedOptions (text "in/a.src") :
      CompileM (StateM MemoryFiles) Compilation) removedSession.state removedSession.files
    run.1.1.program.isSome = true ∧ run.1.1.error = none ∧ run.1.1.cached = true ∧
      (run.2.readAll run.1.1.output).isOk = false := by
  decide +kernel

/-- It is not so that the code of a program is in its file whenever compiling gave no error. -/
theorem removedCode_reused :
    ¬∀ (o : CompileOptions) (log : Log) (files : MemoryFiles) (steps : List SessionStep)
        (interrupted : Bool) (path : Bytes) (p : Program), o.emit = true →
      let s := (Session.start log files).run o steps
      let run := (compileUnless interrupted o path : CompileM (StateM MemoryFiles) Compilation)
        s.state s.files
      run.1.1.program = some p → run.1.1.error = none →
        run.2.readAll run.1.1.output = .ok (Ir.fileText p.lines) := by
  intro h
  obtain ⟨hprogram, herror, -, hmissing⟩ := removedSession_compiled
  obtain ⟨p, hp⟩ := Option.isSome_iff_exists.mp hprogram
  have hread := h crowdedOptions { verbosity := none } crowdedFiles removingSteps false (text "in/a.src") p
    rfl hp herror
  rw [removedSession, hread] at hmissing
  cases hmissing

/-- The compilation that is used again was made by the first one of the steps, and the second one
disturbed its code. -/
theorem removedCode_disturbed :
    let run := (compileUnless false crowdedOptions (text "in/a.src") :
      CompileM (StateM MemoryFiles) Compilation) removedSession.state removedSession.files
    ∃ p, run.1.1.program = some p ∧ run.1.1.error = none ∧
      ∃ since source made after earlier,
        removedSession.history = since ++ .compiled (text "in/a.src") source made after :: earlier ∧
        run.1.1 = { made with cached := true } ∧
        after.readAll made.output = .ok (Ir.fileText p.lines) ∧
        ∃ event ∈ since, event.Disturbs (text "in/a.src") made.output := by
  intro run
  obtain ⟨hprogram, herror, hcached, hmissing⟩ := removedSession_compiled
  obtain ⟨p, hp⟩ := Option.isSome_iff_exists.mp hprogram
  refine ⟨p, hp, herror, ?_⟩
  rcases compile_written_or_disturbed crowdedOptions rfl { verbosity := none } crowdedFiles removingSteps
    false (text "in/a.src") p hp herror with
    ⟨hfresh, -⟩ | ⟨-, since, source, made, after, earlier, hhistory, -, hmade, -, hcode, hnow⟩
  · exact absurd (hfresh.symm.trans hcached) Bool.noConfusion
  · refine ⟨since, source, made, after, earlier, hhistory, hmade, hcode, hnow.resolve_left fun hthere => ?_⟩
    rw [removedSession, hmade, hthere] at hmissing
    cases hmissing

end OnePass.Compilation
