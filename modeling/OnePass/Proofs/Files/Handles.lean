import OnePass.Proofs.Files.Desk
set_option autoImplicit false

/-!
# What handles show of files

A handle that was opened for reading gives the file as it was then, bit by bit, whatever happens to the
file (`exists_reader_run`).  What is written through a handle is kept with the handle: nothing else on the
desk can tell whether it was written (`trace_filter_isWrite`), until the handle is closed and the file
holds all of it (`find?_perform_close`).  A handle is closed but once (`closed_run`).

What is known of a file is the same through a handle and by the path that it was opened with, but not for
the root (`statHandle_eq_stat_iff`).  A handle has the key of its file and takes it for a path, and the key
of the root is no path to the root.
-/

namespace OnePass

open MemoryFiles

/-! ## What was read and written -/

namespace FileAction

/-- Whether an action writes through a handle. -/
def isWrite (n : Nat) : FileAction → Bool
  | .write m _ => m = n
  | _ => false

/-- What an action writes through a handle. -/
def writtenBy (n : Nat) : FileAction → Bytes
  | .write m data => if m = n then data else []
  | _ => []

/-- What an action reads through a handle, given what came of it. -/
def readBy (n : Nat) (a : FileAction) (answer : FileAnswer) : Bytes :=
  match a, answer with
  | .read m _, .data bytes => if m = n then bytes else []
  | _, _ => []

end FileAction

/-- All that was written through a handle. -/
def writtenBy (n : Nat) (actions : List FileAction) : Bytes := actions.flatMap (·.writtenBy n)

/-- All that was read through a handle. -/
def readBy (n : Nat) (trace : List (FileAction × FileAnswer)) : Bytes :=
  trace.flatMap fun s => s.1.readBy n s.2

/-- Whether the end of a file was met through a handle. -/
def MeetsEnd (n : Nat) (trace : List (FileAction × FileAnswer)) : Prop :=
  ∃ count, (.read n count, .refused .endOfFile) ∈ trace

namespace FileDesk

variable {d : FileDesk} {n : Nat} {key rest written data : Bytes} {h : FileHandle} {a : FileAction}

/-! ## Reading -/

theorem perform_read_nil (hn : d.handles[n]? = some (.reader key [])) (count : Nat) :
    d.perform (.read n count) = (.refused .endOfFile, d.setHandle n (.reader key [])) :=
  perform_read hn count

theorem perform_read_ne_nil (hn : d.handles[n]? = some (.reader key rest)) (hrest : rest ≠ [])
    (count : Nat) : d.perform (.read n count) =
      (.data (rest.take count), d.setHandle n (.reader key (rest.drop count))) := by
  rw [perform_read hn, FileHandle.read, if_neg hrest]
  rfl

/-- Nothing but reading changes what is left to read. -/
theorem after_reader (ha : ∀ count, a ≠ .read n count) (key rest : Bytes) :
    (FileHandle.reader key rest).after n a = .reader key rest := by
  cases a with
  | read m count =>
    have hm : m ≠ n := by
      rintro rfl
      exact ha count rfl
    rw [FileHandle.after, if_neg hm]
  | write m data => exact ite_self _
  | close m => exact ite_self _
  | _ => rfl

theorem readBy_of_ne (ha : ∀ count, a ≠ .read n count) (answer : FileAnswer) : a.readBy n answer = [] := by
  cases a with
  | read m count =>
    have hm : m ≠ n := by
      rintro rfl
      exact ha count rfl
    cases answer with
    | data bytes => rw [FileAction.readBy, if_neg hm]
    | _ => rfl
  | _ => rfl

/-- What is read is taken from what is left, and the end is met if nothing is left. -/
theorem exists_reader_perform (hn : d.handles[n]? = some (.reader key rest)) (a : FileAction) :
    ∃ rest', (d.perform a).2.handles[n]? = some (.reader key rest') ∧
      a.readBy n (d.perform a).1 ++ rest' = rest ∧
      (∀ count, (a, (d.perform a).1) = (.read n count, .refused .endOfFile) → rest = []) := by
  have hafter := getElem?_handles_perform hn a
  by_cases ha : ∀ count, a ≠ .read n count
  · rw [after_reader ha] at hafter
    refine ⟨rest, hafter, by rw [readBy_of_ne ha, List.nil_append], fun count heq => ?_⟩
    exact absurd (congrArg Prod.fst heq) (ha count)
  · obtain ⟨count, rfl⟩ : ∃ count, a = .read n count := by
      simpa using ha
    rw [FileHandle.after, if_pos rfl] at hafter
    by_cases hrest : rest = []
    · subst hrest
      rw [perform_read_nil hn] at hafter ⊢
      exact ⟨[], hafter, rfl, fun _ _ => rfl⟩
    · rw [FileHandle.read, if_neg hrest] at hafter
      rw [perform_read_ne_nil hn hrest] at hafter ⊢
      refine ⟨rest.drop count, hafter, ?_, fun count' heq => ?_⟩
      · rw [FileAction.readBy, if_pos rfl, List.take_append_drop]
      · exact absurd (congrArg Prod.snd heq) FileAnswer.noConfusion

theorem exists_reader_run (hn : d.handles[n]? = some (.reader key rest)) (actions : List FileAction) :
    ∃ rest', (d.run actions).handles[n]? = some (.reader key rest') ∧
      readBy n (d.trace actions) ++ rest' = rest ∧ (MeetsEnd n (d.trace actions) → rest' = []) := by
  induction actions generalizing d rest with
  | nil =>
    refine ⟨rest, hn, rfl, ?_⟩
    rintro ⟨count, hmem⟩
    cases hmem
  | cons a actions ih =>
    obtain ⟨mid, hmid, htaken, hend⟩ := exists_reader_perform hn a
    obtain ⟨rest', hrest', htaken', hend'⟩ := ih hmid
    refine ⟨rest', hrest', ?_, ?_⟩
    · rw [trace, readBy, List.flatMap_cons, List.append_assoc]
      exact (congrArg (a.readBy n (d.perform a).1 ++ ·) htaken').trans htaken
    · rintro ⟨count, hmem⟩
      rcases List.mem_cons.mp hmem with heq | hmem
      · -- Once the end is met, nothing is left then and hence nothing later on.
        have hnil := hend count heq.symm
        rw [hnil, ← htaken'] at htaken
        exact (List.append_eq_nil_iff.mp (List.append_eq_nil_iff.mp htaken).2).2
      · exact hend' ⟨count, hmem⟩

/-! ## Writing -/

theorem after_writer (ha : a ≠ .close n) (key written : Bytes) :
    (FileHandle.writer key written).after n a = .writer key (written ++ a.writtenBy n) := by
  cases a with
  | write m data =>
    rw [FileHandle.after, FileAction.writtenBy]
    split
    · rfl
    · rw [List.append_nil]
  | read m count => exact (ite_self _).trans (by simp [FileAction.writtenBy])
  | close m =>
    have hm : m ≠ n := by
      rintro rfl
      exact ha rfl
    simp [FileHandle.after, FileAction.writtenBy, hm]
  | _ => simp [FileHandle.after, FileAction.writtenBy]

/-- A handle keeps what is written through it until it is closed. -/
theorem writer_run (hn : d.handles[n]? = some (.writer key written)) {actions : List FileAction}
    (hopen : .close n ∉ actions) :
    (d.run actions).handles[n]? = some (.writer key (written ++ writtenBy n actions)) := by
  induction actions generalizing d written with
  | nil => rw [writtenBy, List.flatMap_nil, List.append_nil, run, hn]
  | cons a actions ih =>
    obtain ⟨ha, hactions⟩ := List.ne_and_not_mem_of_not_mem_cons hopen
    have hafter := getElem?_handles_perform hn a
    rw [after_writer ha.symm] at hafter
    rw [run, ih hafter hactions, writtenBy, writtenBy, List.flatMap_cons, List.append_assoc]

theorem find?_perform_close (hn : d.handles[n]? = some (.writer key written)) :
    (d.perform (.close n)).2.files.find? key = some (.file written d.files.clock) := by
  rw [perform_close hn]
  exact find?_close_writer d.files key written

theorem closed_run (hn : d.handles[n]? = some (.closed key)) (actions : List FileAction) :
    (d.run actions).handles[n]? = some (.closed key) := by
  induction actions generalizing d with
  | nil => exact hn
  | cons a actions ih =>
    have hafter := getElem?_handles_perform hn a
    have hsame : (FileHandle.closed key).after n a = .closed key := by
      cases a with
      | read m count => exact ite_self _
      | write m data => exact ite_self _
      | close m => exact ite_self _
      | _ => rfl
    rw [hsame] at hafter
    exact ih hafter

/-! ## What is not closed is not seen -/

theorem setHandle_setHandle (d : FileDesk) (n : Nat) (h h' : FileHandle) :
    (d.setHandle n h).setHandle n h' = d.setHandle n h' := by
  rw [setHandle, setHandle, List.set_set]
  rfl

theorem setHandle_self (hn : d.handles[n]? = some h) : d.setHandle n h = d := by
  obtain ⟨hlt, rfl⟩ := List.getElem?_eq_some_iff.mp hn
  rw [setHandle, List.set_getElem_self]

/-- Something done with one handle does not see another one. -/
theorem withHandle_setHandle {m : Nat} (hm : m ≠ n) (d : FileDesk) (h' : FileHandle)
    (answer : FileHandle → FileAnswer) (files : FileHandle → MemoryFiles) (use : FileHandle → FileHandle) :
    ((d.setHandle n h').withHandle m fun h => (answer h, ⟨files h, (d.setHandle n h').handles.set m (use h)⟩)) =
      ((d.withHandle m fun h => (answer h, ⟨files h, d.handles.set m (use h)⟩)).1,
        (d.withHandle m fun h => (answer h, ⟨files h, d.handles.set m (use h)⟩)).2.setHandle n h') := by
  have hget : (d.setHandle n h').handles[m]? = d.handles[m]? := List.getElem?_set_ne (Ne.symm hm)
  rw [withHandle, withHandle, hget]
  cases d.handles[m]? with
  | none => rfl
  | some h =>
    dsimp only [setHandle]
    rw [List.set_comm _ _ hm]

/-- What was written through a handle makes no difference, unless the handle is closed. -/
theorem perform_setHandle (hn : d.handles[n]? = some (.writer key written)) (other : Bytes)
    (hwrite : a.isWrite n = false) (hclose : a ≠ .close n) :
    (d.setHandle n (.writer key other)).perform a =
      ((d.perform a).1, (d.perform a).2.setHandle n (.writer key other)) := by
  obtain ⟨hlt, -⟩ := List.getElem?_eq_some_iff.mp hn
  have hn' : (d.setHandle n (.writer key other)).handles[n]? = some (.writer key other) :=
    List.getElem?_set_self hlt
  have happend (h : FileHandle) :
      d.handles.set n (.writer key other) ++ [h] = (d.handles ++ [h]).set n (.writer key other) :=
    (List.set_append_left _ _ hlt).symm
  cases a with
  | openFile path =>
    simp only [perform, setHandle]
    cases d.files.openFile path with
    | error fault => rfl
    | ok h => simp only [List.length_set, happend]
  | createFile path =>
    simp only [perform, setHandle]
    cases d.files.createFile path with
    | error fault => rfl
    | ok created => simp only [List.length_set, happend]
  | remove path =>
    simp only [perform, setHandle]
    cases d.files.remove path <;> rfl
  | read m count =>
    by_cases hm : m = n
    · subst hm
      rw [perform_read hn, perform_read hn', setHandle_setHandle]
      dsimp only
      rw [setHandle_setHandle]
      rfl
    · exact withHandle_setHandle hm d _ _ (fun _ => d.files) _
  | write m data =>
    have hm : m ≠ n := by
      simpa [FileAction.isWrite] using hwrite
    exact withHandle_setHandle hm d _ _ (fun _ => d.files) _
  | close m =>
    have hm : m ≠ n := by
      rintro rfl
      exact hclose rfl
    exact withHandle_setHandle hm d _ (fun _ => .done) _ _
  | statHandle m =>
    by_cases hm : m = n
    · subst hm
      rw [perform, perform, withHandle, withHandle, hn, hn']
      rfl
    · have hget : (d.setHandle n (.writer key other)).handles[m]? = d.handles[m]? :=
        List.getElem?_set_ne (Ne.symm hm)
      rw [perform, perform, withHandle, withHandle, hget]
      cases d.handles[m]? <;> rfl
  | setClock time => rfl
  | addFile path data => rfl
  | makeDirectories path => rfl
  | stat path => rfl
  | readAll path => rfl
  | writeAll path data => rfl

/-- Whether something is written through a handle makes no difference to anything else that is done, as
long as the handle is not closed. -/
theorem trace_filter_isWrite (hn : d.handles[n]? = some (.writer key written)) (other : Bytes)
    {actions : List FileAction} (hopen : .close n ∉ actions) :
    (d.setHandle n (.writer key other)).trace (actions.filter (!·.isWrite n)) =
        (d.trace actions).filter (!·.1.isWrite n) ∧
      ((d.setHandle n (.writer key other)).run (actions.filter (!·.isWrite n))).files =
        (d.run actions).files := by
  induction actions generalizing d written with
  | nil => exact ⟨rfl, rfl⟩
  | cons a actions ih =>
    obtain ⟨ha, hactions⟩ := List.ne_and_not_mem_of_not_mem_cons hopen
    have hafter := getElem?_handles_perform hn a
    rw [after_writer ha.symm] at hafter
    obtain ⟨htrace, hfiles⟩ := ih hafter hactions
    cases hwrite : a.isWrite n with
    | false =>
      have hperform := perform_setHandle hn other hwrite ha.symm
      simp only [List.filter_cons, trace, run, hwrite, Bool.not_false, if_true, hperform]
      exact ⟨congrArg _ htrace, hfiles⟩
    | true =>
      have hsame : (d.perform a).2.setHandle n (.writer key other) = d.setHandle n (.writer key other) := by
        cases a with
        | write m data =>
          obtain rfl : m = n := by
            simpa [FileAction.isWrite] using hwrite
          rw [perform_write hn]
          exact setHandle_setHandle _ _ _ _
        | _ => cases hwrite
      rw [hsame] at htrace hfiles
      simp only [List.filter_cons, trace, run, hwrite, Bool.not_true, Bool.false_eq_true, if_false]
      exact ⟨htrace, hfiles⟩

/-! ## All handles of a desk -/

/-- Whether a handle reads a text bit by bit, whatever is done: what was read is a beginning of it, and all
of it if the end was met.  The next piece is what comes next in the text, and the end is met if all of it
was read. -/
structure Shows (d : FileDesk) (n : Nat) (data : Bytes) (actions : List FileAction) : Prop where
  begins : readBy n (d.trace actions) <+: data
  complete : MeetsEnd n (d.trace actions) → readBy n (d.trace actions) = data
  next (count : Nat) : ((d.run actions).perform (.read n count)).1 =
    if readBy n (d.trace actions) = data then .refused .endOfFile
    else .data ((data.drop (readBy n (d.trace actions)).length).take count)

/-- Whether what is written through a handle is seen by nobody until the handle is closed, and all of it is
in the file then; after that nothing more comes through the handle. -/
structure Publishes (d : FileDesk) (n : Nat) (key : Bytes) (actions : List FileAction) : Prop where
  accepted (data : Bytes) : ((d.run actions).perform (.write n data)).1 = .done
  hidden : d.trace (actions.filter (!·.isWrite n)) = (d.trace actions).filter (!·.1.isWrite n)
  untouched : (d.run (actions.filter (!·.isWrite n))).files = (d.run actions).files
  published : ((d.run actions).perform (.close n)).2.files.find? key =
    some (.file (writtenBy n actions) (d.run actions).files.clock)
  ended (later : List FileAction) : let d' := ((d.run actions).perform (.close n)).2.run later
    (d'.perform (.close n)).2.files = d'.files ∧
      ∀ data, (d'.perform (.write n data)).1 = .refused .permission

theorem shows_of_reader (hn : d.handles[n]? = some (.reader key data)) (actions : List FileAction) :
    d.Shows n data actions := by
  obtain ⟨rest, hrest, htaken, hend⟩ := exists_reader_run hn actions
  refine ⟨⟨rest, htaken⟩, fun hmeets => ?_, fun count => ?_⟩
  · rw [← htaken, hend hmeets, List.append_nil]
  · by_cases hnil : rest = []
    · subst hnil
      rw [List.append_nil] at htaken
      rw [perform_read_nil hrest, if_pos htaken]
    · have hpart : readBy n (d.trace actions) ≠ data := by
        intro hall
        rw [hall] at htaken
        exact hnil (List.append_cancel_left (htaken.trans (List.append_nil data).symm))
      have hdrop : data.drop (readBy n (d.trace actions)).length = rest := by
        rw [← htaken, List.drop_left]
      rw [perform_read_ne_nil hrest hnil, if_neg hpart, hdrop]

theorem publishes_of_writer (hn : d.handles[n]? = some (.writer key [])) {actions : List FileAction}
    (hopen : .close n ∉ actions) : d.Publishes n key actions := by
  have hwriter := writer_run hn hopen
  rw [List.nil_append] at hwriter
  obtain ⟨hhidden, huntouched⟩ := trace_filter_isWrite hn [] hopen
  rw [setHandle_self hn] at hhidden huntouched
  refine ⟨fun data => ?_, hhidden, huntouched, find?_perform_close hwriter, fun later => ?_⟩
  · rw [perform_write hwriter]
    rfl
  · have hclosed : ((d.run actions).perform (.close n)).2.handles[n]? = some (.closed key) := by
      rw [getElem?_handles_perform hwriter, FileHandle.after, if_pos rfl]
      rfl
    have hlater := closed_run hclosed later
    intro d'
    refine ⟨?_, fun data => ?_⟩
    · rw [perform_close hlater]
      rfl
    · rw [perform_write hlater]
      rfl

/-- Whatever is done on a desk, a handle that is opened for reading shows the file as it is when it is
opened; a handle that is opened for writing publishes what is written through it when it is first closed,
and not before; and the entry under a key is the one that was left there last, by an action that puts
something there or takes it away. -/
theorem handles_snapshot_and_publish (d : FileDesk) :
    (∀ path n, (d.perform (.openFile path)).1 = .opened n →
      ∃ data time, d.files.find? (keyOf path) = some (.file data time) ∧
        ∀ actions, (d.perform (.openFile path)).2.Shows n data actions) ∧
    (∀ path n, (d.perform (.createFile path)).1 = .opened n →
      ∀ actions, .close n ∉ actions →
        (d.perform (.createFile path)).2.Publishes n (keyOf path) actions) ∧
    ∀ actions key, (d.run actions).files.find? key =
      (d.imprints key actions).getLast?.getD (d.files.find? key) := by
  have hlast (h : FileHandle) : (d.handles ++ [h])[d.handles.length]? = some h := by
    simp
  refine ⟨fun path n hopened => ?_, fun path n hopened actions hopen => ?_, d.find?_run⟩
  · rcases d.perform_openFile_cases path with ⟨fault, hperform⟩ | ⟨data, time, hfind, hperform⟩
    · rw [hperform] at hopened
      cases hopened
    · rw [hperform] at hopened
      cases hopened
      refine ⟨data, time, hfind, fun actions => ?_⟩
      rw [hperform]
      exact shows_of_reader (hlast _) actions
  · rcases d.perform_createFile_cases path with ⟨fault, hperform⟩ | hperform
    · rw [hperform] at hopened
      cases hopened
    · rw [hperform] at hopened
      cases hopened
      rw [hperform]
      exact publishes_of_writer (hlast _) hopen

/-- A desk with one file. -/
def sharedDesk : FileDesk := empty.run [.addFile (text "a") (text "old")]

/-- The file is written anew and removed, while it is read through a handle of before. -/
def readingActions : List FileAction :=
  [.read 0 2, .createFile (text "/a"), .write 1 (text "new"), .read 0 5, .close 1, .remove (text "a"),
    .read 0 1]

/-- A handle is opened a second time, while something is written through the first one. -/
def writingActions : List FileAction :=
  [.write 0 (text "n"), .createFile (text "a"), .close 1, .remove (text "a"), .write 0 (text "ew")]

/-- The old file is read to its end, and the new one is published in place of a removed one. -/
theorem sharedDesk_handles :
    let reading := (sharedDesk.perform (.openFile (text "a"))).2
    let writing := (sharedDesk.perform (.createFile (text "a"))).2
    readBy 0 (reading.trace readingActions) = text "old" ∧ .close 0 ∉ writingActions ∧
      (writing.run writingActions).files.find? (text "a") = none ∧
      ((writing.run writingActions).perform (.close 0)).2.files.find? (text "a") =
        some (.file (text "new") 0) := by
  intro reading writing
  obtain ⟨hreads, hwrites, -⟩ := handles_snapshot_and_publish sharedDesk
  obtain ⟨data, time, hfind, hshows⟩ := hreads (text "a") 0 (by decide +kernel)
  have hopen : .close 0 ∉ writingActions := by decide
  have hpublishes := hwrites (text "a") 0 (by decide +kernel) writingActions hopen
  obtain ⟨hdata, hmeets, hmissing⟩ : sharedDesk.files.find? (keyOf (text "a")) = some (.file (text "old") 0) ∧
      (.read 0 1, .refused .endOfFile) ∈ reading.trace readingActions ∧
      (writing.run writingActions).files.find? (text "a") = none := by
    decide +kernel
  rw [hdata] at hfind
  cases hfind
  exact ⟨(hshows readingActions).complete ⟨1, hmeets⟩, hopen, hmissing, hpublishes.published⟩

end FileDesk

/-! ## What is known of an open file -/

namespace MemoryFiles

open OnePass.Path

variable {fs : MemoryFiles} {path : Bytes} {h : FileHandle} {info : FileInfo}

/-- A key is its own key, unless it is that of the root: this one is empty, and the key of the empty path is
a dot. -/
theorem keyOf_keyOf_iff (path : Bytes) : keyOf (keyOf path) = keyOf path ↔ clean path ≠ text "/" := by
  have hstack := isStack_stack path
  rw [← keyOf_clean path, clean_eq]
  cases hkept : stack path with
  | nil => cases isRooted path <;> decide
  | cons c kept =>
    rw [hkept] at hstack
    have hne := List.cons_ne_nil c kept
    have hself : keyOf (body (c :: kept)) = body (c :: kept) := by
      rw [← ofStack_false hne]
      exact keyOf_ofStack hstack.relative hne
    rw [keyOf_ofStack hstack hne, eq_true hself, true_iff]
    intro hroot
    have hkept' := stack_ofStack hstack
    have hnil : stack (text "/") = [] := by decide
    rw [hroot, hnil] at hkept'
    cases hkept'

/-- Paths with the same key lead to the same information. -/
theorem stat_eq_ok_congr {other : Bytes} (hkey : keyOf path = keyOf other) :
    fs.stat path = .ok info ↔ fs.stat other = .ok info := by
  unfold stat
  dsimp only
  rw [hkey]
  cases fs.find? (keyOf other) <;> simp

theorem stat_of_find? {e : FileEntry} (hfind : fs.find? (keyOf path) = some e) :
    fs.stat path = .ok (.ofEntry (keyOf path) e) := by
  unfold stat
  dsimp only
  rw [hfind]

/-- The information on a file that is there, through a handle with its key. -/
theorem exists_info {e : FileEntry} (hkey : h.key = keyOf path) (hfind : fs.find? (keyOf path) = some e) :
    ∃ info, fs.stat path = .ok info ∧
      (fs.statHandle h = .ok info ↔ clean path ≠ text "/" ∨ fs.stat (text ".") = .ok info) := by
  have hinfo := stat_of_find? hfind
  refine ⟨_, hinfo, ?_⟩
  rw [statHandle, hkey]
  by_cases hroot : clean path = text "/"
  · have hempty : keyOf path = [] := by
      rw [← keyOf_clean, hroot]
      decide
    have hdot : keyOf [] = keyOf (text ".") := by decide
    rw [hempty, stat_eq_ok_congr hdot]
    exact ⟨.inr, fun hor => hor.resolve_left (absurd hroot)⟩
  · have hsame := (stat_eq_ok_congr ((keyOf_keyOf_iff path).mpr hroot)).mpr hinfo
    exact iff_of_true hsame (.inl hroot)

/-- A key is its own key exactly if it is not that of the root.  What is known of a file that was just opened
or created is the same through its handle and by its path, exactly if the path is not the root or a dot leads
to the same information. -/
theorem statHandle_eq_stat_iff (fs : MemoryFiles) (path : Bytes) :
    (keyOf (keyOf path) = keyOf path ↔ clean path ≠ text "/") ∧
    (∀ h, fs.openFile path = .ok h → ∃ info, fs.stat path = .ok info ∧
      (fs.statHandle h = .ok info ↔ clean path ≠ text "/" ∨ fs.stat (text ".") = .ok info)) ∧
    ∀ h fs', fs.createFile path = .ok (h, fs') → ∃ info, fs'.stat path = .ok info ∧
      (fs'.statHandle h = .ok info ↔ clean path ≠ text "/" ∨ fs'.stat (text ".") = .ok info) := by
  refine ⟨keyOf_keyOf_iff path, fun h hopen => ?_, fun h fs' hcreate => ?_⟩
  · unfold openFile at hopen
    dsimp only at hopen
    split at hopen
    · next hfind =>
      cases hopen
      exact exists_info rfl hfind
    · cases hopen
  · rcases fs.createFile_cases path with ⟨fault, hrefused⟩ | hcreated
    · rw [hrefused] at hcreate
      cases hcreate
    · rw [hcreated] at hcreate
      cases hcreate
      refine exists_info (e := .file [] fs.clock) rfl ?_
      rw [putFile, find?_put, if_pos rfl]

/-- A file is opened by a path that leads back, and another one is created. -/
theorem sharedDesk_info :
    (∃ h info, FileDesk.sharedDesk.files.openFile (text "//b/../a/") = .ok h ∧
      FileDesk.sharedDesk.files.stat (text "//b/../a/") = .ok info ∧
      FileDesk.sharedDesk.files.statHandle h = .ok info) ∧
    ∃ h fs' info, FileDesk.sharedDesk.files.createFile (text "/./c") = .ok (h, fs') ∧
      fs'.stat (text "/./c") = .ok info ∧ fs'.statHandle h = .ok info := by
  have hopen : FileDesk.sharedDesk.files.openFile (text "//b/../a/") =
      .ok (.reader (text "a") (text "old")) := by
    decide +kernel
  have hcreate : FileDesk.sharedDesk.files.createFile (text "/./c") = .ok (.writer (keyOf (text "/./c")) [],
      FileDesk.sharedDesk.files.putFile (keyOf (text "/./c")) []) := by
    have hstray : FileDesk.sharedDesk.files.isStray (keyOf (text "/./c")) = false := by
      decide +kernel
    have hfree : FileDesk.sharedDesk.files.hasDirectory (keyOf (text "/./c")) = false := by
      decide +kernel
    rw [createFile_eq, hstray, hfree, if_neg Bool.false_ne_true, if_neg Bool.false_ne_true]
  obtain ⟨info, hinfo, hhandle⟩ := (statHandle_eq_stat_iff _ _).2.1 _ hopen
  obtain ⟨info', hinfo', hhandle'⟩ := (statHandle_eq_stat_iff _ _).2.2 _ _ hcreate
  exact ⟨⟨_, info, hopen, hinfo, hhandle.mpr (.inl (by decide))⟩,
    _, _, info', hcreate, hinfo', hhandle'.mpr (.inl (by decide))⟩

/-- Nothing is known through its handle of a file that is created as the root. -/
theorem rootFile_unknown :
    keyOf (keyOf (text "/")) ≠ keyOf (text "/") ∧
      (FileDesk.empty.trace [.createFile (text "/"), .stat (text "/"), .statHandle 0]).map Prod.snd =
        [.opened 0, .info ⟨text ".", 0, false, text "-rw-r--r--", 0⟩,
          .refused (.path .stat [] .missing)] := by
  decide +kernel

end MemoryFiles

end OnePass
