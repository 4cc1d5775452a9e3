import OnePass.Proofs.Files.Nodes
import OnePass.Proofs.Files.Writing
set_option autoImplicit false

/-!
# Files in use

A desk is a tree of files together with the handles that were opened on it, of which any number may be in
use at a time.  Every action says what it leaves under a key, if it does anything there (`imprint?`); so
whatever was done on a desk, the entry under a key is the last one that was left there (`find?_run`).
A handle on the other hand only depends on what was done with it (`getElem?_handles_perform`).
-/

namespace OnePass

open MemoryFiles

/-! ## Actions -/

/-- What may be done with files.  A handle is named by its number, in the order of their opening. -/
inductive FileAction where
  | setClock (time : Int)
  | addFile (path data : Bytes)
  | openFile (path : Bytes)
  | createFile (path : Bytes)
  | makeDirectories (path : Bytes)
  | remove (path : Bytes)
  | stat (path : Bytes)
  | read (handle count : Nat)
  | write (handle : Nat) (data : Bytes)
  | close (handle : Nat)
  | statHandle (handle : Nat)
  | readAll (path : Bytes)
  | writeAll (path data : Bytes)
  deriving DecidableEq, Repr, Inhabited

/-- What comes of an action. -/
inductive FileAnswer where
  | done
  | refused (fault : FileFault)
  | opened (handle : Nat)
  | info (info : FileInfo)
  | data (bytes : Bytes)
  /-- there is no handle of that number -/
  | noHandle
  deriving DecidableEq, Repr, Inhabited

/-- The answer to something that may be refused. -/
def FileAnswer.of {α : Type} (answer : α → FileAnswer) : Except FileFault α → FileAnswer
  | .ok a => answer a
  | .error fault => .refused fault

/-- A tree of files and the handles that were opened on it. -/
structure FileDesk where
  files : MemoryFiles := .empty
  handles : List FileHandle := []

namespace FileDesk

/-- The desk with nothing on it. -/
def empty : FileDesk := {}

/-- Puts a handle in place of another one. -/
def setHandle (d : FileDesk) (n : Nat) (h : FileHandle) : FileDesk :=
  { d with handles := d.handles.set n h }

/-- Does something with a handle. -/
def withHandle (d : FileDesk) (n : Nat) (use : FileHandle → FileAnswer × FileDesk) :
    FileAnswer × FileDesk :=
  match d.handles[n]? with
  | some h => use h
  | none => (.noHandle, d)

/-- Does one thing: what comes of it, and the desk after it. -/
def perform (d : FileDesk) : FileAction → FileAnswer × FileDesk
  | .setClock time => (.done, { d with files := { d.files with clock := time } })
  | .addFile path data => (.done, { d with files := d.files.addFile path data })
  | .openFile path =>
    match d.files.openFile path with
    | .ok h => (.opened d.handles.length, { d with handles := d.handles ++ [h] })
    | .error fault => (.refused fault, d)
  | .createFile path =>
    match d.files.createFile path with
    | .ok (h, files) => (.opened d.handles.length, ⟨files, d.handles ++ [h]⟩)
    | .error fault => (.refused fault, d)
  | .makeDirectories path =>
    (.of (fun _ => .done) (d.files.makeDirectories path).1,
      { d with files := (d.files.makeDirectories path).2 })
  | .remove path =>
    match d.files.remove path with
    | .ok files => (.done, { d with files := files })
    | .error fault => (.refused fault, d)
  | .stat path => (.of .info (d.files.stat path), d)
  | .read n count =>
    d.withHandle n fun h => (.of .data (h.read count).1, d.setHandle n (h.read count).2)
  | .write n data =>
    d.withHandle n fun h => (.of (fun _ => .done) (h.write data).1, d.setHandle n (h.write data).2)
  | .close n =>
    d.withHandle n fun h => (.done, ⟨(d.files.close h).2, d.handles.set n (d.files.close h).1⟩)
  | .statHandle n => d.withHandle n fun h => (.of .info (d.files.statHandle h), d)
  | .readAll path => (.of .data (d.files.readAll path), d)
  | .writeAll path data =>
    (.of (fun _ => .done) (d.files.writeAll path data).1,
      { d with files := (d.files.writeAll path data).2 })

/-- The desk after some actions. -/
def run (d : FileDesk) : List FileAction → FileDesk
  | [] => d
  | a :: actions => (d.perform a).2.run actions

/-- Some actions, each with what comes of it. -/
def trace (d : FileDesk) : List FileAction → List (FileAction × FileAnswer)
  | [] => []
  | a :: actions => (a, (d.perform a).1) :: (d.perform a).2.trace actions

/-- Some actions, each with the desk that it is done on. -/
def stages (d : FileDesk) : List FileAction → List (FileDesk × FileAction)
  | [] => []
  | a :: actions => (d, a) :: (d.perform a).2.stages actions

end FileDesk

/-! ## What an action leaves -/

namespace MemoryFiles

/-- New directories bear the present time. -/
theorem find?_makeDirectoriesFrom_or (key : Bytes) (parts : List Bytes) (fs : MemoryFiles) (other : Bytes) :
    (makeDirectoriesFrom key parts fs).2.find? other = fs.find? other ∨
      (makeDirectoriesFrom key parts fs).2.find? other = some (.directory fs.clock) := by
  fun_induction makeDirectoriesFrom key parts fs with
  | case1 key fs => exact .inl rfl
  | case2 key part parts fs _ ih => exact ih
  | case3 key part parts fs => exact .inl rfl
  | case4 key part parts fs _ _ _ _ ih => exact ih
  | case5 key part parts fs _ key' hnone ih =>
    rcases ih with ih | ih
    · rw [ih, find?_put]
      split
      · exact .inr rfl
      · exact .inl rfl
    · exact .inr ih

/-- Whether making a directory makes a directory under a key: there is nothing yet, and no file in
the way. -/
def isMade (fs : MemoryFiles) (path key : Bytes) : Bool :=
  ((directoryKeys path).takeWhile (!fs.hasFile ·)).contains key && (fs.find? key).isNone

theorem isMade_iff {fs : MemoryFiles} {path key : Bytes} : fs.isMade path key = true ↔
    key ∈ (directoryKeys path).takeWhile (!fs.hasFile ·) ∧ fs.find? key = none := by
  simp [isMade]

theorem find?_makeDirectories (fs : MemoryFiles) (path key : Bytes) :
    (fs.makeDirectories path).2.find? key =
      if fs.isMade path key then some (.directory fs.clock) else fs.find? key := by
  have hnode := fs.node?_makeDirectories path key
  have hkeeps := (fs.makeDirectories_addsDirectories path).entries key
  have htime : (fs.makeDirectories path).2.find? key = fs.find? key ∨
      (fs.makeDirectories path).2.find? key = some (.directory fs.clock) :=
    find?_makeDirectoriesFrom_or [] _ fs key
  split
  · next hmade =>
    obtain ⟨hmem, hnone⟩ := isMade_iff.mp hmade
    refine htime.resolve_left fun hsame => ?_
    rw [if_pos hmem, node?_of_missing (hsame.trans hnone)] at hnode
    cases hnode
  · next hmade =>
    refine hkeeps.resolve_right ?_
    rintro ⟨hnone, time, hdirectory⟩
    have hmem : key ∉ (directoryKeys path).takeWhile (!fs.hasFile ·) :=
      fun hmem => hmade (isMade_iff.mpr ⟨hmem, hnone⟩)
    rw [if_neg hmem, node?_of_missing hnone, node?_of_find? hdirectory] at hnode
    cases hnode

/-- A path without components needs no directories. -/
theorem makeDirectories_silent (fs : MemoryFiles) {path : Bytes}
    (h : path = text "." ∨ path = text "/") : fs.makeDirectories path = (.ok (), fs) := by
  rcases h with rfl | rfl <;> rfl

theorem addFile_eq (fs : MemoryFiles) (path data : Bytes) : fs.addFile path data =
    (fs.makeDirectories (Path.dir (keyOf path))).2.putFile (keyOf path) data := by
  unfold addFile
  dsimp only
  split
  · next hdir => rw [fs.makeDirectories_silent (.inl hdir)]
  · rfl

theorem writeAll_of_error {fs : MemoryFiles} {path : Bytes} {fault : FileFault}
    (h : (fs.makeDirectories (Path.dir path)).1 = .error fault) (data : Bytes) :
    fs.writeAll path data = (.error fault, (fs.makeDirectories (Path.dir path)).2) := by
  unfold writeAll
  dsimp only
  split
  · next hdir =>
    rw [fs.makeDirectories_silent hdir] at h
    cases h
  · split
    · next hmake =>
      rw [hmake] at h ⊢
      cases h
      rfl
    · next hmake =>
      rw [hmake] at h
      cases h

theorem writeAll_of_ok {fs : MemoryFiles} {path : Bytes}
    (h : (fs.makeDirectories (Path.dir path)).1 = .ok ()) (data : Bytes) :
    fs.writeAll path data = (fs.makeDirectories (Path.dir path)).2.createWith path data := by
  unfold writeAll
  dsimp only
  split
  · next hdir => rw [fs.makeDirectories_silent hdir]
  · split
    · next hmake =>
      rw [hmake] at h
      cases h
    · next hmake => rw [hmake]

theorem find?_putFile (fs : MemoryFiles) (key data other : Bytes) :
    (fs.putFile key data).find? other = if key = other then some (.file data fs.clock) else fs.find? other :=
  find?_put fs key other _

theorem find?_addFile (fs : MemoryFiles) (path data key : Bytes) :
    (fs.addFile path data).find? key =
      if keyOf path = key then some (.file data fs.clock)
      else if fs.isMade (Path.dir (keyOf path)) key then some (.directory fs.clock) else fs.find? key := by
  rw [addFile_eq, find?_putFile, find?_makeDirectories,
    (fs.makeDirectories_addsDirectories (Path.dir (keyOf path))).clock]

theorem remove_cases (fs : MemoryFiles) (path : Bytes) :
    fs.find? (keyOf path) = none ∧ fs.remove path = .error (.path .remove path .missing) ∨
      fs.remove path = .ok { fs with entries := fs.entries.erase (keyOf path) } := by
  unfold remove
  dsimp only
  split
  · exact .inr rfl
  · next hmissing => exact .inl ⟨Std.ExtTreeMap.getElem?_eq_none hmissing, rfl⟩

theorem find?_erase (fs : MemoryFiles) (key other : Bytes) :
    ({ fs with entries := fs.entries.erase key } : MemoryFiles).find? other =
      if key = other then none else fs.find? other := by
  simp [find?, Std.ExtTreeMap.getElem?_erase]

/-- Writing a file leaves a file, or else nothing but directories. -/
theorem find?_writeAll (fs : MemoryFiles) (path data key : Bytes) :
    (fs.writeAll path data).2.find? key =
      if keyOf path = key ∧ (fs.writeAll path data).1.isOk then some (.file data fs.clock)
      else if fs.isMade (Path.dir path) key then some (.directory fs.clock) else fs.find? key := by
  have hclock := (fs.makeDirectories_addsDirectories (Path.dir path)).clock
  have hrefused {fault : FileFault}
      (h : fs.writeAll path data = (.error fault, (fs.makeDirectories (Path.dir path)).2)) :
      (fs.writeAll path data).2.find? key =
        if keyOf path = key ∧ (fs.writeAll path data).1.isOk then some (.file data fs.clock)
        else if fs.isMade (Path.dir path) key then some (.directory fs.clock) else fs.find? key := by
    rw [h, if_neg fun hwritten => Bool.false_ne_true hwritten.2]
    exact fs.find?_makeDirectories (Path.dir path) key
  cases hmake : (fs.makeDirectories (Path.dir path)).1 with
  | error fault => exact hrefused (writeAll_of_error hmake data)
  | ok =>
    have hwrite := writeAll_of_ok hmake data
    rcases createWith_result (fs.makeDirectories (Path.dir path)).2 path data with
      ⟨fault, hcreate⟩ | hcreate
    · exact hrefused (hwrite.trans hcreate)
    · rw [hwrite, hcreate]
      dsimp only
      rw [find?_putFile, find?_putFile, find?_makeDirectories]
      by_cases hkey : keyOf path = key
      · rw [if_pos hkey, if_pos ⟨hkey, rfl⟩]
        exact congrArg (fun time => some (FileEntry.file data time)) hclock
      · simp only [hkey, if_false, false_and]

end MemoryFiles

namespace FileDesk

/-- What an action leaves under a key, where nothing may be left: `none` if it does nothing there. -/
def imprint? (d : FileDesk) (key : Bytes) : FileAction → Option (Option FileEntry)
  | .addFile path data =>
    if keyOf path = key then some (some (.file data d.files.clock))
    else if d.files.isMade (Path.dir (keyOf path)) key then some (some (.directory d.files.clock))
    else none
  | .createFile path =>
    if keyOf path = key ∧ (d.files.createFile path).isOk then some (some (.file [] d.files.clock)) else none
  | .makeDirectories path =>
    if d.files.isMade path key then some (some (.directory d.files.clock)) else none
  | .remove path => if keyOf path = key ∧ (d.files.remove path).isOk then some none else none
  | .close n =>
    match d.handles[n]? with
    | some (.writer target written) =>
      if target = key then some (some (.file written d.files.clock)) else none
    | _ => none
  | .writeAll path data =>
    if keyOf path = key ∧ (d.files.writeAll path data).1.isOk then some (some (.file data d.files.clock))
    else if d.files.isMade (Path.dir path) key then some (some (.directory d.files.clock))
    else none
  | _ => none

/-- What is put under a key bears the present time. -/
theorem modified_of_imprint? {d : FileDesk} {key : Bytes} {a : FileAction} {e : FileEntry}
    (h : d.imprint? key a = some (some e)) : e.modified = d.files.clock := by
  unfold imprint? at h
  repeat' split at h
  all_goals cases h
  all_goals rfl

/-- What was left under a key, one thing after the other. -/
def imprints (d : FileDesk) (key : Bytes) (actions : List FileAction) : List (Option FileEntry) :=
  (d.stages actions).filterMap fun s => s.1.imprint? key s.2

/-- An action leaves what it says under a key, and all else as it is. -/
theorem find?_perform (d : FileDesk) (a : FileAction) (key : Bytes) :
    (d.perform a).2.files.find? key = (d.imprint? key a).getD (d.files.find? key) := by
  cases a with
  | addFile path data =>
    change (d.files.addFile path data).find? key = _
    rw [find?_addFile, imprint?]
    split
    · rfl
    · split <;> rfl
  | createFile path =>
    unfold perform imprint?
    dsimp only
    rcases d.files.createFile_cases path with ⟨fault, hcreate⟩ | hcreate
    · rw [hcreate, if_neg fun hdone => Bool.false_ne_true hdone.2]
      rfl
    · rw [hcreate]
      dsimp only
      rw [find?_putFile]
      by_cases hkey : keyOf path = key
      · rw [if_pos hkey, if_pos ⟨hkey, rfl⟩]
        rfl
      · rw [if_neg hkey, if_neg fun hdone => hkey hdone.1]
        rfl
  | makeDirectories path =>
    change (d.files.makeDirectories path).2.find? key = _
    rw [find?_makeDirectories, imprint?]
    split <;> rfl
  | remove path =>
    unfold perform imprint?
    dsimp only
    rcases d.files.remove_cases path with ⟨-, hremove⟩ | hremove
    · rw [hremove, if_neg fun hdone => Bool.false_ne_true hdone.2]
      rfl
    · rw [hremove]
      dsimp only
      rw [find?_erase]
      by_cases hkey : keyOf path = key
      · rw [if_pos hkey, if_pos ⟨hkey, rfl⟩]
        rfl
      · rw [if_neg hkey, if_neg fun hdone => hkey hdone.1]
        rfl
  | close n =>
    unfold perform imprint? withHandle
    dsimp only
    cases d.handles[n]? with
    | none => rfl
    | some h =>
      cases h with
      | writer target written =>
        change (d.files.putFile target written).find? key = _
        rw [find?_putFile]
        dsimp only
        split <;> rfl
      | reader target rest => rfl
      | closed target => rfl
  | writeAll path data =>
    change (d.files.writeAll path data).2.find? key = _
    rw [find?_writeAll, imprint?]
    split
    · rfl
    · split <;> rfl
  | openFile path =>
    unfold perform
    dsimp only
    cases d.files.openFile path <;> rfl
  | read n count =>
    unfold perform withHandle
    dsimp only
    cases d.handles[n]? <;> rfl
  | write n data =>
    unfold perform withHandle
    dsimp only
    cases d.handles[n]? <;> rfl
  | statHandle n =>
    unfold perform withHandle
    dsimp only
    cases d.handles[n]? <;> rfl
  | setClock time => rfl
  | stat path => rfl
  | readAll path => rfl

/-- The entry under a key is the last one that was left there. -/
theorem find?_run (d : FileDesk) (actions : List FileAction) (key : Bytes) :
    (d.run actions).files.find? key = (d.imprints key actions).getLast?.getD (d.files.find? key) := by
  induction actions generalizing d with
  | nil => rfl
  | cons a actions ih =>
    have hstep := d.find?_perform a key
    rw [run, ih, hstep]
    unfold imprints
    rw [stages, List.filterMap_cons]
    dsimp only
    cases d.imprint? key a with
    | none => rfl
    | some left =>
      dsimp only
      rw [List.getLast?_cons]
      rfl

end FileDesk

/-! ## What an action does to a handle -/

/-- A handle that is closed. -/
def FileHandle.shut : FileHandle → FileHandle
  | .writer key _ => .closed key
  | h => h

/-- The handle of a number after an action. -/
def FileHandle.after (n : Nat) (h : FileHandle) : FileAction → FileHandle
  | .read m count => if m = n then (h.read count).2 else h
  | .write m data => if m = n then (h.write data).2 else h
  | .close m => if m = n then h.shut else h
  | _ => h

namespace FileDesk

variable {d : FileDesk} {n : Nat} {h : FileHandle}

theorem fst_close (fs : MemoryFiles) (h : FileHandle) : (fs.close h).1 = h.shut := by
  cases h <;> rfl

theorem perform_read (hn : d.handles[n]? = some h) (count : Nat) :
    d.perform (.read n count) = (.of .data (h.read count).1, d.setHandle n (h.read count).2) := by
  unfold perform withHandle
  dsimp only
  rw [hn]

theorem perform_write (hn : d.handles[n]? = some h) (data : Bytes) : d.perform (.write n data) =
    (.of (fun _ => .done) (h.write data).1, d.setHandle n (h.write data).2) := by
  unfold perform withHandle
  dsimp only
  rw [hn]

theorem perform_close (hn : d.handles[n]? = some h) :
    d.perform (.close n) = (.done, ⟨(d.files.close h).2, d.handles.set n h.shut⟩) := by
  unfold perform withHandle
  dsimp only
  rw [hn, ← fst_close d.files h]

theorem getElem?_set_eq {handles : List FileHandle} (hn : handles[n]? = some h) (m : Nat)
    (h' : FileHandle) : (handles.set m h')[n]? = some (if m = n then h' else h) := by
  obtain ⟨hlt, -⟩ := List.getElem?_eq_some_iff.mp hn
  by_cases hm : m = n
  · rw [if_pos hm, hm, List.getElem?_set_self hlt]
  · rw [if_neg hm, List.getElem?_set_ne hm, hn]

/-- A handle only changes if something is done with it. -/
theorem getElem?_handles_perform (hn : d.handles[n]? = some h) (a : FileAction) :
    (d.perform a).2.handles[n]? = some (h.after n a) := by
  have happend (h' : FileHandle) : (d.handles ++ [h'])[n]? = some h := by
    obtain ⟨hlt, -⟩ := List.getElem?_eq_some_iff.mp hn
    rw [List.getElem?_append_left hlt, hn]
  -- Which handle is used by an action on a handle; an unknown one is not that of the number.
  have hset (m : Nat) (use : FileHandle → FileHandle) (files : FileHandle → MemoryFiles)
      (answer : FileHandle → FileAnswer) :
      (d.withHandle m fun h => (answer h, ⟨files h, d.handles.set m (use h)⟩)).2.handles[n]? =
        some (if m = n then use h else h) := by
    rw [withHandle]
    cases hm : d.handles[m]? with
    | none =>
      have hne : m ≠ n := by
        rintro rfl
        rw [hm] at hn
        cases hn
      rw [if_neg hne]
      exact hn
    | some h' =>
      dsimp only
      rw [getElem?_set_eq hn]
      by_cases hmn : m = n
      · subst hmn
        rw [hm] at hn
        cases hn
        rfl
      · rw [if_neg hmn, if_neg hmn]
  cases a with
  | openFile path =>
    unfold perform
    dsimp only
    cases d.files.openFile path with
    | error fault => exact hn
    | ok h' => exact happend h'
  | createFile path =>
    unfold perform
    dsimp only
    cases d.files.createFile path with
    | error fault => exact hn
    | ok created => exact happend created.1
  | remove path =>
    unfold perform
    dsimp only
    cases d.files.remove path <;> exact hn
  | read m count => exact hset m (fun h => (h.read count).2) (fun _ => d.files) _
  | write m data => exact hset m (fun h => (h.write data).2) (fun _ => d.files) _
  | close m =>
    have hclose := hset m (fun h => (d.files.close h).1) (fun h => (d.files.close h).2) fun _ => .done
    rw [fst_close] at hclose
    exact hclose
  | statHandle m =>
    unfold perform withHandle
    dsimp only
    cases d.handles[m]? <;> exact hn
  | setClock time => exact hn
  | addFile path data => exact hn
  | makeDirectories path => exact hn
  | stat path => exact hn
  | readAll path => exact hn
  | writeAll path data => exact hn

/-- A file that is opened gets the next number. -/
theorem perform_openFile_cases (d : FileDesk) (path : Bytes) :
    (∃ fault, d.perform (.openFile path) = (.refused fault, d)) ∨
      ∃ data time, d.files.find? (keyOf path) = some (.file data time) ∧
        d.perform (.openFile path) =
          (.opened d.handles.length, { d with handles := d.handles ++ [.reader (keyOf path) data] }) := by
  unfold perform openFile
  dsimp only
  cases d.files.find? (keyOf path) with
  | none => exact .inl ⟨_, rfl⟩
  | some e =>
    cases e with
    | directory time => exact .inl ⟨_, rfl⟩
    | file data time => exact .inr ⟨data, time, rfl, rfl⟩

/-- A file that is made gets the next number and is empty. -/
theorem perform_createFile_cases (d : FileDesk) (path : Bytes) :
    (∃ fault, d.perform (.createFile path) = (.refused fault, d)) ∨
      d.perform (.createFile path) = (.opened d.handles.length,
        ⟨d.files.putFile (keyOf path) [], d.handles ++ [.writer (keyOf path) []]⟩) := by
  unfold perform
  dsimp only
  rcases d.files.createFile_cases path with ⟨fault, hcreate⟩ | hcreate
  · rw [hcreate]
    exact .inl ⟨fault, rfl⟩
  · rw [hcreate]
    exact .inr rfl

end FileDesk

end OnePass
