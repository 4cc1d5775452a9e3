import OnePass.Proofs.Files.Hierarchy
set_option autoImplicit false

/-!
# Writing a file and reading it again

Writing a file makes the directories that its path names in front of the last slash, and then looks for
the directory that its key is in.  These are computed in two ways, which need not agree for a path that ends
with a slash or leads back.  It is known beforehand whether a file can be written (`IsWritable`); if it can,
it is read again under every path with the same key, and if not, nothing is there in the end but what was
there before, and directories (`writeAll_readAll`).
-/

namespace OnePass

open OnePass.Path

namespace MemoryFiles

/-! ## When a file can be written -/

/-- Whether a file can be written to a path: no file is in the way of the directories that are made for
it, the directory of its key is one of these or there already, and its own key is not. -/
structure IsWritable (fs : MemoryFiles) (path : Bytes) : Prop where
  clear (key : Bytes) : key ∈ directoryKeys (dir path) → fs.hasFile key = false
  housed : dir (keyOf path) = text "." ∨ dir (keyOf path) ∈ directoryKeys (dir path) ∨
    fs.hasDirectory (dir (keyOf path)) = true
  apart : keyOf path ∉ directoryKeys (dir path)
  free : fs.hasDirectory (keyOf path) = false

section Writing

variable {fs : MemoryFiles} {path data : Bytes}

/-- Directories can be made exactly if no file is in the way. -/
theorem makeDirectories_eq_ok_iff (fs : MemoryFiles) (path : Bytes) :
    (fs.makeDirectories path).1 = .ok () ↔ ∀ key ∈ directoryKeys path, fs.hasFile key = false := by
  rw [makeDirectories_answer]
  cases hfind : (directoryKeys path).find? fs.hasFile with
  | none =>
    have hclear := List.find?_eq_none.mp hfind
    simpa using hclear
  | some blocked =>
    have hfile := List.find?_some hfind
    have hmem := List.mem_of_find?_eq_some hfind
    simp only [Option.elim_some, reduceCtorEq, false_iff]
    intro hclear
    rw [hclear blocked hmem] at hfile
    cases hfile

/-- The directories that are there when directories could be made. -/
theorem hasDirectory_makeDirectories (h : (fs.makeDirectories path).1 = .ok ()) (key : Bytes) :
    (fs.makeDirectories path).2.hasDirectory key = true ↔
      key ∈ directoryKeys path ∨ fs.hasDirectory key = true := by
  have hclear := (makeDirectories_eq_ok_iff fs path).mp h
  by_cases hmem : key ∈ directoryKeys path
  · have hnode := node?_makeDirectories_of_ok h hmem
    simp [hasDirectory_eq, hnode, hmem]
  · have htake : key ∉ (directoryKeys path).takeWhile (!fs.hasFile ·) := by
      intro htake
      exact hmem (List.takeWhile_subset _ htake)
    simp [hasDirectory_eq, node?_makeDirectories, htake, hmem]

theorem isStray_eq_false_iff (fs : MemoryFiles) (key : Bytes) :
    fs.isStray key = false ↔ dir key = text "." ∨ fs.hasDirectory (dir key) = true := by
  unfold isStray
  by_cases hdot : dir key = text "."
  · simp [hdot]
  · simp [hdot]

/-- A file is created exactly if the directory of its key is there and its key is none. -/
theorem createWith_eq_ok_iff (fs : MemoryFiles) (path data : Bytes) :
    (fs.createWith path data).1 = .ok () ↔
      (dir (keyOf path) = text "." ∨ fs.hasDirectory (dir (keyOf path)) = true) ∧
        fs.hasDirectory (keyOf path) = false := by
  rw [← isStray_eq_false_iff]
  unfold createWith
  rw [createFile_eq]
  cases hstray : fs.isStray (keyOf path) with
  | true => simp
  | false =>
    cases hdirectory : fs.hasDirectory (keyOf path) with
    | true => simp
    | false => simp [FileHandle.write]

/-- It is known beforehand whether a file can be written. -/
theorem writeAll_eq_ok_iff (fs : MemoryFiles) (path data : Bytes) :
    (fs.writeAll path data).1 = .ok () ↔ fs.IsWritable path := by
  cases hmake : (fs.makeDirectories (dir path)).1 with
  | error fault =>
    have hblocked : ¬∀ key ∈ directoryKeys (dir path), fs.hasFile key = false := by
      rw [← makeDirectories_eq_ok_iff, hmake]
      exact fun h => by cases h
    rw [writeAll_of_error hmake]
    simp only [reduceCtorEq, false_iff]
    intro h
    exact hblocked h.clear
  | ok =>
    have hclear := (makeDirectories_eq_ok_iff fs (dir path)).mp hmake
    have hthere := hasDirectory_makeDirectories hmake
    rw [writeAll_of_ok hmake, createWith_eq_ok_iff, hthere, ← Bool.not_eq_true, hthere, not_or,
      Bool.not_eq_true]
    constructor
    · rintro ⟨hhoused, hapart, hfree⟩
      exact ⟨hclear, hhoused, hapart, hfree⟩
    · intro h
      exact ⟨h.housed, h.apart, h.free⟩

section Entries

variable {fs' : MemoryFiles} {key : Bytes} {entry : FileEntry}

theorem readAll_of_find? {time : Int} (h : fs.find? (keyOf path) = some (.file data time)) :
    fs.readAll path = .ok data := by
  unfold readAll openFile
  dsimp only
  rw [h]

theorem KeepsEntry.kept (h : KeepsEntry fs fs' key) (hentry : fs.find? key = some entry) :
    fs'.find? key = some entry := by
  rcases h with hsame | ⟨hnone, -⟩
  · rw [hsame, hentry]
  · rw [hnone] at hentry
    cases hentry

theorem KeepsEntry.isDirectory (h : KeepsEntry fs fs' key) (hnone : fs.find? key = none)
    (hentry : fs'.find? key = some entry) : entry.isDirectory = true := by
  rcases h with hsame | ⟨-, time, hdirectory⟩
  · rw [hsame, hnone] at hentry
    cases hentry
  · rw [hdirectory] at hentry
    cases hentry
    rfl

end Entries

/-- A file that could be written is read again under every path with its key, and otherwise entries stay
as they are and directories are added; one that could not be written leaves all entries as they are, and
adds nothing but directories. -/
theorem writeAll_readAll (fs : MemoryFiles) (path data : Bytes) :
    ((fs.writeAll path data).1 = .ok () ↔ fs.IsWritable path) ∧
    ((fs.writeAll path data).1 = .ok () →
      (∀ name, keyOf name = keyOf path → (fs.writeAll path data).2.readAll name = .ok data) ∧
      (∀ key entry, key ≠ keyOf path → fs.find? key = some entry →
        (fs.writeAll path data).2.find? key = some entry) ∧
      (∀ key entry, key ≠ keyOf path → fs.find? key = none →
        (fs.writeAll path data).2.find? key = some entry → entry.isDirectory = true)) ∧
    ((fs.writeAll path data).1 ≠ .ok () →
      (∀ key entry, fs.find? key = some entry → (fs.writeAll path data).2.find? key = some entry) ∧
      (∀ key entry, fs.find? key = none →
        (fs.writeAll path data).2.find? key = some entry → entry.isDirectory = true)) := by
  refine ⟨writeAll_eq_ok_iff fs path data, ?_, ?_⟩
  · intro hok
    rcases fs.writeAll_cases path data with ⟨fault, fs', hrun, -⟩ | ⟨fs', hrun, hwrites⟩
    · rw [hrun] at hok
      cases hok
    · rw [hrun]
      refine ⟨?_, ?_, ?_⟩
      · intro name hname
        apply readAll_of_find?
        rw [hname]
        exact hwrites.written
      · intro key entry hkey hentry
        exact (hwrites.others key hkey).kept hentry
      · intro key entry hkey hnone hentry
        exact (hwrites.others key hkey).isDirectory hnone hentry
  · intro hrefused
    rcases fs.writeAll_cases path data with ⟨fault, fs', hrun, hadds⟩ | ⟨fs', hrun, -⟩
    · rw [hrun]
      refine ⟨?_, ?_⟩
      · intro key entry hentry
        exact (hadds.entries key).kept hentry
      · intro key entry hnone hentry
        exact (hadds.entries key).isDirectory hnone hentry
    · rw [hrun] at hrefused
      exact absurd rfl hrefused

/-- A tree with one file. -/
def oneFile : MemoryFiles := empty.putFile (text "k") (text "old")

/-- A file is written to a path that leads back, and read under a shorter one; and none is written below
a file. -/
theorem oneFile_rewritten :
    (oneFile.writeAll (text "/w//x/../y") (text "new")).1 = .ok () ∧
    (oneFile.writeAll (text "/w//x/../y") (text "new")).2.readAll (text "./w/y") = .ok (text "new") ∧
    (oneFile.writeAll (text "/w//x/../y") (text "new")).2.find? (text "k") =
      some (.file (text "old") 0) ∧
    (oneFile.writeAll (text "k/z") (text "new")).1 ≠ .ok () ∧
    (oneFile.writeAll (text "k/z") (text "new")).2.find? (text "k") = some (.file (text "old") 0) := by
  have hentry : oneFile.find? (text "k") = some (.file (text "old") 0) := by
    rw [oneFile, find?_putFile, if_pos rfl]
    rfl
  have hwritten : (oneFile.writeAll (text "/w//x/../y") (text "new")).1 = .ok () := by
    decide +kernel
  have hrefused : (oneFile.writeAll (text "k/z") (text "new")).1 ≠ .ok () := by
    decide +kernel
  obtain ⟨-, hsuccess, -⟩ := writeAll_readAll oneFile (text "/w//x/../y") (text "new")
  obtain ⟨-, -, hfailure⟩ := writeAll_readAll oneFile (text "k/z") (text "new")
  refine ⟨hwritten, (hsuccess hwritten).1 _ (by decide), ?_, hrefused, ?_⟩
  · exact (hsuccess hwritten).2.1 _ _ (by decide) hentry
  · exact (hfailure hrefused).1 _ _ hentry

end Writing

end MemoryFiles

end OnePass
