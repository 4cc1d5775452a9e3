import OnePass.Files.Memory
set_option autoImplicit false

/-!
# Writing whole files

Writing a file makes the directories that it is in, one inside the other, and then puts the file in its
place.  Directories are only made where there was nothing, also if a file is found in the way of a
further one (`makeDirectories_addsDirectories`).  A file that is opened for writing is there with all
its contents in the end.  So writing a file either leaves all files as they were, or it leaves all
others as they were (`writeAll_cases`); either way nothing else than directories is added.
-/

namespace OnePass.MemoryFiles

/-! ## Trees that differ in directories -/

/-- Whether the entry under a key stays between two trees, or is a directory in place of nothing. -/
def KeepsEntry (fs fs' : MemoryFiles) (key : Bytes) : Prop :=
  fs'.find? key = fs.find? key ∨ fs.find? key = none ∧ ∃ time, fs'.find? key = some (.directory time)

/-- Whether nothing happened between two trees but that directories were added. -/
structure AddsDirectories (fs fs' : MemoryFiles) : Prop where
  entries (key : Bytes) : KeepsEntry fs fs' key
  clock : fs'.clock = fs.clock

/-- Whether a file was written between two trees, and nothing else happened but that directories were
added. -/
structure Writes (fs : MemoryFiles) (path data : Bytes) (fs' : MemoryFiles) : Prop where
  written : fs'.find? (keyOf path) = some (.file data fs.clock)
  others (key : Bytes) : key ≠ keyOf path → KeepsEntry fs fs' key
  clock : fs'.clock = fs.clock

section Trees

variable {fs fs' fs'' : MemoryFiles} {key path data : Bytes}

theorem AddsDirectories.refl (fs : MemoryFiles) : AddsDirectories fs fs :=
  ⟨fun _ => .inl rfl, rfl⟩

theorem KeepsEntry.trans (h : KeepsEntry fs fs' key) (h' : KeepsEntry fs' fs'' key) :
    KeepsEntry fs fs'' key := by
  rcases h' with h' | ⟨hnone, htime⟩
  · rcases h with h | ⟨hnone, time, hdirectory⟩
    · exact .inl (h'.trans h)
    · exact .inr ⟨hnone, time, h'.trans hdirectory⟩
  · rcases h with h | ⟨hnone', -⟩
    · exact .inr ⟨h.symm.trans hnone, htime⟩
    · exact .inr ⟨hnone', htime⟩

theorem AddsDirectories.trans (h : AddsDirectories fs fs') (h' : AddsDirectories fs' fs'') :
    AddsDirectories fs fs'' :=
  ⟨fun key => (h.entries key).trans (h'.entries key), h'.clock.trans h.clock⟩

theorem addsDirectories_put (h : fs.find? key = none) :
    AddsDirectories fs (fs.put key (.directory fs.clock)) := by
  refine ⟨fun other => ?_, rfl⟩
  unfold KeepsEntry
  rw [find?_put]
  split
  · next heq =>
    subst heq
    exact .inr ⟨h, fs.clock, rfl⟩
  · exact .inl rfl

/-- Reading does not tell a directory from nothing. -/
theorem KeepsEntry.readAll (h : KeepsEntry fs fs' (keyOf path)) :
    fs'.readAll path = fs.readAll path := by
  unfold MemoryFiles.readAll openFile
  dsimp only
  rcases h with h | ⟨hnone, time, hdirectory⟩
  · rw [h]
  · rw [hnone, hdirectory]

theorem Writes.readAll (h : Writes fs path data fs') : fs'.readAll path = .ok data := by
  unfold MemoryFiles.readAll openFile
  dsimp only
  rw [h.written]

end Trees

/-! ## Operations -/

theorem makeDirectoriesFrom_addsDirectories (key : Bytes) (parts : List Bytes) (fs : MemoryFiles) :
    AddsDirectories fs (makeDirectoriesFrom key parts fs).2 := by
  fun_induction makeDirectoriesFrom key parts fs with
  | case1 key fs => exact .refl fs
  | case2 key part parts fs _ ih => exact ih
  | case3 key part parts fs => exact .refl fs
  | case4 key part parts fs _ _ _ _ ih => exact ih
  | case5 key part parts fs _ key' hnone ih => exact (addsDirectories_put hnone).trans ih

theorem makeDirectories_addsDirectories (fs : MemoryFiles) (path : Bytes) :
    AddsDirectories fs (fs.makeDirectories path).2 :=
  makeDirectoriesFrom_addsDirectories [] _ fs

theorem openFile_cases (fs : MemoryFiles) (path : Bytes) :
    (∃ fault, fs.openFile path = .error fault) ∨
      ∃ data, fs.openFile path = .ok (.reader (keyOf path) data) := by
  unfold openFile
  dsimp only
  split
  · exact .inr ⟨_, rfl⟩
  · exact .inl ⟨_, rfl⟩

theorem createFile_cases (fs : MemoryFiles) (path : Bytes) :
    (∃ fault, fs.createFile path = .error fault) ∨
      fs.createFile path = .ok (.writer (keyOf path) [], fs.putFile (keyOf path) []) := by
  unfold createFile
  dsimp only
  split
  · exact .inl ⟨_, rfl⟩
  · split
    · exact .inl ⟨_, rfl⟩
    · exact .inr rfl

/-- A file is emptied and then filled, or the tree stays as it is. -/
theorem createWith_result (fs : MemoryFiles) (path data : Bytes) :
    (∃ fault, fs.createWith path data = (.error fault, fs)) ∨
      fs.createWith path data = (.ok (), (fs.putFile (keyOf path) []).putFile (keyOf path) data) := by
  rcases fs.createFile_cases path with ⟨fault, hcreate⟩ | hcreate
  · exact .inl ⟨fault, by rw [createWith, hcreate]⟩
  · refine .inr ?_
    rw [createWith, hcreate]
    rfl

/-- A file in a directory that exists is written, or the tree stays as it is. -/
theorem createWith_cases (fs : MemoryFiles) (path data : Bytes) :
    (∃ fault, fs.createWith path data = (.error fault, fs)) ∨
      ∃ fs', fs.createWith path data = (.ok (), fs') ∧ Writes fs path data fs' := by
  rcases fs.createWith_result path data with hrefused | hwritten
  · exact .inl hrefused
  · refine .inr ⟨_, hwritten, ?_, fun key hkey => .inl ?_, rfl⟩
    · rw [putFile, find?_put, if_pos rfl]
      rfl
    · rw [putFile, find?_put, if_neg (Ne.symm hkey), putFile, find?_put, if_neg (Ne.symm hkey)]

/-- A file is written, or all files stay as they are. -/
theorem writeAll_cases (fs : MemoryFiles) (path data : Bytes) :
    (∃ fault fs', fs.writeAll path data = (.error fault, fs') ∧ AddsDirectories fs fs') ∨
      ∃ fs', fs.writeAll path data = (.ok (), fs') ∧ Writes fs path data fs' := by
  -- The tree may have become another one before the file is opened.
  have hcreate (fs₁ : MemoryFiles) (h : AddsDirectories fs fs₁) :
      (∃ fault fs', fs₁.createWith path data = (.error fault, fs') ∧ AddsDirectories fs fs') ∨
        ∃ fs', fs₁.createWith path data = (.ok (), fs') ∧ Writes fs path data fs' := by
    rcases fs₁.createWith_cases path data with ⟨fault, hrun⟩ | ⟨fs', hrun, hwrites⟩
    · exact .inl ⟨fault, fs₁, hrun, h⟩
    · refine .inr ⟨fs', hrun, ?_, fun key hkey => ?_, hwrites.clock.trans h.clock⟩
      · rw [hwrites.written, h.clock]
      · exact (h.entries key).trans (hwrites.others key hkey)
  have hdirectories := fs.makeDirectories_addsDirectories (Path.dir path)
  unfold writeAll
  dsimp only
  split
  · exact hcreate fs (.refl fs)
  · split
    · next fault fs₁ hmake =>
      rw [hmake] at hdirectories
      exact .inl ⟨fault, fs₁, rfl, hdirectories⟩
    · next fs₁ hmake =>
      rw [hmake] at hdirectories
      exact hcreate fs₁ hdirectories

end OnePass.MemoryFiles
