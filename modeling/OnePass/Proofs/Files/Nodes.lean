import Mathlib.Data.List.TakeWhile
import OnePass.Files.Memory
import OnePass.Proofs.Path
set_option autoImplicit false

/-!
# Trees of files apart from times

What an operation does and answers depends on what is under a key, and not on when it was put there
(`node?`).  Making a directory looks at the keys of the directories that it is in, one behind the other
(`directoryKeys`), as far as no file is in the way: that file is blamed (`makeDirectories_answer`), and
the directories before it are there in the end (`node?_makeDirectories`).  The keys of a clean path are
known from its components (`keyOf_ofStack`, `mem_directoryKeys_ofStack`).
-/

namespace OnePass

/-- What is in a tree of files apart from times. -/
inductive FileNode where
  | file (data : Bytes)
  | directory
  deriving DecidableEq, Repr, Inhabited

/-- An entry without its time. -/
def FileEntry.node : FileEntry → FileNode
  | .file data _ => .file data
  | .directory _ => .directory

/-- Whether a node is a file. -/
def FileNode.isFile : FileNode → Bool
  | .file _ => true
  | .directory => false

namespace MemoryFiles

/-- What is under a key. -/
def node? (fs : MemoryFiles) (key : Bytes) : Option FileNode := (fs.find? key).map FileEntry.node

/-- Whether there is a file under a key. -/
def hasFile (fs : MemoryFiles) (key : Bytes) : Bool := (fs.node? key).any FileNode.isFile

/-- Whether two trees hold the same directories and the same files with the same contents. -/
def SameTree (fs fs' : MemoryFiles) : Prop := ∀ key, fs.node? key = fs'.node? key

section Nodes

variable {fs fs' : MemoryFiles} {key path : Bytes}

theorem node?_put (fs : MemoryFiles) (key other : Bytes) (e : FileEntry) :
    (fs.put key e).node? other = if key = other then some e.node else fs.node? other := by
  rw [node?, find?_put, node?]
  split <;> rfl

theorem node?_putFile (fs : MemoryFiles) (key data other : Bytes) :
    (fs.putFile key data).node? other =
      if key = other then some (.file data) else fs.node? other := node?_put fs key other _

theorem hasDirectory_eq (fs : MemoryFiles) (key : Bytes) :
    fs.hasDirectory key = decide (fs.node? key = some .directory) := by
  rw [hasDirectory, node?]
  cases fs.find? key with
  | none => rfl
  | some e => cases e <;> rfl

theorem node?_of_find? {e : FileEntry} (h : fs.find? key = some e) : fs.node? key = some e.node := by
  rw [node?, h]
  rfl

theorem node?_of_missing (h : fs.find? key = none) : fs.node? key = none := by
  rw [node?, h]
  rfl

theorem hasFile_of_none (h : fs.node? key = none) : fs.hasFile key = false := by
  rw [hasFile, h]
  rfl

theorem hasFile_of_directory (h : fs.node? key = some .directory) : fs.hasFile key = false := by
  rw [hasFile, h]
  rfl

theorem not_hasFile_iff : fs.hasFile key = false ↔
    fs.node? key = none ∨ fs.node? key = some .directory := by
  rw [hasFile]
  cases fs.node? key with
  | none => simp
  | some n => cases n <;> simp [FileNode.isFile]

/-- Only a file can be opened. -/
theorem openFile_of_not_hasFile (h : fs.hasFile (keyOf path) = false) :
    fs.openFile path = .error (.path .open path .missing) := by
  rw [hasFile, node?] at h
  unfold openFile
  dsimp only
  cases hfind : fs.find? (keyOf path) with
  | none => rfl
  | some e =>
    rw [hfind] at h
    cases e with
    | file data time => cases h
    | directory time => rfl

theorem openFile_of_file {data : Bytes} (h : fs.node? (keyOf path) = some (.file data)) :
    fs.openFile path = .ok (.reader (keyOf path) data) := by
  rw [node?] at h
  unfold openFile
  dsimp only
  cases hfind : fs.find? (keyOf path) with
  | none =>
    rw [hfind] at h
    cases h
  | some e =>
    rw [hfind] at h
    cases e with
    | file data' time =>
      cases h
      rfl
    | directory time => cases h

theorem openFile_congr (h : fs.node? (keyOf path) = fs'.node? (keyOf path)) :
    fs.openFile path = fs'.openFile path := by
  cases hnode : fs.node? (keyOf path) with
  | none =>
    rw [openFile_of_not_hasFile (hasFile_of_none hnode),
      openFile_of_not_hasFile (hasFile_of_none (h.symm.trans hnode))]
  | some n =>
    cases n with
    | file data => rw [openFile_of_file hnode, openFile_of_file (h.symm.trans hnode)]
    | directory =>
      rw [openFile_of_not_hasFile (hasFile_of_directory hnode),
        openFile_of_not_hasFile (hasFile_of_directory (h.symm.trans hnode))]

end Nodes

/-! ## Directories -/

/-- The keys of the directories that components lead through, from a key on. -/
def keysFrom (key : Bytes) : List Bytes → List Bytes
  | [] => []
  | part :: parts =>
    if part = [] ∨ part = text "." then keysFrom key parts
    else Path.join key part :: keysFrom (Path.join key part) parts

/-- The keys of a directory and of those that it is in, from the outermost one on. -/
def directoryKeys (path : Bytes) : List Bytes := keysFrom [] (List.splitOn Ascii.slash (keyOf path))

/-- A new directory is no file and takes the place of none. -/
theorem hasFile_put_directory {fs : MemoryFiles} {key : Bytes} (h : fs.find? key = none) (time : Int) :
    (fs.put key (.directory time)).hasFile = fs.hasFile := by
  funext other
  rw [hasFile, node?_put]
  split
  · next heq =>
    rw [← heq, hasFile_of_none (node?_of_missing h)]
    rfl
  · rfl

theorem makeDirectoriesFrom_answer (key : Bytes) (parts : List Bytes) (fs : MemoryFiles) :
    (makeDirectoriesFrom key parts fs).1 = ((keysFrom key parts).find? fs.hasFile).elim (.ok ())
      fun blocked => .error (.path .mkdir blocked .occupied) := by
  fun_induction makeDirectoriesFrom key parts fs with
  | case1 key fs => rfl
  | case2 key part parts fs hsilent ih => rw [ih, keysFrom, if_pos hsilent]
  | case3 key part parts fs hsilent key' data time hfile =>
    have hhas : fs.hasFile (Path.join key part) = true := by
      rw [hasFile, node?_of_find? hfile]
      rfl
    rw [keysFrom, if_neg hsilent, List.find?_cons_of_pos hhas]
    rfl
  | case4 key part parts fs hsilent key' time hdirectory ih =>
    have hhas : ¬fs.hasFile (Path.join key part) = true := by
      rw [hasFile_of_directory (node?_of_find? hdirectory)]
      exact Bool.false_ne_true
    rw [keysFrom, if_neg hsilent, List.find?_cons_of_neg hhas]
    exact ih
  | case5 key part parts fs hsilent key' hnone ih =>
    have hhas : ¬fs.hasFile (Path.join key part) = true := by
      rw [hasFile_of_none (node?_of_missing hnone)]
      exact Bool.false_ne_true
    rw [hasFile_put_directory hnone] at ih
    rw [keysFrom, if_neg hsilent, List.find?_cons_of_neg hhas]
    exact ih

theorem node?_makeDirectoriesFrom (key : Bytes) (parts : List Bytes) (fs : MemoryFiles) (other : Bytes) :
    (makeDirectoriesFrom key parts fs).2.node? other =
      if other ∈ (keysFrom key parts).takeWhile (!fs.hasFile ·) then some .directory
      else fs.node? other := by
  fun_induction makeDirectoriesFrom key parts fs with
  | case1 key fs => rfl
  | case2 key part parts fs hsilent ih => rw [ih, keysFrom, if_pos hsilent]
  | case3 key part parts fs hsilent key' data time hfile =>
    have hhas : ¬(!fs.hasFile (Path.join key part)) = true := by
      rw [hasFile, node?_of_find? hfile]
      exact Bool.false_ne_true
    rw [keysFrom, if_neg hsilent, List.takeWhile_cons_of_neg (p := (!fs.hasFile ·)) hhas,
      if_neg List.not_mem_nil]
  | case4 key part parts fs hsilent key' time hdirectory ih =>
    have hnode : fs.node? (Path.join key part) = some .directory := node?_of_find? hdirectory
    have hhas : (!fs.hasFile (Path.join key part)) = true := by
      rw [hasFile_of_directory hnode]
      rfl
    rw [ih, keysFrom, if_neg hsilent, List.takeWhile_cons_of_pos (p := (!fs.hasFile ·)) hhas]
    -- The key may come again further on, and is a directory either way.
    by_cases hother : other = Path.join key part
    · rw [hother, hnode, if_pos List.mem_cons_self, ite_self]
    · simp only [List.mem_cons, hother, false_or]
      rfl
  | case5 key part parts fs hsilent key' hnone ih =>
    have hnode : fs.node? (Path.join key part) = none := node?_of_missing hnone
    have hhas : (!fs.hasFile (Path.join key part)) = true := by
      rw [hasFile_of_none hnode]
      rfl
    rw [hasFile_put_directory hnone, node?_put] at ih
    rw [ih, keysFrom, if_neg hsilent, List.takeWhile_cons_of_pos (p := (!fs.hasFile ·)) hhas]
    by_cases hother : other = Path.join key part
    · rw [hother, if_pos rfl, if_pos List.mem_cons_self]
      exact ite_self _
    · rw [if_neg (Ne.symm hother)]
      simp only [List.mem_cons, hother, false_or]
      rfl

/-- Making directories succeeds unless a file is under one of their keys. -/
theorem makeDirectories_answer (fs : MemoryFiles) (path : Bytes) :
    (fs.makeDirectories path).1 = ((directoryKeys path).find? fs.hasFile).elim (.ok ())
      fun blocked => .error (.path .mkdir blocked .occupied) :=
  makeDirectoriesFrom_answer [] _ fs

/-- Directories are made as far as no file is in the way, and nothing else changes. -/
theorem node?_makeDirectories (fs : MemoryFiles) (path key : Bytes) :
    (fs.makeDirectories path).2.node? key =
      if key ∈ (directoryKeys path).takeWhile (!fs.hasFile ·) then some .directory
      else fs.node? key :=
  node?_makeDirectoriesFrom [] _ fs key

/-- Directories that could be made are there. -/
theorem node?_makeDirectories_of_ok {fs : MemoryFiles} {path key : Bytes}
    (h : (fs.makeDirectories path).1 = .ok ()) (hkey : key ∈ directoryKeys path) :
    (fs.makeDirectories path).2.node? key = some .directory := by
  have hnone : (directoryKeys path).find? fs.hasFile = none := by
    rw [makeDirectories_answer] at h
    cases hfind : (directoryKeys path).find? fs.hasFile with
    | none => rfl
    | some blocked =>
      rw [hfind] at h
      cases h
  have hall : (directoryKeys path).takeWhile (!fs.hasFile ·) = directoryKeys path := by
    rw [List.takeWhile_eq_self_iff]
    intro key hkey
    simpa using List.find?_eq_none.mp hnone key hkey
  rw [node?_makeDirectories, hall, if_pos hkey]

theorem takeWhile_congr {keys : List Bytes} {p q : Bytes → Bool} (h : ∀ key ∈ keys, p key = q key) :
    keys.takeWhile p = keys.takeWhile q := by
  induction keys with
  | nil => rfl
  | cons key keys ih =>
    obtain ⟨hkey, hkeys⟩ := List.forall_mem_cons.mp h
    rw [List.takeWhile_cons, List.takeWhile_cons, hkey, ih hkeys]

/-! ## New files -/

/-- Whether the directory that a file would be in is missing. -/
def isStray (fs : MemoryFiles) (key : Bytes) : Bool :=
  Path.dir key ≠ text "." && !fs.hasDirectory (Path.dir key)

/-- A file can be created unless its directory is missing or it is a directory itself. -/
theorem createFile_eq (fs : MemoryFiles) (path : Bytes) :
    fs.createFile path = if fs.isStray (keyOf path) then .error (.path .create path .missing)
      else if fs.hasDirectory (keyOf path) then .error (.path .create path .occupied)
      else .ok (.writer (keyOf path) [], fs.putFile (keyOf path) []) := by
  simp [createFile, isStray]

/-! ## Keys of clean paths -/

section Keys

open OnePass.Path

variable {rooted : Bool} {kept : List Bytes}

theorem keyOf_clean (path : Bytes) : keyOf (clean path) = keyOf path := by
  rw [keyOf, keyOf, clean_clean]

/-- The key of a clean path is made of its components. -/
theorem keyOf_ofStack (h : IsStack rooted kept) (hne : kept ≠ []) :
    keyOf (ofStack rooted kept) = body kept := by
  unfold keyOf
  dsimp only
  rw [clean_ofStack h]
  cases rooted with
  | true => rfl
  | false =>
    have hhead : ¬(body kept).head? = some Ascii.slash := of_decide_eq_false (isRooted_body h)
    rw [ofStack_false hne, if_neg hhead]

theorem keysFrom_body_cons {part : Bytes} {low : List Bytes} (h : IsStack false (part :: low))
    (parts : List Bytes) : keysFrom (body low) (part :: parts) =
      body (part :: low) :: keysFrom (body (part :: low)) parts := by
  have hpart := h.isComponent List.mem_cons_self
  rw [keysFrom, if_neg (not_or.mpr ⟨hpart.ne_nil, hpart.ne_dot⟩), join_body h]

/-- Components lead through the directories that are made of the first ones of them. -/
theorem mem_keysFrom_body (low parts : List Bytes) (h : IsStack false (parts.reverse ++ low))
    {key : Bytes} (hkey : key ∈ keysFrom (body low) parts) :
    ∃ outer, key = body outer ∧ outer ≠ [] ∧ outer <:+ parts.reverse ++ low := by
  induction parts generalizing low with
  | nil => cases hkey
  | cons part parts ih =>
    rw [List.reverse_cons, List.append_assoc, List.singleton_append] at h ⊢
    rw [keysFrom_body_cons h.of_append] at hkey
    rcases List.mem_cons.mp hkey with rfl | hkey
    · exact ⟨part :: low, rfl, List.cons_ne_nil part low, List.suffix_append _ _⟩
    · exact ih (part :: low) h hkey

theorem directoryKeys_ofStack (h : IsStack rooted kept) (hne : kept ≠ []) :
    directoryKeys (ofStack rooted kept) = keysFrom (body []) kept.reverse := by
  rw [directoryKeys, keyOf_ofStack h hne, split_body h hne]
  rfl

/-- The directories of a clean path are made of the first ones of its components. -/
theorem mem_directoryKeys_ofStack (h : IsStack rooted kept) (hne : kept ≠ []) {key : Bytes}
    (hkey : key ∈ directoryKeys (ofStack rooted kept)) :
    ∃ outer, key = body outer ∧ outer ≠ [] ∧ outer <:+ kept := by
  rw [directoryKeys_ofStack h hne] at hkey
  have hkeys := mem_keysFrom_body [] kept.reverse (by simpa using h.relative) hkey
  simpa using hkeys

theorem body_mem_keysFrom (low parts : List Bytes) (h : IsStack false (parts.reverse ++ low))
    (hne : parts ≠ []) : body (parts.reverse ++ low) ∈ keysFrom (body low) parts := by
  induction parts generalizing low with
  | nil => exact absurd rfl hne
  | cons part parts ih =>
    rw [List.reverse_cons, List.append_assoc, List.singleton_append] at h ⊢
    rw [keysFrom_body_cons h.of_append]
    by_cases hparts : parts = []
    · subst hparts
      exact List.mem_cons_self
    · exact List.mem_cons_of_mem _ (ih (part :: low) h hparts)

/-- A clean path is among its own directories. -/
theorem body_mem_directoryKeys (h : IsStack rooted kept) (hne : kept ≠ []) :
    body kept ∈ directoryKeys (ofStack rooted kept) := by
  rw [directoryKeys_ofStack h hne]
  have hmem := body_mem_keysFrom [] kept.reverse (by simpa using h.relative)
    (by simpa using hne)
  simpa using hmem

/-- A path without components leads through no directory. -/
theorem directoryKeys_ofStack_nil (rooted : Bool) : directoryKeys (ofStack rooted []) = [] := by
  cases rooted <;> decide

/-- Nothing is one of the directories that it is in. -/
theorem body_cons_notMem_directoryKeys {c : Bytes} (h : IsStack rooted (c :: kept)) :
    body (c :: kept) ∉ directoryKeys (ofStack rooted kept) := by
  intro hmem
  by_cases hnil : kept = []
  · rw [hnil, directoryKeys_ofStack_nil] at hmem
    cases hmem
  · obtain ⟨outer, hbody, houter, hsuffix⟩ := mem_directoryKeys_ofStack h.tail hnil hmem
    have houterStack : IsStack rooted outer := by
      obtain ⟨more, hmore⟩ := hsuffix
      exact (hmore ▸ h.tail).of_append
    -- It would be one of its own outer directories, which have fewer components.
    have heq := body_injective h houterStack (List.cons_ne_nil c kept) houter hbody
    have hlength := hsuffix.length_le
    rw [← heq, List.length_cons] at hlength
    exact absurd hlength (Nat.not_succ_le_self _)

end Keys

end MemoryFiles

end OnePass
