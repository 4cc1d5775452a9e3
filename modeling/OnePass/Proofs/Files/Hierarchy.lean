import OnePass.Proofs.Files.Desk
set_option autoImplicit false

/-!
# Directories and what is in them

A tree of files is a hierarchy if everything that is in something is in a directory.  Making directories
and creating files keep a tree one (`IsHierarchy.makeDirectories`, `IsHierarchy.putFile`).  Other actions
look neither at what is in an entry nor at what it is in: a directory is removed or replaced by a file
together with all that leads into it, and a file is put below another file or in a directory that is gone
(`Orphans`).  These are all ways to break a hierarchy (`isHierarchy_perform_iff`).
-/

namespace OnePass

open OnePass.Path

/-! ## Keys -/

namespace MemoryFiles

/-- Whether a path has this key. -/
def IsKey (key : Bytes) : Prop := ∃ path, key = keyOf path

section Keys

variable {key : Bytes} {c : Bytes} {kept : List Bytes}

/-- A key is made of components, or it is a dot. -/
theorem IsKey.cases (h : IsKey key) : (∃ kept, IsStack false kept ∧ key = body kept) ∨ key = text "." := by
  obtain ⟨path, rfl⟩ := h
  have hstack := isStack_stack path
  rw [← keyOf_clean, clean_eq]
  cases hkept : stack path with
  | nil =>
    cases isRooted path with
    | true => exact .inl ⟨[], .nil, by decide⟩
    | false => exact .inr (by decide)
  | cons c kept =>
    rw [hkept] at hstack
    exact .inl ⟨c :: kept, hstack.relative, keyOf_ofStack hstack (List.cons_ne_nil c kept)⟩

theorem body_ne_dot (h : IsStack false kept) (hne : kept ≠ []) : body kept ≠ text "." := by
  intro hdot
  have hsplit := split_body h hne
  rw [hdot] at hsplit
  have hmem : text "." ∈ kept := by
    rw [← List.mem_reverse, ← hsplit]
    decide
  exact (h.isComponent hmem).ne_dot rfl

theorem dir_body (h : IsStack false (c :: kept)) (hne : kept ≠ []) : dir (body (c :: kept)) = body kept := by
  have hdir := dir_ofStack h
  rw [ofStack_false (List.cons_ne_nil c kept), ofStack_false hne] at hdir
  exact hdir

theorem isKey_body (h : IsStack false kept) (hne : kept ≠ []) : IsKey (body kept) :=
  ⟨ofStack false kept, (keyOf_ofStack h hne).symm⟩

theorem slash_notMem_body (h : IsStack false [c]) : Ascii.slash ∉ body [c] := by
  have hbody : body [c] = c := by
    simp [body, Bytes.join]
  rw [hbody]
  exact (h.isComponent List.mem_cons_self).slash_notMem

/-- A key with a slash has a component and something that it is in. -/
theorem IsKey.exists_inner (h : IsKey key) (hslash : Ascii.slash ∈ key) :
    ∃ c kept, kept ≠ [] ∧ IsStack false (c :: kept) ∧ key = body (c :: kept) := by
  rcases h.cases with ⟨kept, hstack, rfl⟩ | rfl
  · cases kept with
    | nil => cases hslash
    | cons c kept =>
      refine ⟨c, kept, ?_, hstack, rfl⟩
      rintro rfl
      exact slash_notMem_body hstack hslash
  · exact absurd hslash (by decide)

theorem slash_mem_body (h : IsStack false (c :: kept)) (hne : kept ≠ []) :
    Ascii.slash ∈ body (c :: kept) := by
  refine Classical.not_not.mp fun hslash => ?_
  have hlength := congrArg List.length (split_body h (List.cons_ne_nil c kept))
  rw [List.splitOn_eq_singleton hslash] at hlength
  exact hne (by simpa using hlength)

/-- A key without a slash is in no directory. -/
theorem dir_of_notMem (hslash : Ascii.slash ∉ key) : dir key = text "." := by
  rw [dir_eq, List.splitOn_eq_singleton hslash]
  rfl

theorem IsKey.dir_ne (h : IsKey key) (hslash : Ascii.slash ∈ key) : dir key ≠ key := by
  obtain ⟨c, kept, hne, hstack, rfl⟩ := h.exists_inner hslash
  rw [dir_body hstack hne]
  intro hsame
  have hlength := congrArg List.length (body_injective hstack.tail hstack hne (List.cons_ne_nil c kept) hsame)
  simp at hlength

theorem directoryKeys_dot : directoryKeys (text ".") = [] := directoryKeys_ofStack_nil false

/-- What a key is in is not in the key. -/
theorem dir_ne_of_mem_directoryKeys (h : IsKey key) {outer : Bytes} (hmem : outer ∈ directoryKeys (dir key))
    (hslash : Ascii.slash ∈ outer) : dir outer ≠ key := by
  by_cases hkey : Ascii.slash ∈ key
  · obtain ⟨c, kept, hne, hstack, rfl⟩ := h.exists_inner hkey
    rw [dir_body hstack hne, ← ofStack_false hne] at hmem
    obtain ⟨above, rfl, habove, hsuffix⟩ := mem_directoryKeys_ofStack hstack.tail hne hmem
    obtain ⟨more, happend⟩ := hsuffix
    have hkept : IsStack false above := IsStack.of_append (happend ▸ hstack.tail)
    have hlength := congrArg List.length happend
    rw [List.length_append] at hlength
    obtain ⟨o, above', habove', hstack', hbody⟩ := (isKey_body hkept habove).exists_inner hslash
    obtain rfl := body_injective hkept hstack' habove (List.cons_ne_nil o above') hbody
    rw [dir_body hstack' habove']
    intro hsame
    rw [body_injective hstack'.tail hstack habove' (List.cons_ne_nil c kept) hsame] at hlength
    simp at hlength
    omega
  · rw [dir_of_notMem hkey, directoryKeys_dot] at hmem
    cases hmem

end Keys

/-! ## Hierarchies -/

/-- Whether everything in a tree that is in something is in a directory. -/
def IsHierarchy (fs : MemoryFiles) : Prop :=
  ∀ key, (fs.find? key).isSome → Ascii.slash ∈ key → fs.hasDirectory (dir key) = true

/-- Whether there is something in an entry. -/
def IsParent (fs : MemoryFiles) (key : Bytes) : Prop :=
  ∃ inner, (fs.find? inner).isSome ∧ Ascii.slash ∈ inner ∧ dir inner = key

section Hierarchies

variable {fs fs' : MemoryFiles} {key : Bytes} {e : FileEntry}

theorem isHierarchy_empty : IsHierarchy .empty := by
  intro key hsome
  simp [find?, empty] at hsome

theorem hasDirectory_put (fs : MemoryFiles) (key other : Bytes) (e : FileEntry) :
    (fs.put key e).hasDirectory other = if key = other then e.isDirectory else fs.hasDirectory other := by
  rw [hasDirectory, find?_put, hasDirectory]
  split <;> rfl

theorem IsHierarchy.congr (h : IsHierarchy fs) (hsame : ∀ key, fs'.find? key = fs.find? key) :
    IsHierarchy fs' := by
  intro key hsome hslash
  rw [hasDirectory, hsame]
  exact h key (by rwa [hsame] at hsome) hslash

theorem IsHierarchy.hasDirectory_of_isParent (h : IsHierarchy fs) (hparent : fs.IsParent key) :
    fs.hasDirectory key = true := by
  obtain ⟨inner, hsome, hslash, rfl⟩ := hparent
  exact h inner hsome hslash

/-- An entry may be put into a directory, and a file only where nothing is in it. -/
theorem IsHierarchy.put_iff (h : IsHierarchy fs) (hkey : IsKey key) : IsHierarchy (fs.put key e) ↔
    (Ascii.slash ∈ key → fs.hasDirectory (dir key) = true) ∧ (e.isDirectory = true ∨ ¬fs.IsParent key) := by
  constructor
  · intro hput
    refine ⟨fun hslash => ?_, or_iff_not_imp_right.mpr fun hparent => ?_⟩
    · have hdir := hput key (by rw [find?_put, if_pos rfl]; rfl) hslash
      rwa [hasDirectory_put, if_neg (hkey.dir_ne hslash).symm] at hdir
    · obtain ⟨inner, hsome, hslash, hdir⟩ := not_not.mp hparent
      have hinner := hput inner (by rw [find?_put]; split <;> [rfl; exact hsome]) hslash
      rwa [hdir, hasDirectory_put, if_pos rfl] at hinner
  · rintro ⟨hdir, hleaf⟩ inner hsome hslash
    rw [hasDirectory_put]
    by_cases hinner : key = inner
    · subst hinner
      rw [if_neg (hkey.dir_ne hslash).symm]
      exact hdir hslash
    · rw [find?_put, if_neg hinner] at hsome
      split
      · next hparent => exact hleaf.resolve_right fun hnone => hnone ⟨inner, hsome, hslash, hparent.symm⟩
      · exact h inner hsome hslash

/-- An entry may be taken away if nothing is in it. -/
theorem IsHierarchy.erase_iff (h : IsHierarchy fs) (hkey : IsKey key) :
    IsHierarchy { fs with entries := fs.entries.erase key } ↔ ¬fs.IsParent key := by
  constructor
  · rintro herase ⟨inner, hsome, hslash, hdir⟩
    have hne : key ≠ inner := by
      rintro rfl
      exact hkey.dir_ne hslash hdir
    have hinner := herase inner (by rw [find?_erase, if_neg hne]; exact hsome) hslash
    rw [hdir, hasDirectory, find?_erase, if_pos rfl] at hinner
    cases hinner
  · intro hleaf inner hsome hslash
    rw [find?_erase] at hsome
    split at hsome
    · cases hsome
    · rw [hasDirectory, find?_erase, if_neg fun hparent => hleaf ⟨inner, hsome, hslash, hparent.symm⟩]
      exact h inner hsome hslash

/-- What a directory is in are directories as well. -/
theorem IsHierarchy.hasDirectory_of_suffix (h : IsHierarchy fs) {outer kept : List Bytes}
    (hstack : IsStack false kept) (hdirectory : fs.hasDirectory (body kept) = true) (hne : outer ≠ [])
    (hsuffix : outer <:+ kept) : fs.hasDirectory (body outer) = true := by
  induction kept with
  | nil => exact absurd (List.suffix_nil.mp hsuffix) hne
  | cons c kept ih =>
    rcases List.suffix_cons_iff.mp hsuffix with rfl | hsuffix
    · exact hdirectory
    · have hkept : kept ≠ [] := by
        rintro rfl
        exact hne (List.suffix_nil.mp hsuffix)
      have hsome : (fs.find? (body (c :: kept))).isSome := by
        rw [hasDirectory] at hdirectory
        exact Option.isSome_of_any hdirectory
      have hdir := h _ hsome (slash_mem_body hstack hkept)
      rw [dir_body hstack hkept] at hdir
      exact ih hstack.tail hdir hsuffix

/-! ## Operations -/

theorem isHierarchy_makeDirectoriesFrom (low parts : List Bytes) (h : IsHierarchy fs)
    (hlow : low = [] ∨ fs.hasDirectory (body low) = true) (hstack : IsStack false (parts.reverse ++ low)) :
    IsHierarchy (makeDirectoriesFrom (body low) parts fs).2 := by
  induction parts generalizing low fs with
  | nil => exact h
  | cons part parts ih =>
    rw [List.reverse_cons, List.append_assoc, List.singleton_append] at hstack
    have hpart := hstack.of_append
    have hcomponent := hpart.isComponent List.mem_cons_self
    rw [makeDirectoriesFrom, if_neg (not_or.mpr ⟨hcomponent.ne_nil, hcomponent.ne_dot⟩)]
    dsimp only
    rw [join_body hpart]
    cases hfind : fs.find? (body (part :: low)) with
    | none =>
      have hkey := isKey_body hpart (List.cons_ne_nil part low)
      refine ih (part :: low) ((h.put_iff hkey).mpr ⟨fun hslash => ?_, .inl rfl⟩) ?_ hstack
      · have hne : low ≠ [] := by
          rintro rfl
          exact slash_notMem_body hpart hslash
        rw [dir_body hpart hne]
        exact hlow.resolve_left hne
      · exact .inr (by rw [hasDirectory_put, if_pos rfl]; rfl)
    | some e =>
      cases e with
      | file data time => exact h
      | directory time => exact ih (part :: low) h (.inr (by rw [hasDirectory, hfind]; rfl)) hstack

theorem IsHierarchy.makeDirectories (h : IsHierarchy fs) (path : Bytes) :
    IsHierarchy (fs.makeDirectories path).2 := by
  rw [MemoryFiles.makeDirectories]
  rcases IsKey.cases ⟨path, rfl⟩ with ⟨kept, hstack, hkey⟩ | hkey
  · rw [hkey]
    by_cases hne : kept = []
    · subst hne
      exact h
    · rw [split_body hstack hne]
      exact isHierarchy_makeDirectoriesFrom [] kept.reverse h (.inl rfl) (by simpa using hstack)
  · rw [hkey]
    exact h

/-- A file may be put wherever a file can be created. -/
theorem IsHierarchy.putFile (h : IsHierarchy fs) {path : Bytes} (hcreate : (fs.createFile path).isOk)
    (data : Bytes) : IsHierarchy (fs.putFile (keyOf path) data) := by
  have hkey : IsKey (keyOf path) := ⟨path, rfl⟩
  rw [createFile_eq] at hcreate
  split at hcreate
  · cases hcreate
  · next hstray =>
    split at hcreate
    · cases hcreate
    · next hoccupied =>
      refine (h.put_iff hkey).mpr ⟨fun hslash => ?_, .inr fun hparent => ?_⟩
      · obtain ⟨c, kept, hne, hstack, hbody⟩ := hkey.exists_inner hslash
        have hdot : dir (keyOf path) ≠ text "." := by
          rw [hbody, dir_body hstack hne]
          exact body_ne_dot hstack.tail hne
        simpa [isStray, hdot] using hstray
      · exact hoccupied (h.hasDirectory_of_isParent hparent)

theorem IsHierarchy.createWith (h : IsHierarchy fs) (path data : Bytes) :
    IsHierarchy (fs.createWith path data).2 := by
  rcases fs.createFile_cases path with ⟨fault, hcreate⟩ | hcreate
  · rw [MemoryFiles.createWith, hcreate]
    exact h
  · have hput := h.putFile (by rw [hcreate]; rfl) data
    rw [MemoryFiles.createWith, hcreate]
    refine hput.congr fun key => ?_
    change ((fs.putFile (keyOf path) []).putFile (keyOf path) data).find? key = _
    rw [find?_putFile, find?_putFile, find?_putFile]
    split <;> rfl

theorem IsHierarchy.writeAll (h : IsHierarchy fs) (path data : Bytes) :
    IsHierarchy (fs.writeAll path data).2 := by
  have hmade := h.makeDirectories (dir path)
  cases hmake : (fs.makeDirectories (dir path)).1 with
  | error fault =>
    rw [writeAll_of_error hmake]
    exact hmade
  | ok =>
    rw [writeAll_of_ok hmake]
    exact hmade.createWith path data

/-- The directories for a file are there in the end unless a file is in the way. -/
theorem IsHierarchy.hasDirectory_makeDirectories_iff (h : IsHierarchy fs) {kept : List Bytes}
    (hstack : IsStack false kept) (hne : kept ≠ []) :
    (fs.makeDirectories (body kept)).2.hasDirectory (body kept) = true ↔
      ∀ blocked ∈ directoryKeys (body kept), fs.hasFile blocked = false := by
  have hkeys : directoryKeys (body kept) = directoryKeys (ofStack false kept) := by
    rw [ofStack_false hne]
  constructor
  · intro hdirectory blocked hmem
    rw [hkeys] at hmem
    obtain ⟨outer, rfl, houter, hsuffix⟩ := mem_directoryKeys_ofStack hstack hne hmem
    have hthere := (h.makeDirectories (body kept)).hasDirectory_of_suffix hstack hdirectory houter hsuffix
    rw [hasDirectory_eq, decide_eq_true_eq, node?_makeDirectories] at hthere
    split at hthere
    · next hfree => simpa using List.mem_takeWhile_imp hfree
    · exact hasFile_of_directory hthere
  · intro hfree
    have hok : (fs.makeDirectories (body kept)).1 = .ok () := by
      have hnone : (directoryKeys (body kept)).find? fs.hasFile = none :=
        List.find?_eq_none.mpr fun blocked hmem => by simp [hfree blocked hmem]
      rw [makeDirectories_answer, hnone]
      rfl
    have hmem : body kept ∈ directoryKeys (body kept) := by
      rw [hkeys]
      exact body_mem_directoryKeys hstack hne
    rw [hasDirectory_eq, decide_eq_true_eq]
    exact node?_makeDirectories_of_ok hok hmem

/-- Making the directories for a file puts nothing into the file. -/
theorem isParent_makeDirectories_iff (hkey : IsKey key) :
    (fs.makeDirectories (dir key)).2.IsParent key ↔ fs.IsParent key := by
  have hentries := (fs.makeDirectories_addsDirectories (dir key)).entries
  constructor
  · rintro ⟨inner, hsome, hslash, hdir⟩
    refine ⟨inner, ?_, hslash, hdir⟩
    rw [find?_makeDirectories] at hsome
    split at hsome
    · next hmade =>
      -- A directory that is made has fewer components than the file that it is made for.
      exact absurd hdir (dir_ne_of_mem_directoryKeys hkey
        ((List.takeWhile_prefix _).subset (isMade_iff.mp hmade).1) hslash)
    · exact hsome
  · rintro ⟨inner, hsome, hslash, hdir⟩
    refine ⟨inner, ?_, hslash, hdir⟩
    rcases hentries inner with hsame | ⟨hnone, -⟩
    · rw [hsame]
      exact hsome
    · rw [hnone] at hsome
      cases hsome

end Hierarchies

end MemoryFiles

/-! ## Actions -/

namespace FileDesk

open MemoryFiles

/-- Whether an action leaves something without a directory that it is in: it takes away a directory with
something in it or puts a file in its place, or it puts a file where there is no directory to hold it. -/
def Orphans (d : FileDesk) : FileAction → Prop
  | .remove path => d.files.IsParent (keyOf path)
  | .addFile path _ => d.files.IsParent (keyOf path) ∨
      ∃ blocked ∈ directoryKeys (dir (keyOf path)), d.files.hasFile blocked = true
  | .close n => ∃ key written, d.handles[n]? = some (.writer key written) ∧
      (d.files.IsParent key ∨ Ascii.slash ∈ key ∧ d.files.hasDirectory (dir key) = false)
  | _ => False

/-- Whether the handles of a desk are on keys of paths. -/
def OnKeys (d : FileDesk) : Prop := ∀ h ∈ d.handles, IsKey h.key

variable {d : FileDesk}

theorem OnKeys.perform (h : d.OnKeys) (a : FileAction) : (d.perform a).2.OnKeys := by
  have happend {h' : FileHandle} (hkey : IsKey h'.key) : ∀ handle ∈ d.handles ++ [h'], IsKey handle.key := by
    intro handle hmem
    rcases List.mem_append.mp hmem with hmem | hmem
    · exact h handle hmem
    · rw [List.mem_singleton.mp hmem]
      exact hkey
  have hset (n : Nat) (use : FileHandle → FileHandle) (files : FileHandle → MemoryFiles)
      (answer : FileHandle → FileAnswer) (hkey : ∀ handle, (use handle).key = handle.key) :
      (d.withHandle n fun h => (answer h, ⟨files h, d.handles.set n (use h)⟩)).2.OnKeys := by
    rw [withHandle]
    cases hn : d.handles[n]? with
    | none => exact h
    | some h' =>
      intro handle hmem
      rcases List.mem_or_eq_of_mem_set hmem with hmem | rfl
      · exact h handle hmem
      · rw [hkey]
        exact h h' (List.mem_of_getElem? hn)
  cases a with
  | openFile path =>
    rcases d.perform_openFile_cases path with ⟨fault, hperform⟩ | ⟨data, time, -, hperform⟩
    · rw [hperform]
      exact h
    · rw [hperform]
      exact happend ⟨path, rfl⟩
  | createFile path =>
    rcases d.perform_createFile_cases path with ⟨fault, hperform⟩ | hperform
    · rw [hperform]
      exact h
    · rw [hperform]
      exact happend ⟨path, rfl⟩
  | remove path =>
    rw [FileDesk.perform]
    cases d.files.remove path <;> exact h
  | read n count =>
    refine hset n (fun h => (h.read count).2) (fun _ => d.files) _ fun handle => ?_
    cases handle with
    | reader key rest =>
      rw [FileHandle.read]
      split <;> rfl
    | writer key written => rfl
    | closed key => rfl
  | write n data =>
    refine hset n (fun h => (h.write data).2) (fun _ => d.files) _ fun handle => ?_
    cases handle <;> rfl
  | close n =>
    refine hset n (fun h => (d.files.close h).1) (fun h => (d.files.close h).2) _ fun handle => ?_
    cases handle <;> rfl
  | statHandle n =>
    rw [FileDesk.perform, withHandle]
    cases d.handles[n]? <;> exact h
  | setClock time => exact h
  | addFile path data => exact h
  | makeDirectories path => exact h
  | stat path => exact h
  | readAll path => exact h
  | writeAll path data => exact h

/-- A file in place of a directory with nothing in it, with all directories that it is in. -/
theorem isHierarchy_addFile_iff {fs : MemoryFiles} (h : fs.IsHierarchy) (path data : Bytes) :
    (fs.addFile path data).IsHierarchy ↔ ¬(fs.IsParent (keyOf path) ∨
      ∃ blocked ∈ directoryKeys (dir (keyOf path)), fs.hasFile blocked = true) := by
  have hkey : IsKey (keyOf path) := ⟨path, rfl⟩
  have hput := (h.makeDirectories (dir (keyOf path))).put_iff hkey
    (e := .file data (fs.makeDirectories (dir (keyOf path))).2.clock)
  rw [isParent_makeDirectories_iff hkey] at hput
  rw [addFile_eq, putFile, hput]
  have hdirectories : (Ascii.slash ∈ keyOf path →
      (fs.makeDirectories (dir (keyOf path))).2.hasDirectory (dir (keyOf path)) = true) ↔
      ∀ blocked ∈ directoryKeys (dir (keyOf path)), fs.hasFile blocked = false := by
    by_cases hslash : Ascii.slash ∈ keyOf path
    · obtain ⟨c, kept, hne, hstack, hbody⟩ := hkey.exists_inner hslash
      rw [hbody, dir_body hstack hne, h.hasDirectory_makeDirectories_iff hstack.tail hne]
      exact forall_prop_of_true (slash_mem_body hstack hne)
    · rw [dir_of_notMem hslash, directoryKeys_dot]
      exact iff_of_true (fun hmem => absurd hmem hslash) fun _ hmem => absurd hmem List.not_mem_nil
  have hblocked : (∀ blocked ∈ directoryKeys (dir (keyOf path)), fs.hasFile blocked = false) ↔
      ¬∃ blocked ∈ directoryKeys (dir (keyOf path)), fs.hasFile blocked = true := by
    simp only [not_exists, not_and, Bool.not_eq_true]
  rw [hdirectories, hblocked, not_or, and_comm]
  simp [FileEntry.isDirectory]

theorem isHierarchy_remove_iff (h : d.files.IsHierarchy) (path : Bytes) :
    (d.perform (.remove path)).2.files.IsHierarchy ↔ ¬d.files.IsParent (keyOf path) := by
  rw [FileDesk.perform]
  rcases d.files.remove_cases path with ⟨hnone, hremove⟩ | hremove
  · rw [hremove]
    refine iff_of_true h fun hparent => ?_
    have hdirectory := h.hasDirectory_of_isParent hparent
    rw [hasDirectory, hnone] at hdirectory
    cases hdirectory
  · rw [hremove]
    exact h.erase_iff ⟨path, rfl⟩

theorem isHierarchy_close_iff (hkeys : d.OnKeys) (h : d.files.IsHierarchy) (n : Nat) :
    (d.perform (.close n)).2.files.IsHierarchy ↔ ¬d.Orphans (.close n) := by
  rw [Orphans]
  cases hn : d.handles[n]? with
  | none =>
    rw [FileDesk.perform, withHandle, hn]
    exact iff_of_true h (by simp)
  | some handle =>
    rw [perform_close hn]
    cases handle with
    | reader key rest => exact iff_of_true h (by simp)
    | closed key => exact iff_of_true h (by simp)
    | writer key written =>
      have hput := h.put_iff (e := .file written d.files.clock) (hkeys _ (List.mem_of_getElem? hn))
      refine Iff.trans hput ?_
      simp [FileEntry.isDirectory, FileHandle.key, and_comm]

/-- Everything in a hierarchy stays in a directory, unless the action leaves something behind. -/
theorem isHierarchy_perform_iff (hkeys : d.OnKeys) (h : d.files.IsHierarchy) (a : FileAction) :
    (d.perform a).2.files.IsHierarchy ↔ ¬d.Orphans a := by
  have hsilent (hnone : ∀ key, d.imprint? key a = none) : (d.perform a).2.files.IsHierarchy := by
    refine h.congr fun key => ?_
    rw [find?_perform, hnone]
    rfl
  cases a with
  | addFile path data => exact isHierarchy_addFile_iff h path data
  | remove path => exact isHierarchy_remove_iff h path
  | close n => exact isHierarchy_close_iff hkeys h n
  | createFile path =>
    refine iff_of_true ?_ id
    rw [FileDesk.perform]
    rcases d.files.createFile_cases path with ⟨fault, hcreate⟩ | hcreate
    · rw [hcreate]
      exact h
    · have hput := h.putFile (by rw [hcreate]; rfl) []
      rw [hcreate]
      exact hput
  | makeDirectories path => exact iff_of_true (h.makeDirectories path) id
  | writeAll path data => exact iff_of_true (h.writeAll path data) id
  | openFile path => exact iff_of_true (hsilent fun _ => rfl) id
  | read n count => exact iff_of_true (hsilent fun _ => rfl) id
  | write n data => exact iff_of_true (hsilent fun _ => rfl) id
  | statHandle n => exact iff_of_true (hsilent fun _ => rfl) id
  | setClock time => exact iff_of_true (hsilent fun _ => rfl) id
  | stat path => exact iff_of_true h id
  | readAll path => exact iff_of_true h id

theorem isHierarchy_stages_iff (hkeys : d.OnKeys) (h : d.files.IsHierarchy) (actions : List FileAction) :
    (∀ earlier, earlier <+: actions → (d.run earlier).files.IsHierarchy) ↔
      ∀ s ∈ d.stages actions, ¬s.1.Orphans s.2 := by
  induction actions generalizing d with
  | nil =>
    refine iff_of_true (fun earlier hearlier => ?_) fun s hs => absurd hs List.not_mem_nil
    rw [List.prefix_nil.mp hearlier]
    exact h
  | cons a actions ih =>
    have hstep := isHierarchy_perform_iff hkeys h a
    rw [stages, List.forall_mem_cons]
    constructor
    · intro hall
      have hnext : (d.perform a).2.files.IsHierarchy := hall [a] (List.prefix_append [a] actions)
      refine ⟨hstep.mp hnext, (ih (hkeys.perform a) hnext).mp fun earlier hearlier => ?_⟩
      exact hall (a :: earlier) (List.cons_prefix_cons.mpr ⟨rfl, hearlier⟩)
    · rintro ⟨ha, hactions⟩ earlier hearlier
      rcases List.prefix_cons_iff.mp hearlier with rfl | ⟨more, rfl, hmore⟩
      · exact h
      · exact (ih (hkeys.perform a) (hstep.mpr ha)).mpr hactions more hmore

/-- Whatever is done from an empty desk on: everything that is in something is in a directory all the
time if and only if no action leaves something behind. -/
theorem hierarchy_kept_iff_no_orphans (actions : List FileAction) :
    (∀ earlier, earlier <+: actions → (empty.run earlier).files.IsHierarchy) ↔
      ∀ s ∈ empty.stages actions, ¬s.1.Orphans s.2 :=
  isHierarchy_stages_iff (fun _ hmem => absurd hmem List.not_mem_nil) isHierarchy_empty actions

/-- Not every entry is in a directory, whatever is done: a directory can be removed or replaced, a file can
be put below another one, and it can be published where its directory is gone. -/
theorem orphaningActions_break :
    ¬(empty.run [.makeDirectories (text "a/b"), .remove (text "a")]).files.IsHierarchy ∧
    ¬(empty.run [.makeDirectories (text "a/b"), .addFile (text "a") []]).files.IsHierarchy ∧
    ¬(empty.run [.addFile (text "a") [], .addFile (text "a/b") []]).files.IsHierarchy ∧
    ¬(empty.run [.makeDirectories (text "a"), .createFile (text "a/b"), .remove (text "a/b"),
      .remove (text "a"), .close 0]).files.IsHierarchy := by
  have hbreak (desk : FileDesk) (h : (desk.files.find? (text "a/b")).isSome = true ∧
      desk.files.hasDirectory (text "a") = false) : ¬desk.files.IsHierarchy := by
    intro hhierarchy
    have hdirectory : desk.files.hasDirectory (dir (text "a/b")) = true :=
      hhierarchy (text "a/b") h.1 (by decide)
    rw [show dir (text "a/b") = text "a" by decide +kernel, h.2] at hdirectory
    cases hdirectory
  refine ⟨hbreak _ ?_, hbreak _ ?_, hbreak _ ?_, hbreak _ ?_⟩
  · decide +kernel
  · decide +kernel
  · decide +kernel
  · decide +kernel

end FileDesk

end OnePass
