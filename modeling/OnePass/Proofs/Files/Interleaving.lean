import Mathlib.Data.List.Find
import Mathlib.Logic.Function.Basic
import OnePass.Proofs.Files.Nodes
import OnePass.Proofs.Files.Steps
set_option autoImplicit false

/-!
# Programs that do not disturb each other

Programs share a tree of files without disturbing each other if each writes to files of its own, reads
none of the others, and makes only directories that are free for all (`Territory`, `Allowed`).  Whatever
turns they take, each of them is then where it would be if it ran alone, and the tree is the first one
with the changes of all of them in it (`Merges`).  One step keeps that up (`Alike.merges`), hence so does
every run, and in the end nothing tells the turns that were taken from running one program after the
other (`run_complete`).
-/

namespace OnePass

open MemoryFiles

/-- Which keys of a tree are whose. -/
structure Territory where
  /-- the files of a program, given its index -/
  own : Nat → Bytes → Prop
  /-- the directories that every program may make -/
  shared : Bytes → Prop
  own_unique {i j : Nat} {key : Bytes} : own i key → own j key → i = j
  not_shared {i : Nat} {key : Bytes} : own i key → ¬shared key

namespace FileRequest

/-- Whether a program that runs alone may take a step, given its index and the tree before. -/
def Allowed (t : Territory) (i : Nat) (fs : MemoryFiles) : FileRequest → Prop
  | .openFile path => ∀ j, t.own j (keyOf path) → j = i
  | .makeDirectories path => ∀ key ∈ directoryKeys path, t.shared key
  | .createFile path => t.own i (keyOf path) ∧
      (Path.dir (keyOf path) = text "." ∨
        t.shared (Path.dir (keyOf path)) ∧ fs.node? (Path.dir (keyOf path)) ≠ none)
  | .write .. => True
  | .close h => ∀ key written, h = .writer key written → t.own i key
  | .reach path => (∀ j, t.own j (keyOf path) → j = i) ∧ ¬t.shared (keyOf path)

end FileRequest

/-- Whether a program that runs alone takes only steps that it may take. -/
def FileSteps.Admissible {α : Type} (t : Territory) (i : Nat) : FileSteps α → MemoryFiles → Prop
  | .done _, _ => True
  | .step r next, fs => r.Allowed t i fs ∧ (next (r.perform fs).1).Admissible t i (r.perform fs).2

namespace MemoryFiles

/-- Whether nothing was changed but files of a program's own and directories in place of nothing. -/
def Confined (t : Territory) (i : Nat) (start fs : MemoryFiles) : Prop :=
  ∀ key, fs.node? key ≠ start.node? key →
    t.own i key ∨ t.shared key ∧ start.node? key = none ∧ fs.node? key = some .directory

/-- Whether a tree is the first one with all changes in it that programs have made to it alone. -/
structure Merges (start : MemoryFiles) (alone : Nat → MemoryFiles) (fs : MemoryFiles) : Prop where
  kept (key : Bytes) : (∀ i, (alone i).node? key = start.node? key) → fs.node? key = start.node? key
  changed (key : Bytes) (i : Nat) : (alone i).node? key ≠ start.node? key →
    fs.node? key = (alone i).node? key

/-- There is one way to merge changes. -/
theorem Merges.sameTree {start fs fs' : MemoryFiles} {alone : Nat → MemoryFiles}
    (h : Merges start alone fs) (h' : Merges start alone fs') : SameTree fs fs' := by
  intro key
  by_cases hkept : ∀ i, (alone i).node? key = start.node? key
  · rw [h.kept key hkept, h'.kept key hkept]
  · obtain ⟨i, hi⟩ := not_forall.mp hkept
    rw [h.changed key i hi, h'.changed key i hi]

/-- What programs that share a tree make of it, and what they make of it alone. -/
structure Coexist (t : Territory) (start : MemoryFiles) (alone : Nat → MemoryFiles)
    (fs : MemoryFiles) : Prop where
  merges : Merges start alone fs
  confined (i : Nat) : Confined t i start (alone i)

section Coexist

variable {t : Territory} {start fs : MemoryFiles} {alone : Nat → MemoryFiles} {i : Nat} {key : Bytes}

/-- What a program finds under a key that is no other's: what it would find alone, or a directory
in place of nothing. -/
theorem Coexist.node? (h : Coexist t start alone fs) (hkey : ∀ j, t.own j key → j = i) :
    fs.node? key = (alone i).node? key ∨
      t.shared key ∧ (alone i).node? key = none ∧ fs.node? key = some .directory := by
  by_cases hown : (alone i).node? key = start.node? key
  · by_cases hkept : ∀ j, (alone j).node? key = start.node? key
    · exact .inl ((h.merges.kept key hkept).trans hown.symm)
    · obtain ⟨j, hj⟩ := not_forall.mp hkept
      rcases h.confined j key hj with howner | ⟨hshared, hnone, hdirectory⟩
      · rw [hkey j howner] at hj
        exact absurd hown hj
      · exact .inr ⟨hshared, hown.trans hnone, (h.merges.changed key j hj).trans hdirectory⟩
  · exact .inl (h.merges.changed key i hown)

/-- A program finds its own files as it would find them alone. -/
theorem Coexist.node?_own (h : Coexist t start alone fs) (hkey : t.own i key) :
    fs.node? key = (alone i).node? key :=
  (h.node? fun _ hj => t.own_unique hj hkey).resolve_right fun hshared => t.not_shared hkey hshared.1

theorem Coexist.node?_shared (h : Coexist t start alone fs) (hkey : t.shared key) (i : Nat) :
    fs.node? key = (alone i).node? key ∨
      (alone i).node? key = none ∧ fs.node? key = some .directory :=
  (h.node? fun _ hj => absurd hkey (t.not_shared hj)).imp_right fun hshared => hshared.2

theorem Coexist.hasFile (h : Coexist t start alone fs) (hkey : ∀ j, t.own j key → j = i) :
    fs.hasFile key = (alone i).hasFile key := by
  rcases h.node? hkey with heq | ⟨-, hnone, hdirectory⟩
  · rw [MemoryFiles.hasFile, MemoryFiles.hasFile, heq]
  · rw [hasFile_of_none hnone, hasFile_of_directory hdirectory]

end Coexist

end MemoryFiles

namespace FileRequest

/-- Whether a step does the same to two trees: where it changes anything, it leaves the same in both,
and that is among what a program may change. -/
structure Alike (t : Territory) (i : Nat) (r : FileRequest) (alone fs : MemoryFiles) : Prop where
  answer : (r.perform fs).1 = (r.perform alone).1
  node? (key : Bytes) :
    (r.perform fs).2.node? key = fs.node? key ∧ (r.perform alone).2.node? key = alone.node? key ∨
      (r.perform fs).2.node? key = (r.perform alone).2.node? key ∧
        (t.own i key ∨ t.shared key ∧ alone.node? key = none ∧
          (r.perform alone).2.node? key = some .directory)

section Alike

variable {t : Territory} {start fs : MemoryFiles} {alone : Nat → MemoryFiles} {i : Nat}
  {r : FileRequest}

theorem Alike.confined (h : Alike t i r (alone i) fs) (hfiles : Coexist t start alone fs) :
    Confined t i start (r.perform (alone i)).2 := by
  intro key hchanged
  rcases h.node? key with ⟨-, hsame⟩ | ⟨-, hown | ⟨hshared, hnone, hdirectory⟩⟩
  · rw [hsame] at hchanged ⊢
    exact hfiles.confined i key hchanged
  · exact .inl hown
  · refine .inr ⟨hshared, ?_, hdirectory⟩
    by_contra hstart
    rw [← hnone] at hstart
    rcases hfiles.confined i key (Ne.symm hstart) with hown | ⟨-, -, hdirectory'⟩
    · exact t.not_shared hown hshared
    · rw [hnone] at hdirectory'
      cases hdirectory'

/-- A step keeps up that the tree holds the changes of all programs. -/
theorem Alike.merges (h : Alike t i r (alone i) fs) (hfiles : Coexist t start alone fs) :
    Merges start (Function.update alone i (r.perform (alone i)).2) (r.perform fs).2 := by
  have hself : Function.update alone i (r.perform (alone i)).2 i = (r.perform (alone i)).2 :=
    Function.update_self ..
  have hother {j : Nat} (hj : j ≠ i) : Function.update alone i (r.perform (alone i)).2 j = alone j :=
    Function.update_of_ne hj ..
  refine ⟨fun key hkept => ?_, fun key j hchanged => ?_⟩
  · have hi := hkept i
    rw [hself] at hi
    rcases h.node? key with ⟨hfs, halone⟩ | ⟨heq, -⟩
    · rw [hfs]
      refine hfiles.merges.kept key fun j => ?_
      by_cases hj : j = i
      · rw [hj, ← halone, hi]
      · rw [← hother hj, hkept j]
    · rw [heq, hi]
  · by_cases hj : j = i
    · subst hj
      rw [hself] at hchanged ⊢
      rcases h.node? key with ⟨hfs, halone⟩ | ⟨heq, -⟩
      · rw [halone] at hchanged
        rw [hfs, halone]
        exact hfiles.merges.changed key j hchanged
      · exact heq
    · rw [hother hj] at hchanged ⊢
      rcases h.node? key with ⟨hfs, -⟩ | ⟨heq, hwhose⟩
      · rw [hfs]
        exact hfiles.merges.changed key j hchanged
      · -- Two programs change the same key only by making the same directory.
        rcases hfiles.confined j key hchanged with hown | ⟨hshared, -, hdirectory⟩
        · rcases hwhose with howner | ⟨hshared, -⟩
          · exact absurd (t.own_unique hown howner) hj
          · exact absurd hshared (t.not_shared hown)
        · rcases hwhose with howner | ⟨-, -, hdirectory'⟩
          · exact absurd hshared (t.not_shared howner)
          · rw [heq, hdirectory', hdirectory]

theorem Alike.coexist (h : Alike t i r (alone i) fs) (hfiles : Coexist t start alone fs) :
    Coexist t start (Function.update alone i (r.perform (alone i)).2) (r.perform fs).2 := by
  refine ⟨h.merges hfiles, fun j => ?_⟩
  by_cases hj : j = i
  · subst hj
    rw [Function.update_self]
    exact h.confined hfiles
  · rw [Function.update_of_ne hj]
    exact hfiles.confined j

/-! ## The steps one by one -/

theorem alike_openFile {path : Bytes} (h : Allowed t i (alone i) (.openFile path))
    (hfiles : Coexist t start alone fs) : Alike t i (.openFile path) (alone i) fs := by
  refine ⟨?_, fun _ => .inl ⟨rfl, rfl⟩⟩
  change fs.openFile path = (alone i).openFile path
  -- A directory that another program made is refused as nothing is.
  rcases hfiles.node? h with heq | ⟨-, hnone, hdirectory⟩
  · exact openFile_congr heq
  · rw [openFile_of_not_hasFile (hasFile_of_none hnone),
      openFile_of_not_hasFile (hasFile_of_directory hdirectory)]

theorem alike_makeDirectories {path : Bytes} (h : Allowed t i (alone i) (.makeDirectories path))
    (hfiles : Coexist t start alone fs) : Alike t i (.makeDirectories path) (alone i) fs := by
  have hasFile_eq {key : Bytes} (hkey : key ∈ directoryKeys path) :
      fs.hasFile key = (alone i).hasFile key :=
    hfiles.hasFile fun _ hj => absurd (h key hkey) (t.not_shared hj)
  refine ⟨?_, fun key => ?_⟩
  · change (fs.makeDirectories path).1 = ((alone i).makeDirectories path).1
    rw [makeDirectories_answer, makeDirectories_answer,
      List.find?_congr fun key hkey => hasFile_eq hkey]
  · have hmake (fs : MemoryFiles) : ((makeDirectories path).perform fs).2.node? key = _ :=
      fs.node?_makeDirectories path key
    rw [hmake, hmake, takeWhile_congr fun key hkey => congrArg (!·) (hasFile_eq hkey)]
    by_cases hmade : key ∈ (directoryKeys path).takeWhile (!(alone i).hasFile ·)
    · rw [if_pos hmade, if_pos hmade]
      have hshared := h key ((List.takeWhile_prefix _).mem hmade)
      have hfile : (alone i).hasFile key = false := by
        simpa using List.mem_takeWhile_imp hmade
      rcases not_hasFile_iff.mp hfile with hnone | hdirectory
      · exact .inr ⟨rfl, .inr ⟨hshared, hnone, rfl⟩⟩
      · refine .inl ⟨?_, hdirectory.symm⟩
        rcases hfiles.node?_shared hshared i with heq | ⟨hnone, -⟩
        · rw [heq, hdirectory]
        · rw [hdirectory] at hnone
          cases hnone
    · rw [if_neg hmade, if_neg hmade]
      exact .inl ⟨rfl, rfl⟩

/-- Putting a file under a key of a program's own. -/
theorem node?_putFile_alike {key : Bytes} (hown : t.own i key) (data : Bytes) (alone fs : MemoryFiles)
    (other : Bytes) :
    (fs.putFile key data).node? other = fs.node? other ∧
        (alone.putFile key data).node? other = alone.node? other ∨
      (fs.putFile key data).node? other = (alone.putFile key data).node? other ∧
        (t.own i other ∨ t.shared other ∧ alone.node? other = none ∧
          (alone.putFile key data).node? other = some .directory) := by
  rw [node?_putFile, node?_putFile]
  by_cases heq : key = other
  · subst heq
    rw [if_pos rfl, if_pos rfl]
    exact .inr ⟨rfl, .inl hown⟩
  · rw [if_neg heq, if_neg heq]
    exact .inl ⟨rfl, rfl⟩

theorem perform_createFile (fs : MemoryFiles) (path : Bytes) :
    (createFile path).perform fs =
      if fs.isStray (keyOf path) then (.error (.path .create path .missing), fs)
      else if fs.hasDirectory (keyOf path) then (.error (.path .create path .occupied), fs)
      else (.ok (.writer (keyOf path) []), fs.putFile (keyOf path) []) := by
  rw [perform, createFile_eq]
  cases fs.isStray (keyOf path) with
  | true => rfl
  | false => cases fs.hasDirectory (keyOf path) <;> rfl

theorem alike_createFile {path : Bytes} (h : Allowed t i (alone i) (.createFile path))
    (hfiles : Coexist t start alone fs) : Alike t i (.createFile path) (alone i) fs := by
  obtain ⟨hown, hparent⟩ := h
  have hstray : fs.isStray (keyOf path) = (alone i).isStray (keyOf path) := by
    unfold isStray
    rcases hparent with hroot | ⟨hshared, hsome⟩
    · rw [hroot]
      simp
    · -- The program alone has its directory already, so it is no other that made it.
      rw [hasDirectory_eq, hasDirectory_eq,
        (hfiles.node?_shared hshared i).resolve_right fun hnone => hsome hnone.1]
  have hoccupied : fs.hasDirectory (keyOf path) = (alone i).hasDirectory (keyOf path) := by
    rw [hasDirectory_eq, hasDirectory_eq, hfiles.node?_own hown]
  refine ⟨?_, fun key => ?_⟩
  · rw [perform_createFile, perform_createFile, hstray, hoccupied]
    split
    · rfl
    · split <;> rfl
  · rw [perform_createFile, perform_createFile, hstray, hoccupied]
    split
    · exact .inl ⟨rfl, rfl⟩
    · split
      · exact .inl ⟨rfl, rfl⟩
      · exact node?_putFile_alike hown [] (alone i) fs key

theorem alike_close {handle : FileHandle} (h : Allowed t i (alone i) (.close handle)) :
    Alike t i (.close handle) (alone i) fs := by
  cases handle with
  | reader key rest => exact ⟨rfl, fun _ => .inl ⟨rfl, rfl⟩⟩
  | closed key => exact ⟨rfl, fun _ => .inl ⟨rfl, rfl⟩⟩
  | writer key written => exact ⟨rfl, node?_putFile_alike (h key written rfl) written (alone i) fs⟩

theorem alike_reach {path : Bytes} (h : Allowed t i (alone i) (.reach path))
    (hfiles : Coexist t start alone fs) : Alike t i (.reach path) (alone i) fs := by
  refine ⟨?_, fun _ => .inl ⟨rfl, rfl⟩⟩
  have hnode := (hfiles.node? h.1).resolve_right fun hshared => h.2 hshared.1
  have hthere : (fs.find? (keyOf path)).isSome = ((alone i).find? (keyOf path)).isSome := by
    simpa [node?] using congrArg Option.isSome hnode
  change (if (fs.find? (keyOf path)).isSome then _ else _) = _
  rw [hthere]
  rfl

theorem alike_of_allowed (h : r.Allowed t i (alone i)) (hfiles : Coexist t start alone fs) :
    Alike t i r (alone i) fs := by
  cases r with
  | openFile path => exact alike_openFile h hfiles
  | makeDirectories path => exact alike_makeDirectories h hfiles
  | createFile path => exact alike_createFile h hfiles
  | write handle data => exact ⟨rfl, fun _ => .inl ⟨rfl, rfl⟩⟩
  | close handle => exact alike_close h
  | reach path => exact alike_reach h hfiles

end Alike

end FileRequest

/-! ## Whole files -/

namespace FileSteps

open OnePass.Path

variable {α β : Type} {t : Territory} {i : Nat} {fs : MemoryFiles}

theorem Admissible.bind {p : FileSteps α} {f : α → FileSteps β} (hp : p.Admissible t i fs)
    (hf : (f (p.run fs).1).Admissible t i (p.run fs).2) : (p >>= f).Admissible t i fs := by
  induction p generalizing fs with
  | done a => exact hf
  | step r next ih => exact ⟨hp.1, ih _ hp.2 hf⟩

theorem admissible_request_bind {r : FileRequest} {answer : r.Answer} {fs' : MemoryFiles}
    {f : r.Answer → FileSteps β} (hallowed : r.Allowed t i fs) (hperform : r.perform fs = (answer, fs'))
    (hf : (f answer).Admissible t i fs') : (request r >>= f).Admissible t i fs := by
  refine Admissible.bind ⟨hallowed, trivial⟩ ?_
  change (f (r.perform fs).1).Admissible t i (r.perform fs).2
  rw [hperform]
  exact hf

/-- A file may be read if it is no other's. -/
theorem admissible_readAll {path : Bytes} (h : ∀ j, t.own j (keyOf path) → j = i) :
    (readAll path).Admissible t i fs := by
  have hperform : (FileRequest.openFile path).perform fs = (fs.openFile path, fs) := rfl
  rcases fs.openFile_cases path with ⟨fault, hopen⟩ | ⟨data, hopen⟩
  · rw [hopen] at hperform
    exact admissible_request_bind h hperform trivial
  · rw [hopen] at hperform
    refine admissible_request_bind h hperform (admissible_request_bind ?_ rfl trivial)
    intro key written hwriter
    cases hwriter

theorem admissible_createWith {path data : Bytes}
    (h : (FileRequest.createFile path).Allowed t i fs) : (createWith path data).Admissible t i fs := by
  rcases fs.createFile_cases path with ⟨fault, hcreate⟩ | hcreate
  · exact admissible_request_bind h (FileRequest.perform_createFile_of_error hcreate) trivial
  · refine admissible_request_bind h (FileRequest.perform_createFile_of_ok hcreate) ?_
    refine admissible_request_bind trivial rfl (admissible_request_bind ?_ rfl trivial)
    intro key written hwriter
    cases hwriter
    exact h.1

/-- A file may be written if it is a program's own and its directories may be made. -/
theorem admissible_writeAll {rooted : Bool} {c : Bytes} {kept : List Bytes}
    (hstack : IsStack rooted (c :: kept)) (hown : t.own i (body (c :: kept)))
    (hshared : ∀ key ∈ directoryKeys (ofStack rooted kept), t.shared key) (data : Bytes) :
    (writeAll (ofStack rooted (c :: kept)) data).Admissible t i fs := by
  have hkey := keyOf_ofStack hstack (List.cons_ne_nil c kept)
  have hparent : Path.dir (body (c :: kept)) = ofStack false kept := dir_ofStack hstack.relative
  rw [← hkey] at hown hparent
  unfold writeAll
  dsimp only
  rw [dir_ofStack hstack]
  by_cases hkept : kept = []
  · have hroot : ofStack rooted kept = text "." ∨ ofStack rooted kept = text "/" := by
      subst hkept
      cases rooted <;> decide
    rw [if_pos hroot]
    refine admissible_createWith ⟨hown, .inl ?_⟩
    rw [hparent, hkept]
    rfl
  · have hroot : ¬(ofStack rooted kept = text "." ∨ ofStack rooted kept = text "/") := by
      have hkept' := stack_ofStack hstack.tail
      rintro (heq | heq)
      · rw [heq] at hkept'
        exact hkept hkept'.symm
      · rw [heq] at hkept'
        exact hkept hkept'.symm
    rw [if_neg hroot]
    have hmem := body_mem_directoryKeys hstack.tail hkept
    rw [ofStack_false hkept] at hparent
    cases hmake : fs.makeDirectories (ofStack rooted kept) with
    | mk answer fs' =>
      refine admissible_request_bind hshared hmake ?_
      cases answer with
      | error fault => trivial
      | ok =>
        refine admissible_createWith ⟨hown, .inr ?_⟩
        have hmade := node?_makeDirectories_of_ok (congrArg Prod.fst hmake) hmem
        rw [hmake] at hmade
        rw [hparent, hmade]
        exact ⟨hshared _ hmem, Option.some_ne_none _⟩

end FileSteps

/-! ## Runs -/

namespace FilePool

variable {α : Type} {t : Territory} {start pool : FilePool α} {alone : Nat → MemoryFiles}

/-- Whether every program of a pool is where it would be if it had run alone, given the pool at the
start and what the programs have made of its tree alone. -/
structure Follows (t : Territory) (start : FilePool α) (alone : Nat → MemoryFiles)
    (pool : FilePool α) : Prop where
  files : Coexist t start.files alone pool.files
  admissible (i : Nat) (p : FileSteps α) : pool.tasks[i]? = some p → p.Admissible t i (alone i)
  progress (i : Nat) :
    pool.tasks[i]?.map (·.run (alone i)) = start.tasks[i]?.map (·.run start.files)
  idle (i : Nat) : start.tasks[i]? = none → alone i = start.files

theorem follows_start (h : ∀ i (p : FileSteps α), start.tasks[i]? = some p → p.Admissible t i start.files) :
    Follows t start (fun _ => start.files) start where
  files.merges := ⟨fun _ _ => rfl, fun _ _ hchanged => absurd rfl hchanged⟩
  files.confined _ _ hchanged := absurd rfl hchanged
  admissible := h
  progress _ := rfl
  idle _ _ := rfl

/-- A program that has a step left takes it as it would alone. -/
theorem Follows.step (h : Follows t start alone pool) {i : Nat} {r : FileRequest}
    {next : r.Answer → FileSteps α} (hi : pool.tasks[i]? = some (.step r next)) :
    Follows t start (Function.update alone i (r.perform (alone i)).2)
      ⟨pool.tasks.set i (next (r.perform pool.files).1), (r.perform pool.files).2⟩ := by
  obtain ⟨hallowed, hnext⟩ := h.admissible i _ hi
  have halike := FileRequest.alike_of_allowed hallowed h.files
  have hself : (pool.tasks.set i (next (r.perform pool.files).1))[i]? =
      some (next (r.perform (alone i)).1) := by
    rw [List.getElem?_set_self (List.getElem?_eq_some_iff.mp hi).1, halike.answer]
  have hother {j : Nat} (hj : j ≠ i) :
      (pool.tasks.set i (next (r.perform pool.files).1))[j]? = pool.tasks[j]? :=
    List.getElem?_set_ne (Ne.symm hj)
  refine ⟨halike.coexist h.files, fun j p hp => ?_, fun j => ?_, fun j hnone => ?_⟩
  · by_cases hj : j = i
    · subst hj
      rw [hself] at hp
      cases hp
      rw [Function.update_self]
      exact hnext
    · rw [hother hj] at hp
      rw [Function.update_of_ne hj]
      exact h.admissible j p hp
  · by_cases hj : j = i
    · subst hj
      rw [hself, Function.update_self, ← h.progress j, hi]
      rfl
    · rw [hother hj, Function.update_of_ne hj]
      exact h.progress j
  · by_cases hj : j = i
    · subst hj
      have hprogress := h.progress j
      rw [hi, hnone] at hprogress
      cases hprogress
    · rw [Function.update_of_ne hj]
      exact h.idle j hnone

theorem Follows.turn (h : Follows t start alone pool) (turn : FileTurn) :
    ∃ alone', Follows t start alone' (pool.turn turn) := by
  cases turn with
  | time now =>
    have hmerges : Merges start.files alone { pool.files with clock := now } :=
      ⟨h.files.merges.kept, h.files.merges.changed⟩
    exact ⟨alone, ⟨hmerges, h.files.confined⟩, h.admissible, h.progress, h.idle⟩
  | task i =>
    cases htask : pool.tasks[i]? with
    | none =>
      refine ⟨alone, ?_⟩
      rw [FilePool.turn, htask]
      exact h
    | some p =>
      rw [turn_task htask]
      cases p with
      | done a =>
        refine ⟨alone, ?_⟩
        rw [FileSteps.advance, set_task_self htask]
        exact h
      | step r next => exact ⟨_, h.step htask⟩

theorem Follows.run (h : Follows t start alone pool) (turns : List FileTurn) :
    ∃ alone', Follows t start alone' (pool.run turns) := by
  induction turns generalizing pool alone with
  | nil => exact ⟨alone, h⟩
  | cons turn turns ih =>
    obtain ⟨alone', h'⟩ := h.turn turn
    exact ih h'

/-- The tree that a program would leave if it ran alone. -/
def leftBy (start : FilePool α) (i : Nat) : MemoryFiles :=
  start.tasks[i]?.elim start.files fun p => (p.run start.files).2

theorem Follows.complete {results : List α} (h : Follows t start alone pool)
    (hresults : pool.results? = some results) :
    results = start.tasks.map (fun p => (p.run start.files).1) ∧
      Merges start.files start.leftBy pool.files := by
  have hdone (i : Nat) : results[i]?.map (·, alone i) = start.tasks[i]?.map (·.run start.files) := by
    rw [← h.progress i, results?_eq_some_iff.mp hresults, List.getElem?_map, Option.map_map]
    rfl
  have halone : start.leftBy = alone := by
    funext i
    have hi := hdone i
    unfold leftBy
    cases htask : start.tasks[i]? with
    | none => exact (h.idle i htask).symm
    | some p =>
      rw [htask] at hi
      obtain ⟨c, -, hc⟩ := Option.map_eq_some_iff.mp hi
      exact (congrArg Prod.snd hc).symm
  refine ⟨List.ext_getElem? fun i => ?_, halone ▸ h.files.merges⟩
  have hfirst := congrArg (Option.map Prod.fst) (hdone i)
  simpa [Function.comp_def] using hfirst

/-- Whatever turns programs take that do not disturb each other: what comes of each is what would come
of it alone, and the tree is left as if they had run one after the other. -/
theorem run_complete (h : ∀ i (p : FileSteps α), start.tasks[i]? = some p → p.Admissible t i start.files)
    {turns : List FileTurn} {results : List α} (hresults : (start.run turns).results? = some results) :
    results = start.tasks.map (fun p => (p.run start.files).1) ∧
      results = (start.tasks.mapM FileSteps.run start.files).1 ∧
      SameTree (start.run turns).files (start.tasks.mapM FileSteps.run start.files).2 := by
  obtain ⟨alone, hrun⟩ := (follows_start h).run turns
  obtain ⟨heq, hmerges⟩ := hrun.complete hresults
  -- Running one after the other is one way of taking turns, so the same is known of it.
  obtain ⟨turns', hturns'⟩ := start.exists_run_eq
  obtain ⟨alone', hrun'⟩ := (follows_start h).run turns'
  have hresults' : (start.run turns').results? = some (start.tasks.mapM FileSteps.run start.files).1 :=
    results?_eq_some_iff.mpr (congrArg FilePool.tasks hturns')
  obtain ⟨heq', hmerges'⟩ := hrun'.complete hresults'
  have hfiles : (start.run turns').files = _ := congrArg FilePool.files hturns'
  rw [hfiles] at hmerges'
  exact ⟨heq, heq.trans heq'.symm, hmerges.sameTree hmerges'⟩

end FilePool

end OnePass
