import OnePass.Files.Store
import OnePass.Proofs.Files.Writing
set_option autoImplicit false

/-!
# Files one step at a time

Reading or writing a whole file takes several steps, and between two of them others may use the same
tree.  A program over files is here a tree of requests, one for each step (`FileSteps`).  If it is run
without a break, it reads and writes whole files as they are read and written at once (`run_readAll`,
`run_writeAll`).  Programs that share a tree form a pool, in which one or another of them takes its next
step (`FilePool`); to run one program after the other is one way of taking turns (`exists_run_eq`).
-/

namespace OnePass

/-- A step of a program over files. -/
inductive FileRequest where
  | openFile (path : Bytes)
  | makeDirectories (path : Bytes)
  | createFile (path : Bytes)
  | write (handle : FileHandle) (data : Bytes)
  | close (handle : FileHandle)
  | reach (path : Bytes)
  deriving DecidableEq, Repr, Inhabited

/-- All that is left to read. -/
def FileHandle.contents : FileHandle → Except FileFault Bytes
  | .reader _ rest => .ok rest
  | _ => .error .permission

namespace FileRequest

/-- What a step gives. -/
abbrev Answer : FileRequest → Type
  | .openFile _ => Except FileFault FileHandle
  | .makeDirectories _ => Except FileFault Unit
  | .createFile _ => Except FileFault FileHandle
  | .write .. => Except FileFault Unit × FileHandle
  | .close _ => FileHandle
  | .reach _ => Except FileReason Unit

/-- Takes a step on a tree in memory. -/
def perform : (r : FileRequest) → MemoryFiles → r.Answer × MemoryFiles
  | .openFile path, fs => (fs.openFile path, fs)
  | .makeDirectories path, fs => fs.makeDirectories path
  | .createFile path, fs =>
    match fs.createFile path with
    | .ok (h, fs) => (.ok h, fs)
    | .error e => (.error e, fs)
  | .write h data, fs => (h.write data, fs)
  | .close h, fs => fs.close h
  | .reach path, fs => (FileStore.reach path : StateM MemoryFiles _) fs

theorem perform_createFile_of_error {fs : MemoryFiles} {path : Bytes} {e : FileFault}
    (h : fs.createFile path = .error e) : (createFile path).perform fs = (.error e, fs) := by
  rw [perform, h]

theorem perform_createFile_of_ok {fs fs' : MemoryFiles} {path : Bytes} {handle : FileHandle}
    (h : fs.createFile path = .ok (handle, fs')) : (createFile path).perform fs = (.ok handle, fs') := by
  rw [perform, h]

end FileRequest

/-- A program over files: the steps that it takes, each with what is done after it. -/
inductive FileSteps (α : Type) where
  | done (a : α)
  | step (r : FileRequest) (next : r.Answer → FileSteps α)

namespace FileSteps

variable {α β : Type}

/-- Goes on with another program. -/
def bind (f : α → FileSteps β) : FileSteps α → FileSteps β
  | .done a => f a
  | .step r next => .step r fun answer => (next answer).bind f

instance : Monad FileSteps where
  pure := .done
  bind p f := p.bind f

instance : LawfulMonad FileSteps := by
  refine LawfulMonad.mk' _ ?_ (fun _ _ => rfl) ?_
  · intro α p
    induction p with
    | done a => rfl
    | step r next ih => exact congrArg (step r) (funext ih)
  · intro α β γ p f g
    induction p with
    | done a => rfl
    | step r next ih => exact congrArg (step r) (funext ih)

/-- The program of one step. -/
def request (r : FileRequest) : FileSteps r.Answer := .step r .done

/-- Opens a file, reads all of it and closes it. -/
def readAll (path : Bytes) : FileSteps (Except FileFault Bytes) := do
  match ← request (.openFile path) with
  | .error e => return .error e
  | .ok h =>
    let _ ← request (.close h)
    return h.contents

/-- Opens a file for writing, writes to it and closes it. -/
def createWith (path data : Bytes) : FileSteps (Except FileFault Unit) := do
  match ← request (.createFile path) with
  | .error e => return .error e
  | .ok h =>
    let written ← request (.write h data)
    let _ ← request (.close written.2)
    return written.1

/-- Makes the directories that a file is in, and writes it. -/
def writeAll (path data : Bytes) : FileSteps (Except FileFault Unit) :=
  let parent := Path.dir path
  if parent = text "." ∨ parent = text "/" then createWith path data
  else do
    match ← request (.makeDirectories parent) with
    | .error e => return .error e
    | .ok () => createWith path data

instance : FileStore FileSteps where
  readAll := readAll
  writeAll := writeAll
  reach path := request (.reach path)

/-! ## Running a program without a break -/

/-- Takes all steps of a program. -/
def run : FileSteps α → StateM MemoryFiles α
  | .done a, fs => (a, fs)
  | .step r next, fs => (next (r.perform fs).1).run (r.perform fs).2

theorem run_bind (p : FileSteps α) (f : α → FileSteps β) : (p >>= f).run = p.run >>= (f · |>.run) := by
  funext fs
  induction p generalizing fs with
  | done a => rfl
  | step r next ih => exact ih _ _

theorem run_map (f : α → β) (p : FileSteps α) : (f <$> p).run = f <$> p.run := run_bind p _

theorem run_request_bind {r : FileRequest} {answer : r.Answer} {fs fs' : MemoryFiles}
    (h : r.perform fs = (answer, fs')) (f : r.Answer → FileSteps β) :
    (request r >>= f).run fs = (f answer).run fs' := by
  change (f (r.perform fs).1).run (r.perform fs).2 = _
  rw [h]

theorem run_readAll (path : Bytes) (fs : MemoryFiles) :
    (readAll path).run fs = (fs.readAll path, fs) := by
  have hperform : (FileRequest.openFile path).perform fs = (fs.openFile path, fs) := rfl
  rw [readAll, run_request_bind hperform]
  unfold MemoryFiles.readAll
  rcases fs.openFile_cases path with ⟨fault, hopen⟩ | ⟨data, hopen⟩
  · rw [hopen]
    rfl
  · rw [hopen]
    rfl

theorem run_createWith (path data : Bytes) (fs : MemoryFiles) :
    (createWith path data).run fs = fs.createWith path data := by
  unfold createWith MemoryFiles.createWith
  cases hcreate : fs.createFile path with
  | error e =>
    rw [run_request_bind (FileRequest.perform_createFile_of_error hcreate)]
    rfl
  | ok opened =>
    rw [run_request_bind (FileRequest.perform_createFile_of_ok hcreate)]
    rfl

theorem run_writeAll (path data : Bytes) (fs : MemoryFiles) :
    (writeAll path data).run fs = fs.writeAll path data := by
  unfold writeAll MemoryFiles.writeAll
  dsimp only
  split
  · exact run_createWith path data fs
  · have hperform : (FileRequest.makeDirectories (Path.dir path)).perform fs =
        fs.makeDirectories (Path.dir path) := rfl
    cases hmake : fs.makeDirectories (Path.dir path) with
    | mk answer fs' =>
      rw [run_request_bind (hperform.trans hmake)]
      cases answer with
      | error e => rfl
      | ok => exact run_createWith path data fs'

end FileSteps

/-! ## Programs that take turns -/

/-- Programs that share a tree of files. -/
structure FilePool (α : Type) where
  tasks : List (FileSteps α)
  files : MemoryFiles

/-- What may happen next in a pool. -/
inductive FileTurn where
  /-- a task takes its next step, if it has one -/
  | task (index : Nat)
  /-- time goes on -/
  | time (now : Int)
  deriving DecidableEq, Repr, Inhabited

namespace FileSteps

variable {α : Type}

/-- Takes the next step of a program, if it has one. -/
def advance : FileSteps α → MemoryFiles → FileSteps α × MemoryFiles
  | .done a, fs => (.done a, fs)
  | .step r next, fs => (next (r.perform fs).1, (r.perform fs).2)

/-- What came of a program, if it has no step left. -/
def result? : FileSteps α → Option α
  | .done a => some a
  | .step .. => none

end FileSteps

namespace FilePool

variable {α : Type}

/-- The pool after a turn. -/
def turn (pool : FilePool α) : FileTurn → FilePool α
  | .task i =>
    match pool.tasks[i]? with
    | some p => ⟨pool.tasks.set i (p.advance pool.files).1, (p.advance pool.files).2⟩
    | none => pool
  | .time now => { pool with files := { pool.files with clock := now } }

/-- The pool after some turns. -/
def run (pool : FilePool α) (turns : List FileTurn) : FilePool α := turns.foldl turn pool

/-- What came of all programs, if none has a step left. -/
def results? (pool : FilePool α) : Option (List α) := pool.tasks.mapM FileSteps.result?

/-- All programs are done if there are results, and the results are theirs. -/
theorem results?_eq_some_iff {pool : FilePool α} {results : List α} :
    pool.results? = some results ↔ pool.tasks = results.map .done := by
  unfold results?
  induction pool.tasks generalizing results with
  | nil => cases results <;> simp
  | cons p tasks ih =>
    rw [List.mapM_cons]
    cases p with
    | done a =>
      cases results with
      | nil => simp [FileSteps.result?, Option.bind_eq_some_iff]
      | cons b results => simp [FileSteps.result?, Option.bind_eq_some_iff, ih, and_comm, and_assoc]
    | step r next => cases results <;> simp [FileSteps.result?]

theorem run_append (pool : FilePool α) (turns more : List FileTurn) :
    pool.run (turns ++ more) = (pool.run turns).run more := List.foldl_append

theorem turn_task {pool : FilePool α} {i : Nat} {p : FileSteps α} (h : pool.tasks[i]? = some p) :
    pool.turn (.task i) =
      ⟨pool.tasks.set i (p.advance pool.files).1, (p.advance pool.files).2⟩ := by
  rw [turn, h]

theorem set_task_self {pool : FilePool α} {i : Nat} {p : FileSteps α} (h : pool.tasks[i]? = some p) :
    (⟨pool.tasks.set i p, pool.files⟩ : FilePool α) = pool := by
  obtain ⟨hi, rfl⟩ := List.getElem?_eq_some_iff.mp h
  rw [List.set_getElem_self]

/-- A task may take all its steps while the others wait. -/
theorem exists_run_task_eq {pool : FilePool α} {i : Nat} {p : FileSteps α}
    (h : pool.tasks[i]? = some p) : ∃ turns, pool.run turns =
      ⟨pool.tasks.set i (.done (p.run pool.files).1), (p.run pool.files).2⟩ := by
  induction p generalizing pool with
  | done a => exact ⟨[], (set_task_self h).symm⟩
  | step r next ih =>
    have hturn := turn_task h
    have hnext : (pool.turn (.task i)).tasks[i]? = some (next (r.perform pool.files).1) := by
      obtain ⟨hi, -⟩ := List.getElem?_eq_some_iff.mp h
      rw [hturn]
      exact List.getElem?_set_self hi
    obtain ⟨turns, hturns⟩ := ih _ hnext
    refine ⟨.task i :: turns, hturns.trans ?_⟩
    rw [hturn]
    change (⟨(pool.tasks.set i _).set i _, _⟩ : FilePool α) = _
    rw [List.set_set]
    rfl

theorem exists_run_append_eq (started tasks : List (FileSteps α)) (fs : MemoryFiles) :
    ∃ turns, (⟨started ++ tasks, fs⟩ : FilePool α).run turns =
      ⟨started ++ (tasks.mapM FileSteps.run fs).1.map .done, (tasks.mapM FileSteps.run fs).2⟩ := by
  induction tasks generalizing started fs with
  | nil => exact ⟨[], rfl⟩
  | cons p tasks ih =>
    have hp : (⟨started ++ p :: tasks, fs⟩ : FilePool α).tasks[started.length]? = some p := by
      change (started ++ p :: tasks)[started.length]? = some p
      rw [List.getElem?_append_right (Nat.le_refl _), Nat.sub_self]
      rfl
    obtain ⟨turns, hturns⟩ := exists_run_task_eq hp
    obtain ⟨more, hmore⟩ := ih (started ++ [.done (p.run fs).1]) (p.run fs).2
    refine ⟨turns ++ more, ?_⟩
    have hset : (started ++ p :: tasks).set started.length (.done (p.run fs).1) =
        (started ++ [.done (p.run fs).1]) ++ tasks := by
      rw [List.set_append_right _ _ (Nat.le_refl _), Nat.sub_self, List.append_assoc]
      rfl
    have hcons : (p :: tasks).mapM FileSteps.run fs =
        ((p.run fs).1 :: (tasks.mapM FileSteps.run (p.run fs).2).1,
          (tasks.mapM FileSteps.run (p.run fs).2).2) := by
      rw [List.mapM_cons]
      rfl
    dsimp only at hturns
    rw [run_append, hturns, hset, hmore, hcons, List.append_assoc]
    rfl

/-- The tasks may take their steps one task after the other. -/
theorem exists_run_eq (pool : FilePool α) : ∃ turns, pool.run turns =
    ⟨(pool.tasks.mapM FileSteps.run pool.files).1.map .done,
      (pool.tasks.mapM FileSteps.run pool.files).2⟩ :=
  exists_run_append_eq [] pool.tasks pool.files

/-- A pool can always be brought to an end. -/
theorem exists_run_results (pool : FilePool α) : ∃ turns, (pool.run turns).results?.isSome := by
  obtain ⟨turns, hturns⟩ := pool.exists_run_eq
  refine ⟨turns, ?_⟩
  rw [results?_eq_some_iff.mpr (congrArg FilePool.tasks hturns)]
  rfl

end FilePool

end OnePass
