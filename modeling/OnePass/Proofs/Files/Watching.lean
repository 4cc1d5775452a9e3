import OnePass.Files.Poller
import OnePass.Proofs.Files.Desk
set_option autoImplicit false

/-!
# Watching files

A watch is a desk with a poller.  A round reports a watched path if the time of its last change is later
than the one that the poller knows of it (`mem_changed_iff`), and the poller knows that time from then on
(`getElem?_watched_poll`).  What a poller knows of a path follows from what happened (`Follows`): a path is
not reported again without being put anew, and each report is later than the one before.  If the time goes
on between changes of a path, then the path is reported whenever it was changed since its last report
(`poller_reports_each_change_once`).
-/

namespace OnePass

open MemoryFiles

namespace Poller

variable {fs : MemoryFiles} {path : Bytes}

/-! ## One round -/

theorem lastChange_eq (fs : MemoryFiles) (path : Bytes) :
    lastChange fs path = (fs.find? (keyOf path)).map FileEntry.modified := by
  rw [lastChange, stat]
  cases fs.find? (keyOf path) <;> rfl

/-- Whether a path is to be reported, given the time that is known of it. -/
def isOverdue (fs : MemoryFiles) (entry : Bytes × Option Int) : Bool :=
  (lastChange fs entry.1).any (isNews · entry.2)

theorem look_of_overdue {entry : Bytes × Option Int} (h : isOverdue fs entry = true)
    (state : Round × Poller) : look fs state entry =
      ({ state.1 with changed := state.1.changed ++ [entry.1] },
        ⟨state.2.watched.insert entry.1 (lastChange fs entry.1)⟩) := by
  rw [isOverdue, lastChange] at h
  rw [look, lastChange]
  cases hstat : fs.stat entry.1 with
  | error fault =>
    rw [hstat] at h
    cases h
  | ok info =>
    rw [hstat] at h
    exact if_pos h

theorem look_of_not_overdue {entry : Bytes × Option Int} (h : isOverdue fs entry = false)
    (state : Round × Poller) :
    (look fs state entry).1.changed = state.1.changed ∧ (look fs state entry).2 = state.2 := by
  rw [isOverdue, lastChange] at h
  rw [look]
  cases hstat : fs.stat entry.1 with
  | error fault => exact ⟨rfl, rfl⟩
  | ok info =>
    rw [hstat] at h
    have hnews : ¬isNews info.modified entry.2 = true := Bool.eq_false_iff.mp h
    dsimp only
    rw [if_neg hnews]
    exact ⟨rfl, rfl⟩

theorem changed_foldl_look (fs : MemoryFiles) (state : Round × Poller) (entries : List (Bytes × Option Int)) :
    (entries.foldl (look fs) state).1.changed =
      state.1.changed ++ (entries.filter (isOverdue fs)).map Prod.fst := by
  induction entries generalizing state with
  | nil => exact (List.append_nil _).symm
  | cons entry entries ih =>
    rw [List.foldl_cons, ih]
    cases hdue : isOverdue fs entry with
    | true =>
      rw [look_of_overdue hdue, List.filter_cons_of_pos hdue, List.map_cons, List.append_assoc]
      rfl
    | false =>
      rw [(look_of_not_overdue hdue state).1, List.filter_cons_of_neg (Bool.eq_false_iff.mp hdue)]

theorem watched_foldl_look (fs : MemoryFiles) (state : Round × Poller) (entries : List (Bytes × Option Int))
    (path : Bytes) : (entries.foldl (look fs) state).2.watched[path]? =
      if path ∈ (entries.filter (isOverdue fs)).map Prod.fst then some (lastChange fs path)
      else state.2.watched[path]? := by
  induction entries generalizing state with
  | nil => rfl
  | cons entry entries ih =>
    rw [List.foldl_cons, ih]
    cases hdue : isOverdue fs entry with
    | false =>
      rw [(look_of_not_overdue hdue state).2, List.filter_cons_of_neg (Bool.eq_false_iff.mp hdue)]
    | true =>
      rw [look_of_overdue hdue, List.filter_cons_of_pos hdue, List.map_cons]
      dsimp only
      rw [Std.ExtTreeMap.getElem?_insert]
      by_cases hpath : entry.1 = path
      · rw [if_pos (Std.compare_eq_iff_eq.mpr hpath), hpath, ite_self, if_pos List.mem_cons_self]
      · have hmem : path ∈ entry.1 :: (entries.filter (isOverdue fs)).map Prod.fst ↔
            path ∈ (entries.filter (isOverdue fs)).map Prod.fst := by
          simp [Ne.symm hpath]
        rw [if_neg fun heq => hpath (Std.compare_eq_iff_eq.mp heq)]
        exact (if_congr hmem rfl rfl).symm

/-- The paths that a round reports. -/
theorem mem_changed_iff (p : Poller) (fs : MemoryFiles) (path : Bytes) :
    path ∈ (p.poll fs).1.changed ↔
      ∃ seen, p.watched[path]? = some seen ∧ isOverdue fs (path, seen) = true := by
  rw [poll, changed_foldl_look]
  simp only [List.nil_append, List.mem_map, List.mem_filter]
  constructor
  · rintro ⟨entry, ⟨hmem, hdue⟩, rfl⟩
    exact ⟨entry.2, Std.ExtTreeMap.mem_toList_iff_getElem?_eq_some.mp hmem, hdue⟩
  · rintro ⟨seen, hseen, hdue⟩
    exact ⟨(path, seen), ⟨Std.ExtTreeMap.mem_toList_iff_getElem?_eq_some.mpr hseen, hdue⟩, rfl⟩

/-- A path is reported once. -/
theorem nodup_changed (p : Poller) (fs : MemoryFiles) : (p.poll fs).1.changed.Nodup := by
  have hdistinct : (p.watched.toList.map Prod.fst).Nodup := by
    refine List.pairwise_map.mpr (Std.ExtTreeMap.distinct_keys_toList.imp ?_)
    exact fun hne heq => hne (Std.compare_eq_iff_eq.mpr heq)
  rw [poll, changed_foldl_look]
  exact hdistinct.sublist (List.filter_sublist.map Prod.fst)

theorem getElem?_watched_poll (p : Poller) (fs : MemoryFiles) (path : Bytes) :
    (p.poll fs).2.watched[path]? =
      if path ∈ (p.poll fs).1.changed then some (lastChange fs path) else p.watched[path]? := by
  rw [poll, changed_foldl_look, watched_foldl_look]
  rfl

/-- The time that is known of a path after a round. -/
theorem getElem?_watched_poll_of_mem {p : Poller} (h : path ∈ (p.poll fs).1.changed) :
    (p.poll fs).2.watched[path]? = some (lastChange fs path) := by
  rw [getElem?_watched_poll, if_pos h]

theorem getElem?_watched_poll_of_notMem {p : Poller} (h : path ∉ (p.poll fs).1.changed) :
    (p.poll fs).2.watched[path]? = p.watched[path]? := by
  rw [getElem?_watched_poll, if_neg h]

theorem getElem?_watched_add (p : Poller) (fs : MemoryFiles) (added path : Bytes) :
    (p.add fs added).watched[path]? = if added = path then some (lastChange fs path) else p.watched[path]? := by
  rw [add, Std.ExtTreeMap.getElem?_insert]
  simp only [Std.compare_eq_iff_eq]
  split
  · next heq => rw [heq]
  · rfl

theorem getElem?_watched_remove (p : Poller) (removed path : Bytes) :
    (p.remove removed).watched[path]? = if removed = path then none else p.watched[path]? := by
  rw [remove, Std.ExtTreeMap.getElem?_erase]
  simp only [Std.compare_eq_iff_eq]

end Poller

/-! ## Watches -/

/-- What may be done on a watch. -/
inductive WatchAction where
  | act (a : FileAction)
  | add (path : Bytes)
  | remove (path : Bytes)
  | poll
  deriving DecidableEq, Repr, Inhabited

/-- What happened on a watch. -/
inductive WatchEvent where
  /-- something was done on a desk -/
  | acted (before : FileDesk) (a : FileAction)
  | added (path : Bytes)
  | removed (path : Bytes)
  /-- a round was made over these files, and reported these paths -/
  | polled (files : MemoryFiles) (changed : List Bytes)

/-- A desk with a poller, and what happened, from the last event on. -/
structure Watch where
  desk : FileDesk
  poller : Poller := .empty
  history : List WatchEvent := []

namespace Watch

/-- What a round reports now. -/
def reported (w : Watch) : List Bytes := (w.poller.poll w.desk.files).1.changed

/-- The watch after an action. -/
def step (w : Watch) : WatchAction → Watch
  | .act a => { w with desk := (w.desk.perform a).2, history := .acted w.desk a :: w.history }
  | .add path =>
    { w with poller := w.poller.add w.desk.files path, history := .added path :: w.history }
  | .remove path => { w with poller := w.poller.remove path, history := .removed path :: w.history }
  | .poll =>
    { w with
      poller := (w.poller.poll w.desk.files).2
      history := .polled w.desk.files w.reported :: w.history }

/-- The watch after some actions. -/
def run (w : Watch) (actions : List WatchAction) : Watch := actions.foldl step w

end Watch

/-! ## What a history says of a path -/

/-- Whether an event put something under a key. -/
def WatchEvent.puts (key : Bytes) : WatchEvent → Bool
  | .acted before a => (before.imprint? key a).any Option.isSome
  | _ => false

theorem WatchEvent.exists_of_puts {d : FileDesk} {a : FileAction} {key : Bytes}
    (h : (WatchEvent.acted d a).puts key = true) : ∃ e, d.imprint? key a = some (some e) := by
  rw [puts] at h
  cases himprint : d.imprint? key a with
  | none =>
    rw [himprint] at h
    cases h
  | some left =>
    rw [himprint] at h
    obtain ⟨e, rfl⟩ := Option.isSome_iff_exists.mp h
    exact ⟨e, rfl⟩

/-- What is under a key was there before, if nothing was put there. -/
theorem WatchEvent.find?_of_not_puts {d : FileDesk} {a : FileAction} {key : Bytes} {e : FileEntry}
    (h : (WatchEvent.acted d a).puts key = false) (he : (d.perform a).2.files.find? key = some e) :
    d.files.find? key = some e := by
  rw [d.find?_perform] at he
  rw [puts] at h
  cases himprint : d.imprint? key a with
  | none =>
    rw [himprint] at he
    exact he
  | some left =>
    rw [himprint] at he h
    obtain rfl : left = some e := he
    cases h

/-- Whether a path is watched: it was added, and not removed since. -/
def isWatched (path : Bytes) : List WatchEvent → Bool
  | [] => false
  | .added other :: history => other = path || isWatched path history
  | .removed other :: history => other ≠ path && isWatched path history
  | _ :: history => isWatched path history

/-- The times for which a path was reported since it was last added, from the last one on. -/
def reportTimes (path : Bytes) : List WatchEvent → List Int
  | [] => []
  | .added other :: history => if other = path then [] else reportTimes path history
  | .polled files changed :: history =>
    if changed.contains path then (Poller.lastChange files path).toList ++ reportTimes path history
    else reportTimes path history
  | _ :: history => reportTimes path history

/-- Whether a path was made or written since it was last reported or added. -/
def isDue (path : Bytes) : List WatchEvent → Bool
  | [] => false
  | .added other :: history => other ≠ path && isDue path history
  | .polled _ changed :: history => !changed.contains path && isDue path history
  | event :: history => event.puts (keyOf path) || isDue path history

/-- Whether a path was neither made nor written since the last round, or since it was added. -/
def isStill (path : Bytes) : List WatchEvent → Bool
  | [] => false
  | .added other :: history => other = path || isStill path history
  | .polled .. :: _ => true
  | event :: history => !event.puts (keyOf path) && isStill path history

/-- The times at which something was put under a key, from the last one on; what was there at the start
was put there before. -/
def changeTimes (start : MemoryFiles) (key : Bytes) : List WatchEvent → List Int
  | [] => ((start.find? key).map FileEntry.modified).toList
  | .acted before a :: history =>
    if (WatchEvent.acted before a).puts key then before.files.clock :: changeTimes start key history
    else changeTimes start key history
  | _ :: history => changeTimes start key history

namespace Watch

/-! ## What the poller knows of a path -/

/-- Whether what a poller knows of a path follows from what happened. -/
structure Follows (start : MemoryFiles) (path : Bytes) (w : Watch) : Prop where
  watched : w.poller.watched[path]?.isSome = isWatched path w.history
  latest (e : FileEntry) : w.desk.files.find? (keyOf path) = some e →
    (changeTimes start (keyOf path) w.history).head? = some e.modified
  recorded (time : Int) : w.poller.watched[path]? = some (some time) →
    time ∈ changeTimes start (keyOf path) w.history
  ordered : (reportTimes path w.history).Pairwise (· > ·)
  surpassed (seen : Option Int) : w.poller.watched[path]? = some seen →
    ∀ time ∈ reportTimes path w.history, ∃ known, seen = some known ∧ time ≤ known
  unchanged (seen : Option Int) (e : FileEntry) : isDue path w.history = false →
    w.poller.watched[path]? = some seen → w.desk.files.find? (keyOf path) = some e →
    seen = some e.modified
  still (seen : Option Int) (e : FileEntry) : isStill path w.history = true →
    w.poller.watched[path]? = some seen → w.desk.files.find? (keyOf path) = some e →
    ∃ known, seen = some known ∧ e.modified ≤ known
  fresh (seen : Option Int) (time : Int) : (changeTimes start (keyOf path) w.history).Pairwise (· > ·) →
    isDue path w.history = true → w.poller.watched[path]? = some seen →
    (changeTimes start (keyOf path) w.history).head? = some time → seen.all (· < time)

section Follows

variable {start : MemoryFiles} {path : Bytes} {w : Watch}

theorem follows_start (d : FileDesk) (path : Bytes) : Follows d.files path { desk := d } := by
  have hnone : Poller.empty.watched[path]? = none := by
    simp [Poller.empty]
  have hsome {seen : Option Int} (h : Poller.empty.watched[path]? = some seen) : False := by
    rw [hnone] at h
    cases h
  refine ⟨by rw [hnone]; rfl, fun e he => ?_, fun time h => (hsome h).elim, .nil,
    fun seen h => (hsome h).elim, fun seen e _ h => (hsome h).elim, fun seen e _ h => (hsome h).elim,
    fun seen time _ _ h => (hsome h).elim⟩
  rw [changeTimes, he]
  rfl

/-- An event that says nothing about the path. -/
theorem Follows.of_same (h : Follows start path w) {w' : Watch}
    (hfiles : ∀ e, w'.desk.files.find? (keyOf path) = some e → w.desk.files.find? (keyOf path) = some e)
    (hpoller : w'.poller.watched[path]? = w.poller.watched[path]?)
    (hwatched : isWatched path w'.history = isWatched path w.history)
    (hreports : reportTimes path w'.history = reportTimes path w.history)
    (hdue : isDue path w'.history = isDue path w.history)
    (hstill : isStill path w'.history = isStill path w.history)
    (hchanges : changeTimes start (keyOf path) w'.history = changeTimes start (keyOf path) w.history) :
    Follows start path w' where
  watched := by rw [hpoller, hwatched, h.watched]
  latest e he := by rw [hchanges, h.latest e (hfiles e he)]
  recorded := by rw [hpoller, hchanges]; exact h.recorded
  ordered := by rw [hreports]; exact h.ordered
  surpassed := by rw [hpoller, hreports]; exact h.surpassed
  unchanged seen e := by rw [hpoller, hdue]; exact fun hd hseen he => h.unchanged seen e hd hseen (hfiles e he)
  still seen e := by rw [hpoller, hstill]; exact fun hs hseen he => h.still seen e hs hseen (hfiles e he)
  fresh := by rw [hpoller, hdue, hchanges]; exact h.fresh

/-- What is known of a path that is there now was the time of a change. -/
theorem Follows.lastChange_mem (h : Follows start path w) {time : Int}
    (htime : Poller.lastChange w.desk.files path = some time) :
    time ∈ changeTimes start (keyOf path) w.history := by
  rw [Poller.lastChange_eq] at htime
  obtain ⟨e, he, rfl⟩ := Option.map_eq_some_iff.mp htime
  exact List.mem_of_mem_head? (h.latest e he)

theorem Follows.act (h : Follows start path w) (a : FileAction) : Follows start path (w.step (.act a)) := by
  cases hputs : (WatchEvent.acted w.desk a).puts (keyOf path) with
  | false =>
    refine h.of_same (fun e he => WatchEvent.find?_of_not_puts hputs he) rfl rfl rfl ?_ ?_ ?_
    · simp [step, isDue, hputs]
    · simp [step, isStill, hputs]
    · simp [step, changeTimes, hputs]
  | true =>
    obtain ⟨e, himprint⟩ := WatchEvent.exists_of_puts hputs
    have hchanges : changeTimes start (keyOf path) (w.step (.act a)).history =
        w.desk.files.clock :: changeTimes start (keyOf path) w.history := by
      simp [step, changeTimes, hputs]
    have hdue : isDue path (w.step (.act a)).history = true := by
      simp [step, isDue, hputs]
    have hstill : isStill path (w.step (.act a)).history = false := by
      simp [step, isStill, hputs]
    have hfind : (w.step (.act a)).desk.files.find? (keyOf path) = some e := by
      change (w.desk.perform a).2.files.find? (keyOf path) = some e
      rw [w.desk.find?_perform, himprint]
      rfl
    refine ⟨h.watched, fun e' he => ?_, fun time htime => ?_, h.ordered, h.surpassed, fun seen e' hdue' => ?_,
      fun seen e' hstill' => ?_, fun seen time hclock _ hseen htime => ?_⟩
    · rw [hfind] at he
      cases he
      rw [hchanges, FileDesk.modified_of_imprint? himprint]
      rfl
    · rw [hchanges]
      exact List.mem_cons_of_mem _ (h.recorded time htime)
    · exact absurd (hdue'.symm.trans hdue) Bool.false_ne_true
    · exact absurd (hstill.symm.trans hstill') Bool.false_ne_true
    · -- What is known of the path is the time of an earlier change.
      rw [hchanges] at hclock htime
      cases htime
      cases seen with
      | none => rfl
      | some known => exact decide_eq_true (List.rel_of_pairwise_cons hclock (h.recorded known hseen))

theorem Follows.add (h : Follows start path w) (other : Bytes) :
    Follows start path (w.step (.add other)) := by
  have hpoller : (w.step (.add other)).poller.watched[path]? =
      if other = path then some (Poller.lastChange w.desk.files path) else w.poller.watched[path]? :=
    Poller.getElem?_watched_add w.poller w.desk.files other path
  by_cases hother : other = path
  · rw [if_pos hother] at hpoller
    have hlast (e : FileEntry) (he : w.desk.files.find? (keyOf path) = some e) (seen : Option Int)
        (hseen : (w.step (.add other)).poller.watched[path]? = some seen) : seen = some e.modified := by
      rw [hpoller, Poller.lastChange_eq, he] at hseen
      cases hseen
      rfl
    refine ⟨?_, h.latest, fun time htime => ?_, ?_, fun seen hseen time htime => ?_,
      fun seen e _ hseen he => hlast e he seen hseen,
      fun seen e _ hseen he => ⟨e.modified, hlast e he seen hseen, Int.le_refl _⟩,
      fun seen time _ hdue => ?_⟩
    · rw [hpoller]
      simp [step, isWatched, hother]
    · rw [hpoller] at htime
      exact h.lastChange_mem (Option.some.inj htime)
    · simp [step, reportTimes, hother]
    · simp [step, reportTimes, hother] at htime
    · simp [step, isDue, hother] at hdue
  · rw [if_neg hother] at hpoller
    refine h.of_same (fun _ => id) hpoller ?_ ?_ ?_ ?_ rfl
    · simp [step, isWatched, hother]
    · simp [step, reportTimes, hother]
    · simp [step, isDue, hother]
    · simp [step, isStill, hother]

theorem Follows.remove (h : Follows start path w) (other : Bytes) :
    Follows start path (w.step (.remove other)) := by
  have hpoller : (w.step (.remove other)).poller.watched[path]? =
      if other = path then none else w.poller.watched[path]? :=
    Poller.getElem?_watched_remove w.poller other path
  by_cases hother : other = path
  · rw [if_pos hother] at hpoller
    have hnone {seen : Option Int} (hseen : (w.step (.remove other)).poller.watched[path]? = some seen) :
        False := by
      rw [hpoller] at hseen
      cases hseen
    refine ⟨?_, h.latest, fun _ hseen => (hnone hseen).elim, h.ordered, fun _ hseen => (hnone hseen).elim,
      fun _ _ _ hseen => (hnone hseen).elim, fun _ _ _ hseen => (hnone hseen).elim,
      fun _ _ _ _ hseen => (hnone hseen).elim⟩
    rw [hpoller]
    simp [step, isWatched, hother]
  · rw [if_neg hother] at hpoller
    refine h.of_same (fun _ => id) hpoller ?_ rfl rfl rfl rfl
    simp [step, isWatched, hother]

/-- A path that is reported is there, and it was changed later than is known. -/
theorem mem_reported_iff {w : Watch} {path : Bytes} : path ∈ w.reported ↔
    ∃ seen e, w.poller.watched[path]? = some seen ∧ w.desk.files.find? (keyOf path) = some e ∧
      seen.all (· < e.modified) = true := by
  have hoverdue (seen : Option Int) : Poller.isOverdue w.desk.files (path, seen) = true ↔
      ∃ e, w.desk.files.find? (keyOf path) = some e ∧ seen.all (· < e.modified) = true := by
    rw [Poller.isOverdue, Poller.lastChange_eq]
    cases w.desk.files.find? (keyOf path) <;> simp [Poller.isNews]
  rw [reported, Poller.mem_changed_iff]
  simp only [hoverdue, exists_and_left]

theorem Follows.poll (h : Follows start path w) : Follows start path (w.step .poll) := by
  by_cases hmem : path ∈ w.reported
  · obtain ⟨seen, e, hseen, he, hnews⟩ := mem_reported_iff.mp hmem
    have hlast : Poller.lastChange w.desk.files path = some e.modified := by
      rw [Poller.lastChange_eq, he]
      rfl
    have hpoller : (w.step .poll).poller.watched[path]? = some (some e.modified) := by
      rw [← hlast]
      exact Poller.getElem?_watched_poll_of_mem hmem
    have hreports : reportTimes path (w.step .poll).history = e.modified :: reportTimes path w.history := by
      simp [step, reportTimes, hmem, hlast]
    have hearlier : ∀ time ∈ reportTimes path w.history, time < e.modified := by
      intro time htime
      obtain ⟨known, rfl, hle⟩ := h.surpassed seen hseen time htime
      exact Int.lt_of_le_of_lt hle (of_decide_eq_true hnews)
    refine ⟨?_, h.latest, fun time htime => ?_, ?_, fun seen' hseen' time htime => ?_,
      fun seen' e' _ hseen' he' => ?_, fun seen' e' _ hseen' he' => ?_, fun seen' time _ hdue => ?_⟩
    · have hwatched := h.watched
      rw [hseen] at hwatched
      rw [hpoller]
      exact hwatched
    · rw [hpoller] at htime
      cases htime
      exact h.lastChange_mem hlast
    · rw [hreports]
      exact List.pairwise_cons.mpr ⟨hearlier, h.ordered⟩
    · rw [hpoller] at hseen'
      rw [hreports] at htime
      cases hseen'
      rcases List.mem_cons.mp htime with rfl | htime
      · exact ⟨e.modified, rfl, Int.le_refl _⟩
      · exact ⟨e.modified, rfl, Int.le_of_lt (hearlier time htime)⟩
    · rw [hpoller] at hseen'
      cases hseen'
      rw [Option.some.inj (he.symm.trans he')]
    · rw [hpoller] at hseen'
      cases hseen'
      exact ⟨e.modified, rfl, Int.le_of_eq (by rw [Option.some.inj (he.symm.trans he')])⟩
    · simp [step, isDue, hmem] at hdue
  · have hpoller : (w.step .poll).poller.watched[path]? = w.poller.watched[path]? :=
      Poller.getElem?_watched_poll_of_notMem hmem
    have hreports : reportTimes path (w.step .poll).history = reportTimes path w.history := by
      simp [step, reportTimes, hmem]
    have hdue : isDue path (w.step .poll).history = isDue path w.history := by
      simp [step, isDue, hmem]
    refine ⟨?_, h.latest, ?_, ?_, ?_, ?_, fun seen e _ hseen he => ?_, ?_⟩
    · rw [hpoller]
      exact h.watched
    · rw [hpoller]
      exact h.recorded
    · rw [hreports]
      exact h.ordered
    · rw [hpoller, hreports]
      exact h.surpassed
    · rw [hpoller, hdue]
      exact h.unchanged
    · -- The path would have been reported if it had been changed later than is known.
      rw [hpoller] at hseen
      cases seen with
      | none => exact absurd (mem_reported_iff.mpr ⟨none, e, hseen, he, rfl⟩) hmem
      | some known =>
        refine ⟨known, rfl, Int.not_lt.mp fun hlt => hmem ?_⟩
        exact mem_reported_iff.mpr ⟨some known, e, hseen, he, decide_eq_true hlt⟩
    · rw [hpoller, hdue]
      exact h.fresh

theorem Follows.run (h : Follows start path w) (actions : List WatchAction) :
    Follows start path (w.run actions) := by
  induction actions generalizing w with
  | nil => exact h
  | cons a actions ih =>
    cases a with
    | act a => exact ih (h.act a)
    | add other => exact ih (h.add other)
    | remove other => exact ih (h.remove other)
    | poll => exact ih h.poll

/-! ## What is reported -/

/-- A path that was neither made nor written since the last round is not reported. -/
theorem Follows.notMem_of_isStill (h : Follows start path w) (hstill : isStill path w.history = true) :
    path ∉ w.reported := by
  intro hmem
  obtain ⟨seen, e, hseen, he, hnews⟩ := mem_reported_iff.mp hmem
  obtain ⟨known, rfl, hle⟩ := h.still seen e hstill hseen he
  exact absurd hle (Int.not_le.mpr (of_decide_eq_true hnews))

/-- If time goes on between changes, the paths that were changed are reported. -/
theorem Follows.mem_reported_iff (h : Follows start path w)
    (hclock : (changeTimes start (keyOf path) w.history).Pairwise (· > ·)) : path ∈ w.reported ↔
      isWatched path w.history = true ∧ (w.desk.files.find? (keyOf path)).isSome ∧
        isDue path w.history = true := by
  rw [Watch.mem_reported_iff]
  constructor
  · rintro ⟨seen, e, hseen, he, hnews⟩
    refine ⟨by rw [← h.watched, hseen]; rfl, by rw [he]; rfl, Bool.not_eq_false _ ▸ fun hdue => ?_⟩
    rw [h.unchanged seen e hdue hseen he] at hnews
    exact absurd (of_decide_eq_true hnews) (Int.lt_irrefl _)
  · rintro ⟨hwatched, hthere, hdue⟩
    rw [← h.watched] at hwatched
    obtain ⟨seen, hseen⟩ := Option.isSome_iff_exists.mp hwatched
    obtain ⟨e, he⟩ := Option.isSome_iff_exists.mp hthere
    exact ⟨seen, e, hseen, he, h.fresh seen e.modified hclock hdue hseen (h.latest e he)⟩

end Follows

/-- Whatever is done on a watch: the times for which a path is reported since it was added increase, and a
path is not reported if it was neither made nor written since the last round.  If the clock is later at
each change under the path's key than at the changes before, a round reports the path once if it is
watched, is there and was made or written since it was last reported or added, and otherwise not at all. -/
theorem poller_reports_each_change_once (d : FileDesk) (actions : List WatchAction) (path : Bytes) :
    let w := run { desk := d } actions
    (reportTimes path w.history).Pairwise (· > ·) ∧
      (isStill path w.history = true → w.reported.count path = 0) ∧
      ((changeTimes d.files (keyOf path) w.history).Pairwise (· > ·) →
        w.reported.count path =
          if isWatched path w.history ∧ (w.desk.files.stat path).isOk ∧ isDue path w.history then 1 else 0) := by
  intro w
  have hfollows := (follows_start d path).run actions
  refine ⟨hfollows.ordered, fun hstill => ?_, fun hclock => ?_⟩
  · exact List.count_eq_zero.mpr (hfollows.notMem_of_isStill hstill)
  · have hthere : (w.desk.files.stat path).isOk = (w.desk.files.find? (keyOf path)).isSome := by
      rw [stat]
      cases w.desk.files.find? (keyOf path) <;> rfl
    have hcount : w.reported.count path = if path ∈ w.reported then 1 else 0 :=
      (Poller.nodup_changed _ _).count
    rw [hthere, hcount]
    exact if_congr (hfollows.mem_reported_iff hclock) rfl rfl

/-- A path is watched before there is a file.  The file is made and reported, it is removed, it is made
again and reported while it is empty, and then it is published. -/
def watchingActions : List WatchAction :=
  [.add (text "p"), .poll, .act (.setClock 1), .act (.addFile (text "/p") (text "old")), .poll,
    .act (.remove (text "p")), .poll, .act (.setClock 2), .act (.createFile (text "p")), .poll, .poll,
    .act (.setClock 3), .act (.write 0 (text "new")), .act (.close 0)]

/-- The published file is reported, as the two files before it were, and then it is not reported again. -/
theorem watchingActions_reported :
    let w := run { desk := .empty } watchingActions
    let later := run { desk := .empty } (watchingActions ++ [.poll])
    reportTimes (text "p") w.history = [2, 1] ∧
      (changeTimes MemoryFiles.empty (keyOf (text "p")) w.history).Pairwise (· > ·) ∧
      w.reported.count (text "p") = 1 ∧
      isStill (text "p") later.history = true ∧ later.reported.count (text "p") = 0 := by
  intro w later
  obtain ⟨hreports, hclock, hdue, hstill⟩ : reportTimes (text "p") w.history = [2, 1] ∧
      (changeTimes MemoryFiles.empty (keyOf (text "p")) w.history).Pairwise (· > ·) ∧
      (isWatched (text "p") w.history = true ∧ (w.desk.files.stat (text "p")).isOk = true ∧
        isDue (text "p") w.history = true) ∧ isStill (text "p") later.history = true := by
    decide +kernel
  obtain ⟨-, -, hcount⟩ := poller_reports_each_change_once .empty watchingActions (text "p")
  obtain ⟨-, hquiet, -⟩ := poller_reports_each_change_once .empty (watchingActions ++ [.poll]) (text "p")
  exact ⟨hreports, hclock, (hcount hclock).trans (if_pos hdue), hstill, hquiet hstill⟩

end Watch

end OnePass
