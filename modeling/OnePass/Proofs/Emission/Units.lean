import Mathlib.Data.List.Nodup
import OnePass.Proofs.Translation.Basic
set_option autoImplicit false

/-!
# Histories of a builder

What can be done to a builder is an action; an action that is refused leaves the builder as it was
(`Builder.perform`).  A function is parked when a procedure is opened inside of it, and nothing that happens
until the procedure is closed or discarded reaches it: parked functions are a stack, and what is done between
the opening of a procedure and its end (`Builder.Bracketed`) keeps the stack that it starts with.

Slots are numbered inside each function.  A ledger keeps the names that functions have handed out since they
were opened, next to the functions themselves; whatever the history is, the names of a function are the
numbers from one on (`Ledger.Agrees`).
-/

namespace OnePass.Ir

open OnePass.Tree (slotLines ofProcedure_eq)

/-! ## Actions -/

/-- What can be done to a builder. -/
inductive Action where
  | openProgram
  | addLocal (line : Line)
  | addGlobal (line : Line)
  | nextSlot
  | declare (name : Bytes) (sym : Symbol)
  | openProcedure (name : Bytes) (sym : Symbol)
  | closeProcedure
  | discardProcedure
  | finish

namespace Action

/-- Whether an action neither starts nor ends a procedure. -/
def isPlain : Action → Bool
  | .openProgram | .addLocal _ | .addGlobal _ | .nextSlot | .declare _ _ => true
  | _ => false

/-- Whether an action ends a procedure. -/
def leaves : Action → Bool
  | .closeProcedure | .discardProcedure => true
  | _ => false

/-- The global variables that an action adds. -/
def globals : Action → List Line
  | .addGlobal line => [line]
  | _ => []

/-- Whether an action cannot be carried out: variables and parameters have to be scalars, bounds have to give
a size, a procedure that is ended has to be open, and none may be open when the code is finished. -/
def Refused (b : Builder) : Action → Prop
  | .declare _ sym =>
    ¬(sym.kind.isScalar = true ∧ ∀ bounds ∈ sym.bounds, ∃ n, bounds.length = .ok n ∧ 0 ≤ n)
  | .openProcedure _ sym => ∃ p ∈ sym.parameters, p.kind.isScalar = false
  | .closeProcedure | .discardProcedure => b.parked = []
  | .finish => b.parked ≠ []
  | _ => False

end Action

/-- The function at the end of its procedure. -/
def Function.ended (f : Function) : Function := (f.push .returnVoid).push .close

namespace Builder

/-- The builder after an action, if the action succeeds. -/
def attempt (b : Builder) : Action → Except Error Builder
  | .openProgram => .ok b.openProgram
  | .addLocal line => .ok (b.addLocal line)
  | .addGlobal line => .ok (b.addGlobal line)
  | .nextSlot => .ok b.nextSlot.2
  | .declare name sym => (declaration name sym).map fun _ => b
  | .openProcedure name sym => b.openProcedure name sym
  | .closeProcedure => b.closeProcedure
  | .discardProcedure => b.discardProcedure
  | .finish => b.finish.map fun _ => b

/-- The builder after an action. -/
def perform (b : Builder) (a : Action) : Builder :=
  match b.attempt a with
  | .ok b' => b'
  | .error _ => b

/-- The builder after a history. -/
def run (b : Builder) (actions : List Action) : Builder := actions.foldl perform b

/-- The function that an action finishes, if it finishes one. -/
def closedBy (b : Builder) : Action → List Function
  | .closeProcedure => if b.parked.isEmpty then [] else [b.current.ended]
  | _ => []

/-- The functions that are finished in a history, in the order in which they are. -/
def closed (b : Builder) : List Action → List Function
  | [] => []
  | a :: actions => b.closedBy a ++ (b.perform a).closed actions

/-- What can be done to a builder between the opening of a procedure and its end: actions that start or end
none, actions that are refused, and whole procedures. -/
inductive Bracketed : Builder → List Action → Prop where
  | nil (b : Builder) : Bracketed b []
  | plain {b : Builder} {a : Action} {rest : List Action} :
      a.isPlain = true → Bracketed (b.perform a) rest → Bracketed b (a :: rest)
  | refused {b : Builder} {a : Action} {rest : List Action} :
      a.Refused b → Bracketed (b.perform a) rest → Bracketed b (a :: rest)
  | procedure {b b' : Builder} {name : Bytes} {sym : Symbol} {inner rest : List Action} {last : Action} :
      b.openProcedure name sym = .ok b' → Bracketed b' inner → last.leaves = true →
      Bracketed ((b'.run inner).perform last) rest →
      Bracketed b (.openProcedure name sym :: inner ++ last :: rest)

@[simp] theorem run_nil (b : Builder) : b.run [] = b := rfl

@[simp] theorem run_cons (b : Builder) (a : Action) (actions : List Action) :
    b.run (a :: actions) = (b.perform a).run actions := rfl

@[simp] theorem run_append (b : Builder) (before after : List Action) :
    b.run (before ++ after) = (b.run before).run after := List.foldl_append

/-! ## Refused actions -/

section Step

variable {b b' : Builder} {a : Action}

theorem perform_of_ok (h : b.attempt a = .ok b') : b.perform a = b' := by
  rw [perform, h]

theorem perform_of_error {e : Error} (h : b.attempt a = .error e) : b.perform a = b := by
  rw [perform, h]

theorem ofParameter_isOk_iff (p : Parameter) :
    (∃ f, Formal.ofParameter p = .ok f) ↔ p.kind.isScalar = true := by
  unfold Formal.ofParameter
  cases p.kind with
  | scalar s =>
    refine ⟨fun _ => rfl, fun _ => ?_⟩
    dsimp only
    split
    · exact ⟨_, rfl⟩
    · exact ⟨_, rfl⟩
  | _ => simp [Kind.isScalar]

/-- Parameters can be emitted if and only if all of them are scalars. -/
theorem mapM_ofParameter_isOk_iff (ps : List Parameter) :
    (∃ formals, ps.mapM Formal.ofParameter = .ok formals) ↔ ∀ p ∈ ps, p.kind.isScalar = true := by
  induction ps with
  | nil => exact ⟨fun _ => List.forall_mem_nil _, fun _ => ⟨[], rfl⟩⟩
  | cons p ps ih =>
    rw [List.forall_mem_cons, ← ofParameter_isOk_iff, ← ih, List.mapM_cons]
    constructor
    · rintro ⟨formals, h⟩
      cases hp : Formal.ofParameter p with
      | error e =>
        rw [hp] at h
        cases h
      | ok f =>
        cases hps : ps.mapM Formal.ofParameter with
        | error e =>
          rw [hp, hps] at h
          cases h
        | ok fs => exact ⟨⟨f, rfl⟩, ⟨fs, rfl⟩⟩
    · rintro ⟨⟨f, hp⟩, ⟨fs, hps⟩⟩
      rw [hp, hps]
      exact ⟨f :: fs, rfl⟩

theorem openProcedure_isOk_iff (b : Builder) (name : Bytes) (sym : Symbol) :
    (∃ b', b.openProcedure name sym = .ok b') ↔ ∀ p ∈ sym.parameters, p.kind.isScalar = true := by
  rw [← mapM_ofParameter_isOk_iff]
  constructor
  · rintro ⟨b', h⟩
    obtain ⟨formals, hformals, -⟩ := openProcedure_eq_ok h
    exact ⟨formals, hformals⟩
  · rintro ⟨formals, hformals⟩
    exact ⟨_, b.openProcedure_of_formals name sym hformals⟩

theorem ofArray_isOk_iff (s : Scalar) (bounds : Bounds) :
    (∃ storage, Storage.ofArray s bounds = .ok storage) ↔ ∃ n, bounds.length = .ok n ∧ 0 ≤ n := by
  unfold Storage.ofArray
  cases hlength : bounds.length with
  | error e => simp
  | ok n =>
    by_cases hn : n < 0
    · simp [hn]
    · simp [hn, Int.not_lt.mp hn]

theorem declaration_isOk_iff (name : Bytes) (sym : Symbol) : (∃ line, declaration name sym = .ok line) ↔
    sym.kind.isScalar = true ∧ ∀ bounds ∈ sym.bounds, ∃ n, bounds.length = .ok n ∧ 0 ≤ n := by
  have hstorage : (∃ line, declaration name sym = .ok line) ↔
      ∃ storage, Storage.ofSymbol sym = .ok storage := by
    unfold declaration
    cases Storage.ofSymbol sym with
    | error e =>
      constructor
      · rintro ⟨line, h⟩
        cases h
      · rintro ⟨storage, h⟩
        cases h
    | ok storage =>
      refine ⟨fun _ => ⟨storage, rfl⟩, fun _ => ?_⟩
      by_cases hglobal : sym.global = true
      · exact ⟨_, if_pos hglobal⟩
      · exact ⟨_, if_neg hglobal⟩
  rw [hstorage, Storage.ofSymbol]
  cases sym.kind with
  | scalar s =>
    cases sym.bounds with
    | none => simp [Kind.isScalar]
    | some bounds => simp [Kind.isScalar, ofArray_isOk_iff]
  | _ => simp [Kind.isScalar]

theorem exists_error_iff {α : Type} {x : Except Error α} :
    (∃ e, x = .error e) ↔ ¬∃ value, x = .ok value := by
  cases x with
  | error e => simp
  | ok value => simp

/-- Exactly the actions that are refused fail. -/
theorem attempt_error_iff (b : Builder) (a : Action) :
    (∃ e, b.attempt a = .error e) ↔ a.Refused b := by
  cases a with
  | declare name sym =>
    rw [Action.Refused, ← declaration_isOk_iff name, ← exists_error_iff, attempt]
    cases declaration name sym with
    | error e => exact ⟨fun _ => ⟨e, rfl⟩, fun _ => ⟨e, rfl⟩⟩
    | ok line =>
      constructor
      · rintro ⟨e, h⟩
        cases h
      · rintro ⟨e, h⟩
        cases h
  | openProcedure name sym =>
    rw [exists_error_iff, attempt, openProcedure_isOk_iff, Action.Refused]
    simp
  | closeProcedure =>
    rw [attempt, closeProcedure, Action.Refused]
    cases b.parked with
    | nil => simp
    | cons outer rest => simp
  | discardProcedure =>
    rw [attempt, discardProcedure, Action.Refused]
    cases b.parked with
    | nil => simp
    | cons outer rest => simp
  | finish =>
    rw [attempt, finish, Action.Refused]
    cases b.parked with
    | nil =>
      refine ⟨?_, fun h => absurd rfl h⟩
      rintro ⟨e, h⟩
      cases h
    | cons outer rest => exact ⟨fun _ => List.cons_ne_nil _ _, fun _ => ⟨_, rfl⟩⟩
  | openProgram => simp [attempt, Action.Refused]
  | addLocal line => simp [attempt, Action.Refused]
  | addGlobal line => simp [attempt, Action.Refused]
  | nextSlot => simp [attempt, Action.Refused]

theorem perform_of_refused (h : a.Refused b) : b.perform a = b := by
  obtain ⟨e, he⟩ := (attempt_error_iff b a).mpr h
  exact perform_of_error he

/-! ## What an action changes -/

theorem perform_declare (b : Builder) (name : Bytes) (sym : Symbol) : b.perform (.declare name sym) = b := by
  rw [perform, attempt]
  cases declaration name sym with
  | error e => rfl
  | ok line => rfl

theorem perform_finish (b : Builder) : b.perform .finish = b := by
  rw [perform, attempt]
  cases b.finish with
  | error e => rfl
  | ok lines => rfl

theorem perform_openProcedure (b : Builder) (name : Bytes) (sym : Symbol) :
    b.perform (.openProcedure name sym) = b ∨ ∃ formals, b.perform (.openProcedure name sym) =
      { b with parked := b.current :: b.parked, current := .ofProcedure name formals } := by
  rw [perform, attempt]
  cases hopen : b.openProcedure name sym with
  | error e => exact .inl rfl
  | ok b' =>
    obtain ⟨formals, -, rfl⟩ := openProcedure_eq_ok hopen
    exact .inr ⟨formals, rfl⟩

section Leaving

variable {outer : Function} {rest : List Function} (hparked : b.parked = outer :: rest)

include hparked

theorem perform_closeProcedure : b.perform .closeProcedure =
    { b with finished := b.finished ++ [b.current.ended], parked := rest, current := outer } := by
  rw [perform, attempt, closeProcedure, hparked]
  rfl

theorem perform_discardProcedure :
    b.perform .discardProcedure = { b with parked := rest, current := outer } := by
  rw [perform, attempt, discardProcedure, hparked]

/-- The end of a procedure brings back the function that was parked last. -/
theorem perform_of_leaves (h : a.leaves = true) :
    (b.perform a).parked = rest ∧ (b.perform a).current = outer := by
  cases a with
  | closeProcedure =>
    rw [perform_closeProcedure hparked]
    exact ⟨rfl, rfl⟩
  | discardProcedure =>
    rw [perform_discardProcedure hparked]
    exact ⟨rfl, rfl⟩
  | _ => cases h

end Leaving

/-- An action adds its global variables and the function that it finishes, and takes nothing away. -/
theorem additions_perform (b : Builder) (a : Action) :
    (b.perform a).globals = b.globals ++ a.globals ∧ (b.perform a).finished = b.finished ++ b.closedBy a := by
  have hsame : b.globals = b.globals ++ [] ∧ b.finished = b.finished ++ [] :=
    ⟨(List.append_nil _).symm, (List.append_nil _).symm⟩
  cases a with
  | addGlobal line => exact ⟨rfl, hsame.2⟩
  | closeProcedure =>
    cases hparked : b.parked with
    | nil =>
      rw [perform_of_refused (a := .closeProcedure) hparked, closedBy, hparked]
      exact hsame
    | cons outer rest =>
      rw [perform_closeProcedure hparked, closedBy, hparked]
      exact ⟨hsame.1, rfl⟩
  | discardProcedure =>
    cases hparked : b.parked with
    | nil =>
      rw [perform_of_refused (a := .discardProcedure) hparked]
      exact hsame
    | cons outer rest =>
      rw [perform_discardProcedure hparked]
      exact hsame
  | openProcedure name sym =>
    rcases perform_openProcedure b name sym with h | ⟨formals, h⟩
    · rw [h]
      exact hsame
    · rw [h]
      exact hsame
  | declare name sym =>
    rw [perform_declare]
    exact hsame
  | finish =>
    rw [perform_finish]
    exact hsame
  | openProgram => exact hsame
  | addLocal line => exact hsame
  | nextSlot => exact hsame

theorem parked_perform_of_isPlain (h : a.isPlain = true) : (b.perform a).parked = b.parked := by
  cases a with
  | openProgram => rfl
  | addLocal line => rfl
  | addGlobal line => rfl
  | nextSlot => rfl
  | declare name sym => rw [perform_declare]
  | _ => cases h

end Step

/-! ## Histories -/

section History

variable {b b' : Builder} {actions : List Action}

theorem additions_run (b : Builder) (actions : List Action) :
    (b.run actions).globals = b.globals ++ actions.flatMap Action.globals ∧
      (b.run actions).finished = b.finished ++ b.closed actions := by
  induction actions generalizing b with
  | nil => exact ⟨(List.append_nil _).symm, (List.append_nil _).symm⟩
  | cons a actions ih =>
    obtain ⟨hglobals, hfinished⟩ := ih (b.perform a)
    obtain ⟨hglobals', hfinished'⟩ := additions_perform b a
    rw [run_cons, hglobals, hfinished, hglobals', hfinished', List.flatMap_cons, closed, List.append_assoc,
      List.append_assoc]
    exact ⟨rfl, rfl⟩

theorem closed_append (b : Builder) (before after : List Action) :
    b.closed (before ++ after) = b.closed before ++ (b.run before).closed after := by
  induction before generalizing b with
  | nil => rfl
  | cons a before ih => rw [List.cons_append, closed, ih, closed, run_cons, List.append_assoc]

/-- What happens between the opening of a procedure and its end keeps the functions that are parked. -/
theorem Bracketed.parked_run (h : Bracketed b actions) : (b.run actions).parked = b.parked := by
  induction h with
  | nil b => rfl
  | plain hplain hrest ih => exact ih.trans (parked_perform_of_isPlain hplain)
  | @refused b a rest hrefused hrest ih => rw [run_cons, ih, perform_of_refused hrefused]
  | @procedure b b' name sym inner rest last hopen hinner hlast hrest ihinner ihrest =>
    have hstep : b.perform (.openProcedure name sym) = b' := perform_of_ok hopen
    obtain ⟨formals, -, rfl⟩ := openProcedure_eq_ok hopen
    rw [List.cons_append, run_cons, run_append, run_cons, hstep, ihrest]
    exact (perform_of_leaves ihinner hlast).1

/-- A procedure leaves the function that it is opened in, and those around it, as they were. -/
theorem Bracketed.procedure_run {name : Bytes} {sym : Symbol} {last : Action}
    (hopen : b.openProcedure name sym = .ok b') (h : Bracketed b' actions) (hlast : last.leaves = true) :
    (b.run (.openProcedure name sym :: actions ++ [last])).parked = b.parked ∧
      (b.run (.openProcedure name sym :: actions ++ [last])).current = b.current := by
  have hstep : b.perform (.openProcedure name sym) = b' := perform_of_ok hopen
  have hparked := h.parked_run
  obtain ⟨formals, -, rfl⟩ := openProcedure_eq_ok hopen
  rw [List.cons_append, run_cons, run_append, run_cons, run_nil, hstep]
  exact perform_of_leaves hparked hlast

end History

end Builder

/-! ## Names of slots -/

/-- The slot that a line reserves. -/
def Line.slot? : Line → Option Local
  | .alloca (.slot n) _ _ => some (.slot n)
  | _ => none

/-- The slots that a function reserves. -/
def Function.slots (f : Function) : List Local := f.body.filterMap Line.slot?

/-- A builder with the names that its functions have handed out since they were opened; those of functions
that were open at the beginning are not known. -/
structure Ledger where
  builder : Builder
  /-- the names of the current function -/
  names : Option (List Local)
  /-- the names of the functions that are parked -/
  parked : List (Option (List Local))

namespace Ledger

/-- The beginning of a ledger. -/
def ofBuilder (b : Builder) : Ledger := ⟨b, none, b.parked.map fun _ => none⟩

/-- The ledger after an action.  A function that is opened has the slots of its parameters; functions are
parked together with their names. -/
def step (l : Ledger) (a : Action) : Ledger :=
  match l.builder.attempt a with
  | .error _ => l
  | .ok b =>
    match a with
    | .openProgram => ⟨b, some b.current.slots, l.parked⟩
    | .openProcedure _ _ => ⟨b, some b.current.slots, l.names :: l.parked⟩
    | .nextSlot => ⟨b, l.names.map (· ++ [l.builder.nextSlot.1]), l.parked⟩
    | .closeProcedure | .discardProcedure => ⟨b, l.parked.head?.join, l.parked.tail⟩
    | _ => ⟨b, l.names, l.parked⟩

/-- The ledger after a history. -/
def run (l : Ledger) (actions : List Action) : Ledger := actions.foldl step l

/-- Whether the names of a function, if they are known, are the slots from the first one on. -/
def Numbers (f : Function) (names : Option (List Local)) : Prop :=
  ∀ ns ∈ names, ns = (List.range' 1 ns.length).map .slot ∧ f.temp = 1 + ns.length

/-- Whether the names of all functions are numbered. -/
structure Agrees (l : Ledger) : Prop where
  current : Numbers l.builder.current l.names
  parked : List.Forall₂ Numbers l.builder.parked l.parked

theorem agrees_ofBuilder (b : Builder) : (ofBuilder b).Agrees := by
  have hunknown (f : Function) : Numbers f none := fun _ h => (Option.not_mem_none _ h).elim
  refine ⟨hunknown _, ?_⟩
  rw [ofBuilder, List.forall₂_map_right_iff, List.forall₂_same]
  exact fun f _ => hunknown f

theorem filterMap_slot?_slotLines (n : Nat) (formals : List Formal) :
    (slotLines n formals).filterMap Line.slot? = (List.range' n formals.length).map .slot := by
  induction formals generalizing n with
  | nil => rfl
  | cons f formals ih =>
    rw [List.length_cons, List.range'_succ, List.map_cons, ← ih]
    rfl

theorem numbers_start (header : Line) : Numbers (.start header) (some (Function.start header).slots) := by
  intro ns hns
  cases hns
  exact ⟨rfl, rfl⟩

theorem numbers_ofProcedure (name : Bytes) (formals : List Formal) :
    Numbers (.ofProcedure name formals) (some (Function.ofProcedure name formals).slots) := by
  have hslots : (Function.ofProcedure name formals).slots = (List.range' 1 formals.length).map .slot := by
    rw [ofProcedure_eq, Function.slots, filterMap_slot?_slotLines]
  intro ns hns
  rw [Option.mem_some_iff, hslots] at hns
  subst hns
  rw [List.length_map, List.length_range', ofProcedure_eq]
  exact ⟨rfl, rfl⟩

theorem Numbers.nextSlot {b : Builder} {names : Option (List Local)} (h : Numbers b.current names) :
    Numbers b.nextSlot.2.current (names.map (· ++ [b.nextSlot.1])) := by
  intro ns hns
  obtain ⟨ns, hmem, rfl⟩ := Option.map_eq_some_iff.mp hns
  obtain ⟨hnumbers, htemp⟩ := h ns hmem
  rw [List.length_append, List.length_singleton, List.range'_1_concat, List.map_append, ← hnumbers]
  refine ⟨?_, ?_⟩
  · rw [Builder.nextSlot, htemp]
    rfl
  · rw [Builder.nextSlot, htemp]
    rfl

theorem builder_step (l : Ledger) (a : Action) : (l.step a).builder = l.builder.perform a := by
  rw [step, Builder.perform]
  cases l.builder.attempt a with
  | error e => rfl
  | ok b => cases a <;> rfl

/-- The function that comes back when a procedure ends comes back with its names. -/
theorem Agrees.leave {l : Ledger} (h : l.Agrees) {b : Builder} {a : Action} (ha : a.leaves = true)
    (hattempt : l.builder.attempt a = .ok b) : (⟨b, l.parked.head?.join, l.parked.tail⟩ : Ledger).Agrees := by
  have hparked := h.parked
  cases hfunctions : l.builder.parked with
  | nil =>
    have hrefused : a.Refused l.builder := by
      cases a with
      | closeProcedure => exact hfunctions
      | discardProcedure => exact hfunctions
      | _ => cases ha
    obtain ⟨e, he⟩ := (Builder.attempt_error_iff l.builder a).mpr hrefused
    rw [he] at hattempt
    cases hattempt
  | cons outer rest =>
    rw [hfunctions] at hparked
    obtain ⟨hrest, hcurrent⟩ := Builder.perform_of_leaves hfunctions ha
    rw [Builder.perform_of_ok hattempt] at hrest hcurrent
    cases hnames : l.parked with
    | nil =>
      rw [hnames] at hparked
      cases hparked
    | cons names others =>
      rw [hnames, List.forall₂_cons] at hparked
      refine ⟨?_, ?_⟩
      · rw [hcurrent]
        exact hparked.1
      · rw [hrest]
        exact hparked.2

/-- An action keeps the names of all functions numbered. -/
theorem Agrees.step {l : Ledger} (h : l.Agrees) (a : Action) : (l.step a).Agrees := by
  rw [Ledger.step]
  cases hattempt : l.builder.attempt a with
  | error e => exact h
  | ok b =>
    have hperform : l.builder.perform a = b := Builder.perform_of_ok hattempt
    dsimp only
    cases a with
    | openProgram =>
      subst hperform
      exact ⟨numbers_start .main, h.parked⟩
    | openProcedure name sym =>
      obtain ⟨formals, -, rfl⟩ := Builder.openProcedure_eq_ok hattempt
      exact ⟨numbers_ofProcedure name formals, .cons h.current h.parked⟩
    | nextSlot =>
      subst hperform
      exact ⟨h.current.nextSlot, h.parked⟩
    | closeProcedure => exact h.leave rfl hattempt
    | discardProcedure => exact h.leave rfl hattempt
    | addLocal line =>
      subst hperform
      exact ⟨h.current, h.parked⟩
    | addGlobal line =>
      subst hperform
      exact ⟨h.current, h.parked⟩
    | declare name sym =>
      rw [Builder.perform_declare] at hperform
      subst hperform
      exact ⟨h.current, h.parked⟩
    | finish =>
      rw [Builder.perform_finish] at hperform
      subst hperform
      exact ⟨h.current, h.parked⟩

theorem builder_run (l : Ledger) (actions : List Action) : (l.run actions).builder = l.builder.run actions := by
  induction actions generalizing l with
  | nil => rfl
  | cons a actions ih => rw [run, List.foldl_cons, ← run, ih, builder_step, Builder.run_cons]

theorem Agrees.run {l : Ledger} (h : l.Agrees) (actions : List Action) : (l.run actions).Agrees := by
  induction actions generalizing l with
  | nil => exact h
  | cons a actions ih => exact ih (h.step a)

theorem exists_numbers {functions : List Function} {names : List (Option (List Local))}
    (h : List.Forall₂ Numbers functions names) {known : Option (List Local)} (hknown : known ∈ names) :
    ∃ f, Numbers f known := by
  induction h with
  | nil => cases hknown
  | @cons f known' _ _ hf _ ih =>
    rcases List.mem_cons.mp hknown with rfl | hrest
    · exact ⟨f, hf⟩
    · exact ih hrest

/-- The names that are known are `%1`, `%2` and so on. -/
theorem Agrees.render_names {l : Ledger} (h : l.Agrees) {ns : List Local} (hns : some ns ∈ l.names :: l.parked) :
    ns.map Local.render = (List.range' 1 ns.length).map fun n => text "%" ++ Bytes.ofNat n := by
  obtain ⟨f, hf⟩ := exists_numbers (.cons h.current h.parked) hns
  conv_lhs => rw [(hf ns rfl).1]
  rw [List.map_map]
  rfl

theorem nodup_slotNames (count : Nat) :
    ((List.range' 1 count).map fun n => text "%" ++ Bytes.ofNat n).Nodup := by
  refine (List.nodup_range' 1).map fun n m heq => Numeral.ofNat_inj ?_
  exact List.append_cancel_left heq

end Ledger

/-- Functions are parked and resumed exactly: a procedure leaves the function it is opened in, and those
around it, as they were, and adds only its global variables and the functions that are closed; what is refused
changes nothing; and each function numbers its slots from one on, whatever happens in between. -/
theorem Builder.parks_and_resumes (g : Builder) :
    (∀ (name : Bytes) (sym : Symbol) (opened : Builder) (inner : List Action) (last : Action),
      g.openProcedure name sym = .ok opened → opened.Bracketed inner → last.leaves = true →
      (g.run (.openProcedure name sym :: inner ++ [last])).parked = g.parked ∧
      (g.run (.openProcedure name sym :: inner ++ [last])).current = g.current ∧
      (g.run (.openProcedure name sym :: inner ++ [last])).globals =
        g.globals ++ inner.flatMap Action.globals ∧
      (g.run (.openProcedure name sym :: inner ++ [last])).finished =
        g.finished ++ opened.closed inner ++ (opened.run inner).closedBy last) ∧
    (∀ a : Action, ((∃ e, g.attempt a = .error e) ↔ a.Refused g) ∧ (a.Refused g → g.perform a = g)) ∧
    (∀ actions : List Action,
      ((Ledger.ofBuilder g).run actions).builder = g.run actions ∧
      ((Ledger.ofBuilder g).run actions).parked.length = (g.run actions).parked.length ∧
      ∀ ns : List Local,
        some ns ∈ ((Ledger.ofBuilder g).run actions).names :: ((Ledger.ofBuilder g).run actions).parked →
        ns.map Local.render = (List.range' 1 ns.length).map (fun n => text "%" ++ Bytes.ofNat n) ∧
        (ns.map Local.render).Nodup) := by
  refine ⟨?_, ?_, ?_⟩
  · intro name sym opened inner last hopen hinner hlast
    obtain ⟨hparked, hcurrent⟩ := hinner.procedure_run hopen hlast
    obtain ⟨hglobals, hfinished⟩ := additions_run g (.openProcedure name sym :: inner ++ [last])
    have hstep : g.perform (.openProcedure name sym) = opened := perform_of_ok hopen
    have hlastGlobals : last.globals = [] := by
      cases last with
      | closeProcedure => rfl
      | discardProcedure => rfl
      | _ => cases hlast
    refine ⟨hparked, hcurrent, ?_, ?_⟩
    · rw [hglobals, List.flatMap_append, List.flatMap_singleton, hlastGlobals, List.append_nil]
      rfl
    · rw [hfinished, List.cons_append, closed, hstep, closed_append, closed, closed, List.append_nil,
        List.append_assoc]
      rfl
  · intro a
    exact ⟨attempt_error_iff g a, perform_of_refused⟩
  · intro actions
    have hagrees := (Ledger.agrees_ofBuilder g).run actions
    have hbuilder := Ledger.builder_run (.ofBuilder g) actions
    refine ⟨hbuilder, ?_, ?_⟩
    · exact hbuilder ▸ hagrees.parked.length_eq.symm
    · intro ns hns
      have hnames := hagrees.render_names hns
      exact ⟨hnames, hnames ▸ Ledger.nodup_slotNames ns.length⟩

/-- The symbol of a procedure with two parameters. -/
def pairSymbol : Symbol where
  kind := .procedure
  parameters := [⟨text "l", .scalar .char, some .output, none⟩, ⟨text "R", .scalar .float, some .input, none⟩]

/-- A builder that has given out a slot in a function inside of another one. -/
def slottedBuilder : Builder :=
  ⟨⟨none, .typed⟩, [.blank], [], [.start .main], ⟨.procedure (text "o") [], [.verbatim (text "; k")], 2⟩⟩

/-- What is done inside a procedure: a slot is taken, a procedure is opened, the program is started anew in it
and a slot taken there, a procedure is refused, finishing is refused, and another slot is taken. -/
def pairHistory : List Action :=
  [.nextSlot, .openProcedure (text "n") pairSymbol, .openProgram, .nextSlot, .addGlobal (.verbatim (text "; g")),
    .closeProcedure, .openProcedure (text "e") { kind := .procedure, parameters := [⟨[], .invalid, none, none⟩] },
    .finish, .nextSlot]

theorem bracketed_pairHistory {b : Builder} (hparked : b.parked ≠ []) : b.Bracketed pairHistory := by
  have hinner (b : Builder) : b.Bracketed [.openProgram, .nextSlot, .addGlobal (.verbatim (text "; g"))] :=
    .plain rfl (.plain rfl (.plain rfl (.nil _)))
  refine .plain rfl (@Builder.Bracketed.procedure _ _ (text "n") pairSymbol _ _ .closeProcedure rfl (hinner _) rfl
    (.refused ⟨_, List.mem_singleton_self _, rfl⟩ (.refused ?_ (.plain rfl (.nil _)))))
  exact hparked

theorem pairHistory_resumes : ∃ opened : Builder,
    slottedBuilder.openProcedure (text "m") pairSymbol = .ok opened ∧ opened.Bracketed pairHistory ∧
    (slottedBuilder.run (.openProcedure (text "m") pairSymbol :: pairHistory ++ [.closeProcedure])).current =
      slottedBuilder.current ∧
    (slottedBuilder.run (.openProcedure (text "m") pairSymbol :: pairHistory ++ [.closeProcedure])).parked =
      slottedBuilder.parked ∧
    (((Ledger.ofBuilder slottedBuilder).run (.openProcedure (text "m") pairSymbol :: pairHistory)).names.map
      fun ns => ns.map Local.render) = some [text "%1", text "%2", text "%3", text "%4"] := by
  obtain ⟨hprocedures, -, hledger⟩ := slottedBuilder.parks_and_resumes
  refine ⟨_, rfl, bracketed_pairHistory (List.cons_ne_nil _ _), ?_, ?_, ?_⟩
  · exact (hprocedures (text "m") pairSymbol _ pairHistory .closeProcedure rfl
      (bracketed_pairHistory (List.cons_ne_nil _ _)) rfl).2.1
  · exact (hprocedures (text "m") pairSymbol _ pairHistory .closeProcedure rfl
      (bracketed_pairHistory (List.cons_ne_nil _ _)) rfl).1
  · have hnames := ((hledger (.openProcedure (text "m") pairSymbol :: pairHistory)).2.2
      [.slot 1, .slot 2, .slot 3, .slot 4] List.mem_cons_self).1
    exact congrArg some (hnames.trans (by decide +kernel))

end OnePass.Ir
