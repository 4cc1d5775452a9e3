import OnePass.Proofs.Composition
set_option autoImplicit false

/-!
# Relations along productions

What is said of the single steps of reading holds of every production that is made of them.  A
`Course` is a pair of relations between the state before and a state behind: one for what has
succeeded, which composes, and one for each way to stop, which a success before it extends.
`Leads` says that a production ends in them.

Productions are made of three kinds of steps.  A `Course` has the steps that read and trace, and the
rejections, each of which reports one diagnostic.  A `LongCourse` also recovers, as lists of
statements do, and a `WideCourse` also declares and emits (`BuildStep`).  Productions with blocks also
count the statements that are open, which a course need not have a step for (`Nests`).
-/

namespace OnePass.Program

/-- A relation between states, and one for each way to stop, that every step of reading is in. -/
structure Course (R : State → State → Prop) (E : Stop → State → State → Prop) : Prop where
  refl (s : State) : R s s
  trans {s s' s'' : State} : R s s' → R s' s'' → R s s''
  stop {s s' s'' : State} {stop : Stop} : R s s' → E stop s' s'' → E stop s s''
  next (s : State) : R s { s with cursor := s.cursor.next }
  note (s : State) (line : Bytes) : R s { s with trace := s.trace ++ [line] }
  reject (s : State) (d : Diagnostic) :
    E .reject s { s with diagnostics := s.diagnostics ++ [d] }
  giveUp (s : State) (e : StructureError) : E (.fatal e) s s

/-- A course with the steps of recovering: diagnostics are reported, tokens are skipped, and reading
goes on behind a rejection. -/
structure LongCourse (R : State → State → Prop) (E : Stop → State → State → Prop) : Prop
    extends Course R E where
  report (s : State) (ds : List Diagnostic) : R s { s with diagnostics := s.diagnostics ++ ds }
  skip (s : State) (n : Nat) : R s { s with cursor := s.cursor.skip n }
  resume {s s' : State} : E .reject s s' → R s s'

/-- The steps in which code is built: the program is opened, a variable gets its storage, and the
function of a procedure is opened, and closed or dropped. -/
inductive BuildStep : Ir.Builder → Ir.Builder → Prop
  | program (b : Ir.Builder) : BuildStep b b.openProgram
  | storage (b : Ir.Builder) {name : Bytes} {sym : Symbol} {line : Ir.Line}
      (h : Ir.declaration name sym = .ok line) :
      BuildStep b (if sym.global then b.addGlobal line else b.addLocal line)
  | opening {b b' : Ir.Builder} {name : Bytes} {sym : Symbol}
      (h : b.openProcedure name sym = .ok b') : BuildStep b b'
  | leaving {b b' : Ir.Builder} (kept : Bool)
      (h : (if kept then Ir.Builder.closeProcedure else Ir.Builder.discardProcedure) b = .ok b') :
      BuildStep b b'

/-- A course with the steps that declare and emit.  The table may change behind a stop, where a
scope is left. -/
structure WideCourse (R : State → State → Prop) (E : Stop → State → State → Prop) : Prop
    extends LongCourse R E where
  table (s : State) (actions : List Table.Action) : R s { s with table := s.table.run actions }
  leave {s s' : State} {stop : Stop} (actions : List Table.Action) :
    E stop s s' → E stop s { s' with table := s'.table.run actions }
  builder (s : State) {b : Ir.Builder} (h : BuildStep s.builder b) : R s { s with builder := b }

/-- A relation that counting open statements is in. -/
def Nests (R : State → State → Prop) : Prop :=
  ∀ (s : State) (n : Nat), R s { s with nesting := n }

/-- A production that ends in a course. -/
def Leads {α : Type} (R : State → State → Prop) (E : Stop → State → State → Prop)
    (p : Parser α) : Prop :=
  ∀ s, Ends p s (fun _ s' => R s s') (fun stop s' => E stop s s')

/-! ## Single steps -/

section Steps

variable {α β : Type} {R : State → State → Prop} {E : Stop → State → State → Prop}

theorem leads_bind (hC : Course R E) {p : Parser β} {f : β → Parser α} (hp : Leads R E p)
    (hf : ∀ b, Leads R E (f b)) : Leads R E (p >>= f) := by
  intro s
  rw [ends_bind]
  refine (hp s).mono (fun b s' h => ?_) (fun _ _ h => h)
  exact (hf b s').mono (fun _ _ h' => hC.trans h h') (fun _ _ h' => hC.stop h h')

theorem leads_succeeds (hL : LongCourse R E) {p : Parser Unit} (hp : Leads R E p) :
    Leads R E (succeeds p) := by
  intro s
  rw [ends_succeeds]
  refine (hp s).mono (fun _ _ h => h) (fun stop s' h => ?_)
  cases stop with
  | reject => exact hL.resume h
  | fatal e => exact h

theorem leads_recover (hL : LongCourse R E) (mark : Nat) (depth : Int) :
    Leads R E (recover mark depth) := by
  intro s
  rw [ends_recover]
  have hskip (n : Nat) (ds : List Diagnostic) :
      R s { s with cursor := s.cursor.skip n, diagnostics := s.diagnostics ++ ds } :=
    hL.trans (hL.skip s n) (hL.report { s with cursor := s.cursor.skip n } ds)
  split
  · exact hskip _ _
  · rw [List.append_assoc]
    exact hL.stop (hskip _ _) (hL.giveUp _ _)

theorem leads_block (hC : Course R E) (hN : Nests R) {p : Parser Unit} (hp : Leads R E p)
    (words : Bytes) : Leads R E (block p words) := by
  refine leads_bind hC (fun s => ?_) fun _ => leads_bind hC (fun s => hN s _) fun _ => ?_
  · rw [ends_expectPeek]
    split
    · exact hC.next s
    · exact hC.reject s _
  · refine leads_bind hC hp fun _ => leads_bind hC (fun s => hN s _) fun _ => ?_
    exact fun s => hC.note s _

theorem leads_endStatement (hL : LongCourse R E) (hN : Nests R) (mark base : Nat)
    (complete : Bool) : Leads R E (endStatement mark base complete) := by
  have hC := hL.toCourse
  have hrecover : Leads R E (recoverFrom mark base) := by
    refine leads_bind hC hL.refl fun s => leads_bind hC (leads_recover hL _ _) fun _ => ?_
    exact fun s => hN s base
  refine leads_bind hC hL.refl fun b => ?_
  dsimp only
  split
  · exact leads_bind hC hL.next fun _ => hL.next
  · split
    · refine leads_bind hC hL.refl fun t => leads_bind hC (fun s => hL.report s _) fun _ => ?_
      exact leads_bind hC hL.next fun _ => hrecover
    · exact hrecover

theorem leads_terminated (hL : LongCourse R E) (hN : Nests R) {inner : Parser Nat}
    (h : Leads R E (statement inner)) : Leads R E (terminated inner) := by
  have hC := hL.toCourse
  refine leads_bind hC hL.refl fun mark => leads_bind hC hL.refl fun s => ?_
  exact leads_bind hC (leads_succeeds hL h) fun complete => leads_endStatement hL hN _ _ complete

theorem leads_orRecover (hL : LongCourse R E) {p : Parser Unit} (hp : Leads R E p) :
    Leads R E (orRecover p) := by
  refine leads_bind hL.toCourse hL.refl fun mark => ?_
  refine leads_bind hL.toCourse (leads_succeeds hL hp) fun b => ?_
  split
  · exact hL.next
  · exact leads_recover hL mark 0

variable (hW : WideCourse R E)

include hW

theorem leads_orDiscard {p : Parser α} (hp : Leads R E p) : Leads R E (orDiscard p) := by
  intro s
  rw [ends_orDiscard]
  exact (hp s).mono (fun _ _ h => h) (fun _ _ h => hW.leave [.discard] h)

theorem leads_commit (place : Token) : Leads R E (commit place) := by
  intro s
  rw [ends_commit_table]
  split
  · exact hW.table s [.commit]
  · exact hW.trans (hW.table s [.commit]) (hW.report { s with table := s.table.commit.2 } _)

theorem leads_leaveFunction (kept : Bool) : Leads R E (leaveFunction
    (if kept then Ir.Builder.closeProcedure else Ir.Builder.discardProcedure)) := by
  intro s
  rw [leaveFunction, ends_modify]
  split
  · next hleave => exact hW.builder s (.leaving kept hleave)
  · exact hW.refl s

/-- The state is read and written back with another builder. -/
theorem leads_openFunction (sym : Symbol) (name : Token) {inside : Ir.Builder → Parser Unit}
    (h : ∀ b, Leads R E (inside b)) : Leads R E (openFunction sym name inside) := by
  intro s
  unfold openFunction
  rw [ends_bind, ends_get]
  split
  · exact hW.reject s _
  · next builder hopen =>
    have hstep := hW.builder s (.opening hopen)
    rw [ends_bind, ends_set]
    exact (h builder _).mono (fun _ _ h => hW.trans hstep h) (fun _ _ h => hW.stop hstep h)

end Steps

/-- A production that is made of steps of a course is in it. -/
theorem Made.leads {α : Type} {p : Parser α} {w k : Bool} {R : State → State → Prop}
    {E : Stop → State → State → Prop} (h : Made (fun _ p => Leads R E p) w k p)
    (hL : LongCourse R E) (hW : w = true → WideCourse R E) (hN : k = true → Nests R) :
    Leads R E p := by
  induction h with
  | given h => exact h
  | pure a => exact fun s => hL.refl s
  | bind _ _ ihp ihf => exact leads_bind hL.toCourse (ihp hW hN) fun b => ihf b hW hN
  | look _ _ ihf => exact leads_bind hL.toCourse (fun s => hL.refl s) fun s => ihf s hW hN
  | current => exact fun s => hL.refl s
  | peek => exact fun s => hL.refl s
  | advance => exact hL.next
  | note words => exact fun s => hL.note s _
  | unexpected t => exact fun s => hL.report s _
  | rejectToken t => exact fun s => hL.reject s _
  | rejectArgument t => exact fun s => hL.reject s _
  | giveUp e => exact fun s => hL.giveUp s e
  | block _ words ihp => exact leads_block hL.toCourse (hN rfl) (ihp hW hN) words
  | terminated _ ih => exact leads_terminated hL (hN rfl) (ih hW hN)
  | orRecover _ ihp => exact leads_orRecover hL (ihp hW hN)
  | loop _ _ ihp => exact leads_bind hL.toCourse (fun s => hL.refl s) fun n => ihp (n + 1) hW hN
  | modifyTable actions => exact fun s => (hW rfl).table s actions
  | andThenTable _ actions ihp =>
    intro s
    rw [ends_andThenTable]
    refine (ihp hW hN s).mono (fun _ s' h => ?_) (fun _ _ h => (hW rfl).leave actions h)
    exact hL.trans h ((hW rfl).table s' actions)
  | orDiscard _ ihp => exact leads_orDiscard (hW rfl) (ihp hW hN)
  | commit place => exact leads_commit (hW rfl) place
  | emitStorage h => exact fun s => (hW rfl).builder s (.storage s.builder h)
  | openProgram => exact fun s => (hW rfl).builder s (.program s.builder)
  | openFunction sym name _ ih => exact leads_openFunction (hW rfl) sym name fun b => ih b hW hN
  | leaveFunction kept => exact leads_leaveFunction (hW rfl) kept
  | bracketed _ _ _ ihbounds ihf =>
    refine leads_bind hL.toCourse (fun s => hL.refl s) fun s => ?_
    exact leads_bind hL.toCourse (leads_orDiscard (hW rfl) (ihbounds hW hN)) fun b => ihf _ b hW hN

theorem WideCourse.leads {α : Type} {p : Parser α} {R : State → State → Prop}
    {E : Stop → State → State → Prop} (hW : WideCourse R E) (hN : Nests R)
    (h : Made (fun _ p => Leads R E p) true true p) : Leads R E p :=
  Made.leads h hW.toLongCourse (fun _ => hW) fun _ => hN

end OnePass.Program
