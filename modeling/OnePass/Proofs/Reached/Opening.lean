import OnePass.Proofs.Balance
import OnePass.Proofs.Scoping.Program
set_option autoImplicit false

/-!
# How bodies are reached

The declaration of a procedure is an opening, the body, and a closing (`declaration_of_opening`).  The
opening leads into the scope of the procedure, and leaves a table there that is known in full
(`Opening.Leads`).
-/

namespace OnePass.Program

/-! ## Openings -/

/-- A procedure whose body is to be read. -/
structure Opening where
  /-- the token that names it -/
  name : Token
  /-- the key of its scope -/
  key : ScopeKey
  /-- its symbol, with its parameters -/
  symbol : Symbol
  /-- whether its key was bound to the symbol, and not before -/
  bound : Bool

namespace Opening

/-- The name of the procedure in small letters. -/
def word (o : Opening) : Bytes := o.name.literal.lower

/-- How the scope of the procedure is left. -/
def leave (o : Opening) (t : Table) : Table :=
  if o.symbol.global then t.exit.exitGlobal else t.exit

end Opening

/-- Recognises what stands in front of the body of a procedure, inside the procedure's scope. -/
def tailOpening (sym : Symbol) (name : Token) : Parser Opening := do
  let ps ← orDiscard parameters
  let sym := { sym with parameters := ps }
  modifyTable fun t => (t.stage sym).bindParameters
  let key := (← get).table.scope
  let bound ← commit name
  let s ← get
  match s.builder.openProcedure s.table.irName sym with
  | .error _ => rejectToken name
  | .ok builder =>
    set { s with builder := builder }
    note (text "procedure header " ++ key ++ text " (" ++ Bytes.ofNat ps.length
      ++ text " parameters, depth " ++ Bytes.ofNat builder.depth ++ text ")")
    optionalIs
    advance
    return ⟨name, key, sym, bound⟩

/-- Leaves the function of a procedure behind its body. -/
def procedureClosing (o : Opening) : Parser Unit := do
  let slots := (← get).builder.current.temp - 1
  leaveFunction (if o.bound then Ir.Builder.closeProcedure else Ir.Builder.discardProcedure)
  note (text "procedure " ++ o.key ++ text " (" ++ Bytes.ofNat slots ++ text " temporaries)")

/-- Recognises what stands in front of the body of a procedure, from its first word on. -/
def headOpening (global : Bool) : Parser Opening := do
  unless ← currentIs .kwProcedure do rejectToken (← current)
  expectPeek .identifier
  let name ← current
  let sym : Symbol := { kind := .procedure, line := name.line, global := global }
  modifyTable fun t => (t.stage sym).enter name.literal
  tailOpening sym name

/-- Recognises what stands in front of the body of a procedure that is declared. -/
def declarationOpening : Parser Opening := do
  if ← currentIs .kwGlobal then
    advance
    modifyTable Table.enterGlobal
    headOpening true
  else headOpening false

section Openings

variable {s s₁ : State} {o : Opening}

theorem procedureTail_eq (inner : Parser Unit) (sym : Symbol) (name : Token) :
    procedureTail inner sym name = (do
      let o ← tailOpening sym name
      inner
      procedureClosing o) := by
  unfold procedureTail openFunction procedureInside procedureBody tailOpening procedureClosing
  simp only [bind_assoc]
  refine bind_congr fun ps => bind_congr fun _ => bind_congr fun s => bind_congr fun bound =>
    bind_congr fun s' => ?_
  cases s'.builder.openProcedure s'.table.irName { sym with parameters := ps } with
  | error e => rfl
  | ok builder =>
    simp only [bind_assoc, pure_bind]

/-- The state on the name of a procedure, inside its scope. -/
def State.atName (s : State) (global : Bool) : State :=
  { s with
    cursor := s.cursor.next
    table := (s.table.stage { kind := .procedure, line := s.cursor.peek.line, global := global }).enter
      s.cursor.peek.literal }

theorem atName_table (hroot : s.table.global ≠ []) (hscope : s.table.scope ≠ []) (global : Bool) :
    (s.atName global).table = { s.table with
      staged := (s.atName global).table.staged
      scope := s.table.scope.child s.cursor.peek.literal.lower } := by
  simp [State.atName, Table.enter, Table.stage, hroot, hscope]

theorem headOpening_ok_iff {global : Bool} :
    headOpening global s = .ok o s₁ ↔
      s.cursor.current.kind = .kwProcedure ∧ s.cursor.peek.kind = .identifier ∧
        tailOpening { kind := .procedure, line := s.cursor.peek.line, global := global }
          s.cursor.peek (s.atName global) = .ok o s₁ := by
  simp only [ok_iff_ends, headOpening, ends_bind, ends_currentIs, ends_ite, ends_current,
    ends_rejectToken, ends_expectPeek, ends_modifyTable, decide_eq_true_eq, if_false_right]
  rfl

/-- What the opening of a procedure does inside its scope. -/
theorem tailOpening_ok {sym : Symbol} {name : Token} (h : tailOpening sym name s = .ok o s₁) :
    ∃ ps s', parameters s = .ok ps s' ∧ o = ⟨name, s.table.scope, { sym with parameters := ps },
        decide (s.table.scope ∉ insertParameters s.table.bindings s.table.scope
          { sym with parameters := ps })⟩ ∧
      Proceeds (s'.withProcedure { sym with parameters := ps } (name.position s'.file)) s₁ ∧
      s₁.table = (s'.withProcedure { sym with parameters := ps } (name.position s'.file)).table := by
  rw [ok_iff_ends, tailOpening, ends_bind, ends_orDiscard] at h
  cases hparameters : parameters s with
  | error stop s' =>
    rw [ends_of_error hparameters] at h
    exact h.elim
  | ok ps s' =>
    have hreads := (Reads.frame.keeps made_parameters).of_ok hparameters
    rw [ends_of_ok hparameters, ends_bind, ends_modifyTable, bindParameters_stage_eq, ends_bind,
      ends_get, ends_bind, ends_commit_eq name rfl, ends_bind, ends_get] at h
    refine ⟨ps, s', rfl, ?_⟩
    split at h
    · exact h.elim
    · simp only [ends_bind, ends_set, ends_note, ends_optionalIs, ends_advance, ends_pure] at h
      rw [← congrArg Table.scope hreads.table, ← congrArg Table.bindings hreads.table]
      split at h
      · obtain ⟨rfl, rfl⟩ := h
        exact ⟨rfl, ⟨rfl, rfl, (List.tail_suffix _).trans (List.tail_suffix _),
          List.prefix_refl _, List.prefix_append _ _⟩, rfl⟩
      · obtain ⟨rfl, rfl⟩ := h
        exact ⟨rfl, ⟨rfl, rfl, List.tail_suffix _, List.prefix_refl _, List.prefix_append _ _⟩, rfl⟩

theorem ends_procedureDeclaration {global : Bool} {Q : Unit → State → Prop} {E : Stop → State → Prop}
    (h : headOpening global s = .ok o s₁) (inner : Parser Unit) :
    Ends (procedureDeclaration inner global) s Q E ↔
      Ends (do inner; procedureClosing o) s₁ (fun a t => Q a { t with table := t.table.exit })
        fun stop t => E stop { t with table := t.table.exit } := by
  obtain ⟨-, hname, htail⟩ := headOpening_ok_iff.mp h
  rw [procedureDeclaration, ends_named, if_pos hname, ends_inScope, procedureTail_eq, ends_bind]
  exact ends_of_ok htail

theorem headOpening_global {global : Bool} (h : headOpening global s = .ok o s₁) :
    o.symbol.global = global := by
  obtain ⟨-, -, htail⟩ := headOpening_ok_iff.mp h
  obtain ⟨ps, s', -, rfl, -⟩ := tailOpening_ok htail
  rfl

/-- An opening that succeeds is that of a procedure in the global scope, or in the current one. -/
theorem declarationOpening_ok_iff :
    declarationOpening s = .ok o s₁ ↔
      (s.cursor.current.kind = .kwGlobal ∧ headOpening true { s with
        cursor := s.cursor.next, table := s.table.enterGlobal } = .ok o s₁) ∨
      (s.cursor.current.kind ≠ .kwGlobal ∧ headOpening false s = .ok o s₁) := by
  rw [ok_iff_ends, declarationOpening, ends_bind, ends_currentIs]
  by_cases hglobal : s.cursor.current.kind = .kwGlobal
  · simp [hglobal, ok_iff_ends]
  · simp [hglobal, ok_iff_ends]

/-- The run of a declaration behind its opening. -/
theorem declaration_of_opening (h : declarationOpening s = .ok o s₁) (inner : Parser Unit) :
    declaration inner s = andThenTable (do inner; procedureClosing o) o.leave s₁ := by
  refine run_eq_of_ends fun Q E hrun => ?_
  rw [ends_andThenTable] at hrun
  rw [declaration, ends_bind, ends_currentIs]
  obtain ⟨hkind, hhead⟩ | ⟨hkind, hhead⟩ := declarationOpening_ok_iff.mp h
  · have hprocedure := (headOpening_ok_iff.mp hhead).1
    simp only [Opening.leave, headOpening_global hhead, if_true] at hrun
    rw [if_pos (decide_eq_true hkind), ends_bind, ends_advance, declarationTail, ends_bind, ends_current]
    simp only [hprocedure]
    rw [ends_inScopeOf_true, ends_procedureDeclaration hhead]
    exact hrun
  · have hprocedure := (headOpening_ok_iff.mp hhead).1
    simp only [Opening.leave, headOpening_global hhead, Bool.false_eq_true, if_false] at hrun
    rw [if_neg (by simpa using hkind), declarationTail, ends_bind, ends_current]
    simp only [hprocedure]
    rw [ends_inScopeOf_false, ends_procedureDeclaration hhead]
    exact hrun

end Openings

/-! ## Where openings lead -/

/-- What the opening of a procedure leads to: the state in which its body is read. -/
structure Opening.Leads (o : Opening) (s s₁ : State) : Prop extends Proceeds s s₁ where
  isName : Lexeme.IsName o.name.literal
  kind : o.symbol.kind = .procedure
  key : o.key = (if o.symbol.global then s.table.global else s.table.scope).child o.word
  bound : o.bound = decide (o.key ∉ insertParameters s.table.bindings o.key o.symbol)
  scope : s₁.table.scope = o.key
  global : s₁.table.global = s.table.global
  bindings : s₁.table.bindings =
    insertNew (insertParameters s.table.bindings o.key o.symbol) o.key o.symbol

section Leads

variable {unit : ScopeKey} {s s₁ : State} {o : Opening}

theorem proceeds_withProcedure (s : State) (sym : Symbol) (place : Position) :
    Proceeds s (s.withProcedure sym place) :=
  ⟨rfl, rfl, List.suffix_refl _, List.prefix_append _ _, List.prefix_refl _⟩

theorem headOpening_leads {global : Bool} (hs : Sited unit s)
    (h : headOpening global s = .ok o s₁) :
    Proceeds s s₁ ∧ Lexeme.IsName o.name.literal ∧ o.symbol.kind = .procedure ∧
      o.key = s.table.scope.child o.word ∧
      o.bound = decide (o.key ∉ insertParameters s.table.bindings o.key o.symbol) ∧
      s₁.table = { s.table with
        scope := o.key
        staged := none
        bindings := insertNew (insertParameters s.table.bindings o.key o.symbol) o.key o.symbol } := by
  obtain ⟨-, hname, htail⟩ := headOpening_ok_iff.mp h
  have henter := atName_table hs.root.ne_nil hs.scope.ne_nil global
  have hscope : (s.atName global).table.scope = s.table.scope.child s.cursor.peek.literal.lower := by
    rw [henter]
  have hbindings : (s.atName global).table.bindings = s.table.bindings := by rw [henter]
  obtain ⟨ps, s', hparameters, rfl, hproceeds, htable⟩ := tailOpening_ok htail
  have hreads := (Reads.frame.keeps made_parameters).of_ok hparameters
  refine ⟨?_, isName_peek hs.marked hs.lexed hname, rfl, hscope, ?_, ?_⟩
  · have hW := Proceeds.wideFrame
    have hstart : Proceeds s (s.atName global) := (hW.next s).trans (.withTable _ _)
    exact hstart.trans (hreads.toProceeds.trans ((proceeds_withProcedure s' _ _).trans hproceeds))
  · rw [hbindings]
  · rw [htable, State.withProcedure, hreads.table, henter]

/-- An opening leads into the scope of the procedure, where it and its parameters are bound. -/
theorem declarationOpening_leads (hs : Sited unit s) (h : declarationOpening s = .ok o s₁) :
    o.Leads s s₁ := by
  obtain ⟨-, hhead⟩ | ⟨-, hhead⟩ := declarationOpening_ok_iff.mp h
  · have hs' : Sited unit { s with cursor := s.cursor.next, table := s.table.enterGlobal } :=
      hs.next.at true
    obtain ⟨hproceeds, hname, hkind, hkey, hbound, htable⟩ := headOpening_leads hs' hhead
    refine ⟨?_, hname, hkind, ?_, hbound, ?_, ?_, ?_⟩
    · exact ((Proceeds.wideFrame.next s).trans (Proceeds.withTable _ _)).trans hproceeds
    · rw [headOpening_global hhead, if_pos rfl]
      exact hkey
    · rw [htable]
    · rw [htable]
      rfl
    · rw [htable]
      rfl
  · obtain ⟨hproceeds, hname, hkind, hkey, hbound, htable⟩ := headOpening_leads hs hhead
    refine ⟨hproceeds, hname, hkind, ?_, hbound, ?_, ?_, ?_⟩
    · rw [headOpening_global hhead, if_neg Bool.false_ne_true]
      exact hkey
    · rw [htable]
    · rw [htable]
    · rw [htable]

end Leads

/-! ## What is reached -/

/-- Passes a declaration and the semicolon behind it, or recovers from it. -/
def passDeclaration (depth : Nat) : Parser Unit :=
  orRecover (do
    declaration (do declarationsWithin depth; bodyTail .kwProcedure)
    expectPeek .semicolon)

theorem made_passDeclaration {G : (α : Type) → Parser α → Prop} {w k : Bool}
    (hstatements : Made G w k statements)
    (hdeclaration : ∀ {inner : Parser Unit}, Made G w k inner → Made G w k (declaration inner))
    (depth : Nat) : Made G w k (passDeclaration depth) :=
  .orRecover (made_separated_of hstatements hdeclaration
    (made_declarationsWithin_of hstatements hdeclaration depth))

theorem declarationsWithin_eq_pass (depth : Nat) : declarationsWithin (depth + 1) = (do
    if startsDeclaration (← current) (← peek) then
      passDeclaration depth
      declarationsWithin depth) := rfl

/-- Whether declarations that nest and follow each other at most `depth` times are recognised from a
state on, when a program is recognised from another: these are the states behind the opening of the
program, behind the opening of a procedure, and behind a declaration that is passed. -/
inductive Reached (s₀ : State) : Nat → State → Prop
  | start {name : Bytes} {s : State} : programOpening s₀ = .ok name s →
      Reached s₀ (s.cursor.remaining + 1) s
  | inside {depth : Nat} {s s₁ : State} {o : Opening} : Reached s₀ (depth + 1) s →
      declarationOpening s = .ok o s₁ → Reached s₀ depth s₁
  | behind {depth : Nat} {s s₁ : State} : Reached s₀ (depth + 1) s →
      startsDeclaration s.cursor.current s.cursor.peek = true → passDeclaration depth s = .ok () s₁ →
      Reached s₀ depth s₁

/-! ## What a program leads to -/

/-- Whether a property of states does not get lost as reading goes on. -/
def Lasts (P : State → Prop) : Prop := ∀ {t t' : State}, Proceeds t t' → P t → P t'

/-- Whether a production leads to states with a property, however it ends. -/
def EndsIn {α : Type} (P : State → Prop) (p : Parser α) (s : State) : Prop :=
  Ends p s (fun _ t => P t) fun _ t => P t

section EndsIn

variable {P : State → Prop} {s : State}

theorem EndsIn.bind {α β : Type} {p : Parser α} {f : α → Parser β} (h : EndsIn P p s) (hP : Lasts P)
    (hf : ∀ a, Keeps Proceeds (f a)) : EndsIn P (p >>= f) s := by
  rw [EndsIn, ends_bind]
  refine Ends.mono h (fun a t ht => ?_) fun _ _ ht => ht
  exact (hf a t).mono (fun _ _ hproceeds => hP hproceeds ht) fun _ _ hproceeds => hP hproceeds ht

theorem keeps_procedureClosing (o : Opening) : Keeps Proceeds (procedureClosing o) := by
  refine Proceeds.wideFrame.keeps (.look (fun _ => ?_) fun _ _ _ h => by simp only [h])
  exact .bind (.leaveFunction _) fun _ => .note _

/-- A declaration is passed, whether it is accepted or rejected. -/
theorem EndsIn.passDeclaration {depth : Nat} (h : EndsIn P (declaration (do
      declarationsWithin depth
      bodyTail .kwProcedure)) s) (hP : Lasts P) : EndsIn P (passDeclaration depth) s := by
  have hR := Proceeds.wideFrame.toFrame
  have hended := h.bind hP fun _ => hR.keeps (made_expectPeek .semicolon)
  rw [EndsIn, Program.passDeclaration, orRecover, ends_bind, ends_reported]
  refine EndsIn.bind ?_ hP fun passed => ?_
  · rw [EndsIn, ends_succeeds]
    refine Ends.mono hended (fun _ _ ht => ht) fun stop t ht => ?_
    cases stop with
    | reject => exact ht
    | fatal e => exact ht
  · cases passed with
    | false => exact leads_recover hR.course _ _
    | true => exact hR.keeps .advance

end EndsIn

section Reached

variable {s₀ s : State} {depth : Nat}

theorem startsDeclaration_of_opening {s₁ : State} {o : Opening}
    (h : declarationOpening s = .ok o s₁) :
    startsDeclaration s.cursor.current s.cursor.peek = true := by
  obtain ⟨hkind, -⟩ | ⟨-, hhead⟩ := declarationOpening_ok_iff.mp h
  · simp [startsDeclaration, hkind]
  · simp [startsDeclaration, (headOpening_ok_iff.mp hhead).1]

/-- What the declarations from a state on that is reached lead to, the program does, if it does not
get lost as reading goes on. -/
theorem Reached.ends_program (h : Reached s₀ depth s) {P : State → Prop} (hP : Lasts P)
    (hs : EndsIn P (declarationsWithin depth) s) : EndsIn P program s₀ := by
  have hW := Proceeds.wideFrame
  induction h with
  | @start name s hopening =>
    have hbody : EndsIn P (body .kwProgram) s := by
      rw [EndsIn, body, ends_bind, ends_remaining]
      exact hs.bind hP fun _ => hW.keeps (made_bodyTail _)
    rw [program, EndsIn, ends_bind, ends_of_ok hopening]
    exact hbody.bind hP fun _ => hW.keeps (made_programClosing name)
  | @inside depth s s₁ o _ hopening ih =>
    refine ih ?_
    have hbody : EndsIn P (do
        declarationsWithin depth
        bodyTail .kwProcedure) s₁ :=
      hs.bind hP fun _ => hW.keeps (made_bodyTail _)
    have hdeclaration : EndsIn P (declaration (do
        declarationsWithin depth
        bodyTail .kwProcedure)) s := by
      rw [EndsIn, Ends, declaration_of_opening hopening, ← Ends, ends_andThenTable]
      exact (hbody.bind hP fun _ => keeps_procedureClosing o).mono
        (fun _ t ht => hP (.withTable t _) ht) fun _ t ht => hP (.withTable t _) ht
    rw [declarationsWithin_eq_pass, EndsIn, ends_bind, ends_current, ends_bind, ends_peek,
      if_pos (startsDeclaration_of_opening hopening)]
    exact (hdeclaration.passDeclaration hP).bind hP fun _ =>
      hW.keeps (made_declarationsWithin depth)
  | @behind depth s s₁ _ hstarts hpass ih =>
    refine ih ?_
    rw [declarationsWithin_eq_pass, EndsIn, ends_bind, ends_current, ends_bind, ends_peek,
      if_pos hstarts, ends_bind, ends_of_ok hpass]
    exact hs

end Reached

end OnePass.Program
