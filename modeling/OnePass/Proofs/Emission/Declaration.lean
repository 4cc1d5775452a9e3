import OnePass.Proofs.Elaboration.Declaration
import OnePass.Proofs.Emission.Basic
import OnePass.Proofs.Translation.Basic
set_option autoImplicit false

/-!
# What declarations bind and emit

Every declaration, accepted or rejected, in a source with or without errors, emits the lines of the
entries that it binds.  A rejected declaration has bound and emitted nothing of its own; a procedure
that is dropped because its key is bound has bound no entry of its own, while what is declared
inside of it stays.
-/

namespace OnePass.Program

open OnePass.Tree (slotLines ofProcedure_eq leave leave_of_parked)

/-! ## Where declarations stand -/

/-- A key that scopes can have. -/
structure IsPath (key : ScopeKey) : Prop where
  ne_nil : key ≠ []
  bytes : ∀ b ∈ key, Lexeme.isWordByte b = true ∨ b = Ascii.period

theorem isPath_lower {name : Bytes} (h : Lexeme.IsName name) : IsPath name.lower :=
  ⟨h.lower_ne_nil, fun _ hb => .inl (h.isWordByte_of_mem_lower hb)⟩

theorem IsPath.child {key : ScopeKey} (h : IsPath key) {name : Bytes} (hname : Lexeme.IsName name) :
    IsDotted (key.child name.lower) where
  period := List.mem_append_right key List.mem_cons_self
  bytes b hb := by
    rcases List.mem_append.mp hb with hb | hb
    · exact h.bytes b hb
    · rcases List.mem_cons.mp hb with rfl | hb
      · exact .inr rfl
      · exact .inl (hname.isWordByte_of_mem_lower hb)

theorem IsDotted.isPath {key : ScopeKey} (h : IsDotted key) : IsPath key :=
  ⟨List.ne_nil_of_mem h.period, h.bytes⟩

/-- A state in which declarations can be recognised: its tokens are those of a source, scopes are
open, and the key of the current function is bound. -/
structure Sited (unit : ScopeKey) (s : State) : Prop where
  marked : s.Marked
  lexed : ∀ t ∈ s.cursor.ahead, t.Lexed
  root : IsPath s.table.global
  scope : IsPath s.table.scope
  unit : unit ∈ s.table.bindings

theorem Sited.of_grows {unit : ScopeKey} {s s' : State} (hs : Sited unit s)
    (hproceeds : Proceeds s s') (hgrows : Grows unit s s') : Sited unit s' where
  marked := hproceeds.marked hs.marked
  lexed t ht := hs.lexed t (hproceeds.ahead.subset ht)
  root := by
    rw [hgrows.root]
    exact hs.root
  scope := by
    rw [hgrows.scope]
    exact hs.scope
  unit := hgrows.mem_bindings hs.unit

theorem Sited.next {unit : ScopeKey} {s : State} (hs : Sited unit s) :
    Sited unit { s with cursor := s.cursor.next } :=
  ⟨hs.marked, fun t ht => hs.lexed t (List.mem_of_mem_tail ht), hs.root, hs.scope, hs.unit⟩

/-- The name behind the current token. -/
theorem isName_peek {s : State} (hmarked : s.Marked) (hlexed : ∀ t ∈ s.cursor.ahead, t.Lexed)
    (h : s.cursor.peek.kind = .identifier) : Lexeme.IsName s.cursor.peek.literal := by
  have hspells : Grammar.Spells [.identifier] s.cursor.ahead.tail s.cursor.ahead.tail.tail :=
    spells_head hmarked h rfl
  obtain ⟨t, more, htail, ht, -⟩ := hspells
  have hpeek : s.cursor.peek = t := by simp [Cursor.peek, htail]
  have hmem : t ∈ s.cursor.ahead := List.mem_of_mem_tail (by simp [htail])
  rw [hpeek]
  exact (hlexed t hmem).name ht

/-- A production from a state on emits what it binds, also if it is rejected. -/
def Grown (unit : ScopeKey) (p : Parser Unit) (s : State) : Prop :=
  Ends p s (fun _ s' => Grows unit s s') (fun stop s' => stop = .reject → Grows unit s s')

/-- A production from a state on emits what it binds, and is never rejected. -/
def Settles (unit : ScopeKey) (p : Parser Unit) (s : State) : Prop :=
  Ends p s (fun _ s' => Grows unit s s') (fun stop _ => stop ≠ .reject)

theorem Grown.behind {unit : ScopeKey} {p : Parser Unit} {s s₁ : State}
    (hunit : unit ∈ s.table.bindings) (h : Grows unit s s₁) (hp : Grown unit p s₁) :
    Ends p s₁ (fun _ s' => Grows unit s s') (fun stop s' => stop = .reject → Grows unit s s') :=
  Ends.mono hp (fun _ _ h' => h.trans hunit h') (fun _ _ h' hstop => h.trans hunit (h' hstop))

section Scopes

variable {unit : ScopeKey} {p : Parser Unit} {s : State}

theorem inScope_grown {name : Bytes} (hs : Sited unit s) (hname : Lexeme.IsName name)
    (h : Grown unit p { s with table := { s.table with scope := s.table.scope.child name.lower } }) :
    Grown unit (inScope name p) s := by
  have henter : s.table.enter name = { s.table with scope := s.table.scope.child name.lower } := by
    simp [Table.enter, hs.root.ne_nil, hs.scope.ne_nil]
  have hexit {s' : State} (hs' : Grows unit
      { s with table := { s.table with scope := s.table.scope.child name.lower } } s') :
      Grows unit s { s' with table := s'.table.exit } := by
    obtain ⟨d, hd, ⟨htable, hbuilder, hfresh, hdiagnostics⟩, hplaced⟩ := hs'
    refine ⟨d, hd, ⟨?_, hbuilder, hfresh, hdiagnostics⟩, hplaced⟩
    have hparent := ScopeKey.parent_child s.table.scope hname.period_notMem_lower
    simp only [Table.exit]
    rw [htable]
    simp only [hparent]
  unfold Grown
  rw [ends_inScope, henter]
  exact Ends.mono h (fun _ _ hs' => hexit hs') (fun _ _ hs' hstop => hexit (hs' hstop))

theorem inScopeOf_grown {global : Bool} (h : Grown unit p (s.at global)) :
    Grown unit (inScopeOf global p) s := by
  cases global with
  | false => exact h
  | true =>
    have hexit {s' : State} (hs' : Grows unit (s.at true) s') :
        Grows unit s { s' with table := s'.table.exitGlobal } := by
      obtain ⟨d, hd, ⟨htable, hbuilder, hfresh, hdiagnostics⟩, hplaced⟩ := hs'
      refine ⟨d, hd, ⟨?_, hbuilder, hfresh, hdiagnostics⟩, hplaced⟩
      simp only [Table.exitGlobal]
      rw [htable]
      simp only [State.at, Table.enterGlobal, if_true]
    unfold Grown
    rw [ends_inScopeOf_true]
    exact Ends.mono h (fun _ _ hs' => hexit hs') (fun _ _ hs' hstop => hexit (hs' hstop))

theorem Sited.at (hs : Sited unit s) (global : Bool) : Sited unit (s.at global) := by
  cases global with
  | false => exact hs
  | true => exact ⟨hs.marked, hs.lexed, hs.root, hs.root, hs.unit⟩

end Scopes

/-! ## Variables -/

/-- The line of a variable with a name: global variables stand outside of functions. -/
theorem declaration_eq_ok {name : Bytes} {sym : Symbol} {line : Ir.Line}
    (h : Ir.declaration name sym = .ok line) :
    ∃ storage : Ir.Storage, line =
      if sym.global then .global name storage.ty storage.zero storage.align
      else .alloca (.named name) storage.ty storage.align := by
  unfold Ir.declaration at h
  cases hstorage : Ir.Storage.ofSymbol sym with
  | error e =>
    rw [hstorage] at h
    cases h
  | ok storage =>
    rw [hstorage] at h
    refine ⟨storage, ?_⟩
    cases hglobal : sym.global with
    | false =>
      simp [hglobal, bind, Except.bind, pure, Except.pure] at h
      exact h.symm
    | true =>
      simp [hglobal, bind, Except.bind, pure, Except.pure] at h
      exact h.symm

/-- The emission of a variable. -/
def variableEmission (e : Entry) (line : Ir.Line) : Emission :=
  ⟨[e], if e.2.global then [line] else [], [], if e.2.global then [] else [line]⟩

theorem matches_variable {key : ScopeKey} (sym : Symbol) {type : Scalar} {line : Ir.Line}
    (hkey : IsDotted key) (hkind : sym.kind = .scalar type)
    (hline : Ir.declaration key.irName sym = .ok line) :
    (variableEmission (key, sym) line).Matches := by
  have hprocedure : Entry.isProcedure (key, sym) = false := by simp [Entry.isProcedure, hkind]
  have hkeys : ∀ e ∈ [(key, sym)], Entry.isEmitted e = true → IsDotted e.1 := by
    intro e he _
    rw [List.mem_singleton.mp he]
    exact hkey
  unfold variableEmission
  cases hglobal : sym.global with
  | false =>
    have hvariable : Entry.isVariable (key, sym) = false := by simp [Entry.isVariable, hglobal]
    refine ⟨?_, ?_, hkeys, by simp, ?_⟩
    · simp [hvariable]
    · simp [hprocedure]
    · obtain ⟨storage, rfl⟩ := declaration_eq_ok hline
      simp only [hglobal, Bool.false_eq_true, if_false, List.forall_mem_singleton]
      exact .named hkey storage.ty storage.align
  | true =>
    have hvariable : Entry.isVariable (key, sym) = true := by
      simp [Entry.isVariable, hglobal, hkind, Kind.isScalar]
    refine ⟨?_, ?_, hkeys, by simp, by simp⟩
    · simp [hvariable, Entry.line, hline]
    · simp [hprocedure]

/-- A local variable belongs to the scope that it is declared in. -/
theorem placed_variable {unit key : ScopeKey} (sym : Symbol) {type : Scalar} {line : Ir.Line}
    (hunit : sym.global = false → key.parent = unit) (hkind : sym.kind = .scalar type)
    (hdirection : sym.direction = none) (hline : Ir.declaration key.irName sym = .ok line) :
    (variableEmission (key, sym) line).Placed unit := by
  have hprocedures : procedureKeys [(key, sym)] = [] := by
    simp [procedureKeys, Entry.isProcedure, hkind]
  obtain ⟨storage, hstorage⟩ := declaration_eq_ok hline
  unfold variableEmission
  cases hglobal : sym.global with
  | false =>
    rw [hglobal] at hstorage
    have hlocal : Entry.isLocalTo unit (key, sym) = true := by
      simp [Entry.isLocalTo, Entry.isLocal, hglobal, hdirection, hkind, Kind.isScalar,
        hunit hglobal]
    refine ⟨⟨[], rfl, ?_, by simp⟩, ?_, ?_⟩
    · exact .of_eq hprocedures.symm
    · simp [Stores, hlocal, Entry.line, hline, hstorage, isNamed]
    · intro e he _
      rw [List.mem_singleton.mp he]
      exact .inl (hunit hglobal)
  | true =>
    have hlocal : Entry.isLocal (key, sym) = false := by simp [Entry.isLocal, hglobal]
    refine ⟨⟨[], rfl, ?_, by simp⟩, stores_nil ?_, ?_⟩
    · exact .of_eq hprocedures.symm
    · simp [hlocal]
    · simp [hlocal]

theorem variableTail_grown {unit : ScopeKey} {s : State} {sym : Symbol} {type : Scalar}
    (name : Token) (hkind : sym.kind = .scalar type) (hdirection : sym.direction = none)
    (hscope : IsDotted s.table.scope)
    (hunit : sym.global = false → s.table.scope.parent = unit) :
    Grown unit (variableTail sym name) s := by
  unfold Grown variableTail
  rw [ends_bind, ends_get, ends_bind, ends_orDiscard]
  refine Ends.mono (Reads.frame.keeps made_optionalBounds s) (fun bounds? s₁ hreads => ?_)
    (fun _ s₁ hreads _ => .of_same (by simp [Table.discard, hreads.table]) hreads.builder
      hreads.diagnostics)
  have htable := hreads.table
  have hbuilder := hreads.builder
  have hdiagnostics := hreads.diagnostics
  simp only [variableEnd, ends_bind, ends_modifyTable, ends_get, Table.irName, Table.stage, htable]
  cases hline : Ir.declaration s.table.scope.irName { sym with bounds := bounds? } with
  | error _ =>
    dsimp only
    split
    · exact fun _ => .of_same rfl hbuilder (hdiagnostics.trans (List.prefix_append _ _))
    · exact fun _ => .of_same rfl hbuilder (hdiagnostics.trans (List.prefix_append _ _))
  | ok line =>
    simp only [ends_bind]
    rw [ends_commit_eq name rfl]
    by_cases hbound : s.table.scope ∈ s.table.bindings
    · simp only [hbound, not_true_eq_false, decide_false, Bool.false_eq_true, if_false, if_true,
        ends_pure]
      exact .of_same rfl hbuilder (hdiagnostics.trans (List.prefix_append _ _))
    · simp only [hbound, not_false_eq_true, decide_true, if_true, if_false, ends_bind,
        ends_emitStorage, ends_note, List.append_nil]
      refine ⟨_, matches_variable { sym with bounds := bounds? } hscope hkind hline, ?_,
        fun _ => placed_variable { sym with bounds := bounds? } hunit hkind hdirection hline⟩
      refine ⟨rfl, ?_, fresh_singleton hbound, hdiagnostics⟩
      cases hglobal : sym.global with
      | false => simp [variableEmission, hbuilder, Ir.Builder.addLocal, Ir.Function.push]
      | true => simp [variableEmission, hbuilder, Ir.Builder.addGlobal]

/-! ## Parameters -/

/-- A parameter that was recognised: its type can be emitted, and it has a direction. -/
structure IsFormal (p : Parameter) : Prop where
  scalar : ∃ type, p.kind = .scalar type
  directed : p.direction ≠ none

/-- A parameter that was recognised bears the identifier behind its type, in small letters. -/
theorem parameter_isFormal (s : State) :
    Ends parameter s (fun p _ => IsFormal p ∧ s.cursor.peek.kind = .identifier ∧
      p.name = s.cursor.peek.literal.lower) (fun _ _ => True) := by
  unfold parameter
  rw [ends_bind, ends_current]
  split
  case h_2 => trivial
  case h_1 type htype =>
    rw [ends_bind, ends_expectPeek]
    split
    · next hkind =>
      rw [ends_bind, ends_current, ends_bind]
      refine Ends.mono (ends_trivial optionalBounds _) (fun bounds? s₁ _ => ?_) (fun _ _ h => h)
      rw [ends_bind, ends_advance, ends_bind, ends_current]
      split
      · exact ⟨⟨⟨type, rfl⟩, Option.some_ne_none _⟩, hkind, rfl⟩
      · trivial
    · trivial

section Parameters

variable {I : State → Prop} {P : Parameter → Prop} (hI : ∀ {s s'}, Reads s s' → I s → I s')
  (hparameter : ∀ {s}, I s → Ends parameter s (fun p _ => P p) (fun _ _ => True))

include hI hparameter

/-- What holds of every parameter that is recognised holds of all of them in a list. -/
theorem parametersWithin_forall (count : Nat) {s : State} (hs : I s) :
    Ends (parametersWithin count) s (fun ps _ => ∀ p ∈ ps, P p) (fun _ _ => True) := by
  induction count generalizing s with
  | zero => trivial
  | succ count ih =>
    have hnext := hI (Reads.frame.next s) hs
    rw [parametersWithin, ends_bind, ends_advance, ends_bind]
    refine Ends.mono ((hparameter hnext).and (Reads.frame.keeps made_parameter _)) ?_ (fun _ _ h => h.1)
    rintro p s₁ ⟨hp, hreads⟩
    rw [ends_bind, ends_peekIs]
    split
    · rw [ends_bind, ends_advance, ends_bind]
      refine Ends.mono (ih (hI (Reads.frame.next s₁) (hI hreads hnext))) (fun ps s₂ hps => ?_)
        (fun _ _ h => h)
      exact List.forall_mem_cons.mpr ⟨hp, hps⟩
    · exact List.forall_mem_singleton.mpr hp

theorem parameters_forall {s : State} (hs : I s) :
    Ends parameters s (fun ps _ => ∀ p ∈ ps, P p) (fun _ _ => True) := by
  have hclose (ps : List Parameter) (hps : ∀ p ∈ ps, P p) (s₁ : State) :
      Ends (do
        expectPeek .rightParen
        return ps) s₁ (fun ps _ => ∀ p ∈ ps, P p) (fun _ _ => True) := by
    rw [ends_bind, ends_expectPeek]
    split
    · exact hps
    · trivial
  rw [parameters, ends_bind, ends_expectPeek]
  split
  · rw [ends_bind, ends_peekIs]
    split
    · exact hclose [] (List.forall_mem_nil _) _
    · rw [ends_bind, ends_remaining, ends_bind]
      exact Ends.mono (parametersWithin_forall hI hparameter _ (hI (Reads.frame.next s) hs))
        (fun ps s₁ hps => hclose ps hps s₁) (fun _ _ h => h)
  · trivial

end Parameters

theorem parameters_isFormal (s : State) :
    Ends parameters s (fun ps _ => ∀ p ∈ ps, IsFormal p) (fun _ _ => True) :=
  parameters_forall (I := fun _ => True) (fun _ h => h)
    (fun _ => (parameter_isFormal _).mono (fun _ _ h => h.1) fun _ _ h => h) trivial

theorem exists_formals_of_isFormal {ps : List Parameter} (h : ∀ p ∈ ps, IsFormal p) :
    ∃ formals, ps.mapM Ir.Formal.ofParameter = .ok formals := by
  induction ps with
  | nil => exact ⟨[], rfl⟩
  | cons p ps ih =>
    obtain ⟨⟨⟨type, htype⟩, -⟩, hps⟩ := List.forall_mem_cons.mp h
    obtain ⟨formals, hformals⟩ := ih hps
    obtain ⟨formal, hformal⟩ : ∃ formal, Ir.Formal.ofParameter p = .ok formal := by
      unfold Ir.Formal.ofParameter
      rw [htype]
      dsimp only
      split
      · exact ⟨_, rfl⟩
      · exact ⟨_, rfl⟩
    refine ⟨formal :: formals, ?_⟩
    simp only [List.mapM_cons, hformal, hformals]
    rfl

/-- An entry that no line is emitted for. -/
structure Entry.IsSilent (e : Entry) : Prop where
  notVariable : e.isVariable = false
  notProcedure : e.isProcedure = false
  notLocal : e.isLocal = false

/-- The entries of parameters: those whose keys are not bound yet. -/
theorem exists_bindParameters (t : Table) (sym : Symbol) (h : ∀ p ∈ sym.parameters, IsFormal p) :
    ∃ es : List Entry,
      (t.stage sym).bindParameters =
        { t with staged := some sym, bindings := insertAll t.bindings es } ∧
      Fresh t.bindings es ∧ ∀ e ∈ es, e.IsSilent := by
  have hfold (ps : List Parameter) (hps : ∀ p ∈ ps, IsFormal p) (t : Table) : ∃ es : List Entry,
      ps.foldl (fun t p => t.bindParameter sym.line p) t =
        { t with bindings := insertAll t.bindings es } ∧
      Fresh t.bindings es ∧ ∀ e ∈ es, e.IsSilent := by
    induction ps generalizing t with
    | nil => exact ⟨[], rfl, fresh_nil _, by simp⟩
    | cons p ps ih =>
      obtain ⟨⟨⟨type, htype⟩, hdirected⟩, hps⟩ := List.forall_mem_cons.mp hps
      rw [List.foldl_cons]
      by_cases hbound : t.scope.child p.name.lower ∈ t.bindings
      · have hstep : t.bindParameter sym.line p = t := by simp [Table.bindParameter, hbound]
        rw [hstep]
        exact ih hps t
      · have hstep : t.bindParameter sym.line p = { t with
            bindings := t.bindings.insert (t.scope.child p.name.lower)
              (.ofParameter p sym.line) } := by
          simp [Table.bindParameter, hbound]
        obtain ⟨es, hes, hfresh, hplain⟩ := ih hps (t.bindParameter sym.line p)
        rw [hstep] at hes hfresh ⊢
        refine ⟨(t.scope.child p.name.lower, .ofParameter p sym.line) :: es, hes,
          (fresh_singleton hbound).append hfresh, List.forall_mem_cons.mpr ⟨?_, hplain⟩⟩
        constructor
        · simp [Entry.isVariable, Symbol.ofParameter]
        · simp [Entry.isProcedure, Symbol.ofParameter, htype]
        · simp [Entry.isLocal, Symbol.ofParameter, hdirected]
  obtain ⟨es, hes, hrest⟩ := hfold sym.parameters h (t.stage sym)
  exact ⟨es, hes, hrest⟩

/-! ## Procedures -/

/-- What is bound when a function is opened: parameters, and the entry of the procedure itself if the
function is kept. -/
structure Opens (own : Entry) (es : List Entry) (f : Ir.Function) (kept : Bool) : Prop where
  noVariable : ∀ e ∈ es, e.isVariable = false
  noLocal : ∀ e ∈ es, e.isLocal = false
  procedures : es.filter Entry.isProcedure = if kept then [own] else []
  header : own.header = .ok f.header
  keys : ∀ e ∈ es, e.isEmitted = true → IsDotted e.1
  body : ∀ l ∈ f.body, IsInner l
  slots : ∀ l ∈ f.body, isNamed l = false

/-- A function with more lines in it and its end. -/
def closed (f : Ir.Function) (ls : List Ir.Line) : Ir.Function :=
  { f with body := f.body ++ ls ++ [.returnVoid, .close] }

/-- The emission of a procedure, given that of what is inside of it. -/
def procedureEmission (es : List Entry) (f : Ir.Function) (kept : Bool) (d : Emission) : Emission :=
  ⟨es ++ d.bound, d.globals, d.finished ++ if kept then [closed f d.locals] else [], []⟩

theorem Opens.matches {own : Entry} {es : List Entry} {f : Ir.Function} {kept : Bool}
    (h : Opens own es f kept) {d : Emission} (hd : d.Matches) :
    (procedureEmission es f kept d).Matches where
  globals := by
    have hnone : es.filter Entry.isVariable = [] := by
      simpa [List.filter_eq_nil_iff] using h.noVariable
    simp only [procedureEmission, List.filter_append, hnone, List.nil_append]
    exact hd.globals
  headers := by
    have hown : ((if kept then [closed f d.locals] else []).map fun f =>
        (Except.ok f.header : Except Ir.Error Ir.Line)) =
          (if kept then [own] else []).map Entry.header := by
      cases kept with
      | false => rfl
      | true => exact congrArg (fun header => [header]) h.header.symm
    simp only [procedureEmission, List.filter_append, List.map_append, h.procedures, hown]
    exact List.perm_append_comm.trans (hd.headers.append_left _)
  keys e he := (List.mem_append.mp he).elim (h.keys e) (hd.keys e)
  bodies g hg := by
    rcases List.mem_append.mp hg with hg | hg
    · exact hd.bodies g hg
    · cases kept with
      | false => cases hg
      | true =>
        rw [List.mem_singleton.mp hg]
        intro l hl
        simp only [closed, List.mem_append, List.mem_cons, List.not_mem_nil, or_false] at hl
        rcases hl with (hl | hl) | rfl | rfl
        · exact h.body l hl
        · exact hd.locals l hl
        · exact .returnVoid
        · exact .close
  locals := by simp [procedureEmission]

/-- The storage inside of a procedure that is kept is that of the variables local to it, and none of
them is local to the function around. -/
theorem Opens.placed {unit : ScopeKey} {own : Entry} {es : List Entry} {f : Ir.Function}
    (h : Opens own es f true) {d : Emission} (hd : d.Placed own.1) {m : Bindings}
    (hunit : unit ∈ m) (hfresh : Fresh m es) (hfresh' : Fresh (insertAll m es) d.bound) :
    (procedureEmission es f true d).Placed unit := by
  have hfilter : own ∈ es.filter Entry.isProcedure := by
    rw [h.procedures]
    exact List.mem_singleton_self own
  obtain ⟨hown, hprocedure⟩ := List.mem_filter.mp hfilter
  have hkeys : procedureKeys es = [own.1] := by
    rw [procedureKeys, h.procedures]
    rfl
  have hsilent (key : ScopeKey) : ∀ e ∈ es, e.isLocal = true → e.1.parent ≠ key := by
    intro e he hlocal
    rw [h.noLocal e he] at hlocal
    cases hlocal
  have hinside : ∀ e ∈ es ++ d.bound, e.isLocal = true →
      e.1.parent = own.1 ∨ e.1.parent ∈ procedureKeys d.bound := by
    intro e he hlocal
    rcases List.mem_append.mp he with he | he
    · exact absurd rfl (hsilent e.1.parent e he hlocal)
    · exact hd.parents e he hlocal
  obtain ⟨us, hfinished, hperm, hus⟩ := hd.units
  refine ⟨⟨us ++ [(own.1, closed f d.locals)], ?_, ?_, fun u hu => ?_⟩, stores_nil ?_, ?_⟩
  · simp [procedureEmission, hfinished]
  · simp only [procedureEmission, List.map_append, procedureKeys_append, hkeys]
    exact (hperm.append_right _).trans List.perm_append_comm
  · rcases List.mem_append.mp hu with hu | hu
    · exact (hus u hu).append_left (hsilent u.1)
    · rw [List.mem_singleton.mp hu]
      have hend : Stores [] own.1 [.returnVoid, .close] := rfl
      have hstores := ((stores_of_none h.slots (hsilent own.1)).append hd.locals).append hend
      rw [List.append_nil] at hstores
      exact ⟨⟨own, List.mem_append_left _ hown, rfl, hprocedure, h.header⟩, hstores⟩
  · intro e he hlocal heq
    rcases hinside e he hlocal with hparent | hparent
    · exact hfresh.unbound own hown (hparent ▸ heq ▸ hunit)
    · obtain ⟨e', he', hkey⟩ := exists_mem_of_mem_procedureKeys hparent
      refine hfresh'.unbound e' he' (mem_insertAll.mpr (.inl ?_))
      rw [hkey, heq]
      exact hunit
  · intro e he hlocal
    simp only [procedureEmission, procedureKeys_append, hkeys, List.mem_append, List.mem_singleton]
    exact .inr (hinside e he hlocal)

/-- The lines that keep parameters in slots. -/
theorem isInner_slotLines (n : Nat) (ps : List Ir.Formal) :
    ∀ l ∈ slotLines n ps, IsInner l ∧ isNamed l = false := by
  induction ps generalizing n with
  | nil => simp [slotLines]
  | cons p ps ih =>
    simp only [slotLines, List.forall_mem_cons]
    exact ⟨⟨.slot n p.ty p.align, rfl⟩, ⟨.store p.ty _ _, rfl⟩, ih (n + 1)⟩

/-- The entry of a procedure with a key, if there is none under the key. -/
def ownEntry (kept : Bool) (key : ScopeKey) (sym : Symbol) : List Entry :=
  if kept then [(key, sym)] else []

theorem forall_mem_ownEntry {kept : Bool} {key : ScopeKey} {sym : Symbol} {P : Entry → Prop}
    (h : P (key, sym)) : ∀ e ∈ ownEntry kept key sym, P e := by
  intro e he
  cases kept with
  | false => cases he
  | true =>
    rw [List.mem_singleton.mp he]
    exact h

theorem opens_ofProcedure {es : List Entry} {key : ScopeKey} (sym : Symbol)
    {formals : List Ir.Formal} (hsilent : ∀ e ∈ es, e.IsSilent)
    (hkind : sym.kind = .procedure) (hkey : IsDotted key)
    (hformals : sym.parameters.mapM Ir.Formal.ofParameter = .ok formals) (kept : Bool) :
    Opens (key, sym) (es ++ ownEntry kept key sym) (.ofProcedure key.irName formals) kept := by
  have hvariable : Entry.isVariable (key, sym) = false := by
    simp [Entry.isVariable, hkind, Kind.isScalar]
  have hlocal : Entry.isLocal (key, sym) = false := by simp [Entry.isLocal, hkind, Kind.isScalar]
  have hprocedure : Entry.isProcedure (key, sym) = true := by simp [Entry.isProcedure, hkind]
  have hnone : es.filter Entry.isProcedure = [] := by
    rw [List.filter_eq_nil_iff]
    intro e he
    simp [(hsilent e he).notProcedure]
  constructor
  · intro e he
    rcases List.mem_append.mp he with he | he
    · exact (hsilent e he).notVariable
    · exact forall_mem_ownEntry (P := fun e => e.isVariable = false) hvariable e he
  · intro e he
    rcases List.mem_append.mp he with he | he
    · exact (hsilent e he).notLocal
    · exact forall_mem_ownEntry (P := fun e => e.isLocal = false) hlocal e he
  · rw [List.filter_append, hnone]
    cases kept with
    | false => rfl
    | true => simp [ownEntry, hprocedure]
  · simp only [Entry.header, hformals, ofProcedure_eq]
    rfl
  · intro e he hemitted
    rcases List.mem_append.mp he with he | he
    · simp [Entry.isEmitted, (hsilent e he).notVariable, (hsilent e he).notProcedure] at hemitted
    · exact forall_mem_ownEntry (P := fun e => IsDotted e.1) hkey e he
  · rw [ofProcedure_eq]
    exact fun l hl => (isInner_slotLines 1 formals l hl).1
  · rw [ofProcedure_eq]
    exact fun l hl => (isInner_slotLines 1 formals l hl).2

/-- Binding a key that is not bound yet adds its entry. -/
theorem insertAll_ownEntry (m : Bindings) (es : List Entry) (key : ScopeKey) (sym : Symbol) :
    (if key ∈ insertAll m es then insertAll m es else (insertAll m es).insert key sym) =
      insertAll m (es ++ ownEntry (decide (key ∉ insertAll m es)) key sym) := by
  rw [insertAll_append]
  by_cases h : key ∈ insertAll m es
  · simp [h, ownEntry, insertAll_nil]
  · simp only [h, ownEntry, if_false, not_false_eq_true, decide_true, if_true]
    rfl

theorem Fresh.ownEntry {m : Bindings} {es : List Entry} (h : Fresh m es) (key : ScopeKey)
    (sym : Symbol) : Fresh m (es ++ ownEntry (decide (key ∉ insertAll m es)) key sym) := by
  refine h.append ?_
  by_cases hkey : key ∈ insertAll m es
  · simp only [hkey, not_true_eq_false, decide_false]
    exact fresh_nil _
  · simp only [hkey, not_false_eq_true, decide_true]
    exact fresh_singleton hkey

/-- The key of a procedure is bound when its body is recognised, by it or by another one. -/
theorem mem_insertAll_ownEntry (m : Bindings) (es : List Entry) (key : ScopeKey) (sym : Symbol) :
    key ∈ insertAll m (es ++ ownEntry (decide (key ∉ insertAll m es)) key sym) := by
  by_cases h : key ∈ insertAll m es
  · rw [insertAll_append]
    exact mem_insertAll.mpr (.inl h)
  · simp [mem_insertAll, ownEntry, h]

/-- A procedure that is not reported to be declared twice is kept. -/
theorem kept_of_unduplicated {s : State} {ds : List Diagnostic} {m : Bindings} {key : ScopeKey}
    {place : Position} (h : s.Unduplicated)
    (hs : s.diagnostics = ds ++ if key ∈ m then [.duplicate place key] else []) :
    decide (key ∉ m) = true := by
  refine decide_eq_true fun hkey => ?_
  rw [if_pos hkey] at hs
  refine h (.duplicate place key) ?_ rfl
  rw [hs]
  exact List.mem_append_right ds (List.mem_singleton_self _)

section Procedures

variable {inner : Parser Unit}
  (hinner : ∀ s, Sited s.table.scope s → Settles s.table.scope inner s)

include hinner

/-- The body of a procedure from the token before it on, and the return to the function around: what
was there before the procedure was opened is `s₀`. -/
theorem procedureBody_grown {unit : ScopeKey} {s₀ s : State} {own : Entry} {es : List Entry}
    {f : Ir.Function} {kept : Bool} {key : ScopeKey} (hunit : unit ∈ s₀.table.bindings)
    (hs : Sited s.table.scope s) (hopens : Opens own es f kept) (hown : own.1 = s.table.scope)
    (htable : s.table =
      { s₀.table with bindings := insertAll s₀.table.bindings es, staged := s.table.staged })
    (hbuilder : s.builder =
      { s₀.builder with parked := s₀.builder.current :: s₀.builder.parked, current := f })
    (hfresh : Fresh s₀.table.bindings es) (hdiagnostics : s₀.diagnostics <+: s.diagnostics)
    (hkept : s.Unduplicated → kept = true) :
    Ends (procedureBody inner key kept) s (fun _ s' => Grows unit s₀ s')
      (fun stop _ => stop ≠ .reject) := by
  rw [procedureBody, ends_bind, ends_advance, ends_bind]
  refine Ends.mono (hinner _ hs.next) ?_ (fun _ _ h => h)
  rintro _ s₁ ⟨d, hd, hemits, hplaced⟩
  have hclean (h : s₁.Unduplicated) : kept = true := hkept (hemits.unduplicated h)
  obtain ⟨htable₁, hbuilder₁, hfresh₁, hdiagnostics₁⟩ := hemits
  rw [ends_bind, ends_get, ends_bind, ends_leaveFunction, ends_note]
  dsimp only at htable₁ hbuilder₁ hfresh₁ hplaced
  rw [hbuilder] at hbuilder₁
  rw [congrArg Table.bindings htable] at hfresh₁
  have hparked : s₁.builder.parked = s₀.builder.current :: s₀.builder.parked := by rw [hbuilder₁]
  refine ⟨_, hopens.matches hd, ⟨?_, ?_, hfresh.append hfresh₁, ?_⟩, fun h => ?_⟩
  · dsimp only [procedureEmission]
    rw [htable₁, htable, insertAll_append]
  · dsimp only [procedureEmission]
    rw [leave_of_parked hparked, hbuilder₁]
    cases kept with
    | false => simp
    | true => simp [closed, Ir.Function.push]
  · exact hdiagnostics.trans hdiagnostics₁
  · obtain rfl := hclean h
    exact hopens.placed (hown ▸ hplaced h) hunit hfresh hfresh₁

theorem procedureTail_grown {unit : ScopeKey} {s : State} {sym : Symbol} (name : Token)
    (hs : Sited unit s) (hkind : sym.kind = .procedure) (hscope : IsDotted s.table.scope) :
    Grown unit (procedureTail inner sym name) s := by
  have hR := Reads.frame
  have hparameters := (parameters_isFormal s).and (hR.keeps made_parameters s)
  unfold Grown procedureTail
  rw [ends_bind, ends_orDiscard]
  refine Ends.mono hparameters (fun ps s₁ hps => ?_)
    (fun _ s₁ h _ => .of_same (by simp [Table.discard, h.2.table]) h.2.builder h.2.diagnostics)
  obtain ⟨hps, hreads⟩ := hps
  have hbuilder := hreads.builder
  obtain ⟨es, hes, hfresh, hsilent⟩ :=
    exists_bindParameters s.table { sym with parameters := ps } hps
  obtain ⟨formals, hformals⟩ := exists_formals_of_isFormal hps
  have hopened (b : Ir.Builder) (key : Bytes) :=
    b.openProcedure_of_formals key { sym with parameters := ps } hformals
  have hfresh' := hfresh.ownEntry s.table.scope { sym with parameters := ps }
  have hopens := opens_ofProcedure { sym with parameters := ps } hsilent hkind hscope hformals
    (decide (s.table.scope ∉ insertAll s.table.bindings es))
  have hbound := mem_insertAll_ownEntry s.table.bindings es s.table.scope
    { sym with parameters := ps }
  have hlexed : ∀ t ∈ s₁.cursor.ahead, t.Lexed := fun t ht => hs.lexed t (hreads.ahead.subset ht)
  have hdiagnostics (ds : List Diagnostic) : s.diagnostics <+: s₁.diagnostics ++ ds :=
    hreads.diagnostics.trans (List.prefix_append _ _)
  rw [ends_bind, ends_modifyTable, ends_bind, ends_get, hreads.table, hes, ends_bind,
    ends_commit_eq name rfl, openFunction, ends_bind, ends_get]
  simp only [Table.irName, hopened, insertAll_ownEntry, ends_bind, ends_set, procedureInside, ends_note]
  refine optionalIs_reads fun c hread => ?_
  refine Ends.mono (procedureBody_grown hinner hs.unit ?_ hopens rfl rfl ?_ hfresh'
    (hdiagnostics _) fun h => kept_of_unduplicated h rfl) (fun _ _ h => h)
    (fun _ _ h hstop => (h hstop).elim)
  · exact ⟨hread.marked (hreads.marked hs.marked), fun t ht => hlexed t (hread.ahead.subset ht),
      hs.root, hs.scope, hbound⟩
  · simp only [hbuilder]

omit hinner

/-- A declaration from the token before its name on, given how it goes on behind the name. -/
theorem named_grown {unit : ScopeKey} {s : State} (hs : Sited unit s) {symbol : Token → Symbol}
    {tail : Symbol → Token → Parser Unit}
    (h : ∀ s' name, Sited unit s' → IsDotted s'.table.scope →
      s'.table.scope.parent = s.table.scope → Grown unit (tail (symbol name) name) s') :
    Grown unit (named symbol tail) s := by
  unfold Grown
  rw [ends_named]
  split
  case isFalse => exact fun _ => .of_same rfl rfl (List.prefix_append _ _)
  case isTrue hkind =>
    have hname := isName_peek hs.marked hs.lexed hkind
    have hdotted := hs.scope.child hname
    have hstaged : Sited unit { s with
        cursor := s.cursor.next
        table := s.table.stage (symbol s.cursor.peek) } :=
      ⟨hs.marked, hs.next.lexed, hs.root, hs.scope, hs.unit⟩
    have hinside := h { s with
      cursor := s.cursor.next
      table := { s.table.stage (symbol s.cursor.peek) with
        scope := s.table.scope.child s.cursor.peek.literal.lower } } s.cursor.peek
      ⟨hs.marked, hs.next.lexed, hs.root, hdotted.isPath, hs.unit⟩ hdotted
      (ScopeKey.parent_child s.table.scope hname.period_notMem_lower)
    exact (inScope_grown hstaged hname hinside).behind hs.unit
      (.of_same rfl rfl (List.prefix_refl _))

theorem variableDeclaration_grown {unit : ScopeKey} {s : State} (hs : Sited unit s) {global : Bool}
    (type : Scalar) (hunit : global = false → s.table.scope = unit) :
    Grown unit (variableDeclaration global type) s :=
  named_grown hs fun _ name _ hdotted hparent =>
    variableTail_grown name rfl rfl hdotted fun hglobal => hparent.trans (hunit hglobal)

include hinner

theorem procedureDeclaration_grown {unit : ScopeKey} {s : State} (hs : Sited unit s)
    (global : Bool) : Grown unit (procedureDeclaration inner global) s :=
  named_grown hs fun _ name hs' hdotted _ => procedureTail_grown hinner name hs' rfl hdotted

theorem declarationTail_grown {unit : ScopeKey} {s : State} (hs : Sited unit s)
    (hunit : s.table.scope = unit) (global : Bool) :
    Grown unit (declarationTail inner global) s := by
  have hscope (hglobal : global = false) : (s.at global).table.scope = unit := by
    rw [hglobal]
    exact hunit
  unfold Grown declarationTail
  rw [ends_bind, ends_current]
  split
  · exact inScopeOf_grown (procedureDeclaration_grown hinner (hs.at global) global)
  · exact inScopeOf_grown (variableDeclaration_grown (hs.at global) _ hscope)
  · exact fun _ => .of_same rfl rfl (List.prefix_append _ _)

theorem declaration_grown {s : State} (hs : Sited s.table.scope s) :
    Grown s.table.scope (declaration inner) s := by
  unfold Grown declaration
  rw [ends_bind, ends_currentIs]
  split
  · rw [ends_bind, ends_advance]
    exact (declarationTail_grown hinner hs.next rfl true).behind hs.unit
      (.of_same rfl rfl (List.prefix_refl _))
  · exact declarationTail_grown hinner hs rfl false

end Procedures

end OnePass.Program
