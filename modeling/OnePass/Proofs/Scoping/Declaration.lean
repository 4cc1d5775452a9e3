import OnePass.Proofs.Scoping.Basic
set_option autoImplicit false

/-!
# Declarations graft

Every declaration leaves the bindings a tree, however it ends: also when the whole program is given up
in the middle of a procedure.  It leaves the scopes as it found them, binds no key anew, and adds lines
of words to the code.  `Grafts` says all of this of two states, and a declaration is looked at from
states in which its scope has a place in the tree (`Scoped`).

While a name is declared, its own key is the current scope, and need not be bound.  So the tails of
declarations are looked at from the key around (`Scoped unit`), and the body of a procedure from the
procedure's key, which is bound by then.
-/

namespace OnePass.Program

/-! ## States and what happens between them -/

/-- Whether the bindings of a state are a tree. -/
def State.IsTree (s : State) : Prop :=
  IsScopeTree s.table.global s.table.bindings s.Unduplicated

/-- A state in which something can be declared inside a key: its tokens are those of a source, and its
bindings are a tree in which the key has a place. -/
structure Scoped (unit : ScopeKey) (s : State) : Prop where
  marked : s.Marked
  lexed : ∀ t ∈ s.cursor.ahead, t.Lexed
  tree : s.IsTree
  root : IsScope s.table.bindings s.Unduplicated s.table.global
  unit : IsScope s.table.bindings s.Unduplicated unit

/-- Whether the bindings have become another tree between two states, with all that was bound in it,
and with worded lines added to the code. -/
structure Grafts (s s' : State) : Prop extends Proceeds s s' where
  scope : s'.table.scope = s.table.scope
  global : s'.table.global = s.table.global
  saved : s'.table.saved = s.table.saved
  bindings : Included s.table.bindings s'.table.bindings
  code : s.builder.IsWorded → s'.builder.IsWorded
  tree : s'.IsTree

section States

variable {unit : ScopeKey} {s s' s'' : State}

theorem Proceeds.unduplicated (h : Proceeds s s') (hs' : s'.Unduplicated) : s.Unduplicated :=
  fun d hd => hs' d (h.diagnostics.subset hd)

theorem Grafts.refl (hs : s.IsTree) : Grafts s s :=
  ⟨.refl s, rfl, rfl, rfl, fun _ _ h => h, id, hs⟩

theorem Grafts.trans (h : Grafts s s') (h' : Grafts s' s'') : Grafts s s'' where
  toProceeds := h.toProceeds.trans h'.toProceeds
  scope := h'.scope.trans h.scope
  global := h'.global.trans h.global
  saved := h'.saved.trans h.saved
  bindings := h.bindings.trans h'.bindings
  code hcode := h'.code (h.code hcode)
  tree := h'.tree

/-- The bindings are the same, and so are the scopes. -/
theorem Grafts.of_same (hproceeds : Proceeds s s')
    (htable : s'.table = { s.table with staged := s'.table.staged })
    (hcode : s.builder.IsWorded → s'.builder.IsWorded) (hs : s.IsTree) : Grafts s s' := by
  refine ⟨hproceeds, ?_, ?_, ?_, ?_, hcode, ?_⟩
  · rw [htable]
  · rw [htable]
  · rw [htable]
  · rw [htable]
    exact fun _ _ h => h
  · unfold State.IsTree
    rw [htable]
    exact hs.weaken hproceeds.unduplicated

theorem Grafts.of_reads (h : Reads s s') (hs : s.IsTree) : Grafts s s' :=
  .of_same h.toProceeds (by rw [h.table]) (fun hcode => h.builder ▸ hcode) hs

theorem Scoped.of_grafts (hs : Scoped unit s) (h : Grafts s s') : Scoped unit s' where
  marked := h.marked hs.marked
  lexed t ht := hs.lexed t (h.ahead.subset ht)
  tree := h.tree
  root := by
    rw [h.global]
    exact hs.root.mono h.bindings h.unduplicated
  unit := hs.unit.mono h.bindings h.unduplicated

theorem Scoped.isUnder (hs : Scoped unit s) : unit.IsUnder s.table.global :=
  hs.tree.isUnder hs.unit

theorem Scoped.isSegment_root (hs : Scoped unit s) : ScopeKey.IsSegment s.table.global :=
  hs.isUnder.isSegment

end States

/-- What a production of a declaration keeps, from the scope that it stands in. -/
def StaysScoped (s s' : State) : Prop := Scoped s.table.scope s → Grafts s s'

theorem StaysScoped.of_reads {s s' : State} (h : Reads s s') : StaysScoped s s' :=
  fun hs => .of_reads h hs.tree

theorem StaysScoped.frame : Frame StaysScoped where
  refl _ hs := .refl hs.tree
  trans {s s' s''} h h' hs := by
    have hfirst := h hs
    have hs' := hs.of_grafts hfirst
    rw [← hfirst.scope] at hs'
    exact hfirst.trans (h' hs')
  next s := .of_reads (Reads.frame.next s)
  skip s n := .of_reads (Reads.frame.skip s n)
  report s ds := .of_reads (Reads.frame.report s ds)
  note s line := .of_reads (Reads.frame.note s line)
  nest s n := .of_reads (Reads.frame.nest s n)

/-- Whether the bindings are grafted by a production from a state on. -/
def GraftsFrom {α : Type} (p : Parser α) (s : State) : Prop :=
  Ends p s (fun _ s' => Grafts s s') (fun _ s' => Grafts s s')

section Productions

variable {α β : Type} {p : Parser α} {s : State}

theorem keeps_staysScoped (h : ∀ s, Scoped s.table.scope s → GraftsFrom p s) :
    Keeps StaysScoped p := by
  intro s
  by_cases hs : Scoped s.table.scope s
  · exact (h s hs).mono (fun _ _ h _ => h) (fun _ _ h _ => h)
  · exact (ends_trivial p s).mono (fun _ _ _ hs' => absurd hs' hs) (fun _ _ _ hs' => absurd hs' hs)

theorem Keeps.graftsFrom (hp : Keeps StaysScoped p) (hs : Scoped s.table.scope s) :
    GraftsFrom p s :=
  (hp s).mono (fun _ _ h => h hs) (fun _ _ h => h hs)

theorem graftsFrom_of_reads (hp : Keeps Reads p) (hs : s.IsTree) : GraftsFrom p s :=
  (hp s).mono (fun _ _ h => .of_reads h hs) (fun _ _ h => .of_reads h hs)

theorem graftsFrom_bind {f : α → Parser β} (hp : GraftsFrom p s)
    (hf : ∀ a s', Grafts s s' → GraftsFrom (f a) s') : GraftsFrom (p >>= f) s := by
  unfold GraftsFrom
  rw [ends_bind]
  refine Ends.mono hp (fun a s' h => ?_) (fun _ _ h => h)
  exact (hf a s' h).mono (fun _ _ h' => h.trans h') (fun _ _ h' => h.trans h')

theorem grafts_staged (hs : s.IsTree) (staged : Option Symbol) :
    Grafts s { s with table := { s.table with staged := staged } } :=
  .of_same (Proceeds.withTable s _) rfl id hs

theorem graftsFrom_orDiscard (hp : Keeps Reads p) (hs : s.IsTree) :
    GraftsFrom (orDiscard p) s := by
  unfold GraftsFrom
  rw [ends_orDiscard]
  refine (hp s).mono (fun _ _ h => .of_reads h hs) (fun _ s' h => ?_)
  have hreads := Grafts.of_reads h hs
  exact hreads.trans (grafts_staged hreads.tree none)

theorem graftsFrom_emitStorage (global : Bool) {line : Ir.Line} (hline : line.IsWorded)
    (hs : s.IsTree) : GraftsFrom (emitStorage global line) s := by
  refine Grafts.of_same (Proceeds.withBuilder s _) rfl (fun hcode => ?_) hs
  cases global with
  | false => exact hcode.addLocal hline
  | true => exact hcode.addGlobal hline

theorem scoped_leaveFunction (kept : Bool) :
    Keeps StaysScoped (leaveFunction
      (if kept then Ir.Builder.closeProcedure else Ir.Builder.discardProcedure)) := by
  intro s
  rw [leaveFunction, ends_modify]
  split
  · next b hleave =>
    refine fun hs => .of_same (Proceeds.withBuilder s b) rfl (fun hcode => ?_) hs.tree
    cases kept with
    | false => exact hcode.discardProcedure hleave
    | true => exact hcode.closeProcedure hleave
  · exact fun hs => .refl hs.tree

end Productions

/-! ## Scopes -/

section Scopes

variable {unit : ScopeKey} {p : Parser Unit} {s : State}

/-- Entering the scope of a name inside the current one. -/
theorem enter_eq (hs : Scoped s.table.scope s) (name : Bytes) :
    s.table.enter name = { s.table with scope := s.table.scope.child name.lower } := by
  simp only [Table.enter, hs.isSegment_root.ne_nil, hs.isUnder.ne_nil, if_false]

theorem inScope_grafts {name : Bytes} (hs : Scoped s.table.scope s) (hname : Lexeme.IsName name)
    (h : GraftsFrom p { s with
      table := { s.table with scope := s.table.scope.child name.lower } }) :
    GraftsFrom (inScope name p) s := by
  have hparent := ScopeKey.parent_child s.table.scope hname.period_notMem_lower
  have hexit {s' : State} (h : Grafts { s with
      table := { s.table with scope := s.table.scope.child name.lower } } s') :
      Grafts s { s' with table := s'.table.exit } := by
    refine ⟨⟨h.file, h.eof, h.ahead, h.diagnostics, h.trace⟩, ?_, h.global, h.saved, h.bindings,
      h.code, h.tree⟩
    exact (congrArg ScopeKey.parent h.scope).trans hparent
  unfold GraftsFrom
  rw [ends_inScope, enter_eq hs]
  exact Ends.mono h (fun _ _ h => hexit h) (fun _ _ h => hexit h)

theorem inScopeOf_grafts {global : Bool} (h : ∀ s, Scoped s.table.scope s →
      (global = true → s.table.scope = s.table.global) → GraftsFrom p s) :
    Keeps StaysScoped (inScopeOf global p) := by
  refine keeps_staysScoped fun s hs => ?_
  cases global with
  | false => exact h s hs Bool.noConfusion
  | true =>
    have hexit {s' : State} (h : Grafts { s with table := s.table.enterGlobal } s') :
        Grafts s { s' with table := s'.table.exitGlobal } := by
      have hsaved : s'.table.saved = s.table.scope :: s.table.saved := h.saved
      have htable : s'.table.exitGlobal =
          { s'.table with scope := s.table.scope, saved := s.table.saved } := by
        rw [Table.exitGlobal, hsaved]
      rw [htable]
      exact ⟨⟨h.file, h.eof, h.ahead, h.diagnostics, h.trace⟩, rfl, h.global, rfl, h.bindings,
        h.code, h.tree⟩
    have hroot : Scoped s.table.global { s with table := s.table.enterGlobal } :=
      ⟨hs.marked, hs.lexed, hs.tree, hs.root, hs.root⟩
    unfold GraftsFrom
    rw [ends_inScopeOf_true]
    exact Ends.mono (h _ hroot fun _ => rfl) (fun _ _ h => hexit h) (fun _ _ h => hexit h)

/-- A production that steps onto a name and goes on in the scope of the name. -/
theorem named_grafts (hs : Scoped s.table.scope s) {symbol : Token → Symbol}
    {tail : Symbol → Token → Parser Unit}
    (h : ∀ s' name, Scoped s.table.scope s' → Lexeme.IsName name.literal →
      s'.table.scope = s.table.scope.child name.literal.lower →
      s'.table.global = s.table.global → GraftsFrom (tail (symbol name) name) s') :
    GraftsFrom (named symbol tail) s := by
  unfold GraftsFrom
  rw [ends_named]
  split
  case isFalse => exact .of_reads (Reads.frame.report s _) hs.tree
  case isTrue hkind =>
    have hname := isName_peek hs.marked hs.lexed hkind
    have hnext := Grafts.of_reads (Reads.frame.next s) hs.tree
    have hstage := hnext.trans (grafts_staged hnext.tree (some (symbol s.cursor.peek)))
    have hs' := hs.of_grafts hstage
    have hinside := inScope_grafts (s := { s with
        cursor := s.cursor.next
        table := s.table.stage (symbol s.cursor.peek) }) hs' hname
      (h _ s.cursor.peek ⟨hs'.marked, hs'.lexed, hs'.tree, hs'.root, hs'.unit⟩ hname rfl rfl)
    exact Ends.mono hinside (fun _ _ h => hstage.trans h) (fun _ _ h => hstage.trans h)

end Scopes

/-! ## Variables -/

section Variables

variable {unit : ScopeKey} {s : State}

theorem commit_grafts (place : Token) {sym : Symbol} (hstaged : s.table.staged = some sym)
    (htree : IsScopeTree s.table.global (insertNew s.table.bindings s.table.scope sym)
      s.Unduplicated) :
    GraftsFrom (commit place) s := by
  have hproceeds (ds : List Diagnostic) (t : Table) :
      Proceeds s { s with table := t, diagnostics := s.diagnostics ++ ds } :=
    ⟨rfl, rfl, List.suffix_refl _, List.prefix_append _ ds, List.prefix_refl _⟩
  unfold GraftsFrom
  rw [ends_commit_eq place hstaged]
  exact ⟨hproceeds _ _, rfl, rfl, rfl, included_insertNew, id,
    htree.weaken (hproceeds _ _).unduplicated⟩

theorem variableTail_grafts {sym : Symbol} {type : Scalar} (name : Token) {word : Bytes}
    (hs : Scoped unit s) (hword : ScopeKey.IsSegment word)
    (hscope : s.table.scope = unit.child word) (hkind : sym.kind = .scalar type)
    (hglobal : sym.global = true → unit = s.table.global) :
    GraftsFrom (variableTail sym name) s := by
  have hR := Reads.frame
  refine graftsFrom_bind (graftsFrom_of_reads (fun s => hR.refl s) hs.tree) fun s₀ s₁ h₁ => ?_
  refine graftsFrom_bind (graftsFrom_orDiscard (hR.keeps made_optionalBounds) h₁.tree)
    fun bounds? s₂ h₂ => ?_
  have h := h₁.trans h₂
  have hs₂ := hs.of_grafts h
  have hstaged := grafts_staged hs₂.tree (some { sym with bounds := bounds? })
  unfold GraftsFrom variableEnd
  rw [ends_bind, ends_modifyTable, ends_bind, ends_get]
  refine Ends.mono (?_ : GraftsFrom _ _) (fun _ _ h => hstaged.trans h) (fun _ _ h => hstaged.trans h)
  dsimp only
  cases hline : Ir.declaration (s₂.table.stage { sym with bounds := bounds? }).irName
      { sym with bounds := bounds? } with
  | error e =>
    refine graftsFrom_bind (p := modifyTable Table.discard) (grafts_staged hstaged.tree none)
      fun _ s₄ h₄ => ?_
    split
    · exact graftsFrom_of_reads (hR.keeps (.rejectArgument _)) h₄.tree
    · exact graftsFrom_of_reads (hR.keeps (.rejectToken _)) h₄.tree
  | ok line =>
    have hkey : s₂.table.scope = unit.child word := h.scope.trans hscope
    have hunder : s₂.table.scope.IsUnder s₂.table.global := hkey ▸ hs₂.isUnder.child hword
    have hline := Ir.isWorded_declaration hline hunder.isWord_irName
    refine graftsFrom_bind (commit_grafts name rfl ?_) fun bound s₄ h₄ => ?_
    · change IsScopeTree s₂.table.global (insertNew s₂.table.bindings s₂.table.scope _)
        s₂.Unduplicated
      rw [hkey]
      exact hs₂.tree.insertVariable hs₂.unit hword hkind fun hset =>
        (hglobal hset).trans h.global.symm
    · split
      · refine graftsFrom_bind (graftsFrom_emitStorage _ hline h₄.tree) fun _ s₅ h₅ => ?_
        exact graftsFrom_of_reads (hR.keeps (.note _)) h₅.tree
      · exact graftsFrom_of_reads (hR.keeps (.pure _)) h₄.tree

theorem variableDeclaration_grafts (hs : Scoped s.table.scope s) {global : Bool}
    (hglobal : global = true → s.table.scope = s.table.global) (type : Scalar) :
    GraftsFrom (variableDeclaration global type) s :=
  named_grafts hs fun _ name hs' hname hscope hroot =>
    variableTail_grafts name hs' (ScopeKey.isSegment_lower hname) hscope rfl fun hset =>
      (hglobal hset).trans hroot.symm

end Variables

/-! ## Procedures -/

/-- The name of a parameter is that of a token in small letters. -/
theorem parameter_isNamedFormal {s : State} (hmarked : s.Marked)
    (hlexed : ∀ t ∈ s.cursor.ahead, t.Lexed) :
    Ends parameter s (fun p _ => IsNamedFormal p) (fun _ _ => True) := by
  refine (parameter_isFormal s).mono (fun p _ h => ?_) fun _ _ h => h
  obtain ⟨hformal, hkind, hlower⟩ := h
  have hname := isName_peek hmarked hlexed hkind
  refine ⟨hformal, ?_, ?_⟩
  · rw [hlower]
    exact ScopeKey.isSegment_lower hname
  · rw [hlower]
    exact hname.lower_lower

theorem parameters_areNamedFormals {unit : ScopeKey} {s : State} (hs : Scoped unit s) :
    Ends parameters s (fun ps _ => ∀ p ∈ ps, IsNamedFormal p) (fun _ _ => True) :=
  parameters_forall (I := Scoped unit)
    (fun hreads hs => hs.of_grafts (.of_reads hreads hs.tree))
    (fun hs => parameter_isNamedFormal hs.marked hs.lexed) hs

/-- The state in which a procedure and its parameters have been bound under the current key, or the
key has been reported. -/
def State.withProcedure (s : State) (sym : Symbol) (place : Position) : State :=
  { s with
    table := { s.table with
      staged := none
      bindings := insertNew (insertParameters s.table.bindings s.table.scope sym) s.table.scope sym }
    diagnostics := s.diagnostics ++
      if s.table.scope ∈ insertParameters s.table.bindings s.table.scope sym then
        [.duplicate place s.table.scope] else [] }

theorem withProcedure_grafts {unit : ScopeKey} {s : State} (sym : Symbol) (place : Position)
    {word : Bytes} (hs : Scoped unit s) (hword : ScopeKey.IsSegment word)
    (hscope : s.table.scope = unit.child word) (hkind : sym.kind = .procedure)
    (hglobal : sym.global = true → unit = s.table.global)
    (hps : ∀ p ∈ sym.parameters, IsNamedFormal p) :
    Grafts s (s.withProcedure sym place) ∧ Scoped s.table.scope (s.withProcedure sym place) := by
  have hproceeds : Proceeds s (s.withProcedure sym place) :=
    ⟨rfl, rfl, List.suffix_refl _, List.prefix_append _ _, List.prefix_refl _⟩
  have hnew (h : (s.withProcedure sym place).Unduplicated) :
      s.table.scope ∉ insertParameters s.table.bindings s.table.scope sym :=
    of_decide_eq_true (kept_of_unduplicated h rfl)
  have hgrafts : Grafts s (s.withProcedure sym place) :=
    ⟨hproceeds, rfl, rfl, rfl, included_insertProcedure, id,
      hs.tree.insertProcedure hs.unit hword hscope hkind hglobal hps hproceeds.unduplicated hnew⟩
  have hs' := hs.of_grafts hgrafts
  exact ⟨hgrafts, hs'.marked, hs'.lexed, hs'.tree, hs'.root, isScope_insertProcedure hkind hnew⟩

section Procedures

variable {inner : Parser Unit} (hinner : Keeps StaysScoped inner)

include hinner

/-- What follows the binding of a procedure: its function is opened, its body recognised, and the
function left again. -/
theorem scoped_procedureUnit (sym : Symbol) (hps : ∀ p ∈ sym.parameters, IsNamedFormal p)
    (name : Token) (key : ScopeKey) (count : Nat) (bound : Bool) :
    Keeps StaysScoped (openFunction sym name (procedureInside inner key count bound)) := by
  have hR := StaysScoped.frame
  have hC := hR.course.toCourse
  have hbody : Keeps StaysScoped (procedureBody inner key bound) := by
    refine leads_bind hC hR.next fun _ => leads_bind hC hinner fun _ => leads_bind hC hR.refl fun _ => ?_
    exact leads_bind hC (scoped_leaveFunction bound) fun _ s => hR.note s _
  refine keeps_staysScoped fun s hs => ?_
  unfold GraftsFrom openFunction
  rw [ends_bind, ends_get]
  split
  · exact (hR.keeps (.rejectToken name)).graftsFrom hs
  · next builder hopen =>
    have hwords : ∀ p ∈ sym.parameters, Ir.IsWord p.name.lower := by
      intro p hp
      rw [(hps p hp).lower]
      exact (hps p hp).segment.isWordByte
    have hopened : Grafts s { s with builder := builder } :=
      .of_same (Proceeds.withBuilder s builder) rfl
        (fun hcode => hcode.openProcedure hopen hs.isUnder.isWord_irName hwords) hs.tree
    have hs' : Scoped s.table.scope { s with builder := builder } := hs.of_grafts hopened
    rw [ends_bind, ends_set]
    refine Ends.mono (Keeps.graftsFrom (s := { s with builder := builder }) ?_ hs')
      (fun _ _ h => hopened.trans h) (fun _ _ h => hopened.trans h)
    exact hR.keeps (made_procedureInside_of (.given hbody) count builder)

theorem procedureTail_grafts {unit : ScopeKey} {s : State} {sym : Symbol} (name : Token)
    {word : Bytes} (hs : Scoped unit s) (hword : ScopeKey.IsSegment word)
    (hscope : s.table.scope = unit.child word) (hkind : sym.kind = .procedure)
    (hglobal : sym.global = true → unit = s.table.global) :
    GraftsFrom (procedureTail inner sym name) s := by
  have hparameters := (parameters_areNamedFormals hs).and (Reads.frame.keeps made_parameters s)
  unfold GraftsFrom procedureTail
  rw [ends_bind, ends_orDiscard]
  refine Ends.mono hparameters ?_ fun _ s₁ h => ?_
  · rintro ps s₁ ⟨hps, hreads⟩
    have h₁ := Grafts.of_reads hreads hs.tree
    have hs₁ := hs.of_grafts h₁
    obtain ⟨h₂, hs₂⟩ := withProcedure_grafts { sym with parameters := ps }
      (name.position s₁.file) hs₁ hword (h₁.scope.trans hscope) hkind
      (fun hset => (hglobal hset).trans h₁.global.symm) hps
    have hunit := scoped_procedureUnit hinner { sym with parameters := ps } hps name
      s₁.table.scope ps.length
    rw [ends_bind, ends_modifyTable, bindParameters_stage_eq, ends_bind, ends_get, ends_bind,
      ends_commit_eq name rfl]
    exact Ends.mono ((hunit _).graftsFrom hs₂) (fun _ _ h => h₁.trans (h₂.trans h))
      (fun _ _ h => h₁.trans (h₂.trans h))
  · have hreads := Grafts.of_reads h.2 hs.tree
    exact hreads.trans (grafts_staged hreads.tree none)

theorem procedureDeclaration_grafts {s : State} (hs : Scoped s.table.scope s) {global : Bool}
    (hglobal : global = true → s.table.scope = s.table.global) :
    GraftsFrom (procedureDeclaration inner global) s :=
  named_grafts hs fun _ name hs' hname hscope hroot =>
    procedureTail_grafts hinner name hs' (ScopeKey.isSegment_lower hname) hscope rfl fun hset =>
      (hglobal hset).trans hroot.symm

theorem scoped_declaration : Keeps StaysScoped (declaration inner) :=
  StaysScoped.frame.keeps <| made_declaration_of
    (fun _ => .given (inScopeOf_grafts fun _ hs hglobal =>
      procedureDeclaration_grafts hinner hs hglobal))
    (fun _ type => .given (inScopeOf_grafts fun _ hs hglobal =>
      variableDeclaration_grafts hs hglobal type))

omit hinner in
theorem made_scopedDeclaration (h : Made (fun _ p => Keeps StaysScoped p) false true inner) :
    Made (fun _ p => Keeps StaysScoped p) false true (declaration inner) :=
  .given (scoped_declaration (StaysScoped.frame.keeps h))

end Procedures

end OnePass.Program
