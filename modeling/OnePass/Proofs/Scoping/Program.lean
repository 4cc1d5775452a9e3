import OnePass.Proofs.Scoping.Declaration
import OnePass.Proofs.Scoping.Sharing
set_option autoImplicit false

/-!
# The symbol table of a source

Whatever a source is, and however recognising it ends, the symbol table that is left is a tree of
scopes (`parse_wellScoped`).  A source whose header is broken may leave the built-in procedures alone,
without the program that they stand in; all other tables are trees in the sense of `IsScopeTree`.
-/

namespace OnePass

/-- A symbol table whose keys and symbols form a tree of scopes. -/
structure Table.IsWellScoped (t : Table) : Prop where
  /-- keys are names in small letters with periods between them, from the global key on -/
  keys (key : ScopeKey) (sym : Symbol) : t.bindings[key]? = some sym → key.IsUnder t.global
  /-- what stands in a scope has its scope bound; the built-in procedures may be there before -/
  parents (key : ScopeKey) (sym : Symbol) : t.bindings[key]? = some sym →
    sym.kind.isBuiltin = false → Ascii.period ∈ key → key.parent ∈ t.bindings
  /-- global variables and procedures stand in the global scope -/
  globals (key : ScopeKey) (sym : Symbol) : t.bindings[key]? = some sym → sym.global = true →
    sym.kind.isScalar = true ∨ sym.kind = .procedure → key.parent = t.global
  /-- a procedure has each of its parameters bound inside it, as the first one of that name -/
  formals (key : ScopeKey) (sym : Symbol) : t.bindings[key]? = some sym → sym.kind = .procedure →
    ∀ p ∈ sym.parameters, ∃ first bound,
      sym.parameters.find? (·.name = p.name) = some first ∧
      t.bindings[key.child p.name]? = some bound ∧
      bound.kind = first.kind ∧ bound.direction = first.direction

/-- Whether everything but the built-in procedures stands in a program or in a procedure. -/
def Table.NestsInUnits (t : Table) : Prop :=
  ∀ (key : ScopeKey) sym, t.bindings[key]? = some sym → sym.kind.isBuiltin = false →
    Ascii.period ∈ key →
    ∃ owner, t.bindings[key.parent]? = some owner ∧
      (owner.kind = .program ∨ owner.kind = .procedure)

/-- Whether a table is what is seen of one in memory, in which the four parameter sequences of every record
that is bound are of equal length. -/
def Table.IsAligned (t : Table) : Prop :=
  ∃ m : SharedTable, m.view = t ∧ (∃ actions : List Table.Action, m = .run {} (actions.map .table)) ∧
    ∀ (key : ScopeKey) r, m.bindings[key]? = some r → r.IsAligned

namespace Program

/-! ## Trees are well-formed -/

section WellScoped

variable {t : Table} {clean : Prop}

/-- A key with a period in it stands in another one. -/
theorem IsScopeTree.owner (h : IsScopeTree t.global t.bindings clean) {key : ScopeKey} {sym : Symbol}
    (hsym : t.bindings[key]? = some sym) (hperiod : Ascii.period ∈ key) :
    IsScope t.bindings clean key.parent := by
  have hstands := h key sym hsym
  refine hstands.parent ?_
  rintro rfl
  exact hstands.under.isSegment.period_notMem hperiod

theorem IsScopeTree.isWellScoped (h : IsScopeTree t.global t.bindings clean) : t.IsWellScoped where
  keys key sym hsym := (h key sym hsym).under
  parents key sym hsym _ hperiod := by
    obtain ⟨owner, howner, -⟩ := h.owner hsym hperiod
    rw [Std.ExtTreeMap.mem_iff_isSome_getElem?, howner]
    rfl
  globals key sym hsym hset hkind := by
    refine (h key sym hsym).global hset ?_
    unfold Entry.isDeclared Entry.isProcedure
    rcases hkind with hkind | hkind <;> simp [hkind]
  formals key sym hsym hkind p hp := by
    obtain ⟨first, hfirst, hbound⟩ := (h key sym hsym).formals hkind p hp
    exact ⟨first, _, hfirst, hbound, rfl, rfl⟩

theorem IsScopeTree.nestsInUnits (h : IsScopeTree t.global t.bindings clean) (hclean : clean) :
    t.NestsInUnits := by
  intro key sym hsym _ hperiod
  obtain ⟨owner, howner, hkind⟩ := h.owner hsym hperiod
  exact ⟨owner, howner, hkind hclean⟩

end WellScoped

/-! ## Programs -/

/-- What is known of the table and the code when a source has been recognised or given up, from the
code before. -/
structure LeavesTree (s s' : State) : Prop where
  wellScoped : s'.table.IsWellScoped
  units : s'.Unduplicated → s'.table.NestsInUnits
  code : s.builder.IsWorded → s'.builder.IsWorded

/-- A table with nothing but built-in procedures in it, or with nothing at all. -/
theorem leavesTree_of_builtins {s s' : State} (root : ScopeKey)
    (hbindings : ∀ (key : ScopeKey) sym, s'.table.bindings[key]? = some sym →
      (key, sym) ∈ builtinEntries root)
    (hroot : s'.table.bindings ≠ ∅ → ScopeKey.IsSegment root ∧ s'.table.global = root)
    (hbuilder : s'.builder = s.builder) : LeavesTree s s' := by
  have hbuiltin {key : ScopeKey} {sym : Symbol} (hsym : s'.table.bindings[key]? = some sym) :
      ∃ b : Builtin, key = s'.table.global.child b.word ∧ sym = .ofBuiltin b ∧
        ScopeKey.IsSegment s'.table.global := by
    have hne : s'.table.bindings ≠ ∅ := by
      intro hempty
      rw [hempty] at hsym
      simp at hsym
    obtain ⟨hsegment, hglobal⟩ := hroot hne
    obtain ⟨b, -, hentry⟩ := List.mem_map.mp (hbindings key sym hsym)
    cases hentry
    rw [hglobal]
    exact ⟨b, rfl, rfl, hsegment⟩
  refine ⟨⟨?_, ?_, ?_, ?_⟩, fun _ => ?_, fun hcode => hbuilder ▸ hcode⟩
  · intro key sym hsym
    obtain ⟨b, rfl, -, hsegment⟩ := hbuiltin hsym
    exact (ScopeKey.isUnder_self hsegment).child (ScopeKey.isSegment_builtin b)
  · intro key sym hsym hkind
    obtain ⟨b, -, rfl, -⟩ := hbuiltin hsym
    cases hkind
  · intro key sym hsym _ hkind
    obtain ⟨b, -, rfl, -⟩ := hbuiltin hsym
    rcases hkind with hkind | hkind <;> cases hkind
  · intro key sym hsym hkind
    obtain ⟨b, -, rfl, -⟩ := hbuiltin hsym
    cases hkind
  · intro key sym hsym hkind
    obtain ⟨b, -, rfl, -⟩ := hbuiltin hsym
    cases hkind

theorem mem_of_getElem?_bindBuiltins {root key : ScopeKey} {sym : Symbol}
    (h : (Table.bindBuiltins ∅ root)[key]? = some sym) : (key, sym) ∈ builtinEntries root := by
  rw [bindBuiltins_eq_insertAll] at h
  refine (mem_of_getElem?_insertAll h).resolve_left fun hempty => ?_
  simp at hempty

/-- The bindings that a program starts with are a tree. -/
theorem isScopeTree_start {root : ScopeKey} (hroot : ScopeKey.IsSegment root) (sym : Symbol)
    (hkind : sym.kind = .program) (clean : Prop) :
    IsScopeTree root (insertNew (Table.bindBuiltins ∅ root) root sym) clean ∧
      IsScope (insertNew (Table.bindBuiltins ∅ root) root sym) clean root := by
  have hentry {key : ScopeKey} {sym' : Symbol}
      (h : (Table.bindBuiltins ∅ root)[key]? = some sym') :
      ∃ b : Builtin, key = root.child b.word ∧ sym' = .ofBuiltin b := by
    obtain ⟨b, -, hentry⟩ := List.mem_map.mp (mem_of_getElem?_bindBuiltins h)
    cases hentry
    exact ⟨b, rfl, rfl⟩
  have hself : (insertNew (Table.bindBuiltins ∅ root) root sym)[root]? = some sym := by
    rw [getElem?_insertNew, if_pos rfl]
    cases hbound : (Table.bindBuiltins ∅ root)[root]? with
    | none => rfl
    | some old =>
      obtain ⟨b, hb, -⟩ := hentry hbound
      exact absurd hb (ScopeKey.ne_child hroot.period_notMem _ _)
  have hscope : IsScope (insertNew (Table.bindBuiltins ∅ root) root sym) clean root :=
    ⟨sym, hself, fun _ => .inl hkind⟩
  refine ⟨fun key sym' h => ?_, hscope⟩
  rw [getElem?_insertNew] at h
  rcases Option.or_eq_some_iff.mp h with h | ⟨-, h⟩
  · obtain ⟨b, rfl, rfl⟩ := hentry h
    have hword := ScopeKey.isSegment_builtin b
    refine ⟨(ScopeKey.isUnder_self hroot).child hword, fun _ => ?_, fun _ h => ?_, fun h => ?_⟩
    · rw [ScopeKey.parent_child root hword.period_notMem]
      exact hscope
    · cases h
    · cases h
  · split at h
    · next hkey =>
      cases h
      subst hkey
      refine ⟨ScopeKey.isUnder_self hroot, fun hne => absurd rfl hne, fun _ h => ?_, fun h => ?_⟩
      · simp [Entry.isDeclared, Entry.isProcedure, hkind, Kind.isScalar] at h
      · rw [hkind] at h
        cases h
    · cases h

theorem scoped_body (terminator : TokenKind) : Keeps StaysScoped (body terminator) :=
  StaysScoped.frame.keeps (made_body_of made_statements made_scopedDeclaration terminator)

/-- A program from its body on. -/
theorem programBody_leavesTree {s₀ s : State} (hs : Scoped s.table.scope s)
    (hcode : s₀.builder.IsWorded → s.builder.IsWorded) (name : Bytes) :
    Ends (do body .kwProgram; programClosing name) s (fun _ s' => LeavesTree s₀ s')
      (fun _ s' => LeavesTree s₀ s') := by
  rw [ends_bind]
  refine Ends.mono ((scoped_body .kwProgram).graftsFrom hs) (fun _ s' h => ?_) fun _ s' h => ?_
  · have htree := h.tree
    rw [programClosing, ends_bind, ends_mustPeek]
    split
    · have hexit : IsScopeTree s'.table.exit.global s'.table.exit.bindings s'.Unduplicated := htree
      exact ⟨hexit.isWellScoped, hexit.nestsInUnits, fun h₀ => h.code (hcode h₀)⟩
    · have hreport := Grafts.of_reads (Reads.frame.report s' [misplaced s'.file s'.cursor.peek]) htree
      exact ⟨hreport.tree.isWellScoped, hreport.tree.nestsInUnits, fun h₀ => h.code (hcode h₀)⟩
  · exact ⟨h.tree.isWellScoped, h.tree.nestsInUnits, fun h₀ => h.code (hcode h₀)⟩

theorem program_leavesTree {s : State} (hmarked : s.Marked)
    (hlexed : ∀ t ∈ s.cursor.ahead, t.Lexed) (htable : s.table = .empty) :
    Ends program s (fun _ s' => LeavesTree s s') (fun _ s' => LeavesTree s s') := by
  have hempty (s' : State) (htable' : s'.table = s.table) (hbuilder : s'.builder = s.builder) :
      LeavesTree s s' := by
    refine leavesTree_of_builtins [] (fun key sym hsym => ?_) (fun hne => ?_) hbuilder
    · rw [htable', htable] at hsym
      simp [Table.empty] at hsym
    · rw [htable', htable] at hne
      exact absurd rfl hne
  rw [program, ends_bind, programOpening, ends_bind, ends_mustCurrent]
  split
  case isFalse => exact hempty _ rfl rfl
  rw [ends_bind, ends_mustPeek]
  split
  case isFalse => exact hempty _ rfl rfl
  case isTrue hname =>
  have hroot := ScopeKey.isSegment_lower (isName_peek hmarked hlexed hname)
  rw [ends_bind, ends_current, ends_bind, ends_modifyTable, ends_bind, ends_mustPeek]
  split
  case isFalse =>
    refine leavesTree_of_builtins s.cursor.peek.literal.lower (fun key sym hsym => ?_)
      (fun _ => ⟨hroot, ?_⟩) rfl
    · simp only [htable, Table.enter, Table.empty, Table.stage, if_true] at hsym
      exact mem_of_getElem?_bindBuiltins hsym
    · simp only [htable, Table.enter, Table.empty, Table.stage, if_true]
      rfl
  rw [ends_bind, ends_commit_eq _ rfl, ends_bind, ends_modify, ends_bind, ends_note,
    ends_bind, ends_advance, ends_pure]
  have htail {ts : List Token} (hts : ∀ t ∈ ts, t.Lexed) : ∀ t ∈ ts.tail, t.Lexed :=
    fun t ht => hts t (List.mem_of_mem_tail ht)
  have hlexed' := htail (htail (htail hlexed))
  have hstart (clean : Prop) := isScopeTree_start hroot
    { kind := .program, line := s.cursor.peek.line, global := true } rfl clean
  have hcurrent : s.cursor.next.current = s.cursor.peek := rfl
  simp only [htable, Table.enter, Table.empty, Table.stage, if_true, hcurrent]
  generalize Table.bindBuiltins ∅ s.cursor.peek.literal.lower = builtins at hstart ⊢
  refine programBody_leavesTree ?_ (fun hcode => hcode.openProgram) _
  exact ⟨hmarked, hlexed', (hstart _).1, (hstart _).2, (hstart _).2⟩

theorem parse_leavesTree (file source : Bytes) (builder : Ir.Builder) :
    LeavesTree (.start file source .empty builder) (parse file source .empty builder).state := by
  have hrun := program_leavesTree (s := .start file source .empty builder)
    (TokenStream.kind_eof _ _) (fun _ => TokenStream.lexed_of_mem) rfl
  exact hrun.state_parse

/-- Whatever a production does to a symbol table is a history of actions on it. -/
theorem wideFrame_history :
    WideFrame fun s s' => ∃ actions, s'.table = s.table.run actions where
  refl _ := ⟨[], rfl⟩
  trans := by
    rintro s s' s'' ⟨before, h⟩ ⟨after, h'⟩
    exact ⟨before ++ after, by rw [h', h, Table.run_append]⟩
  next _ := ⟨[], rfl⟩
  skip _ _ := ⟨[], rfl⟩
  report _ _ := ⟨[], rfl⟩
  note _ _ := ⟨[], rfl⟩
  nest _ _ := ⟨[], rfl⟩
  table _ actions := ⟨actions, rfl⟩
  builder _ _ _ := ⟨[], rfl⟩

theorem parse_isAligned (file source : Bytes) (builder : Ir.Builder) :
    (parse file source .empty builder).state.table.IsAligned := by
  obtain ⟨actions, htable⟩ := (wideFrame_history.keeps made_program
    (.start file source .empty builder)).state_parse
  have hshows := SharedTable.shows_run_empty actions
  exact ⟨_, hshows.view_eq.trans htable.symm, ⟨actions, rfl⟩, fun _ _ hr => (hshows.sound.bound hr).aligned⟩

/-- A symbol table is a tree of scopes after every source, whether it is recognised or given up.  It lies in
memory with all parameter sequences in step; and unless a key was declared twice, everything stands in a
program or in a procedure. -/
theorem parse_wellScoped (file source : Bytes) (builder : Ir.Builder) :
    (parse file source .empty builder).state.table.IsWellScoped ∧
      (parse file source .empty builder).state.table.IsAligned ∧
      ((parse file source .empty builder).state.Unduplicated →
        (parse file source .empty builder).state.table.NestsInUnits) := by
  have h := parse_leavesTree file source builder
  exact ⟨h.wellScoped, parse_isAligned file source builder, h.units⟩

/-- A program with a procedure in a procedure, a global variable in the inner one, and two parameters of
one name; it is given up behind its declarations. -/
def graftedSource : Bytes :=
  text "program Outer is procedure q(integer a in, float a out) is
    procedure R() is global bool f; begin end procedure; begin end procedure; if"

/-- The source is broken, and leaves a tree: the first parameter is bound in its procedure, and the
global variable in the program. -/
theorem graftedSource_wellScoped :
    (parse [] graftedSource .empty (.new .standard)).result.isOk = false ∧
      (parse [] graftedSource .empty (.new .standard)).state.table.bindings[text "outer.q.a"]?.map
        Symbol.kind = some (.scalar .integer) ∧
      (parse [] graftedSource .empty (.new .standard)).state.table.bindings[text "outer.f"]?.map
        Symbol.global = some true ∧
      (parse [] graftedSource .empty (.new .standard)).state.table.IsWellScoped ∧
      (parse [] graftedSource .empty (.new .standard)).state.table.IsAligned ∧
      (parse [] graftedSource .empty (.new .standard)).state.table.NestsInUnits := by
  have hcodes : ∀ d ∈ (parse [] graftedSource .empty (.new .standard)).state.diagnostics,
      d.code ≠ Diagnostic.duplicateCode := by
    decide +kernel
  have h := parse_wellScoped [] graftedSource (.new .standard)
  exact ⟨by decide +kernel, by decide +kernel, by decide +kernel, h.1, h.2.1, h.2.2 hcodes⟩

end Program

end OnePass
