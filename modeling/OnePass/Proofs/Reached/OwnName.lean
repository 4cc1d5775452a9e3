import OnePass.Proofs.Exactness.Call
import OnePass.Proofs.Reached.Opening
set_option autoImplicit false

/-!
# Procedures that call themselves

A procedure is bound before its body is read.  A name in the body is looked up in the scope of the
procedure and then in the global scope, but not in the scopes between the two.  So the body sees its
own procedure if that one is bound in the global scope, at whatever depth it is declared
(`lookup_ownName`).  A procedure that is local to another one does not see itself: a call of it with
the wrong arguments goes unreported (`localInside_unreported`).
-/

namespace OnePass.Program

/-! ## Scopes that are reached -/

section Scopes

variable {s s₁ : State} {o : Opening} {name : Bytes} {depth : Nat}

/-- What the opening of a program does. -/
theorem programOpening_ok (hmarked : s.Marked) (hlexed : ∀ t ∈ s.cursor.ahead, t.Lexed)
    (h : programOpening s = .ok name s₁) :
    Proceeds s s₁ ∧ Lexeme.IsName name ∧ ∃ sym, sym.kind = .program ∧
      s₁.table = { s.table.enter name with
        staged := none
        bindings := insertNew (s.table.enter name).bindings (s.table.enter name).scope sym } := by
  refine ⟨(Proceeds.wideFrame.keeps made_programOpening).of_ok h, ?_⟩
  simp only [ok_iff_ends, programOpening, ends_bind, ends_mustCurrent, ends_mustPeek, ends_current,
    ends_modifyTable, if_false_right] at h
  obtain ⟨-, hname, -, h⟩ := h
  rw [ends_commit_eq _ rfl] at h
  simp only [ends_modify, ends_note, ends_advance, ends_pure] at h
  obtain ⟨rfl, rfl⟩ := h
  exact ⟨isName_peek hmarked hlexed hname, _, rfl, rfl⟩

/-- Whether the keys of a table's scopes are those of names, if it has any. -/
structure HasPaths (t : Table) : Prop where
  scope : t.scope = [] ∨ IsPath t.scope
  global : t.global = [] ∨ IsPath t.global

theorem HasPaths.enter {t : Table} (h : HasPaths t) (hname : Lexeme.IsName name) :
    IsPath (t.enter name).scope ∧ IsPath (t.enter name).global := by
  unfold Table.enter
  dsimp only
  split
  · exact ⟨isPath_lower hname, isPath_lower hname⟩
  · next hglobal =>
    have hroot := h.global.resolve_left hglobal
    split
    · exact ⟨isPath_lower hname, hroot⟩
    · next hscope => exact ⟨((h.scope.resolve_left hscope).child hname).isPath, hroot⟩

theorem mem_insertNew {m : Bindings} {key : ScopeKey} {sym : Symbol} : key ∈ insertNew m key sym := by
  rw [Std.ExtTreeMap.mem_iff_isSome_getElem?, getElem?_insertNew, if_pos rfl]
  cases m[key]? <;> rfl

theorem programOpening_sited (hmarked : s.Marked) (hlexed : ∀ t ∈ s.cursor.ahead, t.Lexed)
    (hpaths : HasPaths s.table) (h : programOpening s = .ok name s₁) : Sited s₁.table.scope s₁ := by
  obtain ⟨hproceeds, hname, sym, -, htable⟩ := programOpening_ok hmarked hlexed h
  obtain ⟨hscope, hroot⟩ := hpaths.enter hname
  refine ⟨hproceeds.marked hmarked, fun t ht => hlexed t (hproceeds.ahead.subset ht), ?_, ?_, ?_⟩
  · rw [htable]
    exact hroot
  · rw [htable]
    exact hscope
  · rw [htable]
    exact mem_insertNew

theorem programOpening_scoped (hmarked : s.Marked) (hlexed : ∀ t ∈ s.cursor.ahead, t.Lexed)
    (hempty : s.table = .empty) (h : programOpening s = .ok name s₁) : Scoped s₁.table.scope s₁ := by
  obtain ⟨hproceeds, hname, sym, hkind, htable⟩ := programOpening_ok hmarked hlexed h
  have hstart := isScopeTree_start (ScopeKey.isSegment_lower hname) sym hkind s₁.Unduplicated
  have henter : s.table.enter name = { s.table with
      scope := name.lower, global := name.lower
      bindings := Table.bindBuiltins ∅ name.lower } := by
    simp [hempty, Table.enter, Table.empty]
  rw [henter] at htable
  have hscope : s₁.table.scope = name.lower := by rw [htable]
  have hglobal : s₁.table.global = name.lower := by rw [htable]
  have hbindings : s₁.table.bindings =
      insertNew (Table.bindBuiltins ∅ name.lower) name.lower sym := by rw [htable]
  refine ⟨hproceeds.marked hmarked, fun t ht => hlexed t (hproceeds.ahead.subset ht), ?_, ?_, ?_⟩
  · rw [State.IsTree, hglobal, hbindings]
    exact hstart.1
  · rw [hglobal, hbindings]
    exact hstart.2
  · rw [hscope, hbindings]
    exact hstart.2

theorem declarationOpening_sited (hs : Sited s.table.scope s)
    (h : declarationOpening s = .ok o s₁) : Sited s₁.table.scope s₁ := by
  have hleads := declarationOpening_leads hs h
  have hpath : IsPath o.key := by
    rw [hleads.key]
    split
    · exact (hs.root.child hleads.isName).isPath
    · exact (hs.scope.child hleads.isName).isPath
  refine ⟨hleads.marked hs.marked, fun t ht => hs.lexed t (hleads.ahead.subset ht), ?_, ?_, ?_⟩
  · rw [hleads.global]
    exact hs.root
  · rw [hleads.scope]
    exact hpath
  · rw [hleads.scope, hleads.bindings]
    exact mem_insertNew

theorem Scoped.of_proceeds {unit : ScopeKey} (hs : Scoped unit s) (h : Proceeds s s₁)
    (htable : s₁.table = s.table) : Scoped unit s₁ where
  marked := h.marked hs.marked
  lexed t ht := hs.lexed t (h.ahead.subset ht)
  tree := by
    rw [State.IsTree, htable]
    exact hs.tree.weaken h.unduplicated
  root := by
    rw [htable]
    exact hs.root.mono (fun _ _ h => h) h.unduplicated
  unit := by
    rw [htable]
    exact hs.unit.mono (fun _ _ h => h) h.unduplicated

/-- A procedure is opened in a tree of scopes, and its body is read in one. -/
theorem headOpening_scoped {global : Bool} (hs : Scoped s.table.scope s)
    (hglobal : global = true → s.table.scope = s.table.global)
    (h : headOpening global s = .ok o s₁) : Scoped s₁.table.scope s₁ := by
  obtain ⟨-, hkind, htail⟩ := headOpening_ok_iff.mp h
  have hname := isName_peek hs.marked hs.lexed hkind
  have henter := atName_table hs.isSegment_root.ne_nil hs.isUnder.ne_nil global
  have hs' : Scoped s.table.scope (s.atName global) := by
    refine ⟨hs.marked, fun t ht => hs.lexed t (List.mem_of_mem_tail ht), ?_, ?_, ?_⟩
    · rw [State.IsTree, henter]
      exact hs.tree
    · rw [henter]
      exact hs.root
    · rw [henter]
      exact hs.unit
  obtain ⟨ps, s', hparameters, rfl, hproceeds, htable⟩ := tailOpening_ok htail
  have hps := (ends_of_ok hparameters).mp (parameters_areNamedFormals hs')
  have hreads := Grafts.of_reads ((Reads.frame.keeps made_parameters).of_ok hparameters) hs'.tree
  have hscope : s'.table.scope = s.table.scope.child s.cursor.peek.literal.lower := by
    rw [hreads.scope, henter]
  have hroot : s'.table.global = s.table.global := by rw [hreads.global, henter]
  obtain ⟨-, hbound⟩ := withProcedure_grafts
    { kind := .procedure, line := s.cursor.peek.line, global := global, parameters := ps }
    (s.cursor.peek.position s'.file) (hs'.of_grafts hreads) (ScopeKey.isSegment_lower hname) hscope rfl
    (fun hset => (hglobal hset).trans hroot.symm) hps
  have hkey : s₁.table.scope = s'.table.scope := by
    rw [htable]
    rfl
  rw [hkey]
  exact hbound.of_proceeds hproceeds htable

theorem declarationOpening_scoped (hs : Scoped s.table.scope s)
    (h : declarationOpening s = .ok o s₁) : Scoped s₁.table.scope s₁ := by
  obtain ⟨-, hhead⟩ | ⟨-, hhead⟩ := declarationOpening_ok_iff.mp h
  · have hroot : Scoped s.table.global
        { s with cursor := s.cursor.next, table := s.table.enterGlobal } :=
      ⟨hs.marked, fun t ht => hs.lexed t (List.mem_of_mem_tail ht), hs.tree, hs.root, hs.root⟩
    exact headOpening_scoped hroot (fun _ => rfl) hhead
  · exact headOpening_scoped hs Bool.noConfusion hhead

/-- A declaration that is passed adds to the bindings, and leaves the scopes. -/
theorem passDeclaration_grows (hs : Sited s.table.scope s)
    (h : passDeclaration depth s = .ok () s₁) : Grows s.table.scope s s₁ := by
  have hone := (declaration_grown (fun s hs => (declarationsWithin_settles depth s hs).body hs
    .kwProcedure) hs).ended hs
  exact (ends_of_ok h).mp (hone.orRecover hs)

variable {s₀ : State}

/-- Declarations are recognised in scopes that are bound. -/
theorem Reached.sited (h : Reached s₀ depth s) (hmarked : s₀.Marked)
    (hlexed : ∀ t ∈ s₀.cursor.ahead, t.Lexed) (hpaths : HasPaths s₀.table) :
    Sited s.table.scope s := by
  induction h with
  | start hopening => exact programOpening_sited hmarked hlexed hpaths hopening
  | inside _ hopening ih => exact declarationOpening_sited ih hopening
  | behind _ _ hpass ih =>
    have hgrows := passDeclaration_grows ih hpass
    have hproceeds := (Proceeds.wideFrame.keeps
      (made_passDeclaration made_statements made_declaration _)).of_ok hpass
    rw [hgrows.scope]
    exact ih.of_grows hproceeds hgrows

/-- Over an empty table, they are recognised in a tree of scopes. -/
theorem Reached.scoped (h : Reached s₀ depth s) (hmarked : s₀.Marked)
    (hlexed : ∀ t ∈ s₀.cursor.ahead, t.Lexed) (hempty : s₀.table = .empty) :
    Scoped s.table.scope s := by
  induction h with
  | start hopening => exact programOpening_scoped hmarked hlexed hempty hopening
  | inside _ hopening ih => exact declarationOpening_scoped ih hopening
  | behind _ _ hpass ih =>
    have hgrafts := (StaysScoped.frame.keeps
      (made_passDeclaration made_statements made_scopedDeclaration _)).of_ok hpass ih
    rw [hgrafts.scope]
    exact ih.of_grafts hgrafts

end Scopes

/-! ## Looking up the own name -/

section OwnName

variable {unit : ScopeKey} {s s₁ s₂ : State} {o : Opening}

theorem Grows.included (h : Grows unit s s₁) : Included s.table.bindings s₁.table.bindings := by
  obtain ⟨d, -, hemits, -⟩ := h
  rw [hemits.table]
  exact fun key sym hsym => hemits.fresh.getElem?_insertAll.mpr (.inl hsym)

namespace Opening.Leads

/-- A procedure that is bound is bound to its own symbol. -/
theorem getElem?_key (h : o.Leads s s₁) (hbound : o.bound = true) :
    s₁.table.bindings[o.key]? = some o.symbol := by
  rw [h.bound, decide_eq_true_eq] at hbound
  rw [h.bindings, getElem?_insertNew, Std.ExtTreeMap.getElem?_eq_none hbound, if_pos rfl]
  rfl

/-- The key of a procedure that is bound was not bound before. -/
theorem key_unbound (h : o.Leads s s₁) (hbound : o.bound = true) : s.table.bindings[o.key]? = none := by
  rw [h.bound, decide_eq_true_eq] at hbound
  cases hkey : s.table.bindings[o.key]? with
  | none => rfl
  | some sym =>
    refine absurd ?_ hbound
    rw [Std.ExtTreeMap.mem_iff_isSome_getElem?, included_insertParameters _ _ hkey]
    rfl

/-- The name of a procedure is free inside the procedure if no parameter has it and it was free
before. -/
theorem ownName_unbound (h : o.Leads s s₁)
    (hparameters : ∀ p ∈ o.symbol.parameters, p.name.lower ≠ o.word)
    (hbefore : o.key.child o.word ∉ s.table.bindings) :
    o.key.child o.word ∉ s₁.table.bindings := by
  intro hmem
  obtain ⟨sym, hsym⟩ := Option.isSome_iff_exists.mp (Std.ExtTreeMap.mem_iff_isSome_getElem?.mp hmem)
  rw [h.bindings] at hsym
  obtain ⟨heq, -⟩ | ⟨p, hp, heq, -⟩ :=
    getElem?_insertProcedure (Std.ExtTreeMap.getElem?_eq_none hbefore) hsym
  · have hlength := congrArg List.length heq
    simp [ScopeKey.child] at hlength
  · have hname := List.append_cancel_left heq
    exact hparameters p hp (List.cons.inj hname).2.symm

/-- What the name of a procedure stands for behind the declarations of its body, if it is free there. -/
theorem lookup?_ownName (h : o.Leads s s₁) (hs : Sited unit s) (hgrows : Grows o.key s₁ s₂)
    (hbound : o.bound = true) (hfree : o.key.child o.word ∉ s₂.table.bindings) {name : Bytes}
    (hname : name.lower = o.word) :
    s₂.table.lookup? name =
      if o.symbol.global = true ∨ s.table.scope = s.table.global then some o.symbol
      else s₂.table.bindings[s.table.global.child o.word]? := by
  have hscope : s₂.table.scope = o.key := hgrows.scope.trans h.scope
  have hglobal : s₂.table.global = s.table.global := hgrows.root.trans h.global
  have hinner : (if s₂.table.scope = [] then none
      else s₂.table.bindings[s₂.table.scope.child name.lower]?) = none := by
    rw [hscope, hname, Std.ExtTreeMap.getElem?_eq_none hfree, ite_self]
  rw [lookup?_eq_or, hinner, Option.none_or, hglobal, if_neg hs.root.ne_nil, hname]
  split
  · next hown =>
    have hkey : o.key = s.table.global.child o.word := by
      rw [h.key]
      split
      · rfl
      · next hset => rw [hown.resolve_left hset]
    rw [← hkey]
    exact hgrows.included _ _ (h.getElem?_key hbound)
  · rfl

end Opening.Leads

/-- What comes behind the declarations of a body that is reached is part of the whole run. -/
theorem Reached.proceeds_parse {file source : Bytes} {table : Table} {builder : Ir.Builder}
    {depth : Nat} (h : Reached (.start file source table builder) depth s₁)
    (hdeclared : declarationsWithin depth s₁ = .ok () s₂) :
    Proceeds s₂ (parse file source table builder).state := by
  have hends := h.ends_program (P := Proceeds s₂) (fun hproceeds ht => ht.trans hproceeds)
    ((ends_of_ok hdeclared).mpr (.refl s₂))
  exact Ends.state_parse hends

/-- **What a procedure finds under its own name.**  Take a procedure that is reached at any depth, is
newly bound, and has no parameter or local of its own name.  While the statements of its body are read,
its name stands for the procedure itself if it is declared global, or directly in the global scope, and
a call of itself with another number of arguments than it has parameters is refused.  Otherwise the
name stands for what the global scope binds to it.  The last premise is only of interest for a table
that was filled before: the scope of the procedure holds no such name from earlier on. -/
theorem lookup_ownName (file source : Bytes) (table : Table) (builder : Ir.Builder) {depth : Nat}
    (hpaths : HasPaths table)
    (hreached : Reached (.start file source table builder) (depth + 1) s)
    (hopening : declarationOpening s = .ok o s₁)
    (hdeclared : declarationsWithin depth s₁ = .ok () s₂) (hbound : o.bound = true)
    (hparameters : ∀ p ∈ o.symbol.parameters, p.name.lower ≠ o.word)
    (hlocals : o.key.child o.word ∈ s₂.table.bindings → o.key.child o.word ∈ s₁.table.bindings)
    (hbefore : table = .empty ∨ o.key.child o.word ∉ s.table.bindings) :
    Proceeds s₂ (parse file source table builder).state ∧
      ∀ s', Reads s₂ s' → ∀ name, name.lower = o.word →
        s'.table.lookup? name =
          (if o.symbol.global = true ∨ s.table.scope = s.table.global then some o.symbol
            else s'.table.bindings[s.table.global.child o.word]?) ∧
        ((o.symbol.global = true ∨ s.table.scope = s.table.global) →
          ∀ inner args rest, s'.cursor.current.kind = .identifier → s'.cursor.current.literal = name →
            Enclosed args s'.cursor.ahead.tail rest → args.length ≠ o.symbol.parameters.length →
            Refused (statement inner) s') := by
  have hmarked : (State.start file source table builder).Marked := TokenStream.kind_eof _ _
  have hlexed : ∀ t ∈ (State.start file source table builder).cursor.ahead, t.Lexed :=
    fun _ => TokenStream.lexed_of_mem
  have hs := hreached.sited hmarked hlexed hpaths
  have hleads := declarationOpening_leads hs hopening
  have hgrows : Grows o.key s₁ s₂ := by
    have hs₁ := declarationOpening_sited hs hopening
    rw [← hleads.scope]
    exact (ends_of_ok hdeclared).mp (declarationsWithin_settles depth s₁ hs₁)
  have hfree : o.key.child o.word ∉ s₂.table.bindings := by
    intro hmem
    refine hleads.ownName_unbound hparameters ?_ (hlocals hmem)
    rcases hbefore with hempty | hbefore
    · have htree := hreached.scoped hmarked hlexed hempty
      have hnone := htree.tree.child_unbound htree.isSegment_root (hleads.key_unbound hbound)
        (ScopeKey.isSegment_lower hleads.isName)
      rw [Std.ExtTreeMap.mem_iff_isSome_getElem?, Opening.word, hnone]
      exact Bool.false_ne_true
    · exact hbefore
  refine ⟨(hreached.inside hopening).proceeds_parse hdeclared, fun s' hreads name hname => ?_⟩
  have hlookup := hleads.lookup?_ownName hs hgrows hbound hfree hname
  rw [← hreads.table] at hlookup
  refine ⟨hlookup, fun hown inner args rest hkind hliteral hargs hlength => ?_⟩
  rw [if_pos hown, ← hliteral] at hlookup
  have hcallable : o.symbol.kind.isCallable = true := by
    rw [hleads.kind]
    rfl
  exact (Calls.procedure hkind hargs.peek hlookup hcallable).refused_of_length hargs hlength

/-- A program with a procedure in another one that calls itself without the argument that it takes. -/
def localInsideSource : Bytes :=
  text "program p is procedure a() procedure b(integer x in) begin b();
    end procedure; begin end procedure; begin end program."

/-- The call is not reported, as the name is not bound in the global scope. -/
theorem localInside_unreported :
    (parse [] localInsideSource .empty (.new .standard)).result.isOk = true ∧
      (parse [] localInsideSource .empty (.new .standard)).state.diagnostics = [] ∧
      (parse [] localInsideSource .empty (.new .standard)).state.table.bindings[text "p.a.b"]?.map
        (·.parameters.length) = some 1 := by
  decide +kernel

/-- A program in which a procedure declares a global one with a parameter and a variable. -/
def globalInsideSource : Bytes :=
  text "program p is procedure a() global procedure b(integer x in) integer y; begin
    end procedure; begin end procedure; begin end program."

/-- Recognises a program up to the statements of the first procedure inside the first one. -/
def innerOpening : Parser (Nat × State × Opening × State) := do
  let _ ← programOpening
  let depth := (← remaining) - 1
  let _ ← declarationOpening
  let s ← get
  let o ← declarationOpening
  let s₁ ← get
  declarationsWithin depth
  return (depth, s, o, s₁)

theorem exists_of_innerOpening {s₀ : State} {depth : Nat}
    (h : innerOpening s₀ = .ok (depth, s, o, s₁) s₂) (hdepth : depth ≠ 0) :
    Reached s₀ (depth + 1) s ∧ declarationOpening s = .ok o s₁ ∧
      declarationsWithin depth s₁ = .ok () s₂ := by
  rw [ok_iff_ends, innerOpening, ends_bind_ok] at h
  obtain ⟨name, s₃, hprogram, h⟩ := h
  rw [ends_bind, ends_remaining, ends_bind_ok] at h
  obtain ⟨o', s₄, houter, h⟩ := h
  rw [ends_bind, ends_get, ends_bind_ok] at h
  obtain ⟨o₁, s₅, hinner, h⟩ := h
  rw [ends_bind, ends_get, ends_bind_ok] at h
  obtain ⟨_, s₆, hdeclared, hresult, rfl⟩ := h
  cases hresult
  have hremaining : s₃.cursor.remaining - 1 + 1 = s₃.cursor.remaining := by omega
  have hreached := (Reached.start hprogram).inside houter
  rw [← hremaining] at hreached
  exact ⟨hreached, hinner, hdeclared⟩

/-- What is asked of a procedure that is opened for its name to be looked up: it is not declared in the
scope of the program, but is global. -/
def isPlain : EStateM.Result Stop State (Nat × State × Opening × State) → Bool
  | .ok (depth, s, o, _) s₂ =>
    depth != 0 && o.bound && o.symbol.global && s.table.scope != s.table.global &&
      o.word = text "b" && o.symbol.parameters.map (·.name.lower) = [text "x"] &&
      !s₂.table.bindings.contains (o.key.child o.word)
  | .error _ _ => false

/-- A global procedure finds itself by its name in capitals, from inside another one. -/
theorem globalInside_lookup : ∃ depth s o s₁ s₂,
    Reached (.start [] globalInsideSource .empty (.new .standard)) (depth + 1) s ∧
      declarationOpening s = .ok o s₁ ∧ declarationsWithin depth s₁ = .ok () s₂ ∧
      s.table.scope ≠ s.table.global ∧ o.symbol.parameters.length = 1 ∧
      s₂.table.lookup? (text "B") = some o.symbol := by
  have hplain : isPlain (innerOpening (.start [] globalInsideSource .empty (.new .standard))) = true := by
    decide +kernel
  cases hrun : innerOpening (.start [] globalInsideSource .empty (.new .standard)) with
  | error stop s =>
    rw [hrun] at hplain
    cases hplain
  | ok result s₂ =>
    obtain ⟨depth, s, o, s₁⟩ := result
    rw [hrun] at hplain
    simp only [isPlain, Bool.and_eq_true, bne_iff_ne, decide_eq_true_eq, Bool.not_eq_true',
      ← Bool.not_eq_true, Std.ExtTreeMap.contains_iff_mem] at hplain
    obtain ⟨⟨⟨⟨⟨⟨hdepth, hbound⟩, hglobal⟩, hscope⟩, hword⟩, hparameters⟩, hfree⟩ := hplain
    obtain ⟨hreached, hopening, hdeclared⟩ := exists_of_innerOpening hrun hdepth
    have hnames : ∀ p ∈ o.symbol.parameters, p.name.lower ≠ o.word := by
      intro p hp heq
      have hmem := List.mem_map_of_mem (f := fun p : Parameter => p.name.lower) hp
      rw [hparameters, heq, hword] at hmem
      exact absurd hmem (by decide)
    have hlength := congrArg List.length hparameters
    rw [List.length_map] at hlength
    have hlookup := (lookup_ownName [] globalInsideSource .empty (.new .standard) ⟨.inl rfl, .inl rfl⟩
      hreached hopening hdeclared hbound hnames (fun h => absurd h hfree) (.inl rfl)).2 s₂
      (Reads.frame.refl s₂) (text "B") (by rw [hword]; decide +kernel)
    rw [if_pos (.inl hglobal)] at hlookup
    exact ⟨depth, s, o, s₁, s₂, hreached, hopening, hdeclared, hscope, hlength, hlookup.1⟩

end OwnName

end OnePass.Program
