import OnePass.Proofs.Wording
set_option autoImplicit false

/-!
# The tree of scopes

Keys under which symbols are bound are paths from the program's name: names in small letters with
periods between them.  Bindings form a tree if every key but the first is bound inside a key that is
bound as well, if what is global stands right under the program, and if the parameters of a procedure
are bound inside it (`IsScopeTree`).

What is said of an entry stays true when more keys are bound, as none is ever bound anew
(`Stands.mono`); so adding to a tree is a matter of the new entries alone (`IsScopeTree.grow`).
Parameters are bound before their procedure is.  They could only have been bound before if the
procedure's own key was, since a tree has no key without its parent.
-/

namespace OnePass

/-! ## Keys -/

namespace ScopeKey

/-- A name in small letters: a letter, and then letters, digits and underscores. -/
def IsSegment (s : Bytes) : Prop :=
  s.head?.any Ascii.isLetter = true ∧ s.all Lexeme.isWordByte = true ∧ s.lowerAscii = s

instance (s : Bytes) : Decidable (IsSegment s) := inferInstanceAs (Decidable (_ ∧ _ ∧ _))

/-- A key made of names in small letters, the first of which is the root. -/
structure IsUnder (key root : ScopeKey) : Prop where
  segments : ∀ segment ∈ List.splitOn Ascii.period key, IsSegment segment
  root : (List.splitOn Ascii.period key).head? = some root

theorem IsSegment.isWordByte {s : Bytes} (h : IsSegment s) : ∀ b ∈ s, Lexeme.isWordByte b = true :=
  List.all_eq_true.mp h.2.1

theorem IsSegment.period_notMem {s : Bytes} (h : IsSegment s) : Ascii.period ∉ s :=
  fun hmem => absurd (h.isWordByte _ hmem) (by decide)

theorem IsSegment.ne_nil {s : Bytes} (h : IsSegment s) : s ≠ [] := by
  rintro rfl
  exact absurd h (by decide)

/-- A name is a segment when it is made small. -/
theorem isSegment_lower {name : Bytes} (h : Lexeme.IsName name) : IsSegment name.lower := by
  refine ⟨?_, List.all_eq_true.mpr fun _ => h.isWordByte_of_mem_lower, ?_⟩
  · simp only [h.lower_eq, Bytes.lowerAscii, List.head?_map, Option.any_map, Ascii.isLetter_toLower]
    exact h.1
  · rw [h.lower_eq, Bytes.lowerAscii_lowerAscii]

theorem isSegment_builtin (b : Builtin) : IsSegment b.word := by
  have hall : ∀ b ∈ Builtin.all, IsSegment b.word := by decide
  exact hall b (Builtin.mem_all b)

section Under

variable {root key : ScopeKey} {name : Bytes}

theorem isUnder_self (h : IsSegment root) : root.IsUnder root := by
  have hsplit := List.splitOn_eq_singleton h.period_notMem
  refine ⟨?_, ?_⟩
  · rw [hsplit]
    exact List.forall_mem_singleton.mpr h
  · rw [hsplit]
    rfl

theorem IsUnder.child (h : key.IsUnder root) (hname : IsSegment name) :
    (key.child name).IsUnder root := by
  have hsplit : List.splitOn Ascii.period (key.child name) = List.splitOn Ascii.period key ++ [name] :=
    Bytes.splitOn_append_cons hname.period_notMem
  refine ⟨?_, ?_⟩
  · rw [hsplit]
    exact fun segment hsegment => (List.mem_append.mp hsegment).elim (h.segments segment)
      fun hlast => List.mem_singleton.mp hlast ▸ hname
  · rw [hsplit, List.head?_append, h.root]
    rfl

/-- The root of a key is a name. -/
theorem IsUnder.isSegment (h : key.IsUnder root) : IsSegment root :=
  h.segments root (List.mem_of_head? h.root)

theorem IsUnder.ne_nil (h : key.IsUnder root) : key ≠ [] := by
  rintro rfl
  exact absurd (h.segments [] (List.mem_singleton_self _)) (by decide)

/-- A key with a period in it is not the root. -/
theorem child_ne_root (hroot : IsSegment root) : key.child name ≠ root :=
  (ne_child hroot.period_notMem key name).symm

theorem IsUnder.isWord_irName (h : key.IsUnder root) : Ir.IsWord key.irName := by
  intro b hb
  rw [irName, Bytes.replaceByte, List.mem_map] at hb
  obtain ⟨c, hc, rfl⟩ := hb
  split
  · decide
  · next hperiod =>
    rcases Bytes.mem_splitOn Ascii.period hc with hc | ⟨segment, hsegment, hc⟩
    · exact absurd hc hperiod
    · exact (h.segments segment hsegment).isWordByte c hc

end Under

end ScopeKey

namespace Program

/-! ## Adding to bindings -/

section Adding

variable {m : Bindings} {scope key other : ScopeKey} {sym : Symbol}

/-- Bindings with an entry added, unless its key is bound. -/
def insertNew (m : Bindings) (key : ScopeKey) (sym : Symbol) : Bindings :=
  if key ∈ m then m else m.insert key sym

theorem getElem?_insertNew :
    (insertNew m key sym)[other]? = m[other]?.or (if key = other then some sym else none) := by
  unfold insertNew
  by_cases hother : key = other
  · subst hother
    by_cases hkey : key ∈ m
    · rw [if_pos hkey, Std.ExtTreeMap.getElem?_eq_some_getElem hkey]
      rfl
    · rw [if_neg hkey, Std.ExtTreeMap.getElem?_insert_self, Std.ExtTreeMap.getElem?_eq_none hkey]
      simp
  · rw [if_neg hother, Option.or_none]
    split
    · rfl
    · rw [Std.ExtTreeMap.getElem?_insert, if_neg (by simpa using hother)]

/-- Bindings with the parameters of a procedure added in its scope. -/
def insertParameters (m : Bindings) (scope : ScopeKey) (sym : Symbol) : Bindings :=
  sym.parameters.foldl
    (fun m p => insertNew m (scope.child p.name.lower) (.ofParameter p sym.line)) m

/-- Of two parameters with one name the first is bound, unless the name is. -/
theorem getElem?_insertParameters :
    (insertParameters m scope sym)[key]? = m[key]?.or
      ((sym.parameters.find? fun p => scope.child p.name.lower = key).map
        (Symbol.ofParameter · sym.line)) := by
  have hfold (ps : List Parameter) (m : Bindings) :
      (ps.foldl (fun m p => insertNew m (scope.child p.name.lower) (.ofParameter p sym.line)) m)[key]? =
        m[key]?.or ((ps.find? fun p => scope.child p.name.lower = key).map
          (Symbol.ofParameter · sym.line)) := by
    induction ps generalizing m with
    | nil => simp
    | cons p ps ih =>
      rw [List.foldl_cons, ih, getElem?_insertNew, List.find?_cons, Option.or_assoc]
      by_cases hkey : scope.child p.name.lower = key
      · simp [hkey]
      · simp [hkey]
  exact hfold sym.parameters m

theorem bindParameters_stage_eq (t : Table) (sym : Symbol) :
    (t.stage sym).bindParameters =
      { t with staged := some sym, bindings := insertParameters t.bindings t.scope sym } := by
  have hfold (ps : List Parameter) (t : Table) :
      ps.foldl (fun t p => t.bindParameter sym.line p) t =
        { t with bindings := ps.foldl (fun m p =>
            insertNew m (t.scope.child p.name.lower) (.ofParameter p sym.line)) t.bindings } := by
    induction ps generalizing t with
    | nil => rfl
    | cons p ps ih =>
      have hstep : t.bindParameter sym.line p = { t with
          bindings := insertNew t.bindings (t.scope.child p.name.lower)
            (.ofParameter p sym.line) } := by
        unfold Table.bindParameter insertNew
        dsimp only
        split <;> rfl
      rw [List.foldl_cons, ih, hstep, List.foldl_cons]
  exact hfold sym.parameters (t.stage sym)

end Adding

/-! ## Trees -/

/-- Whether bindings are found in others. -/
def Included (m m' : Bindings) : Prop := ∀ (key : ScopeKey) sym, m[key]? = some sym → m'[key]? = some sym

/-- Whether something can be declared inside a key: it is bound, and unless `clean` is wrong it is the
key of a program or of a procedure. -/
def IsScope (m : Bindings) (clean : Prop) (key : ScopeKey) : Prop :=
  ∃ sym, m[key]? = some sym ∧ (clean → sym.kind = .program ∨ sym.kind = .procedure)

/-- Whether an entry has its place in the bindings. -/
structure Stands (root : ScopeKey) (m : Bindings) (clean : Prop) (key : ScopeKey) (sym : Symbol) :
    Prop where
  under : key.IsUnder root
  parent : key ≠ root → IsScope m clean key.parent
  global : sym.global = true → Entry.isDeclared (key, sym) = true → key.parent = root
  formals : sym.kind = .procedure → ∀ p ∈ sym.parameters,
    ∃ first, sym.parameters.find? (·.name = p.name) = some first ∧
      m[key.child p.name]? = some (.ofParameter first sym.line)

/-- Whether all bindings have their places. -/
def IsScopeTree (root : ScopeKey) (m : Bindings) (clean : Prop) : Prop :=
  ∀ (key : ScopeKey) sym, m[key]? = some sym → Stands root m clean key sym

section Trees

variable {root unit key : ScopeKey} {m m' : Bindings} {clean clean' : Prop} {sym : Symbol}

theorem IsScope.mono (h : IsScope m clean key) (hincluded : Included m m')
    (hclean : clean' → clean) : IsScope m' clean' key := by
  obtain ⟨sym, hsym, hkind⟩ := h
  exact ⟨sym, hincluded key sym hsym, fun h => hkind (hclean h)⟩

theorem Stands.mono (h : Stands root m clean key sym) (hincluded : Included m m')
    (hclean : clean' → clean) : Stands root m' clean' key sym where
  under := h.under
  parent hne := (h.parent hne).mono hincluded hclean
  global := h.global
  formals hkind p hp := by
    obtain ⟨first, hfirst, hbound⟩ := h.formals hkind p hp
    exact ⟨first, hfirst, hincluded _ _ hbound⟩

/-- A tree stays one if all that is added has its place. -/
theorem IsScopeTree.grow (h : IsScopeTree root m clean) (hincluded : Included m m')
    (hclean : clean' → clean)
    (hnew : ∀ key sym, m[key]? = none → m'[key]? = some sym → Stands root m' clean' key sym) :
    IsScopeTree root m' clean' := by
  intro key sym hsym
  cases hold : m[key]? with
  | none => exact hnew key sym hold hsym
  | some old =>
    have hsame := hincluded key old hold
    rw [hsym] at hsame
    cases hsame
    exact (h key sym hold).mono hincluded hclean

theorem IsScopeTree.weaken (h : IsScopeTree root m clean) (hclean : clean' → clean) :
    IsScopeTree root m clean' :=
  fun key sym hsym => (h key sym hsym).mono (fun _ _ h => h) hclean

theorem IsScopeTree.isUnder (h : IsScopeTree root m clean) (hscope : IsScope m clean key) :
    key.IsUnder root := by
  obtain ⟨sym, hsym, -⟩ := hscope
  exact (h key sym hsym).under

theorem included_insertNew : Included m (insertNew m key sym) := by
  intro other old hold
  rw [getElem?_insertNew, hold]
  rfl

theorem included_insertParameters : Included m (insertParameters m key sym) := by
  intro other old hold
  rw [getElem?_insertParameters, hold]
  rfl

theorem Included.trans {m'' : Bindings} (h : Included m m') (h' : Included m' m'') :
    Included m m'' :=
  fun key sym hsym => h' key sym (h key sym hsym)

/-- Binding a variable in a scope. -/
theorem IsScopeTree.insertVariable (h : IsScopeTree root m clean) (hunit : IsScope m clean unit)
    {name : Bytes} (hname : ScopeKey.IsSegment name) {type : Scalar}
    (hkind : sym.kind = .scalar type) (hglobal : sym.global = true → unit = root) :
    IsScopeTree root (insertNew m (unit.child name) sym) clean := by
  have hparent := ScopeKey.parent_child unit hname.period_notMem
  refine h.grow included_insertNew id fun key sym' hnone hsym => ?_
  rw [getElem?_insertNew, hnone, Option.none_or] at hsym
  split at hsym
  · next hkey =>
    cases hsym
    subst hkey
    refine ⟨(h.isUnder hunit).child hname, fun _ => ?_, fun hset _ => ?_, fun hprocedure => ?_⟩
    · rw [hparent]
      exact hunit.mono included_insertNew id
    · rw [hparent]
      exact hglobal hset
    · rw [hkind] at hprocedure
      cases hprocedure
  · cases hsym

end Trees

/-! ## Procedures -/

/-- A parameter with a name in small letters and the type of a variable. -/
structure IsNamedFormal (p : Parameter) : Prop extends IsFormal p where
  segment : ScopeKey.IsSegment p.name
  lower : p.name.lower = p.name

section Procedures

variable {root unit key : ScopeKey} {m : Bindings} {clean clean' : Prop} {sym : Symbol}

/-- The parameter that is bound under a key inside a scope is found by its name. -/
theorem find?_child {ps : List Parameter} (h : ∀ p ∈ ps, IsNamedFormal p) (scope : ScopeKey)
    (name : Bytes) :
    (ps.find? fun p => scope.child p.name.lower = scope.child name) = ps.find? (·.name = name) := by
  induction ps with
  | nil => rfl
  | cons p ps ih =>
    obtain ⟨hp, hps⟩ := List.forall_mem_cons.mp h
    have hname : scope.child p.name.lower = scope.child name ↔ p.name = name := by
      rw [hp.lower, ScopeKey.child, ScopeKey.child, List.append_cancel_left_eq, List.cons.injEq]
      exact and_iff_right rfl
    rw [List.find?_cons, List.find?_cons, ih hps, decide_eq_decide.mpr hname]

/-- What is added with a procedure is its own entry or that of a parameter. -/
theorem getElem?_insertProcedure {other : ScopeKey} {sym' : Symbol} (hnone : m[other]? = none)
    (h : (insertNew (insertParameters m key sym) key sym)[other]? = some sym') :
    (other = key ∧ sym' = sym) ∨
      ∃ p ∈ sym.parameters, other = key.child p.name.lower ∧ sym' = .ofParameter p sym.line := by
  rw [getElem?_insertNew, getElem?_insertParameters, hnone, Option.none_or] at h
  rcases Option.or_eq_some_iff.mp h with h | ⟨-, h⟩
  · obtain ⟨p, hp, rfl⟩ := Option.map_eq_some_iff.mp h
    have hfound := List.find?_some hp
    exact .inr ⟨p, List.mem_of_find?_eq_some hp, (of_decide_eq_true hfound).symm, rfl⟩
  · split at h
    · next hkey =>
      cases h
      exact .inl ⟨hkey.symm, rfl⟩
    · cases h

theorem included_insertProcedure :
    Included m (insertNew (insertParameters m key sym) key sym) :=
  included_insertParameters.trans included_insertNew

/-- The key of a procedure is a scope when the procedure is added, unless it was bound before. -/
theorem isScope_insertProcedure (hkind : sym.kind = .procedure)
    (hnew : clean → key ∉ insertParameters m key sym) :
    IsScope (insertNew (insertParameters m key sym) key sym) clean key := by
  unfold IsScope
  rw [getElem?_insertNew, if_pos rfl]
  cases hkey : (insertParameters m key sym)[key]? with
  | none => exact ⟨sym, rfl, fun _ => .inr hkind⟩
  | some old =>
    refine ⟨old, rfl, fun hclean => absurd ?_ (hnew hclean)⟩
    rw [Std.ExtTreeMap.mem_iff_isSome_getElem?, hkey]
    rfl

/-- Nothing is bound inside a key that is not bound itself. -/
theorem IsScopeTree.child_unbound (h : IsScopeTree root m clean) (hroot : ScopeKey.IsSegment root)
    (hkey : m[key]? = none) {name : Bytes} (hname : ScopeKey.IsSegment name) :
    m[key.child name]? = none := by
  cases hchild : m[key.child name]? with
  | none => rfl
  | some sym =>
    obtain ⟨owner, howner, -⟩ := (h _ sym hchild).parent (ScopeKey.child_ne_root hroot)
    rw [ScopeKey.parent_child key hname.period_notMem, hkey] at howner
    cases howner

/-- Binding a procedure in a scope, and its parameters before it. -/
theorem IsScopeTree.insertProcedure (h : IsScopeTree root m clean) (hunit : IsScope m clean unit)
    {name : Bytes} (hname : ScopeKey.IsSegment name) (hkey : key = unit.child name)
    (hkind : sym.kind = .procedure) (hglobal : sym.global = true → unit = root)
    (hps : ∀ p ∈ sym.parameters, IsNamedFormal p) (hclean : clean' → clean)
    (hnew : clean' → key ∉ insertParameters m key sym) :
    IsScopeTree root (insertNew (insertParameters m key sym) key sym) clean' := by
  have hunder := h.isUnder hunit
  have hunder' : key.IsUnder root := hkey ▸ hunder.child hname
  have hparent : key.parent = unit := hkey ▸ ScopeKey.parent_child unit hname.period_notMem
  have hscope := isScope_insertProcedure hkind hnew
  refine h.grow included_insertProcedure hclean fun other sym' hnone hsym => ?_
  rcases getElem?_insertProcedure hnone hsym with ⟨rfl, rfl⟩ | ⟨p, hp, rfl, rfl⟩
  · refine ⟨hunder', fun _ => ?_, fun hset _ => hparent.trans (hglobal hset), fun _ p hp => ?_⟩
    · rw [hparent]
      exact hunit.mono included_insertProcedure hclean
    · -- The names inside are free, so the first parameter of each name is bound.
      have hfree := h.child_unbound hunder.isSegment hnone (hps p hp).segment
      obtain ⟨first, hfirst⟩ : ∃ first, sym'.parameters.find? (·.name = p.name) = some first :=
        Option.isSome_iff_exists.mp (List.find?_isSome.mpr ⟨p, hp, decide_eq_true rfl⟩)
      refine ⟨first, hfirst, included_insertNew _ _ ?_⟩
      rw [getElem?_insertParameters, hfree, find?_child hps, hfirst]
      rfl
  · obtain ⟨type, htype⟩ := (hps p hp).scalar
    have hsegment := (hps p hp).segment
    rw [(hps p hp).lower]
    refine ⟨hunder'.child hsegment, fun _ => ?_, fun hset => ?_, fun hprocedure => ?_⟩
    · rw [ScopeKey.parent_child key hsegment.period_notMem]
      exact hscope
    · cases hset
    · rw [Symbol.ofParameter, htype] at hprocedure
      cases hprocedure

end Procedures

end Program

end OnePass
