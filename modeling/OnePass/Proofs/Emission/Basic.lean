import OnePass.Proofs.ScopeKey
import OnePass.Proofs.Soundness.Expression
set_option autoImplicit false

/-!
# What a run binds and emits

Between two states of a run, entries are added to the symbol table and lines to the code.  An
`Emission` records both, and `Emits` says that it is all that changed.  The lines match the entries
(`Emission.Matches`): every entry of a global variable has its line and every entry of a procedure
its function, and nothing else defines a name.

Storage of local variables stands in the function of the scope that they are declared in
(`Emission.Placed`), as long as no key is declared twice: a procedure whose key is bound already is
dropped, with the storage inside of it.

Emissions of parts of a run are put together by `Grows.trans`; nothing depends on whether a part
was accepted or rejected.
-/

namespace OnePass.Program

/-! ## Entries -/

/-- An entry of the symbol table. -/
abbrev Entry : Type := ScopeKey × Symbol

/-- Whether an entry is a global variable. -/
def Entry.isVariable (e : Entry) : Bool := e.2.global && e.2.kind.isScalar

/-- Whether an entry is a procedure. -/
def Entry.isProcedure (e : Entry) : Bool := e.2.kind = .procedure

/-- Whether the code defines the name of an entry. -/
def Entry.isEmitted (e : Entry) : Bool := e.isVariable || e.isProcedure

/-- Whether an entry is that of a variable, of a parameter or of a procedure. -/
def Entry.isDeclared (e : Entry) : Bool := e.2.kind.isScalar || e.isProcedure

theorem Entry.isDeclared_of_isEmitted {e : Entry} (h : e.isEmitted = true) :
    e.isDeclared = true := by
  unfold isEmitted isVariable at h
  unfold isDeclared
  rcases Bool.or_eq_true_iff.mp h with h | h
  · rw [(Bool.and_eq_true_iff.mp h).2, Bool.true_or]
  · rw [h, Bool.or_true]

theorem Entry.isEmitted_of_isProcedure {e : Entry} (h : e.isProcedure = true) :
    e.isEmitted = true := by
  rw [isEmitted, h, Bool.or_true]

theorem Entry.isDeclared_of_isProcedure {e : Entry} (h : e.isProcedure = true) :
    e.isDeclared = true :=
  isDeclared_of_isEmitted (isEmitted_of_isProcedure h)

/-- Whether an entry is a variable that a function keeps for itself: it is not global, and no
parameter. -/
def Entry.isLocal (e : Entry) : Bool := !e.2.global && e.2.direction.isNone && e.2.kind.isScalar

theorem Entry.isDeclared_of_isLocal {e : Entry} (h : e.isLocal = true) : e.isDeclared = true := by
  rw [isDeclared, (Bool.and_eq_true_iff.mp h).2, Bool.true_or]

/-- Whether an entry is such a variable in the scope with a key. -/
def Entry.isLocalTo (key : ScopeKey) (e : Entry) : Bool := e.isLocal && e.1.parent = key

/-- The line that an entry of a variable becomes. -/
def Entry.line (e : Entry) : Except Ir.Error Ir.Line := Ir.declaration e.1.irName e.2

/-- The header that an entry of a procedure becomes. -/
def Entry.header (e : Entry) : Except Ir.Error Ir.Line :=
  (e.2.parameters.mapM Ir.Formal.ofParameter).map (.procedure e.1.irName)

theorem exists_formals_of_header {e : Entry} {l : Ir.Line} (h : e.header = .ok l) :
    ∃ fs, e.2.parameters.mapM Ir.Formal.ofParameter = .ok fs ∧ l = .procedure e.1.irName fs := by
  unfold Entry.header at h
  cases hformals : e.2.parameters.mapM Ir.Formal.ofParameter with
  | error e =>
    rw [hformals] at h
    cases h
  | ok fs =>
    rw [hformals] at h
    cases h
    exact ⟨fs, rfl, rfl⟩

/-- Bindings with entries added, one after the other. -/
def insertAll (m : Bindings) (es : List Entry) : Bindings :=
  es.foldl (fun m e => m.insert e.1 e.2) m

@[simp] theorem insertAll_nil (m : Bindings) : insertAll m [] = m := rfl

@[simp] theorem insertAll_append (m : Bindings) (es es' : List Entry) :
    insertAll m (es ++ es') = insertAll (insertAll m es) es' := List.foldl_append

theorem mem_insertAll {m : Bindings} {es : List Entry} {key : ScopeKey} :
    key ∈ insertAll m es ↔ key ∈ m ∨ key ∈ es.map Prod.fst := by
  induction es generalizing m with
  | nil => simp
  | cons e es ih =>
    have hcons : insertAll m (e :: es) = insertAll (m.insert e.1 e.2) es := rfl
    rw [hcons, ih, Std.ExtTreeMap.mem_insert, Std.compare_eq_iff_eq, List.map_cons, List.mem_cons,
      eq_comm, or_comm (a := key = e.1), or_assoc]

/-- What is found under a key was there before or is one of the entries. -/
theorem mem_of_getElem?_insertAll {m : Bindings} {es : List Entry} {key : ScopeKey} {sym : Symbol}
    (h : (insertAll m es)[key]? = some sym) : m[key]? = some sym ∨ (key, sym) ∈ es := by
  induction es generalizing m with
  | nil => exact .inl h
  | cons e es ih =>
    rcases ih h with h | h
    · rw [Std.ExtTreeMap.getElem?_insert] at h
      split at h
      · next heq =>
        cases h
        rw [← Std.compare_eq_iff_eq.mp heq]
        exact .inr List.mem_cons_self
      · exact .inl h
    · exact .inr (List.mem_cons_of_mem e h)

/-- Whether entries have different keys, none of which is bound. -/
structure Fresh (m : Bindings) (es : List Entry) : Prop where
  unbound : ∀ e ∈ es, e.1 ∉ m
  nodup : (es.map Prod.fst).Nodup

theorem fresh_nil (m : Bindings) : Fresh m [] := by
  constructor <;> simp

theorem fresh_singleton {m : Bindings} {e : Entry} (h : e.1 ∉ m) : Fresh m [e] := by
  constructor
  · exact List.forall_mem_singleton.mpr h
  · exact List.pairwise_singleton _ _

theorem Fresh.append {m : Bindings} {es es' : List Entry} (h : Fresh m es)
    (h' : Fresh (insertAll m es) es') : Fresh m (es ++ es') := by
  have hapart (e : Entry) (he : e ∈ es') : e.1 ∉ m ∧ e.1 ∉ es.map Prod.fst := by
    have hnew := h'.unbound e he
    rw [mem_insertAll, not_or] at hnew
    exact hnew
  constructor
  · intro e he
    rcases List.mem_append.mp he with he | he
    · exact h.unbound e he
    · exact (hapart e he).1
  · rw [List.map_append]
    refine List.nodup_append.mpr ⟨h.nodup, h'.nodup, ?_⟩
    rintro key hkey key' hkey' rfl
    obtain ⟨e, he, rfl⟩ := List.mem_map.mp hkey'
    exact (hapart e he).2 hkey

/-- Fresh entries are found under their keys, next to what was there before. -/
theorem Fresh.getElem?_insertAll {m : Bindings} {es : List Entry} (h : Fresh m es) {key : ScopeKey}
    {sym : Symbol} :
    (insertAll m es)[key]? = some sym ↔ m[key]? = some sym ∨ (key, sym) ∈ es := by
  refine ⟨mem_of_getElem?_insertAll, fun hfound => ?_⟩
  induction es generalizing m with
  | nil => exact hfound.resolve_right List.not_mem_nil
  | cons e es ih =>
    obtain ⟨hunbound, hrest⟩ := List.forall_mem_cons.mp h.unbound
    obtain ⟨hnew, hnodup⟩ := List.nodup_cons.mp h.nodup
    have hfresh : Fresh (m.insert e.1 e.2) es := by
      refine ⟨fun e' he' => ?_, hnodup⟩
      rw [Std.ExtTreeMap.mem_insert, Std.compare_eq_iff_eq]
      rintro (heq | hmem)
      · exact hnew (heq ▸ List.mem_map_of_mem he')
      · exact hrest e' he' hmem
    refine ih hfresh ?_
    rw [Std.ExtTreeMap.getElem?_insert]
    rcases hfound with hfound | hfound
    · have hother : ¬compare e.1 key = .eq := by
        intro heq
        have hnone := Std.ExtTreeMap.getElem?_eq_none hunbound
        rw [Std.compare_eq_iff_eq.mp heq, hfound] at hnone
        cases hnone
      rw [if_neg hother]
      exact .inl hfound
    · rcases List.mem_cons.mp hfound with rfl | hlater
      · rw [if_pos (Std.compare_eq_iff_eq.mpr rfl)]
        exact .inl rfl
      · exact .inr hlater

/-! ## Names in the code -/

/-- What stands in front of the name in the lines that define one for the whole code. -/
def definers : List Bytes := [text "@", text "define void @", text "define i32 @"]

/-- Whether a byte belongs to the name that stands in front of it. -/
def continuesName (b : UInt8) : Bool := b != Ascii.space && b != Ascii.leftParen

/-- The name that a line of text defines for the whole code. -/
def definedName? (line : Bytes) : Option Bytes :=
  (definers.find? (·.isPrefixOf line)).map fun d => (line.drop d.length).takeWhile continuesName

/-- The name that a line defines for the whole code. -/
def lineName? : Ir.Line → Option Bytes
  | .global name _ _ _ => some name
  | .procedure name _ => some name
  | .main => some (text "main")
  | .verbatim content => definedName? content
  | _ => none

/-- A key of which names in the code are made: words with periods between them, and at least one
period. -/
structure IsDotted (key : ScopeKey) : Prop where
  period : Ascii.period ∈ key
  bytes : ∀ b ∈ key, Lexeme.isWordByte b = true ∨ b = Ascii.period

/-- The lines that stand in functions.  Storage that has a name has the name of a key. -/
inductive IsInner : Ir.Line → Prop
  | named {key : ScopeKey} (h : IsDotted key) (ty : Ir.Ty) (align : Nat) :
      IsInner (.alloca (.named key.irName) ty align)
  | slot (number : Nat) (ty : Ir.Ty) (align : Nat) : IsInner (.alloca (.slot number) ty align)
  | store (ty : Ir.Ty) (value slot : Ir.Local) : IsInner (.store ty value slot)
  | returnVoid : IsInner .returnVoid
  | close : IsInner .close

theorem IsInner.lineName? {l : Ir.Line} (h : IsInner l) : lineName? l = none := by
  cases h <;> rfl

/-- Whether a line reserves storage for a variable that has a name. -/
def isNamed : Ir.Line → Bool
  | .alloca (.named _) _ _ => true
  | _ => false

/-! ## Emissions -/

/-- What a part of a run binds and emits. -/
structure Emission where
  /-- the entries that were bound, in their order -/
  bound : List Entry
  /-- the lines of global variables -/
  globals : List Ir.Line
  /-- the functions that were finished -/
  finished : List Ir.Function
  /-- the lines added to the current function -/
  locals : List Ir.Line

namespace Emission

/-- Nothing. -/
def none : Emission := ⟨[], [], [], []⟩

/-- One emission after another. -/
def append (d d' : Emission) : Emission :=
  ⟨d.bound ++ d'.bound, d.globals ++ d'.globals, d.finished ++ d'.finished, d.locals ++ d'.locals⟩

/-- Whether the lines are those of the entries. -/
structure Matches (d : Emission) : Prop where
  globals : d.globals.map Except.ok = (d.bound.filter Entry.isVariable).map Entry.line
  headers : (d.finished.map fun f => Except.ok f.header).Perm
    ((d.bound.filter Entry.isProcedure).map Entry.header)
  keys : ∀ e ∈ d.bound, e.isEmitted = true → IsDotted e.1
  bodies : ∀ f ∈ d.finished, ∀ l ∈ f.body, IsInner l
  locals : ∀ l ∈ d.locals, IsInner l

theorem matches_none : none.Matches := by
  constructor <;> simp [none]

theorem Matches.append {d d' : Emission} (h : d.Matches) (h' : d'.Matches) :
    (d.append d').Matches where
  globals := by
    simp only [Emission.append, List.map_append, List.filter_append, h.globals, h'.globals]
  headers := by
    simp only [Emission.append, List.map_append, List.filter_append]
    exact h.headers.append h'.headers
  keys e he := (List.mem_append.mp he).elim (h.keys e) (h'.keys e)
  bodies f hf := (List.mem_append.mp hf).elim (h.bodies f) (h'.bodies f)
  locals l hl := (List.mem_append.mp hl).elim (h.locals l) (h'.locals l)

end Emission

/-! ## Storage of local variables -/

/-- The keys of the procedures among entries. -/
def procedureKeys (es : List Entry) : List ScopeKey := (es.filter Entry.isProcedure).map Prod.fst

@[simp] theorem procedureKeys_append (es es' : List Entry) :
    procedureKeys (es ++ es') = procedureKeys es ++ procedureKeys es' := by
  simp [procedureKeys]

theorem exists_mem_of_mem_procedureKeys {es : List Entry} {key : ScopeKey}
    (h : key ∈ procedureKeys es) : ∃ e ∈ es, e.1 = key := by
  obtain ⟨e, he, rfl⟩ := List.mem_map.mp h
  exact ⟨e, (List.mem_filter.mp he).1, rfl⟩

/-- Whether lines hold exactly the storage of the entries that are local to a key. -/
def Stores (es : List Entry) (key : ScopeKey) (ls : List Ir.Line) : Prop :=
  (ls.filter isNamed).map Except.ok = (es.filter (Entry.isLocalTo key)).map Entry.line

/-- Lines without such storage, and entries that are not local to the key. -/
theorem stores_of_none {es : List Entry} {key : ScopeKey} {ls : List Ir.Line}
    (hls : ∀ l ∈ ls, isNamed l = false) (h : ∀ e ∈ es, e.isLocal = true → e.1.parent ≠ key) :
    Stores es key ls := by
  have hnone : es.filter (Entry.isLocalTo key) = [] := by
    rw [List.filter_eq_nil_iff]
    intro e he hlocal
    obtain ⟨hlocal, hparent⟩ := Bool.and_eq_true_iff.mp hlocal
    exact h e he hlocal (of_decide_eq_true hparent)
  have hlines : ls.filter isNamed = [] := by simpa [List.filter_eq_nil_iff] using hls
  simp [Stores, hnone, hlines]

theorem stores_nil {es : List Entry} {key : ScopeKey}
    (h : ∀ e ∈ es, e.isLocal = true → e.1.parent ≠ key) : Stores es key [] :=
  stores_of_none (List.forall_mem_nil _) h

theorem Stores.append {es es' : List Entry} {key : ScopeKey} {ls ls' : List Ir.Line}
    (h : Stores es key ls) (h' : Stores es' key ls') : Stores (es ++ es') key (ls ++ ls') := by
  unfold Stores at h h' ⊢
  simp only [List.filter_append, List.map_append, h, h']

/-- Whether a function is that of the procedure with a key, with the storage of the variables that
are local to it. -/
structure IsUnit (es : List Entry) (key : ScopeKey) (f : Ir.Function) : Prop where
  header : ∃ e ∈ es, e.1 = key ∧ e.isProcedure = true ∧ e.header = .ok f.header
  storage : Stores es key f.body

theorem IsUnit.append_left {es : List Entry} {key : ScopeKey} {f : Ir.Function}
    (h : IsUnit es key f) {es' : List Entry}
    (hes' : ∀ e ∈ es', e.isLocal = true → e.1.parent ≠ key) : IsUnit (es' ++ es) key f where
  header := by
    obtain ⟨e, he, hheader⟩ := h.header
    exact ⟨e, List.mem_append_right es' he, hheader⟩
  storage := (stores_nil hes').append h.storage

theorem IsUnit.append_right {es : List Entry} {key : ScopeKey} {f : Ir.Function}
    (h : IsUnit es key f) {es' : List Entry}
    (hes' : ∀ e ∈ es', e.isLocal = true → e.1.parent ≠ key) : IsUnit (es ++ es') key f where
  header := by
    obtain ⟨e, he, hheader⟩ := h.header
    exact ⟨e, List.mem_append_left es' he, hheader⟩
  storage := by
    have hstores := h.storage.append (stores_nil hes')
    rwa [List.append_nil] at hstores

/-- Whether storage is placed by the scopes of the variables: every finished function is that of a
procedure among the entries, `unit` is the key of the current function, and there are no other
functions to which a variable could be local. -/
structure Emission.Placed (unit : ScopeKey) (d : Emission) : Prop where
  units : ∃ us : List (ScopeKey × Ir.Function), us.map Prod.snd = d.finished ∧
    (us.map Prod.fst).Perm (procedureKeys d.bound) ∧ ∀ u ∈ us, IsUnit d.bound u.1 u.2
  locals : Stores d.bound unit d.locals
  parents : ∀ e ∈ d.bound, e.isLocal = true → e.1.parent = unit ∨ e.1.parent ∈ procedureKeys d.bound

theorem Emission.placed_none (unit : ScopeKey) : Emission.none.Placed unit where
  units := ⟨[], rfl, .nil, by simp⟩
  locals := rfl
  parents := by simp [none]

/-- The keys of the functions that are finished in the two parts differ, as they were new when they
were bound; and they differ from the key of the current function, which was bound before. -/
theorem Emission.Placed.append {unit : ScopeKey} {m : Bindings} {d d' : Emission}
    (h : d.Placed unit) (h' : d'.Placed unit) (hunit : unit ∈ m) (hfresh : Fresh m d.bound)
    (hfresh' : Fresh (insertAll m d.bound) d'.bound) : (d.append d').Placed unit := by
  have hearly {key : ScopeKey} (hkey : key ∈ procedureKeys d.bound) :
      key ∉ m ∧ key ∈ insertAll m d.bound := by
    obtain ⟨e, he, rfl⟩ := exists_mem_of_mem_procedureKeys hkey
    exact ⟨hfresh.unbound e he, mem_insertAll.mpr (.inr (List.mem_map_of_mem he))⟩
  have hlate {key : ScopeKey} (hkey : key ∈ procedureKeys d'.bound) : key ∉ insertAll m d.bound := by
    obtain ⟨e, he, rfl⟩ := exists_mem_of_mem_procedureKeys hkey
    exact hfresh'.unbound e he
  obtain ⟨us, hfinished, hkeys, hus⟩ := h.units
  obtain ⟨us', hfinished', hkeys', hus'⟩ := h'.units
  refine ⟨⟨us ++ us', ?_, ?_, fun u hu => ?_⟩, h.locals.append h'.locals, fun e he hlocal => ?_⟩
  · simp only [List.map_append, hfinished, hfinished', Emission.append]
  · simp only [List.map_append, Emission.append, procedureKeys_append]
    exact hkeys.append hkeys'
  · rcases List.mem_append.mp hu with hu | hu
    · have hkey := hearly (hkeys.mem_iff.mp (List.mem_map_of_mem hu))
      refine (hus u hu).append_right fun e he hlocal heq => ?_
      rcases h'.parents e he hlocal with hparent | hparent
      · exact hkey.1 (heq ▸ hparent ▸ hunit)
      · exact hlate hparent (heq ▸ hkey.2)
    · have hkey := hlate (hkeys'.mem_iff.mp (List.mem_map_of_mem hu))
      refine (hus' u hu).append_left fun e he hlocal heq => hkey ?_
      rw [← heq]
      rcases h.parents e he hlocal with hparent | hparent
      · rw [hparent]
        exact mem_insertAll.mpr (.inl hunit)
      · exact (hearly hparent).2
  · simp only [Emission.append, procedureKeys_append, List.mem_append] at he ⊢
    rcases he with he | he
    · exact (h.parents e he hlocal).imp_right .inl
    · exact (h'.parents e he hlocal).imp_right .inr

/-! ## What changed between two states -/

/-- Whether no key was reported to be declared twice. -/
def State.Unduplicated (s : State) : Prop :=
  ∀ d ∈ s.diagnostics, d.code ≠ Diagnostic.duplicateCode

/-- Whether an emission is all that changed between two states in the scopes, the bindings and the
code. -/
structure Emits (s s' : State) (d : Emission) : Prop where
  table : s'.table =
    { s.table with bindings := insertAll s.table.bindings d.bound, staged := s'.table.staged }
  builder : s'.builder =
    { s.builder with
      globals := s.builder.globals ++ d.globals
      finished := s.builder.finished ++ d.finished
      current := { s.builder.current with body := s.builder.current.body ++ d.locals } }
  fresh : Fresh s.table.bindings d.bound
  diagnostics : s.diagnostics <+: s'.diagnostics

theorem Emits.unduplicated {s s' : State} {d : Emission} (h : Emits s s' d)
    (hs' : s'.Unduplicated) : s.Unduplicated :=
  fun d hd => hs' d (h.diagnostics.subset hd)

/-- Whether the lines that were added between two states, while the function of a key was the
current one, are those of the entries that were added, and nothing else changed. -/
def Grows (unit : ScopeKey) (s s' : State) : Prop :=
  ∃ d : Emission, d.Matches ∧ Emits s s' d ∧ (s'.Unduplicated → d.Placed unit)

section Grows

variable {unit : ScopeKey} {s s' s'' : State}

/-- The scopes, the bindings and the code are the same. -/
theorem Grows.of_same (htable : s'.table = { s.table with staged := s'.table.staged })
    (hbuilder : s'.builder = s.builder) (hdiagnostics : s.diagnostics <+: s'.diagnostics) :
    Grows unit s s' := by
  refine ⟨.none, Emission.matches_none, ⟨htable, ?_, fresh_nil _, hdiagnostics⟩,
    fun _ => Emission.placed_none unit⟩
  rw [hbuilder]
  simp [Emission.none]

theorem Grows.of_reads (h : Reads s s') : Grows unit s s' :=
  .of_same (by rw [h.table]) h.builder h.diagnostics

theorem Grows.trans (hunit : unit ∈ s.table.bindings) (h : Grows unit s s')
    (h' : Grows unit s' s'') : Grows unit s s'' := by
  obtain ⟨d, hd, hs', hplaced⟩ := h
  obtain ⟨d', hd', hs'', hplaced'⟩ := h'
  have hfresh := hs''.fresh
  rw [congrArg Table.bindings hs'.table] at hfresh
  refine ⟨d.append d', hd.append hd', ⟨?_, ?_, hs'.fresh.append hfresh, ?_⟩, fun hclean => ?_⟩
  · rw [hs''.table, hs'.table]
    simp only [Emission.append, insertAll_append]
  · rw [hs''.builder, hs'.builder]
    simp only [Emission.append, List.append_assoc]
  · exact hs'.diagnostics.trans hs''.diagnostics
  · exact (hplaced (hs''.unduplicated hclean)).append (hplaced' hclean) hunit hs'.fresh hfresh

theorem Grows.scope (h : Grows unit s s') : s'.table.scope = s.table.scope := by
  obtain ⟨d, -, hs', -⟩ := h
  rw [hs'.table]

theorem Grows.root (h : Grows unit s s') : s'.table.global = s.table.global := by
  obtain ⟨d, -, hs', -⟩ := h
  rw [hs'.table]

/-- Keys stay bound. -/
theorem Grows.mem_bindings (h : Grows unit s s') {key : ScopeKey} (hkey : key ∈ s.table.bindings) :
    key ∈ s'.table.bindings := by
  obtain ⟨d, -, hs', -⟩ := h
  rw [hs'.table]
  exact mem_insertAll.mpr (.inl hkey)

end Grows

end OnePass.Program
