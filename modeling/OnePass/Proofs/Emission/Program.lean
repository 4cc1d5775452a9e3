import OnePass.Proofs.Emission.Declaration
import OnePass.Proofs.Soundness.Program
set_option autoImplicit false

/-!
# What programs bind and emit

Bodies are never rejected: a statement or a declaration that is rejected is recovered from, and all
else that can go wrong gives the program up.  So whatever a program binds behind its name is matched
by the code that it emits (`program_emits`), however many of its declarations were rejected.
-/

namespace OnePass.Program

/-! ## Productions that are never rejected -/

/-- A production that is never rejected: it succeeds, or the program is given up. -/
def NeverRejects {α : Type} (p : Parser α) : Prop :=
  ∀ s, Ends p s (fun _ _ => True) (fun stop _ => stop ≠ .reject)

theorem neverRejects_bind {α β : Type} {p : Parser α} {f : α → Parser β} (hp : NeverRejects p)
    (hf : ∀ a, NeverRejects (f a)) : NeverRejects (p >>= f) := by
  intro s
  rw [ends_bind]
  exact Ends.mono (hp s) (fun a s' _ => hf a s') (fun _ _ h => h)

theorem neverRejects_succeeds (p : Parser Unit) : NeverRejects (succeeds p) := by
  intro s
  rw [ends_succeeds]
  refine Ends.mono (ends_trivial p s) (fun _ _ _ => trivial) (fun stop _ _ => ?_)
  cases stop with
  | reject => trivial
  | fatal e => simp

theorem neverRejects_recover (mark : Nat) (depth : Int) : NeverRejects (recover mark depth) := by
  intro s
  rw [ends_recover]
  split
  · trivial
  · simp

theorem neverRejects_mustCurrent (kind : TokenKind) : NeverRejects (mustCurrent kind) := by
  intro s
  rw [ends_mustCurrent]
  split
  · trivial
  · simp

theorem neverRejects_mustPeek (kind : TokenKind) : NeverRejects (mustPeek kind) := by
  intro s
  rw [ends_mustPeek]
  split
  · trivial
  · simp

theorem neverRejects_terminated (inner : Parser Nat) : NeverRejects (terminated inner) := by
  intro s
  rw [terminated, ends_bind, ends_reported, ends_bind, ends_get, ends_bind]
  refine Ends.mono (neverRejects_succeeds _ s) (fun complete s₁ _ => ?_) (fun _ _ h => h)
  simp only [endStatement, ends_bind, ends_peekIs, ends_ite, ends_peek, ends_unexpected, ends_advance,
    ends_recoverFrom]
  split
  · trivial
  · split
    · exact neverRejects_recover _ _ _
    · exact neverRejects_recover _ _ _

theorem neverRejects_statementsWithin (depth : Nat) : NeverRejects (statementsWithin depth) := by
  induction depth with
  | zero => simp [NeverRejects, statementsWithin]
  | succ depth ih =>
    have hmore : NeverRejects (do return (← statementsWithin depth) + 1) :=
      neverRejects_bind ih fun _ _ => trivial
    intro s
    rw [statementsWithin, ends_bind, ends_current]
    split
    · exact neverRejects_bind (neverRejects_terminated _) (fun _ => hmore) s
    · trivial

theorem neverRejects_bodyTail (terminator : TokenKind) : NeverRejects (bodyTail terminator) := by
  have hstatements : NeverRejects statements := fun s => neverRejects_statementsWithin _ s
  refine neverRejects_bind (neverRejects_mustCurrent _) fun _ => ?_
  refine neverRejects_bind (fun _ => trivial) fun _ => ?_
  refine neverRejects_bind hstatements fun _ => ?_
  exact neverRejects_bind (neverRejects_mustCurrent _) fun _ => neverRejects_mustPeek _

/-! ## Bodies -/

theorem bodyTail_settles (unit : ScopeKey) (terminator : TokenKind) (s : State) :
    Settles unit (bodyTail terminator) s :=
  Ends.mono ((neverRejects_bodyTail terminator s).and (Reads.frame.keeps (made_bodyTail terminator) s))
    (fun _ _ h => .of_reads h.2) (fun _ _ h => h.1)

/-- Declarations and what follows them. -/
theorem Settles.body {p : Parser Unit} {s : State} (hs : Sited s.table.scope s)
    (hp : Settles s.table.scope p s) (terminator : TokenKind) :
    Settles s.table.scope (do p; bodyTail terminator) s := by
  unfold Settles
  rw [ends_bind]
  refine Ends.mono hp (fun _ s₁ hgrows => ?_) (fun _ _ h => h)
  exact Ends.mono (bodyTail_settles s.table.scope terminator s₁)
    (fun _ _ h => hgrows.trans hs.unit h) (fun _ _ h => h)

/-- A declaration and the semicolon that is expected behind it. -/
theorem Grown.ended {unit : ScopeKey} {p : Parser Unit} {s : State} (hp : Grown unit p s)
    (hs : Sited unit s) : Grown unit (do p; expectPeek .semicolon) s := by
  unfold Grown
  rw [ends_bind]
  refine Ends.mono hp ?_ (fun _ _ h => h)
  intro _ s₁ hgrows
  rw [ends_expectPeek]
  split
  · exact hgrows.trans hs.unit (.of_same rfl rfl (List.prefix_refl _))
  · exact fun _ => hgrows.trans hs.unit (.of_same rfl rfl (List.prefix_append _ _))

/-- What recovering passes adds nothing. -/
theorem Grown.orRecover {unit : ScopeKey} {s : State} {p : Parser Unit} (h : Grown unit p s)
    (hs : Sited unit s) : Settles unit (orRecover p) s := by
  unfold Settles
  rw [ends_orRecover]
  refine Ends.mono h (fun _ s₁ hgrows => hgrows.trans hs.unit (.of_reads (Reads.frame.next s₁))) ?_
  intro stop s₁ hgrows
  cases stop with
  | fatal e => exact Stop.noConfusion
  | reject =>
    refine Ends.mono ((neverRejects_recover _ 0 s₁).and (leads_recover Reads.frame.course _ 0 s₁)) ?_
      fun _ _ hstop => hstop.1
    exact fun _ _ hreads => (hgrows rfl).trans hs.unit (.of_reads hreads.2)

theorem declarationsWithin_settles (depth : Nat) :
    ∀ s, Sited s.table.scope s → Settles s.table.scope (declarationsWithin depth) s := by
  induction depth with
  | zero => simp [Settles, declarationsWithin]
  | succ depth ih =>
    intro s hs
    have hone := (declaration_grown (fun s hs => (ih s hs).body hs .kwProcedure) hs).ended hs
    unfold Settles
    simp only [declarationsWithin, ends_bind, ends_current, ends_peek]
    split
    · rw [ends_bind]
      refine Ends.mono ((hone.orRecover hs).and
        (Proceeds.wideFrame.keeps (.orRecover (made_separated depth)) s)) ?_ fun _ _ hstop => hstop.1
      rintro _ s₁ ⟨hgrows, hproceeds⟩
      have hs₁ := hs.of_grows hproceeds hgrows
      rw [← hgrows.scope] at hs₁
      refine Ends.mono (ih s₁ hs₁) (fun _ _ h => ?_) (fun _ _ h => h)
      rw [hgrows.scope] at h
      exact hgrows.trans hs.unit h
    · exact .of_same rfl rfl (List.prefix_refl _)

theorem body_settles (terminator : TokenKind) {s : State} (hs : Sited s.table.scope s) :
    Settles s.table.scope (body terminator) s := by
  unfold Settles body
  rw [ends_bind, ends_remaining]
  exact (declarationsWithin_settles _ s hs).body hs terminator

/-! ## Programs -/

/-- The entries of the built-in procedures in the scope with a key. -/
def builtinEntries (key : ScopeKey) : List Entry :=
  Builtin.all.map fun b => (key.child b.word, .ofBuiltin b)

theorem bindBuiltins_eq_insertAll (m : Bindings) (key : ScopeKey) :
    Table.bindBuiltins m key = insertAll m (builtinEntries key) := by
  unfold Table.bindBuiltins insertAll builtinEntries
  rw [List.foldl_map]

/-- The entries that a program starts with are neither variables nor procedures of a source. -/
theorem isDeclared_of_mem_start {kept : Bool} {key : ScopeKey} {sym : Symbol} {e : Entry}
    (he : e ∈ builtinEntries key ++ ownEntry kept key sym) (hkind : sym.kind = .program) :
    e.isDeclared = false := by
  rcases List.mem_append.mp he with he | he
  · obtain ⟨b, -, rfl⟩ := List.mem_map.mp he
    simp [Entry.isDeclared, Entry.isProcedure, Symbol.ofBuiltin, Kind.isScalar]
  · refine forall_mem_ownEntry (P := fun e => e.isDeclared = false) ?_ e he
    simp [Entry.isDeclared, Entry.isProcedure, hkind, Kind.isScalar]

/-- What a program leaves behind: the code, and among the bindings the entries that it matches. -/
structure Leaves (target : Target) (s : State) (d : Emission) : Prop where
  matched : d.Matches
  builder : s.builder = ⟨target, d.globals, d.finished, [], ⟨.main, d.locals, 1⟩⟩
  nodup : (d.bound.map Prod.fst).Nodup
  bindings : ∀ e : Entry, e.isDeclared = true → (s.table.bindings[e.1]? = some e.2 ↔ e ∈ d.bound)
  placed : s.Unduplicated → d.Placed s.table.global

/-- What is added to the entries that a program starts with is what is left behind. -/
theorem leaves_of_grows {s s' : State} {target : Target} {es : List Entry}
    (h : Grows s.table.scope s s') (hbindings : s.table.bindings = insertAll ∅ es)
    (hes : ∀ e ∈ es, e.isDeclared = false)
    (hbuilder : s.builder = (Ir.Builder.new target).openProgram)
    (hroot : s.table.scope = s.table.global) : ∃ d, Leaves target s' d := by
  have hroot' := h.root
  obtain ⟨d, hd, ⟨htable', hbuilder', hfresh, -⟩, hplaced⟩ := h
  rw [hbindings] at htable' hfresh
  rw [hbuilder] at hbuilder'
  rw [hroot, ← hroot'] at hplaced
  refine ⟨d, hd, hbuilder', hfresh.nodup, fun e he => ?_, hplaced⟩
  rw [congrArg Table.bindings htable', hfresh.getElem?_insertAll]
  refine ⟨fun h => h.resolve_left fun hstart => ?_, .inr⟩
  rcases mem_of_getElem?_insertAll hstart with hnone | hmem
  · simp at hnone
  · rw [hes e hmem] at he
    cases he

theorem program_emits {s : State} {target : Target} (hmarked : s.Marked)
    (hlexed : ∀ t ∈ s.cursor.ahead, t.Lexed) (htable : s.table = .empty)
    (hbuilder : s.builder = .new target) :
    Ends program s (fun _ s' => ∃ d, Leaves target s' d) (fun _ _ => True) := by
  have htail {ts : List Token} (hts : ∀ t ∈ ts, t.Lexed) : ∀ t ∈ ts.tail, t.Lexed :=
    fun t ht => hts t (List.mem_of_mem_tail ht)
  rw [program, ends_bind, programOpening, ends_bind, ends_mustCurrent]
  split
  case isFalse => trivial
  rw [ends_bind, ends_mustPeek]
  split
  case isFalse => trivial
  case isTrue hname =>
  rw [ends_bind, ends_current, ends_bind, ends_modifyTable, ends_bind, ends_mustPeek]
  split
  case isFalse => trivial
  have hpath := isPath_lower (isName_peek hmarked hlexed hname)
  rw [ends_bind, ends_commit_eq _ rfl, ends_bind, ends_modify, ends_bind, ends_note, ends_bind,
    ends_advance, ends_pure, ends_bind]
  simp only [htable, hbuilder, Table.enter, Table.empty, Table.stage, if_true,
    bindBuiltins_eq_insertAll, insertAll_ownEntry]
  have hlexed' := htail (htail (htail hlexed))
  refine Ends.mono (body_settles .kwProgram ⟨hmarked, hlexed', hpath, hpath, ?_⟩) ?_
    (fun _ _ _ => trivial)
  · dsimp only
    exact mem_insertAll_ownEntry ..
  intro _ s₁ hgrows
  obtain ⟨d, hd⟩ := leaves_of_grows hgrows (by dsimp only)
    (fun _ he => isDeclared_of_mem_start he rfl) (by dsimp only) rfl
  rw [programClosing, ends_bind, ends_mustPeek]
  split
  case isFalse => trivial
  exact ⟨d, hd.matched, hd.builder, hd.nodup, hd.bindings, hd.placed⟩

/-- A source that is recognised from scratch leaves code that its bindings account for. -/
theorem program_start_emits (file source : Bytes) (target : Target) :
    Ends program (.start file source .empty (.new target)) (fun _ s' => ∃ d, Leaves target s' d)
      fun _ _ => True := by
  have hmarked : (State.start file source .empty (.new target)).Marked := TokenStream.kind_eof _ _
  exact program_emits hmarked (fun t ht => TokenStream.lexed_of_mem ht) rfl rfl

end OnePass.Program
