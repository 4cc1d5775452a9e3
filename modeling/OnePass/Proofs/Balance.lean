import OnePass.Proofs.Scoping.Basic
set_option autoImplicit false

/-!
# Declarations are balanced

A declaration enters scopes, stages a symbol and opens a function, and may end at any point on the
way.  However it ends, it is back in the scope that it started from (`Rests`).  If the program is not
given up, nothing is staged any more and the function that it started in is the current one again,
with at most one line more (`Balanced`).

Names have no period, so leaving the scope of a name leads to the scope around it, and bodies are never
rejected, so that a function which is opened is left.
-/

namespace OnePass.Program

/-! ## What stays -/

/-- A state in which something can be declared: its tokens have texts that their kinds admit, as those
of a source do, and there is a global scope. -/
structure Ready (s : State) : Prop where
  marked : s.Marked
  lexed : ∀ t ∈ s.cursor.ahead, t.Lexed
  root : s.table.global ≠ []

/-- Whether the scopes are the same in two states, one of which comes behind the other. -/
structure Rests (s s' : State) : Prop extends Proceeds s s' where
  scope : s'.table.scope = s.table.scope
  global : s'.table.global = s.table.global
  saved : s'.table.saved = s.table.saved

/-- Whether nothing is open behind a production that was not open before: the scopes and the functions
to return to are the same, nothing is staged, and the current function has been extended by lines. -/
structure Balanced (s s' : State) (lines : List Ir.Line) : Prop extends Rests s s' where
  staged : s'.table.staged = none
  parked : s'.builder.parked = s.builder.parked
  current : s'.builder.current = { s.builder.current with body := s.builder.current.body ++ lines }

section States

variable {s s₁ s₂ : State} {lines lines' : List Ir.Line}

/-- The table may have changed, but not the scopes. -/
theorem Rests.of_same (hproceeds : Proceeds s s₁) (htable : s₁.table = { s.table with
    staged := s₁.table.staged, bindings := s₁.table.bindings }) : Rests s s₁ := by
  refine ⟨hproceeds, ?_, ?_, ?_⟩
  · rw [htable]
  · rw [htable]
  · rw [htable]

theorem Rests.of_reads (h : Reads s s₁) : Rests s s₁ := .of_same h.toProceeds (by rw [h.table])

theorem Rests.trans (h : Rests s s₁) (h' : Rests s₁ s₂) : Rests s s₂ where
  toProceeds := h.toProceeds.trans h'.toProceeds
  scope := h'.scope.trans h.scope
  global := h'.global.trans h.global
  saved := h'.saved.trans h.saved

theorem Ready.of_rests (hs : Ready s) (h : Rests s s₁) : Ready s₁ where
  marked := h.marked hs.marked
  lexed t ht := hs.lexed t (h.ahead.subset ht)
  root := h.global ▸ hs.root

theorem Balanced.of_same (h : Rests s s₁) (hstaged : s₁.table.staged = none)
    (hbuilder : s₁.builder = s.builder) : Balanced s s₁ [] where
  toRests := h
  staged := hstaged
  parked := by rw [hbuilder]
  current := by rw [hbuilder, List.append_nil]

theorem Balanced.of_reads (h : Reads s s₁) (hs : s.table.staged = none) : Balanced s s₁ [] :=
  .of_same (.of_reads h) (h.table ▸ hs) h.builder

theorem Balanced.trans (h : Balanced s s₁ lines) (h' : Balanced s₁ s₂ lines') :
    Balanced s s₂ (lines ++ lines') where
  toRests := h.toRests.trans h'.toRests
  staged := h'.staged
  parked := h'.parked.trans h.parked
  current := by rw [h'.current, h.current, List.append_assoc]

end States

/-! ## Productions -/

/-- Balanced, with at most one line more in the current function. -/
def Restored (s s' : State) : Prop := ∃ lines, lines.length ≤ 1 ∧ Balanced s s' lines

/-- A production, run from a state on, leads to one that is balanced with respect to a state before,
unless it gives the program up; the scopes stay even so. -/
def Balances {α : Type} (s₀ : State) (p : Parser α) (s : State) : Prop :=
  Ends p s (fun _ s' => Restored s₀ s') fun stop s' => Rests s₀ s' ∧ (stop = .reject → Restored s₀ s')

section Productions

variable {α : Type} {p : Parser α} {s s₁ : State}

theorem Restored.of_same (h : Rests s s₁) (hstaged : s₁.table.staged = none)
    (hbuilder : s₁.builder = s.builder) : Restored s s₁ :=
  ⟨[], Nat.zero_le 1, .of_same h hstaged hbuilder⟩

/-- What is balanced from a state on, where the scopes are changed around it. -/
theorem Balances.around (hp : Balances s₁ p s₁) (hbuilder : s₁.builder = s.builder)
    (leave : Table → Table) (hrests : ∀ s', Rests s₁ s' → Rests s { s' with table := leave s'.table })
    (hstaged : ∀ t, (leave t).staged = t.staged) :
    Ends p s₁ (fun _ s' => Restored s { s' with table := leave s'.table })
      fun stop s' => Rests s { s' with table := leave s'.table } ∧
        (stop = .reject → Restored s { s' with table := leave s'.table }) := by
  have hrestored {s' : State} (h : Restored s₁ s') : Restored s { s' with table := leave s'.table } := by
    obtain ⟨lines, hlines, h⟩ := h
    refine ⟨lines, hlines, hrests s' h.toRests, (hstaged _).trans h.staged, ?_, ?_⟩
    · exact hbuilder ▸ h.parked
    · exact hbuilder ▸ h.current
  exact Ends.mono hp (fun _ _ h => hrestored h) fun _ s' h =>
    ⟨hrests s' h.1, fun hstop => hrestored (h.2 hstop)⟩

theorem Balances.behind (h : Rests s s₁) (hbuilder : s₁.builder = s.builder)
    (hp : Balances s₁ p s₁) : Balances s p s₁ :=
  hp.around hbuilder id (fun _ hrests => h.trans hrests) fun _ => rfl

/-- Reading on behind a production, which may fail. -/
theorem Balances.bind_reads {β : Type} {q : α → Parser β} (hp : Balances s p s)
    (hq : ∀ a, Keeps Reads (q a)) : Balances s (p >>= q) s := by
  unfold Balances
  rw [ends_bind]
  refine Ends.mono hp ?_ fun _ _ h => h
  rintro a s₁ ⟨lines, hlines, hbalanced⟩
  have hread {s₂ : State} (hreads : Reads s₁ s₂) : Balanced s s₂ lines :=
    List.append_nil lines ▸ hbalanced.trans (.of_reads hreads hbalanced.staged)
  refine Ends.mono (hq a s₁) (fun _ s₂ hreads => ?_) fun _ s₂ hreads => ?_
  · exact ⟨lines, hlines, hread hreads⟩
  · exact ⟨(hread hreads).toRests, fun _ => ⟨lines, hlines, hread hreads⟩⟩

/-- Entering the scope of a name leads to a key from which leaving leads back. -/
theorem exists_enter {t : Table} {name : Bytes} (hroot : t.global ≠ [])
    (hname : Ascii.period ∉ name.lower) :
    ∃ key : ScopeKey, t.enter name = { t with scope := key } ∧ key.parent = t.scope := by
  by_cases hscope : t.scope = []
  · refine ⟨name.lower, ?_, ?_⟩
    · simp only [Table.enter, hroot, hscope, if_false, if_true]
    · rw [ScopeKey.parent, List.splitOn_eq_singleton hname, hscope]
      rfl
  · refine ⟨t.scope.child name.lower, ?_, ScopeKey.parent_child t.scope hname⟩
    simp only [Table.enter, hroot, hscope, if_false]

theorem inScope_balances {name : Bytes} (hs : Ready s) (hname : Lexeme.IsName name)
    (h : ∀ s, Ready s → Balances s p s) : Balances s (inScope name p) s := by
  obtain ⟨key, henter, hparent⟩ := exists_enter hs.root hname.period_notMem_lower
  unfold Balances
  rw [ends_inScope, henter]
  have hinside := h { s with table := { s.table with scope := key } } ⟨hs.marked, hs.lexed, hs.root⟩
  refine hinside.around (s := s) rfl Table.exit (fun s' h => ?_) fun _ => rfl
  exact ⟨⟨h.file, h.eof, h.ahead, h.diagnostics, h.trace⟩,
    (congrArg ScopeKey.parent h.scope).trans hparent, h.global, h.saved⟩

theorem inScopeOf_balances {global : Bool} (hs : Ready s) (hstaged : s.table.staged = none)
    (h : ∀ s, Ready s → s.table.staged = none → Balances s p s) :
    Balances s (inScopeOf global p) s := by
  cases global with
  | false => exact h s hs hstaged
  | true =>
    have hglobal := h { s with table := s.table.enterGlobal } ⟨hs.marked, hs.lexed, hs.root⟩ hstaged
    unfold Balances
    rw [ends_inScopeOf_true]
    refine hglobal.around (s := s) rfl Table.exitGlobal (fun s' h => ?_) fun t => ?_
    · have hsaved : s'.table.saved = s.table.scope :: s.table.saved := h.saved
      have htable : s'.table.exitGlobal =
          { s'.table with scope := s.table.scope, saved := s.table.saved } := by
        rw [Table.exitGlobal, hsaved]
      rw [htable]
      exact ⟨⟨h.file, h.eof, h.ahead, h.diagnostics, h.trace⟩, rfl, h.global, rfl⟩
    · unfold Table.exitGlobal
      split
      · rfl
      · rfl

end Productions

/-! ## Declarations -/

section Declarations

variable {s : State}

/-- Filling in the staged symbol. -/
theorem orDiscard_balances {α β : Type} {p : Parser β} {f : β → Parser α} (hp : Keeps Reads p)
    (hf : ∀ b s₁, Reads s s₁ → Balances s₁ (f b) s₁) : Balances s (orDiscard p >>= f) s := by
  unfold Balances
  rw [ends_bind, ends_orDiscard]
  refine Ends.mono (hp s) (fun b s₁ hreads => ?_) fun stop s₁ hreads => ?_
  · exact (hf b s₁ hreads).behind (.of_reads hreads) hreads.builder
  · have hrests : Rests s { s₁ with table := s₁.table.discard } :=
      (Rests.of_reads hreads).trans (.of_same (Proceeds.withTable s₁ _) rfl)
    exact ⟨hrests, fun _ => .of_same hrests rfl hreads.builder⟩

/-- A token or a value that is rejected when nothing is staged any more. -/
theorem reject_balances {s₁ : State} (h : Rests s s₁) (hstaged : s₁.table.staged = none)
    (hbuilder : s₁.builder = s.builder) (ds : List Diagnostic) :
    Rests s { s₁ with diagnostics := s₁.diagnostics ++ ds } ∧
      (Stop.reject = .reject → Restored s { s₁ with diagnostics := s₁.diagnostics ++ ds }) := by
  have hrests : Rests s { s₁ with diagnostics := s₁.diagnostics ++ ds } :=
    h.trans (.of_reads (Reads.frame.report s₁ ds))
  exact ⟨hrests, fun _ => .of_same hrests hstaged hbuilder⟩

theorem variableTail_balances (sym : Symbol) (name : Token) :
    Balances s (variableTail sym name) s := by
  unfold Balances variableTail
  rw [ends_bind, ends_get]
  refine orDiscard_balances (Reads.frame.keeps made_optionalBounds) fun bounds? s₁ _ => ?_
  unfold Balances variableEnd
  rw [ends_bind, ends_modifyTable, ends_bind, ends_get]
  dsimp only
  split
  · rw [ends_bind, ends_modifyTable]
    have hrests : Rests s₁ { s₁ with table := s₁.table.discard } :=
      .of_same (Proceeds.withTable s₁ _) rfl
    split
    · exact reject_balances hrests rfl rfl _
    · exact reject_balances hrests rfl rfl _
  · next line _ =>
    rw [ends_bind, ends_commit_eq name rfl]
    split
    · rw [ends_bind, ends_emitStorage, ends_note]
      refine ⟨if sym.global then [] else [line], ?_, ?_⟩
      · split
        · exact Nat.zero_le 1
        · exact Nat.le_refl 1
      · refine ⟨⟨⟨rfl, rfl, List.suffix_refl _, List.prefix_append _ _, List.prefix_append _ _⟩, rfl,
          rfl, rfl⟩, rfl, ?_, ?_⟩
        · cases sym.global <;> rfl
        · cases sym.global with
          | false => rfl
          | true => simp [Ir.Builder.addGlobal]
    · exact .of_same ⟨⟨rfl, rfl, List.suffix_refl _, List.prefix_append _ _, List.prefix_refl _⟩,
        rfl, rfl, rfl⟩ rfl rfl

/-- A declaration from the token before its name on, given how it goes on behind the name. -/
theorem named_balances (hs : Ready s) (hstaged : s.table.staged = none)
    {symbol : Token → Symbol} {tail : Symbol → Token → Parser Unit}
    (h : ∀ s' sym name, Ready s' → Balances s' (tail sym name) s') :
    Balances s (named symbol tail) s := by
  unfold Balances
  rw [ends_named]
  split
  case isFalse => exact reject_balances (.of_reads (Reads.frame.refl s)) hstaged rfl _
  case isTrue hkind =>
    have hname := isName_peek hs.marked hs.lexed hkind
    have hrests : Rests s { s with
        cursor := s.cursor.next, table := s.table.stage (symbol s.cursor.peek) } :=
      .of_same ((Reads.frame.next s).toProceeds.trans (Proceeds.withTable _ _)) rfl
    exact Balances.behind hrests rfl (inScope_balances (hs.of_rests hrests) hname fun s' => h s' _ _)

/-- A production of a body: it is balanced from every state on in which nothing is staged, and is
never rejected. -/
def BodyBalances (p : Parser Unit) : Prop :=
  ∀ s, Ready s → s.table.staged = none →
    Ends p s (fun _ s' => ∃ lines, Balanced s s' lines) fun stop s' => Rests s s' ∧ stop ≠ .reject

/-- The body of a procedure from the token before it on, and the return to the function around: what
was there before the procedure was opened is `s₀`. -/
theorem procedureBody_balances {inner : Parser Unit} (hinner : BodyBalances inner) {s₀ s : State}
    {key : ScopeKey} {kept : Bool} (hs : Ready s₀) (hrests : Rests s₀ s)
    (hstaged : s.table.staged = none)
    (hparked : s.builder.parked = s₀.builder.current :: s₀.builder.parked) :
    Balances s₀ (procedureBody inner key kept) s := by
  have hnext : Rests s { s with cursor := s.cursor.next } := .of_reads (Reads.frame.next s)
  unfold Balances procedureBody
  rw [ends_bind, ends_advance, ends_bind]
  refine Ends.mono (hinner _ (hs.of_rests (hrests.trans hnext)) hstaged) ?_ ?_
  · rintro _ s₁ ⟨lines, hbalanced⟩
    have hrests₁ := hrests.trans (hnext.trans hbalanced.toRests)
    rw [ends_bind, ends_get, ends_bind, ends_leaveFunction, ends_note,
      Tree.leave_of_parked (hbalanced.parked.trans hparked)]
    refine ⟨[], Nat.zero_le 1, hrests₁.trans ?_, hbalanced.staged, rfl, ?_⟩
    · exact ⟨⟨rfl, rfl, List.suffix_refl _, List.prefix_refl _, List.prefix_append _ _⟩, rfl, rfl, rfl⟩
    · rw [List.append_nil]
  · rintro stop s₁ ⟨hrests₁, hstop⟩
    exact ⟨hrests.trans (hnext.trans hrests₁), fun hreject => absurd hreject hstop⟩

section Bodies

variable {inner : Parser Unit} (hinner : BodyBalances inner)

include hinner

/-- What follows the binding of a procedure: its function is opened, its body recognised, and the
function left again. -/
theorem procedureUnit_balances (hs : Ready s) (hstaged : s.table.staged = none) (sym : Symbol)
    (name : Token) (key : ScopeKey) (count : Nat) (bound : Bool) :
    Balances s (openFunction sym name (procedureInside inner key count bound)) s := by
  unfold Balances openFunction
  rw [ends_bind, ends_get]
  split
  · exact reject_balances (.of_reads (Reads.frame.refl s)) hstaged rfl _
  · next builder hopen =>
    have hparked : builder.parked = s.builder.current :: s.builder.parked := by
      obtain ⟨formals, -, rfl⟩ := Ir.Builder.openProcedure_eq_ok hopen
      rfl
    rw [ends_bind, ends_set, procedureInside, ends_bind, ends_note, ends_bind]
    refine optionalIs_reads fun c hread => ?_
    refine procedureBody_balances hinner hs ?_ hstaged hparked
    exact ⟨⟨rfl, hread.eof, hread.ahead, List.prefix_refl _, List.prefix_append _ _⟩, rfl, rfl, rfl⟩

theorem procedureTail_balances (hs : Ready s) (sym : Symbol) (name : Token) :
    Balances s (procedureTail inner sym name) s := by
  refine orDiscard_balances (Reads.frame.keeps made_parameters) fun ps s₁ hreads => ?_
  have hs₁ := hs.of_rests (.of_reads hreads)
  unfold Balances
  rw [ends_bind, ends_modifyTable, bindParameters_stage_eq, ends_bind, ends_get, ends_bind,
    ends_commit_eq name rfl]
  refine Balances.behind (s := s₁) ?_ rfl (procedureUnit_balances hinner ?_ rfl _ name _ _ _)
  · exact ⟨⟨rfl, rfl, List.suffix_refl _, List.prefix_append _ _, List.prefix_refl _⟩, rfl, rfl, rfl⟩
  · exact ⟨hs₁.marked, hs₁.lexed, hs₁.root⟩

theorem declaration_balances (hs : Ready s) (hstaged : s.table.staged = none) :
    Balances s (declaration inner) s := by
  have htail (s : State) (hs : Ready s) (hstaged : s.table.staged = none) (global : Bool) :
      Balances s (declarationTail inner global) s := by
    unfold Balances declarationTail
    rw [ends_bind, ends_current]
    split
    · exact inScopeOf_balances hs hstaged fun s hs hstaged =>
        named_balances hs hstaged fun s' sym name hs' => procedureTail_balances hinner hs' sym name
    · exact inScopeOf_balances hs hstaged fun s hs hstaged =>
        named_balances hs hstaged fun s' sym name _ => variableTail_balances sym name
    · exact reject_balances (.of_reads (Reads.frame.refl s)) hstaged rfl _
  have hnext : Reads s { s with cursor := s.cursor.next } := Reads.frame.next s
  unfold Balances declaration
  rw [ends_bind, ends_currentIs]
  split
  · rw [ends_bind, ends_advance]
    exact (htail _ (hs.of_rests (.of_reads hnext)) hstaged true).behind (.of_reads hnext) rfl
  · exact htail s hs hstaged false

end Bodies

/-! ## Bodies -/

theorem bodyTail_balances (terminator : TokenKind) : BodyBalances (bodyTail terminator) := by
  intro s _ hstaged
  have hreads := Reads.frame.keeps (made_bodyTail terminator) s
  exact Ends.mono ((neverRejects_bodyTail terminator s).and hreads)
    (fun _ _ h => ⟨[], .of_reads h.2 hstaged⟩) fun _ _ h => ⟨.of_reads h.2, h.1⟩

theorem BodyBalances.bind {p q : Parser Unit} (hp : BodyBalances p) (hq : BodyBalances q) :
    BodyBalances (do p; q) := by
  intro s hs hstaged
  rw [ends_bind]
  refine Ends.mono (hp s hs hstaged) ?_ fun _ _ h => h
  rintro _ s₁ ⟨lines, hbalanced⟩
  refine Ends.mono (hq s₁ (hs.of_rests hbalanced.toRests) hbalanced.staged) ?_ ?_
  · rintro _ s₂ ⟨lines', hbalanced'⟩
    exact ⟨lines ++ lines', hbalanced.trans hbalanced'⟩
  · rintro stop s₂ ⟨hrests, hstop⟩
    exact ⟨hbalanced.toRests.trans hrests, hstop⟩

theorem orRecover_balances {p : Parser Unit}
    (hp : ∀ s, Ready s → s.table.staged = none → Balances s p s) : BodyBalances (orRecover p) := by
  intro s hs hstaged
  rw [ends_orRecover]
  refine Ends.mono (hp s hs hstaged) ?_ ?_
  · rintro _ s₁ ⟨lines, -, hbalanced⟩
    exact ⟨_, hbalanced.trans (.of_reads (Reads.frame.next s₁) hbalanced.staged)⟩
  · rintro stop s₁ ⟨hrests, hrejected⟩
    cases stop with
    | fatal e => exact ⟨hrests, Stop.noConfusion⟩
    | reject =>
      obtain ⟨lines, -, hbalanced⟩ := hrejected rfl
      exact Ends.mono ((neverRejects_recover _ 0 s₁).and (leads_recover Reads.frame.course _ 0 s₁))
        (fun _ s₂ h => ⟨_, hbalanced.trans (.of_reads h.2 hbalanced.staged)⟩)
        fun _ s₂ h => ⟨hrests.trans (.of_reads h.2), h.1⟩

theorem declarationsWithin_balances (depth : Nat) : BodyBalances (declarationsWithin depth) := by
  induction depth with
  | zero => exact fun s _ _ => ⟨.of_reads (Reads.frame.refl s), Stop.noConfusion⟩
  | succ depth ih =>
    have hround := orRecover_balances fun s hs hstaged =>
      (declaration_balances (ih.bind (bodyTail_balances .kwProcedure)) hs hstaged).bind_reads fun _ =>
        Reads.frame.keeps (made_expectPeek .semicolon)
    intro s hs hstaged
    simp only [declarationsWithin, ends_bind, ends_current, ends_peek]
    split
    · exact hround.bind ih s hs hstaged
    · exact ⟨[], .of_reads (Reads.frame.refl s) hstaged⟩

theorem body_balances (terminator : TokenKind) : BodyBalances (body terminator) := by
  intro s hs hstaged
  unfold body
  rw [ends_bind, ends_remaining]
  exact (declarationsWithin_balances _).bind (bodyTail_balances terminator) s hs hstaged

/-- What recognises the body of a procedure that is declared, on its own or inside of other
declarations that bound how deep it may nest. -/
def IsProcedureBody (inner : Parser Unit) : Prop :=
  inner = body .kwProcedure ∨ ∃ depth, inner = do declarationsWithin depth; bodyTail .kwProcedure

/-- **Declarations are balanced**: one that is passed or rejected leaves the scopes and the functions
as they were, with nothing staged and at most one line more in the current function, and one that
gives the program up leaves the scopes as they were. -/
theorem declaration_balanced {inner : Parser Unit} (hinner : IsProcedureBody inner)
    (hmarked : s.Marked) (hlexed : ∀ t ∈ s.cursor.ahead, t.Lexed) (hroot : s.table.global ≠ [])
    (hstaged : s.table.staged = none) :
    Ends (declaration inner) s
      (fun _ s' => ∃ lines, lines.length ≤ 1 ∧ Balanced s s' lines)
      fun stop s' => Rests s s' ∧
        (stop = .reject → ∃ lines, lines.length ≤ 1 ∧ Balanced s s' lines) := by
  have hbalances : BodyBalances inner := by
    rcases hinner with rfl | ⟨depth, rfl⟩
    · exact body_balances .kwProcedure
    · exact (declarationsWithin_balances depth).bind (bodyTail_balances .kwProcedure)
  exact declaration_balances hbalances ⟨hmarked, hlexed, hroot⟩ hstaged

/-- A procedure with a global variable inside, declared in a scope that is not the global one. -/
def nestedDeclaration : State :=
  .start (text "p.src") (text "procedure q() global integer g; begin end procedure")
    { scope := text "p.r", global := text "p", saved := [text "p.s"] }
    (Ir.Builder.new .standard).openProgram

theorem nestedDeclaration_balanced : ∃ s' lines,
    declaration (body .kwProcedure) nestedDeclaration = .ok () s' ∧
      lines.length ≤ 1 ∧ Balanced nestedDeclaration s' lines := by
  have hends := declaration_balanced (s := nestedDeclaration) (.inl rfl) (TokenStream.kind_eof _ _)
    (fun _ => TokenStream.lexed_of_mem) (by decide) rfl
  have hpassed : (declaration (body .kwProcedure)).run' nestedDeclaration = some () := by
    decide +kernel
  unfold EStateM.run' EStateM.run at hpassed
  unfold Ends at hends
  generalize declaration (body .kwProcedure) nestedDeclaration = run at hends hpassed ⊢
  cases run with
  | ok _ s' =>
    obtain ⟨lines, hbalanced⟩ := hends
    exact ⟨s', lines, rfl, hbalanced⟩
  | error _ _ => cases hpassed

end Declarations

end OnePass.Program
