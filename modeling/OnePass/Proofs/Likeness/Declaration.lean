import OnePass.Proofs.Likeness.Statement
set_option autoImplicit false

/-!
# Alike declarations and programs

Declarations bind the same symbols under the same keys and emit the same code, since keys are in small
letters and code is kept as data until it is rendered.  So whole programs agree (`agree_program`).
-/

namespace OnePass

/-! ## Builders -/

namespace Likeness

variable {L : Likeness} {b b' : Ir.Builder}

/-- What changes a builder and looks at everything but its target. -/
theorem SameBuilder.map {f : Ir.Builder → Ir.Builder} (h : L.SameBuilder b b')
    (htarget : (f b).target = b.target)
    (hf : f { b with target := L.second } = { f b with target := L.second }) :
    L.SameBuilder (f b) (f b') := by
  refine ⟨htarget.trans h.first, ?_⟩
  rw [h.second, hf]

/-- What changes a builder, or fails, and looks at everything but its target. -/
structure Untargeted (f : Ir.Builder → Except Ir.Error Ir.Builder) : Prop where
  target {b b' : Ir.Builder} : f b = .ok b' → b'.target = b.target
  retarget (b : Ir.Builder) (target : Target) :
    f { b with target := target } = (f b).map fun b' => { b' with target := target }

theorem untargeted_closeProcedure : Untargeted Ir.Builder.closeProcedure where
  target {b b'} h := by
    obtain ⟨outer, rest, -, rfl⟩ := Ir.Builder.closeProcedure_eq_ok h
    rfl
  retarget b target := by
    unfold Ir.Builder.closeProcedure
    cases b.parked <;> rfl

theorem untargeted_discardProcedure : Untargeted Ir.Builder.discardProcedure where
  target {b b'} h := by
    obtain ⟨outer, rest, -, rfl⟩ := Ir.Builder.discardProcedure_eq_ok h
    rfl
  retarget b target := by
    unfold Ir.Builder.discardProcedure
    cases b.parked <;> rfl

theorem untargeted_openProcedure (name : Bytes) (sym : Symbol) :
    Untargeted (Ir.Builder.openProcedure · name sym) where
  target {b b'} h := by
    obtain ⟨formals, -, rfl⟩ := Ir.Builder.openProcedure_eq_ok h
    rfl
  retarget b target := by
    unfold Ir.Builder.openProcedure
    cases sym.parameters.mapM Ir.Formal.ofParameter <;> rfl

/-- An untargeted change fails on both of two alike builders, or gives alike ones. -/
theorem Untargeted.sameBuilder {f : Ir.Builder → Except Ir.Error Ir.Builder} (hf : Untargeted f)
    (h : L.SameBuilder b b') :
    (∃ e, f b = .error e ∧ f b' = .error e) ∨
      ∃ c c', f b = .ok c ∧ f b' = .ok c' ∧ L.SameBuilder c c' := by
  rw [h.second, hf.retarget b L.second]
  cases hrun : f b with
  | error e => exact .inl ⟨e, rfl, rfl⟩
  | ok c => exact .inr ⟨c, _, rfl, rfl, (hf.target hrun).trans h.first, rfl⟩

theorem SameToken.withLiteral {t t' : Token} (h : L.SameToken t t') (literal : Bytes) :
    L.SameToken { t with literal := literal } { t' with literal := literal } :=
  ⟨h.kind, h.line, h.column, .refl _, fun _ => rfl⟩

end Likeness

namespace Program

/-! ## The steps of declarations -/

section Steps

variable {L : Likeness} {α : Type} {W : α → α → Prop} {t t' : Token}

theorem agree_modifyTable {f f' : Table → Table} (h : ∀ table, f' table = f table) :
    Agree L Eq (modifyTable f) (modifyTable f') := by
  refine agree_modify fun s s' hs => { hs with table := ?_ }
  rw [hs.table, h]

theorem agree_andThenTable {p p' : Parser α} (hp : Agree L W p p') (f : Table → Table) :
    Agree L W (andThenTable p f) (andThenTable p' f) := by
  have hleave : Agree L Eq (modifyTable f) (modifyTable f) := agree_modifyTable fun _ => rfl
  refine agree_bind (agree_tryCatch hp fun stop stop' hstop => ?_) fun a a' ha => ?_
  · exact agree_bind_eq hleave fun _ => agree_throw hstop
  · exact agree_bind_eq hleave fun _ => agree_pure ha

theorem agree_inScope {p p' : Parser α} {name name' : Bytes} (hname : L.SameText name name')
    (hp : Agree L W p p') : Agree L W (inScope name p) (inScope name' p') := by
  refine agree_bind_eq (agree_modifyTable fun table => ?_) fun _ => agree_andThenTable hp _
  rw [Table.enter, Table.enter, hname.lower]

theorem agree_inScopeOf {p p' : Parser α} (global : Bool) (hp : Agree L W p p') :
    Agree L W (inScopeOf global p) (inScopeOf global p') := by
  cases global with
  | false => exact hp
  | true => exact agree_bind_eq (agree_modifyTable fun _ => rfl) fun _ => agree_andThenTable hp _

theorem agree_orDiscard {p p' : Parser α} (hp : Agree L W p p') :
    Agree L W (orDiscard p) (orDiscard p') := by
  refine agree_tryCatch hp fun stop stop' hstop => ?_
  exact agree_bind_eq (agree_modifyTable fun _ => rfl) fun _ => agree_throw hstop

theorem agree_commit (h : L.SameToken t t') : Agree L Eq (commit t) (commit t') := by
  refine agree_bind agree_get fun s s' hs => ?_
  rw [hs.table]
  rcases s.table.commit with ⟨result, table⟩
  refine agree_bind_eq (agree_set { hs with table := rfl }) fun _ => ?_
  cases result with
  | ok sym => exact agree_pure rfl
  | error e =>
    refine agree_bind (V := Eq) ?_ ?_
    · refine agree_bind agree_get fun s s' hs => agree_pure ?_
      rw [hs.file, h.position]
    · rintro position _ rfl
      exact agree_bind_eq (agree_report (L.sameDiagnostic_refl _)) fun _ => agree_pure rfl

theorem agree_emitStorage (global : Bool) (line : Ir.Line) :
    Agree L Eq (emitStorage global line) (emitStorage global line) := by
  refine agree_modify fun s s' hs => { hs with builder := ?_ }
  cases global with
  | true => exact hs.builder.map (f := (Ir.Builder.addGlobal · line)) rfl rfl
  | false => exact hs.builder.map (f := (Ir.Builder.addLocal · line)) rfl rfl

theorem agree_leaveFunction {leave : Ir.Builder → Except Ir.Error Ir.Builder}
    (hleave : Likeness.Untargeted leave) :
    Agree L Eq (leaveFunction leave) (leaveFunction leave) := by
  refine agree_modify fun s s' hs => ?_
  rcases hleave.sameBuilder hs.builder with ⟨e, h, h'⟩ | ⟨c, c', h, h', hc⟩
  · rw [h, h']
    exact hs
  · rw [h, h']
    exact { hs with builder := hc }

end Steps

/-! ## Bounds and parameters -/

section Parameters

variable {L : Likeness}

theorem agree_bound : Agree L Eq bound bound := by
  refine agree_bind_eq (agree_peekIs _) fun negative => ?_
  dsimp only
  split
  on_goal 1 => refine agree_bind_eq agree_advance fun _ => ?_
  -- The literal is the same, whether a sign stands in front of it or not.
  all_goals
    refine agree_bind agree_peek fun t t' ht => ?_
    rw [ht.kind]
    split
    · next hinteger =>
      refine agree_bind_eq agree_advance fun _ => agree_pure ?_
      rw [ht.integer hinteger]
    · next hfloat =>
      refine agree_bind_eq agree_advance fun _ => agree_rejectArgument ?_
      refine ⟨rfl, ht.line, ht.column, (Likeness.SameText.refl _).append ht.literal, ?_⟩
      intro hinteger
      simp [hfloat] at hinteger
    · exact agree_rejectToken ht

theorem agree_bounds : Agree L Eq bounds bounds := by
  refine agree_bind_eq agree_bound fun first => agree_bind_eq (agree_peekIs _) fun b => ?_
  split
  · exact agree_bind_eq agree_advance fun _ => agree_pure rfl
  · refine agree_bind_eq (agree_expectPeek _) fun _ => agree_bind_eq agree_bound fun _ => ?_
    exact agree_bind_eq (agree_expectPeek _) fun _ => agree_pure rfl

theorem agree_optionalBounds : Agree L Eq optionalBounds optionalBounds := by
  refine agree_bind_eq (agree_peekIs _) fun b => ?_
  split
  · refine agree_bind_eq agree_advance fun _ => ?_
    exact agree_bind_eq agree_bounds fun _ => agree_pure rfl
  · exact agree_pure rfl

theorem agree_parameter : Agree L Eq parameter parameter := by
  refine agree_bind agree_current fun t t' ht => ?_
  rw [ht.kind]
  split
  · refine agree_bind_eq (agree_expectPeek _) fun _ => ?_
    refine agree_bind agree_current fun name name' hname => ?_
    dsimp only
    rw [hname.literal.lower]
    refine agree_bind_eq agree_optionalBounds fun _ => agree_bind_eq agree_advance fun _ => ?_
    refine agree_bind agree_current fun d d' hd => ?_
    rw [hd.kind]
    split
    · exact agree_pure rfl
    · exact agree_rejectToken hd
  · exact agree_rejectToken ht

theorem agree_parametersWithin (count : Nat) :
    Agree L Eq (parametersWithin count) (parametersWithin count) := by
  induction count with
  | zero => exact agree_exhausted
  | succ count ih =>
    refine agree_bind_eq agree_advance fun _ => agree_bind_eq agree_parameter fun p => ?_
    refine agree_bind_eq (agree_peekIs _) fun b => ?_
    split
    · refine agree_bind_eq agree_advance fun _ => ?_
      exact agree_bind_eq ih fun _ => agree_pure rfl
    · exact agree_pure rfl

theorem agree_parameters : Agree L Eq parameters parameters := by
  have hclose (ps : List Parameter) : Agree L Eq (do
      expectPeek .rightParen
      return ps)
      (do
      expectPeek .rightParen
      return ps) :=
    agree_bind_eq (agree_expectPeek _) fun _ => agree_pure rfl
  refine agree_bind_eq (agree_expectPeek _) fun _ => agree_bind_eq (agree_peekIs _) fun b => ?_
  dsimp only
  split
  · exact agree_bind_eq (agree_pure rfl) hclose
  · refine agree_bind_eq agree_remaining fun n => ?_
    exact agree_bind_eq (agree_parametersWithin _) hclose

end Parameters

/-! ## Declarations -/

section Declarations

variable {L : Likeness} {name name' : Token}

theorem agree_variableTail (sym : Symbol) (hname : L.SameToken name name') :
    Agree L Eq (variableTail sym name) (variableTail sym name') := by
  refine agree_bind agree_get fun s s' hs => ?_
  have hstart := hs.cursor.next.peek
  refine agree_bind_eq (agree_orDiscard agree_optionalBounds) fun bounds? => ?_
  refine agree_bind_eq (agree_modifyTable fun _ => rfl) fun _ => ?_
  refine agree_bind agree_get fun s₁ s₁' hs₁ => ?_
  dsimp only
  rw [hs₁.table]
  split
  · refine agree_bind_eq (agree_modifyTable fun _ => rfl) fun _ => ?_
    split
    · exact agree_rejectArgument (hstart.withLiteral _)
    · exact agree_rejectToken hname
  · refine agree_bind_eq (agree_commit hname) fun b => ?_
    split
    · exact agree_bind_eq (agree_emitStorage _ _) fun _ => agree_note _ _
    · exact agree_pure rfl

/-- A declaration from the token before its name on, given its part inside the scope of the name. -/
theorem agree_named {sym : Token → Symbol} {tail tail' : Symbol → Token → Parser Unit}
    (hsym : ∀ name name', L.SameToken name name' → sym name' = sym name)
    (htail : ∀ sym name name', L.SameToken name name' →
      Agree L Eq (tail sym name) (tail' sym name')) :
    Agree L Eq (named sym tail) (named sym tail') := by
  refine agree_bind_eq (agree_expectPeek _) fun _ => agree_bind agree_current fun name name' hname => ?_
  rw [hsym name name' hname]
  refine agree_bind_eq (agree_modifyTable fun _ => rfl) fun _ => ?_
  exact agree_inScope hname.literal (htail _ name name' hname)

theorem agree_variableDeclaration (global : Bool) (type : Scalar) :
    Agree L Eq (variableDeclaration global type) (variableDeclaration global type) := by
  refine agree_named (fun name name' hname => ?_) fun sym _ _ hname => agree_variableTail sym hname
  rw [hname.line]

theorem agree_optionalIs : Agree L Eq optionalIs optionalIs := by
  refine agree_bind_eq (agree_peekIs _) fun b => ?_
  split
  · exact agree_advance
  · exact agree_pure rfl

variable {inner inner' : Parser Unit} (hinner : Agree L Eq inner inner')

include hinner

theorem agree_procedureInside (key key' : ScopeKey) (count : Nat) (kept : Bool) (b b' : Ir.Builder) :
    Agree L Eq (procedureInside inner key count kept b)
      (procedureInside inner' key' count kept b') := by
  refine agree_bind_eq (agree_note _ _) fun _ => agree_bind_eq agree_optionalIs fun _ => ?_
  refine agree_bind_eq agree_advance fun _ => agree_bind_eq hinner fun _ => ?_
  refine agree_bind agree_get fun s s' _ => ?_
  refine agree_bind_eq (agree_leaveFunction ?_) fun _ => agree_note _ _
  cases kept with
  | true => exact Likeness.untargeted_closeProcedure
  | false => exact Likeness.untargeted_discardProcedure

theorem agree_procedureTail (sym : Symbol) (hname : L.SameToken name name') :
    Agree L Eq (procedureTail inner sym name) (procedureTail inner' sym name') := by
  refine agree_bind_eq (agree_orDiscard agree_parameters) fun ps => ?_
  refine agree_bind_eq (agree_modifyTable fun _ => rfl) fun _ => ?_
  refine agree_bind agree_get fun s s' hs => agree_bind_eq (agree_commit hname) fun bound => ?_
  refine agree_bind agree_get fun s₁ s₁' hs₁ => ?_
  rw [hs₁.table]
  rcases (Likeness.untargeted_openProcedure s₁.table.irName { sym with parameters := ps }).sameBuilder
    hs₁.builder with ⟨e, h, h'⟩ | ⟨c, c', h, h', hc⟩
  · rw [h, h']
    exact agree_rejectToken hname
  · rw [h, h']
    refine agree_bind_eq (agree_set { hs₁ with table := rfl, builder := hc }) fun _ => ?_
    exact agree_procedureInside hinner _ _ _ bound c c'

theorem agree_declarationTail (global : Bool) :
    Agree L Eq (declarationTail inner global) (declarationTail inner' global) := by
  refine agree_bind agree_current fun t t' ht => ?_
  rw [ht.kind]
  split
  · refine agree_inScopeOf global (agree_named (fun name name' hname => ?_) ?_)
    · rw [hname.line]
    · exact fun sym _ _ hname => agree_procedureTail hinner sym hname
  · exact agree_inScopeOf global (agree_variableDeclaration global _)
  · exact agree_rejectToken ht

theorem agree_declaration : Agree L Eq (declaration inner) (declaration inner') := by
  refine agree_bind_eq (agree_currentIs _) fun b => ?_
  split
  · exact agree_bind_eq agree_advance fun _ => agree_declarationTail hinner true
  · exact agree_declarationTail hinner false

omit hinner

theorem agree_bodyTail (terminator : TokenKind) :
    Agree L Eq (bodyTail terminator) (bodyTail terminator) := by
  refine agree_bind_eq (agree_mustCurrent _) fun _ => agree_bind_eq agree_advance fun _ => ?_
  refine agree_bind_eq agree_statements fun _ => ?_
  exact agree_bind_eq (agree_mustCurrent _) fun _ => agree_mustPeek _

theorem agree_declarationsWithin (depth : Nat) :
    Agree L Eq (declarationsWithin depth) (declarationsWithin depth) := by
  induction depth with
  | zero => exact agree_exhausted
  | succ depth ih =>
    refine agree_bind agree_current fun t t' ht => agree_bind agree_peek fun u u' hu => ?_
    have hstarts : startsDeclaration t' u' = startsDeclaration t u := by
      rw [startsDeclaration, startsDeclaration, ht.kind, hu.kind]
    rw [hstarts]
    split
    · have hdeclaration := agree_bind_eq
        (agree_declaration (agree_bind_eq ih fun _ => agree_bodyTail .kwProcedure)) fun _ =>
        agree_expectPeek .semicolon
      refine agree_bind_eq (agree_bind_eq agree_reported fun mark => ?_) fun _ => ih
      refine agree_bind_eq (agree_succeeds hdeclaration) fun b => ?_
      split
      · exact agree_advance
      · exact agree_recover _ _
    · exact agree_pure rfl

theorem agree_body (terminator : TokenKind) :
    Agree L Eq (body terminator) (body terminator) := by
  refine agree_bind_eq agree_remaining fun n => ?_
  exact agree_bind_eq (agree_declarationsWithin (n + 1)) fun _ => agree_bodyTail _

theorem agree_programOpening : Agree L L.SameText programOpening programOpening := by
  refine agree_bind_eq (agree_mustCurrent _) fun _ => agree_bind_eq (agree_mustPeek _) fun _ => ?_
  refine agree_bind agree_current fun name name' hname => ?_
  refine agree_bind_eq (agree_modifyTable fun table => ?_) fun _ => ?_
  · rw [Table.enter, Table.enter, hname.literal.lower, hname.line]
  · refine agree_bind_eq (agree_mustPeek _) fun _ => agree_bind_eq (agree_commit hname) fun _ => ?_
    refine agree_bind_eq (agree_modify fun s s' hs => ?_) fun _ => ?_
    · exact { hs with builder := hs.builder.map (f := Ir.Builder.openProgram) rfl rfl }
    · refine agree_bind_eq (agree_note _ _) fun _ => agree_bind_eq agree_advance fun _ => ?_
      exact agree_pure hname.literal

/-- Alike sources are recognised alike; the names of the programs are folded into one. -/
theorem agree_program : Agree L L.SameText program program := by
  refine agree_bind agree_programOpening fun name name' hname => ?_
  refine agree_bind_eq (agree_body _) fun _ => agree_bind_eq (agree_mustPeek _) fun _ => ?_
  refine agree_bind_eq (agree_modifyTable fun _ => rfl) fun _ => ?_
  exact agree_bind_eq (agree_note _ _) fun _ => agree_pure hname

end Declarations

/-! ## Outcomes -/

section Outcomes

variable {L : Likeness}

/-- Whether two results are alike, the first one from a builder at the end: programs of the lines that
the builder holds, rendered for each target, or alike errors. -/
inductive SameResult (L : Likeness) (builder : Ir.Builder) :
    Except Error Program → Except Error Program → Prop where
  | ok {lines : List Ir.Line} {a b : Bytes} (held : builder.finish = .ok lines)
      (name : L.SameText a b) :
    SameResult L builder (.ok ⟨a, lines.map (·.render L.first.pointers)⟩)
      (.ok ⟨b, lines.map (·.render L.second.pointers)⟩)
  | unexpectedEnd :
    SameResult L builder (.error (.broken .unexpectedEnd)) (.error (.broken .unexpectedEnd))
  | malformed {line : Nat} {a b : Bytes} (lexeme : L.SameText a b) :
    SameResult L builder (.error (.broken (.malformed line a))) (.error (.broken (.malformed line b)))
  | unfinished (e : Ir.Error) :
    SameResult L builder (.error (.unfinished e)) (.error (.unfinished e))

theorem finishedText_of_finish {b : Ir.Builder} {lines : List Ir.Line} (h : b.finish = .ok lines) :
    b.finishedText = .ok (lines.map (·.render b.target.pointers)) := by
  rw [Ir.Builder.finishedText, h]
  rfl

theorem finishedText_of_error {b : Ir.Builder} {e : Ir.Error} (h : b.finish = .error e) :
    b.finishedText = .error e := by
  rw [Ir.Builder.finishedText, h]
  rfl

/-- Whether lines can be given does not depend on the target. -/
theorem sameResult_finish {s s' : State} {a b : Bytes} (hs : L.SameState s s')
    (hname : L.SameText a b) : SameResult L s.builder (finish a s) (finish b s') := by
  obtain ⟨hfirst, hsecond⟩ := hs.builder
  have hsame : s'.builder.finish = s.builder.finish := by
    rw [hsecond]
    rfl
  unfold finish
  cases hfinish : s.builder.finish with
  | ok lines =>
    rw [finishedText_of_finish hfinish, finishedText_of_finish (hsame.trans hfinish), hfirst,
      hsecond]
    exact .ok hfinish hname
  | error e =>
    rw [finishedText_of_error hfinish, finishedText_of_error (hsame.trans hfinish)]
    exact .unfinished e

/-- Alike sources have alike outcomes. -/
theorem sameResult_parse {file source source' : Bytes} {table : Table} {builder builder' : Ir.Builder}
    (h : L.SameState (.start file source table builder) (.start file source' table builder')) :
    L.SameState (parse file source table builder).state
        (parse file source' table builder').state ∧
      SameResult L (parse file source table builder).state.builder
        (parse file source table builder).result (parse file source' table builder').result := by
  have hrun := agree_program _ _ h
  unfold parse EStateM.run
  generalize program (.start file source table builder) = run at hrun ⊢
  generalize program (.start file source' table builder') = run' at hrun ⊢
  cases hrun with
  | ok hname hs => exact ⟨hs, sameResult_finish hs hname⟩
  | error hstop hs =>
    refine ⟨?_, ?_⟩
    · cases hstop <;> exact hs
    · cases hstop with
      | reject => exact .unexpectedEnd
      | unexpectedEnd => exact .unexpectedEnd
      | malformed hlexeme => exact .malformed hlexeme

end Outcomes

end Program

end OnePass
