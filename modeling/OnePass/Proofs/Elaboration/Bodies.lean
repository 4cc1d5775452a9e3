import OnePass.Proofs.Scoping.History
set_option autoImplicit false

/-!
# Statements declare and emit nothing

Recognising statements changes neither the symbol table nor the code, however it ends
(`untouched_statements`).  So what a program of the grammar leaves is decided by its declarations, over any
table and any code (`program_hasEffect`): the effect of a tree is that of the tree without its statements
(`Tree.effect_bare`), and two programs with the same declarations leave the same.  Names in a tree have their
lines; every program of the grammar has a tree (`Tree.exists_of_program`).
-/

namespace OnePass

namespace Tree

/-! ## Programs without their statements -/

/-- No statements. -/
def Statements.empty : Statements := ⟨0, [], .nil⟩

/-- Declarations without the statements in them. -/
def Declarations.bare : Declarations → Declarations
  | .nil => .nil
  | .variableDecl v rest => .variableDecl v rest.bare
  | .procedureDecl h inner _ rest => .procedureDecl h inner.bare .empty rest.bare

/-- A program without the statements in it. -/
def bare (t : Tree) : Tree := ⟨t.name, t.declarations.bare, .empty⟩

theorem Declarations.elaborate_bare (root scope : ScopeKey) (ds : Declarations) (e : Env) :
    ds.bare.elaborate root scope e = ds.elaborate root scope e := by
  induction ds generalizing scope e with
  | nil => rfl
  | variableDecl v ds ih => exact ih scope _
  | procedureDecl h inner body ds ihInner ihRest =>
    rw [bare, elaborate, elaborate, ihInner, ihRest]

theorem effect_bare (tree : Tree) (t : Table) (b : Ir.Builder) : tree.bare.effect t b = tree.effect t b :=
  Declarations.elaborate_bare _ _ tree.declarations _

theorem name_bare (tree : Tree) : tree.bare.name = tree.name := rfl

theorem opening_bare (tree : Tree) (t : Table) : tree.bare.opening t = tree.opening t := rfl

end Tree

namespace Program

open OnePass.Grammar OnePass.Tree

/-! ## Statements -/

/-- Whether a production leaves the symbol table and the code as they are, however it ends. -/
def Untouched {α : Type} (p : Parser α) : Prop :=
  ∀ s, Ends p s (fun _ s' => s'.table = s.table ∧ s'.builder = s.builder)
    (fun _ s' => s'.table = s.table ∧ s'.builder = s.builder)

theorem untouched_of_keeps {α : Type} {p : Parser α} (h : Keeps Reads p) : Untouched p := by
  intro s
  exact (h s).mono (fun _ _ h => ⟨h.table, h.builder⟩) (fun _ _ h => ⟨h.table, h.builder⟩)

theorem untouched_statements : Untouched statements := untouched_of_keeps (Reads.frame.keeps made_statements)

/-! ## Whole programs -/

/-- A program of the grammar is recognised over any table and any code, with the effect of its tree. -/
theorem parse_hasEffect (tree : Tree) (file source : Bytes) (t : Table) (b : Ir.Builder)
    (h : Shows tree.slots (TokenStream.ofSource source).tokens []) :
    (parse file source t b).result = finish tree.name.literal (parse file source t b).state ∧
      HasEffect tree t b (parse file source t b).state := by
  have hprogram := program_hasEffect (s := .start file source t b) (laidOut_of_shows tree h)
  obtain ⟨_, s, ⟨rfl, heffect, -⟩, hparse⟩ := hprogram.parse_eq
  rw [hparse]
  exact ⟨rfl, heffect⟩

/-- Trees with the same declarations have the same effect. -/
theorem HasEffect.of_bare {tree tree' : Tree} {t : Table} {b : Ir.Builder} {s s' : State}
    (hbare : tree.bare = tree'.bare) (h : HasEffect tree t b s) (h' : HasEffect tree' t b s') :
    s.table = s'.table ∧ s.builder = s'.builder := by
  have heffect : tree.effect t b = tree'.effect t b := by
    rw [← effect_bare tree, hbare, effect_bare tree']
  have hopening : tree.opening t = tree'.opening t := by
    rw [← opening_bare tree, hbare, opening_bare tree']
  constructor
  · rw [h.table, h'.table, heffect, hopening]
  · rw [h.builder, h'.builder, heffect]

/-- The code of a program can be finished if no function was left to return to before. -/
theorem HasEffect.finish_isOk {tree : Tree} {t : Table} {b : Ir.Builder} {s : State}
    (h : HasEffect tree t b s) (hparked : b.parked = []) (name : Bytes) : ∃ p, finish name s = .ok p := by
  have hframe := (elaborate_frame (tree.opening t).global (tree.opening t).scope tree.declarations
    ⟨(tree.opening t).bindings, b.openProgram⟩).1
  have hempty : s.builder.parked = [] := by
    rw [h.builder]
    exact hframe.trans hparked
  rw [finish, finishedText_of_parked hempty]
  exact ⟨_, rfl⟩

/-- Statements touch neither declarations nor output.  No production of statements, of the arguments and
expressions in them or of their recovery changes the symbol table or the code, however it ends; and two programs
of the grammar that differ in their statements only are recognised with the same code and the same symbols. -/
theorem statements_invisible :
    (Untouched statements ∧ (∀ depth, Untouched (statementsWithin depth)) ∧
      (∀ depth, Untouched (terminated (statementsWithin depth)) ∧
        Untouched (statement (statementsWithin depth))) ∧
      (∀ expected, Untouched (callArguments expected) ∧ Untouched (argument expected)) ∧
      (∀ ctx, Untouched (expression ctx)) ∧ ∀ mark depth, Untouched (recover mark depth)) ∧
    ∀ (tree tree' : Tree) (file file' source source' : Bytes) (t : Table) (b : Ir.Builder),
      Shows tree.slots (TokenStream.ofSource source).tokens [] →
      Shows tree'.slots (TokenStream.ofSource source').tokens [] → tree.bare = tree'.bare →
      (parse file source t b).result = (parse file' source' t b).result ∧
      (parse file source t b).state.table = (parse file' source' t b).state.table ∧
      (parse file source t b).state.builder = (parse file' source' t b).state.builder ∧
      (b.parked = [] → ∃ p, (parse file source t b).result = .ok p) := by
  refine ⟨⟨untouched_statements, ?_, ?_, ?_, ?_, ?_⟩, ?_⟩
  · intro depth
    exact untouched_of_keeps (Reads.frame.keeps (made_statementsWithin depth))
  · intro depth
    have hinner := Reads.frame.keeps (made_statementsWithin depth)
    exact ⟨untouched_of_keeps (Reads.frame.keeps (made_terminated (.given hinner))),
      untouched_of_keeps (Reads.frame.keeps (made_statement (.given hinner)))⟩
  · intro expected
    exact ⟨untouched_of_keeps (Reads.frame.keeps (made_callArguments expected)),
      untouched_of_keeps (Reads.frame.keeps (made_argument expected))⟩
  · intro ctx
    exact untouched_of_keeps (Reads.frame.keeps (made_expression ctx))
  · intro mark depth
    exact untouched_of_keeps (leads_recover Reads.frame.course mark depth)
  · intro tree tree' file file' source source' t b h h' hbare
    obtain ⟨hresult, heffect⟩ := parse_hasEffect tree file source t b h
    obtain ⟨hresult', heffect'⟩ := parse_hasEffect tree' file' source' t b h'
    obtain ⟨htable, hbuilder⟩ := heffect.of_bare hbare heffect'
    have hname : tree.name = tree'.name := by
      rw [← name_bare tree, hbare, name_bare tree']
    refine ⟨?_, htable, hbuilder, fun hparked => ?_⟩
    · rw [hresult, hresult', hname, finish, finish, hbuilder]
    · rw [hresult]
      exact heffect.finish_isOk hparked _

/-- A program with one name declared twice, and statements in its procedure and its own body. -/
def twofoldTree (inner own : Statements) : Tree where
  name := ⟨text "W", 1, by decide⟩
  declarations :=
    .variableDecl ⟨false, .integer, ⟨text "k", 1, by decide⟩, .single⟩ <|
    .procedureDecl ⟨true, ⟨text "n", 2, by decide⟩, [⟨.float, ⟨text "t", 2, by decide⟩, .single, .input⟩], false⟩
      .nil inner <|
    .variableDecl ⟨false, .bool, ⟨text "K", 3, by decide⟩, .single⟩ .nil
  statements := own

/-- The program with statements that are all right. -/
def soundSource : Bytes :=
  text "program W is integer k;
    global procedure n(float t in) begin k := t; end procedure;
    bool K; begin n(1.5); end program."

/-- The program with statements that assign to the procedure, and call it without its argument. -/
def unsoundSource : Bytes :=
  text "program W is integer k;
    global procedure n(float t in) begin end procedure;
    bool K; begin if (n) then n := 'q';
      n(); end if; end program."

def soundInner : Statements := ⟨1, _, .cons (.assignment (.mk .none (.ofFactor .name))) .nil⟩

def soundOwn : Statements := ⟨1, _, .cons (.call (.arguments (.one (.ofFactor (.literal .float))))) .nil⟩

def unsoundOwn : Statements :=
  ⟨1, _, .cons (.ifThen (.ofFactor .name)
    (.cons (.assignment (.mk .none (.ofFactor (.literal .char)))) (.cons (.call .empty) .nil))) .nil⟩

theorem twofoldTree_sources :
    Shows (twofoldTree soundInner soundOwn).slots (TokenStream.ofSource soundSource).tokens [] ∧
    Shows (twofoldTree .empty unsoundOwn).slots (TokenStream.ofSource unsoundSource).tokens [] ∧
    (twofoldTree soundInner soundOwn).bare = (twofoldTree .empty unsoundOwn).bare ∧
    (parse [] soundSource .empty (.new .standard)).state.diagnostics.length = 1 ∧
    (parse [] unsoundSource .empty (.new .standard)).state.diagnostics.length = 3 ∧
    (parse [] soundSource .empty (.new .standard)).result =
      (parse [] unsoundSource .empty (.new .standard)).result ∧
    (parse [] soundSource .empty (.new .standard)).state.table =
      (parse [] unsoundSource .empty (.new .standard)).state.table ∧
    ∃ p, (parse [] soundSource .empty (.new .standard)).result = .ok p := by
  have hsound : Shows (twofoldTree soundInner soundOwn).slots (TokenStream.ofSource soundSource).tokens [] := by
    decide +kernel
  have hunsound : Shows (twofoldTree .empty unsoundOwn).slots (TokenStream.ofSource unsoundSource).tokens [] := by
    decide +kernel
  obtain ⟨hresult, htable, -, hok⟩ := statements_invisible.2 _ _ [] [] soundSource unsoundSource .empty
    (.new .standard) hsound hunsound rfl
  exact ⟨hsound, hunsound, rfl, by decide +kernel, by decide +kernel, hresult, htable, hok rfl⟩

end Program

end OnePass
