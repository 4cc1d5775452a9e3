import OnePass.Proofs.Elaboration.Program
set_option autoImplicit false

/-!
# Programs of the grammar are recognised

A source whose tokens are a program of the grammar is recognised from scratch, with the code that
its tree elaborates to (`parse_tree`).  Nothing that is wrong with its names, types, arguments or
bounds breaks its structure (`parse_ok_of_grammar`).  The code depends on the declarations only, and
so it is the same with other statements in the bodies, if they are taken (`parse_laidOut`).
-/

namespace OnePass.Program

open OnePass.Grammar OnePass.Tree

/-- The lines of code that has no function left to return to. -/
def emitted (b : Ir.Builder) : List Ir.Line :=
  b.globals ++ [Ir.Line.blank] ++ b.finished.flatMap (fun f => f.lines ++ [Ir.Line.blank])
    ++ b.current.lines ++ [Ir.Line.blank, .returnZero, .close]

theorem finishedText_of_parked {b : Ir.Builder} (h : b.parked = []) :
    b.finishedText = .ok ((emitted b).map (Ir.Line.render b.target.pointers)) := by
  have hfinish : b.finish = .ok (emitted b) := by simp [Ir.Builder.finish, h, emitted]
  rw [Ir.Builder.finishedText, hfinish]
  rfl

/-- Recognising the tokens of a program gives the code that its declarations elaborate to. -/
theorem parse_laidOut {faulty : Bool} {tree : Tree} (file source : Bytes) (target : Target)
    (h : LaidOut faulty tree (TokenStream.ofSource source).tokens []) :
    (parse file source .empty (.new target)).result = .ok ⟨tree.name.literal,
      (emitted (tree.elaborate (.new target)).builder).map (Ir.Line.render target.pointers)⟩ ∧
    (faulty = true → (parse file source .empty (.new target)).state.diagnostics ≠ []) := by
  obtain ⟨hparked, htarget⟩ := elaborate_frame tree.name.lower tree.name.lower tree.declarations
    ⟨tree.start, (Ir.Builder.new target).openProgram⟩
  have hprogram := program_hasEffect (s := .start file source .empty (.new target)) h
  obtain ⟨_, s, ⟨rfl, heffect, hreported⟩, hparse⟩ := hprogram.parse_eq
  have hbuilder : s.builder = (tree.elaborate (.new target)).builder :=
    heffect.builder.trans (congrArg Env.builder (effect_empty tree _))
  have hempty : s.builder.parked = [] := by rw [hbuilder]; exact hparked
  have hpointers : s.builder.target = target := by rw [hbuilder]; exact htarget
  rw [hparse, finish, finishedText_of_parked hempty, hpointers, hbuilder]
  exact ⟨rfl, hreported⟩

theorem parse_tree (tree : Tree) (file source : Bytes) (target : Target)
    (h : Shows tree.slots (TokenStream.ofSource source).tokens []) :
    (parse file source .empty (.new target)).result = .ok ⟨tree.name.literal,
      (emitted (tree.elaborate (.new target)).builder).map (Ir.Line.render target.pointers)⟩ :=
  (parse_laidOut file source target (laidOut_of_shows tree h)).1

/-- Every program of the grammar is recognised. -/
theorem parse_ok_of_grammar (file source : Bytes) (target : Target)
    (h : Grammar.Program ((TokenStream.ofSource source).tokens.map Token.kind)) :
    ∃ p, (parse file source .empty (.new target)).result = .ok p := by
  have hlexed : ∀ t ∈ (TokenStream.ofSource source).tokens, t.Lexed :=
    fun t ht => TokenStream.lexed_of_mem ht
  obtain ⟨tree, htree⟩ := Tree.exists_of_program hlexed h
  exact ⟨_, parse_tree tree file source target htree⟩

/-- A program with bounds the wrong way round, a name declared twice, a text for an integer, too many
arguments, a call of a variable and an assignment to a procedure, the last three in nested
statements. -/
def faultySource : Bytes :=
  text "program p is integer x[-3:-5]; integer y; integer Y;
    procedure q(integer a in) begin a := \"s\"; end procedure;
    begin for (y := 1; y < 2) if (true) then q(1, 2); y(); q := 3; end if; end for; end program."

theorem faultySource_grammar :
    Grammar.Program ((TokenStream.ofSource faultySource).tokens.map Token.kind) := by
  have hinteger : Grammar.Expression .logical [.literal .integer] := .ofFactor (.literal _)
  have htruth : Grammar.Expression .logical [.literal (.truth true)] := .ofFactor (.literal _)
  have hless := Grammar.Expression.ofRelation (o := .less) rfl .name (.literal .integer)
  have habsent (k : TokenKind) : Optional k [] := .none
  have hx := Part.variableDecl .integer (habsent _) (.both .negative .negative)
  have hy := Part.variableDecl .integer (habsent _) .none
  -- the procedure, with its one statement
  have hassign := Phrase.assignment (.mk .none (.ofFactor (.literal .string)))
  have hprocedure := Part.procedureDecl (habsent _) (.parameters (.one .integer .input .none))
    (habsent _) (.body .nil (.cons hassign .nil))
  -- the statements of the program, from the inside out
  have hcall := Phrase.call (.arguments (.more hinteger (.one hinteger)))
  have hassign' := Phrase.assignment (.mk .none hinteger)
  have hif := Phrase.ifThen htruth (.cons hcall (.cons (.call .empty) (.cons hassign' .nil)))
  have hfor := Phrase.forLoop (.mk .none hinteger) hless (.cons hif .nil)
  have hprogram := Grammar.Program.mk
    (.body (.cons hx (.cons hy (.cons hy (.cons hprocedure .nil)))) (.cons hfor .nil))
  refine (congrArg Grammar.Program ?_).mpr hprogram
  decide +kernel

/-- The faults are reported, and the program is recognised. -/
theorem faultySource_recognised :
    Grammar.Program ((TokenStream.ofSource faultySource).tokens.map Token.kind) ∧
      (parse [] faultySource .empty (.new .standard)).state.diagnostics.length = 6 ∧
      ∃ p, (parse [] faultySource .empty (.new .standard)).result = .ok p :=
  ⟨faultySource_grammar, by decide +kernel,
    parse_ok_of_grammar [] faultySource .standard faultySource_grammar⟩

end OnePass.Program
