import OnePass.Program.Expression
set_option autoImplicit false

/-!
# The grammar

The words of the language as relations on lists of token kinds, one rule a constructor.  Nothing
here speaks of how words are recognised.

* An expression of a level is made of operands of the next tighter level; the operators of one level
  associate to the right.
* Statements are `Phrase`s, and each of several statements has a semicolon behind it.
* Declarations are `Part`s: a body is declarations and statements, and a procedure has a body.
-/

namespace OnePass.Grammar

open OnePass.Program (Level levelOf)

/-! ## Expressions -/

/-- The level of the operands that are joined at a level. -/
def tighter : Level → Level
  | .logical => .additive
  | .additive => .relational
  | .relational => .multiplicative
  | .multiplicative => .factor
  | .factor => .factor

/-- The expressions of a level. -/
inductive Expression : Level → List TokenKind → Prop
  | literal (l : Literal) : Expression .factor [.literal l]
  | negative {w : List TokenKind} : Expression .factor w → Expression .factor (.op .minus :: w)
  | parens {w : List TokenKind} :
      Expression .logical w → Expression .factor (.leftParen :: (w ++ [.rightParen]))
  | name : Expression .factor [.identifier]
  | element {w : List TokenKind} : Expression .logical w →
      Expression .factor (.identifier :: .leftBracket :: (w ++ [.rightBracket]))
  | negation {w : List TokenKind} : Expression .additive w → Expression .logical (.kwNot :: w)
  | operand {level : Level} {w : List TokenKind} :
      level ≠ .factor → Expression (tighter level) w → Expression level w
  | joined {level : Level} {o : Operator} {v w : List TokenKind} : levelOf o = level →
      Expression (tighter level) v → Expression level w → Expression level (v ++ .op o :: w)

/-- A factor alone is an expression. -/
theorem Expression.ofFactor {w : List TokenKind} (h : Expression .factor w) :
    Expression .logical w := by
  have hterm : Expression .multiplicative w := .operand (by decide) h
  have hrelation : Expression .relational w := .operand (by decide) hterm
  have hsum : Expression .additive w := .operand (by decide) hrelation
  exact .operand (by decide) hsum

/-- Two factors with a sign of comparison between them are an expression. -/
theorem Expression.ofRelation {o : Operator} {v w : List TokenKind} (ho : levelOf o = .relational)
    (hv : Expression .factor v) (hw : Expression .factor w) : Expression .logical (v ++ .op o :: w) := by
  have hterm : Expression .multiplicative v := .operand (by decide) hv
  have hrelation : Expression .relational w := .operand (by decide) (.operand (by decide) hw)
  exact .operand (by decide) (.operand (by decide) (.joined ho hterm hrelation))

/-! ## Statements -/

/-- What may stand between a name and the sign of an assignment to it: an index in brackets, or
nothing. -/
inductive Index : List TokenKind → Prop
  | none : Index []
  | some {w : List TokenKind} :
      Expression .logical w → Index (.leftBracket :: (w ++ [.rightBracket]))

/-- An assignment. -/
inductive Assignment : List TokenKind → Prop
  | mk {v w : List TokenKind} :
      Index v → Expression .logical w → Assignment (.identifier :: (v ++ .assign :: w))

/-- Expressions with commas between them. -/
inductive Arguments : List TokenKind → Prop
  | one {w : List TokenKind} : Expression .logical w → Arguments w
  | more {v w : List TokenKind} :
      Expression .logical v → Arguments w → Arguments (v ++ .comma :: w)

/-- The arguments of a call in parentheses. -/
inductive Call : List TokenKind → Prop
  | empty : Call [.leftParen, .rightParen]
  | arguments {w : List TokenKind} : Arguments w → Call (.leftParen :: (w ++ [.rightParen]))

/-- The categories of statements. -/
inductive Phrases where
  /-- one statement -/
  | one
  /-- a number of statements, each with a semicolon behind it -/
  | many (count : Nat)
  deriving DecidableEq, Repr, Inhabited

/-- Statements. -/
inductive Phrase : Phrases → List TokenKind → Prop
  | returns : Phrase .one [.kwReturn]
  | builtin (b : Builtin) {w : List TokenKind} : Call w → Phrase .one (.builtin b :: w)
  | call {w : List TokenKind} : Call w → Phrase .one (.identifier :: w)
  | assignment {w : List TokenKind} : Assignment w → Phrase .one w
  | ifThen {n : Nat} {c w : List TokenKind} : Expression .logical c → Phrase (.many (n + 1)) w →
      Phrase .one (.kwIf :: .leftParen ::
        (c ++ .rightParen :: .kwThen :: (w ++ [.kwEnd, .kwIf])))
  | ifElse {m n : Nat} {c v w : List TokenKind} : Expression .logical c →
      Phrase (.many (m + 1)) v → Phrase (.many (n + 1)) w →
      Phrase .one (.kwIf :: .leftParen ::
        (c ++ .rightParen :: .kwThen :: (v ++ .kwElse :: (w ++ [.kwEnd, .kwIf]))))
  | forLoop {n : Nat} {a c w : List TokenKind} : Assignment a → Expression .logical c →
      Phrase (.many n) w →
      Phrase .one (.kwFor :: .leftParen ::
        (a ++ .semicolon :: (c ++ .rightParen :: (w ++ [.kwEnd, .kwFor]))))
  | nil : Phrase (.many 0) []
  | cons {n : Nat} {v w : List TokenKind} : Phrase .one v → Phrase (.many n) w →
      Phrase (.many (n + 1)) (v ++ .semicolon :: w)

/-! ## Declarations -/

/-- A bound of an array. -/
inductive Bound : List TokenKind → Prop
  | plain : Bound [.literal .integer]
  | negative : Bound [.op .minus, .literal .integer]

/-- The bounds behind a declared name: none, an upper one, or a lower and an upper one. -/
inductive Bounds : List TokenKind → Prop
  | none : Bounds []
  | upper {w : List TokenKind} : Bound w → Bounds (.leftBracket :: (w ++ [.rightBracket]))
  | both {v w : List TokenKind} : Bound v → Bound w →
      Bounds (.leftBracket :: (v ++ .colon :: (w ++ [.rightBracket])))

/-- Parameters with commas between them. -/
inductive Parameters : List TokenKind → Prop
  | one (s : Scalar) (d : Direction) {w : List TokenKind} :
      Bounds w → Parameters (.typeMark s :: .identifier :: (w ++ [.direction d]))
  | more (s : Scalar) (d : Direction) {v w : List TokenKind} : Bounds v → Parameters w →
      Parameters (.typeMark s :: .identifier :: (v ++ .direction d :: .comma :: w))

/-- The parameters of a procedure in parentheses. -/
inductive Header : List TokenKind → Prop
  | empty : Header [.leftParen, .rightParen]
  | parameters {w : List TokenKind} : Parameters w → Header (.leftParen :: (w ++ [.rightParen]))

/-- A word that may be left out. -/
inductive Optional (kind : TokenKind) : List TokenKind → Prop
  | none : Optional kind []
  | some : Optional kind [kind]

/-- The categories of declarations. -/
inductive Parts where
  /-- one declaration -/
  | declaration
  /-- declarations, each with a semicolon behind it -/
  | declarations
  /-- declarations and statements, and the word that ends them -/
  | body (terminator : TokenKind)
  deriving DecidableEq, Repr, Inhabited

/-- Declarations and bodies. -/
inductive Part : Parts → List TokenKind → Prop
  | variableDecl (s : Scalar) {g w : List TokenKind} : Optional .kwGlobal g → Bounds w →
      Part .declaration (g ++ .typeMark s :: .identifier :: w)
  | procedureDecl {g h i w : List TokenKind} : Optional .kwGlobal g → Header h → Optional .kwIs i →
      Part (.body .kwProcedure) w →
      Part .declaration (g ++ .kwProcedure :: .identifier :: (h ++ i ++ w))
  | nil : Part .declarations []
  | cons {v w : List TokenKind} : Part .declaration v → Part .declarations w →
      Part .declarations (v ++ .semicolon :: w)
  | body {n : Nat} {terminator : TokenKind} {v w : List TokenKind} : Part .declarations v →
      Phrase (.many n) w → Part (.body terminator) (v ++ .kwBegin :: (w ++ [.kwEnd, terminator]))

/-- Programs. -/
inductive Program : List TokenKind → Prop
  | mk {w : List TokenKind} : Part (.body .kwProgram) w →
      Program (.kwProgram :: .identifier :: .kwIs :: (w ++ [.period]))

/-! ## Tokens that spell a word -/

/-- Whether tokens begin with one token for each place of a pattern, each of which fits its place,
and `rest` is what follows them. -/
def Fills {σ : Type} (fits : σ → Token → Prop) : List σ → List Token → List Token → Prop
  | [], ts, rest => ts = rest
  | p :: ps, ts, rest => ∃ t more, ts = t :: more ∧ fits p t ∧ Fills fits ps more rest

/-- Whether tokens begin with tokens of the kinds of a word, and `rest` is what follows them. -/
abbrev Spells : List TokenKind → List Token → List Token → Prop := Fills fun k t => t.kind = k

section Fills

variable {σ : Type} {fits : σ → Token → Prop} {p : σ} {ps qs : List σ} {ts rest : List Token}

@[simp] theorem fills_nil : Fills fits [] ts rest ↔ ts = rest := Iff.rfl

@[simp] theorem fills_cons :
    Fills fits (p :: ps) ts rest ↔
      ∃ t more, ts = t :: more ∧ fits p t ∧ Fills fits ps more rest := Iff.rfl

@[simp] theorem fills_append :
    Fills fits (ps ++ qs) ts rest ↔ ∃ middle, Fills fits ps ts middle ∧ Fills fits qs middle rest := by
  induction ps generalizing ts with
  | nil => simp
  | cons p ps ih =>
    simp only [List.cons_append, fills_cons, ih]
    constructor
    · rintro ⟨t, more, rfl, hp, middle, hps, hqs⟩
      exact ⟨middle, ⟨t, more, rfl, hp, hps⟩, hqs⟩
    · rintro ⟨middle, ⟨t, more, rfl, hp, hps⟩, hqs⟩
      exact ⟨t, more, rfl, hp, middle, hps, hqs⟩

theorem Fills.length (h : Fills fits ps ts rest) : ts.length = ps.length + rest.length := by
  induction ps generalizing ts with
  | nil => simp [fills_nil.mp h]
  | cons p ps ih =>
    obtain ⟨t, more, rfl, -, hps⟩ := h
    simp only [List.length_cons, ih hps]
    omega

theorem fills_cons_cons {t : Token} :
    Fills fits (p :: ps) (t :: ts) rest ↔ fits p t ∧ Fills fits ps ts rest := by
  constructor
  · rintro ⟨u, us, hcons, h⟩
    cases hcons
    exact h
  · intro h
    exact ⟨t, ts, rfl, h⟩

instance decidableFills [(p : σ) → (t : Token) → Decidable (fits p t)] :
    (ps : List σ) → (ts rest : List Token) → Decidable (Fills fits ps ts rest)
  | [], ts, rest => inferInstanceAs (Decidable (ts = rest))
  | p :: ps, [], rest => isFalse (by simp)
  | p :: ps, t :: ts, rest =>
    have := decidableFills ps ts rest
    decidable_of_iff _ fills_cons_cons.symm

end Fills

theorem spells_iff {w : List TokenKind} {ts rest : List Token} :
    Spells w ts rest ↔ ∃ us, ts = us ++ rest ∧ us.map Token.kind = w := by
  induction w generalizing ts with
  | nil => simp
  | cons k w ih =>
    simp only [fills_cons, ih, List.map_eq_cons_iff]
    constructor
    · rintro ⟨t, more, rfl, hk, us, rfl, hw⟩
      exact ⟨t :: us, rfl, t, us, rfl, hk, hw⟩
    · rintro ⟨_, rfl, t, us, rfl, hk, hw⟩
      exact ⟨t, us ++ rest, rfl, hk, us, rfl, hw⟩

end OnePass.Grammar
