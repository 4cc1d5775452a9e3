import OnePass.Proofs.Grammar
import OnePass.Proofs.Lexical
set_option autoImplicit false

/-!
# Program trees

A program as a tree of its declarations; of statements only the words are kept, since they declare
and emit nothing.  The texts in a tree are those that tokens can have, by construction.  `slots`
lists the tokens of a tree, with the texts that matter.  Every program of the grammar is the token
sequence of a tree (`Tree.exists_of_program`).
-/

namespace OnePass

namespace Tree

/-! ## Parts of a tree -/

/-- A name as it is written, with its line. -/
structure Name where
  literal : Bytes
  line : Nat
  isName : Lexeme.IsName literal

/-- A bound of an array. -/
structure Bound where
  negative : Bool
  digits : Bytes
  isDigits : Lexeme.IsDigits digits

/-- What stands behind a declared name: nothing, the upper bound of an array, or both bounds. -/
inductive Extent where
  | single
  | upTo (upper : Bound)
  | between (lower upper : Bound)

/-- The declaration of a variable. -/
structure Variable where
  global : Bool
  type : Scalar
  name : Name
  extent : Extent

/-- A parameter of a procedure. -/
structure Formal where
  type : Scalar
  name : Name
  extent : Extent
  direction : Direction

/-- The declaration of a procedure up to its body. -/
structure Heading where
  global : Bool
  name : Name
  formals : List Formal
  /-- whether the word that may end the heading is there -/
  hasIs : Bool

/-- Statements, each with a semicolon behind it. -/
structure Statements where
  count : Nat
  word : List TokenKind
  isPhrase : Grammar.Phrase (.many count) word

/-- Declarations, each with a semicolon behind it. -/
inductive Declarations where
  | nil
  | variableDecl (v : Variable) (rest : Declarations)
  | procedureDecl (h : Heading) (inner : Declarations) (body : Statements) (rest : Declarations)

end Tree

/-- A program. -/
structure Tree where
  name : Tree.Name
  declarations : Tree.Declarations
  statements : Tree.Statements

namespace Tree

/-! ## The tokens of a tree -/

/-- What a tree says of one token. -/
inductive Slot where
  | kind (k : TokenKind)
  | name (n : Name)
  | digits (s : Bytes)

/-- Whether a token is as a tree says. -/
def Slot.Fits : Slot → Token → Prop
  | .kind k, t => t.kind = k
  | .name n, t => t.kind = .identifier ∧ t.literal = n.literal ∧ t.line = n.line
  | .digits s, t => t.kind = .literal .integer ∧ t.literal = s

instance : (s : Slot) → (t : Token) → Decidable (s.Fits t)
  | .kind k, t => inferInstanceAs (Decidable (t.kind = k))
  | .name _, _ => inferInstanceAs (Decidable (_ ∧ _ ∧ _))
  | .digits _, _ => inferInstanceAs (Decidable (_ ∧ _))

/-- A word that stands or is left out. -/
def optional (present : Bool) (k : TokenKind) : List Slot := if present then [.kind k] else []

/-- The tokens of a bound. -/
def Bound.slots (b : Bound) : List Slot := optional b.negative (.op .minus) ++ [.digits b.digits]

/-- The tokens of what stands behind a declared name. -/
def Extent.slots : Extent → List Slot
  | .single => []
  | .upTo upper => .kind .leftBracket :: (upper.slots ++ [.kind .rightBracket])
  | .between lower upper =>
    .kind .leftBracket :: (lower.slots ++ .kind .colon :: (upper.slots ++ [.kind .rightBracket]))

/-- The tokens of a variable's declaration. -/
def Variable.slots (v : Variable) : List Slot :=
  optional v.global .kwGlobal ++ .kind (.typeMark v.type) :: .name v.name :: v.extent.slots

/-- The tokens of a parameter. -/
def Formal.slots (f : Formal) : List Slot :=
  .kind (.typeMark f.type) :: .name f.name :: (f.extent.slots ++ [.kind (.direction f.direction)])

/-- The tokens of parameters, with commas between them. -/
def formalSlots : List Formal → List Slot
  | [] => []
  | [f] => f.slots
  | f :: g :: rest => f.slots ++ .kind .comma :: formalSlots (g :: rest)

/-- The tokens of a procedure's declaration up to its body. -/
def Heading.slots (h : Heading) : List Slot :=
  optional h.global .kwGlobal ++ .kind .kwProcedure :: .name h.name :: .kind .leftParen ::
    (formalSlots h.formals ++ .kind .rightParen :: optional h.hasIs .kwIs)

/-- The tokens of statements. -/
def Statements.slots (b : Statements) : List Slot := b.word.map .kind

/-- The tokens of the end of a body, with the statements in it. -/
def Statements.closing (b : Statements) (terminator : TokenKind) : List Slot :=
  .kind .kwBegin :: (b.slots ++ [.kind .kwEnd, .kind terminator])

/-- The tokens of declarations. -/
def Declarations.slots : Declarations → List Slot
  | .nil => []
  | .variableDecl v rest => v.slots ++ .kind .semicolon :: rest.slots
  | .procedureDecl h inner body rest =>
    h.slots ++ inner.slots ++ body.closing .kwProcedure ++ .kind .semicolon :: rest.slots

/-- The tokens of a program. -/
def slots (t : Tree) : List Slot :=
  .kind .kwProgram :: .name t.name :: .kind .kwIs ::
    (t.declarations.slots ++ t.statements.closing .kwProgram ++ [.kind .period])

/-- Whether tokens begin with the tokens of a part of a tree, and `rest` is what follows them. -/
abbrev Shows : List Slot → List Token → List Token → Prop := Grammar.Fills Slot.Fits

theorem shows_kinds {w : List TokenKind} {ts rest : List Token} :
    Shows (w.map .kind) ts rest ↔ Grammar.Spells w ts rest := by
  induction w generalizing ts with
  | nil => rfl
  | cons k w ih => simp [ih, Slot.Fits]

/-! ## Trees of derivations -/

section Derivations

open Grammar

variable {ts rest : List Token}

theorem exists_name {t : Token} (ht : t.Lexed) (hkind : t.kind = .identifier) :
    ∃ n : Name, (Slot.name n).Fits t :=
  ⟨⟨t.literal, t.line, ht.name hkind⟩, hkind, rfl, rfl⟩

theorem exists_optional {k : TokenKind} {w : List TokenKind} (hw : Optional k w)
    (hs : Spells w ts rest) : ∃ b, Shows (optional b k) ts rest := by
  cases hw with
  | none => exact ⟨false, hs⟩
  | some => exact ⟨true, hs⟩

theorem exists_bound {w : List TokenKind} (hw : Grammar.Bound w) (hs : Spells w ts rest)
    (hts : ∀ t ∈ ts, t.Lexed) : ∃ b : Bound, Shows b.slots ts rest := by
  cases hw with
  | plain =>
    obtain ⟨t, _, rfl, ht, rfl⟩ := hs
    have hdigits := (hts t (by simp)).digits ht
    exact ⟨⟨false, t.literal, hdigits⟩, t, _, rfl, ⟨ht, rfl⟩, rfl⟩
  | negative =>
    obtain ⟨m, _, rfl, hm, t, _, rfl, ht, rfl⟩ := hs
    have hdigits := (hts t (by simp)).digits ht
    exact ⟨⟨true, t.literal, hdigits⟩, m, _, rfl, hm, t, _, rfl, ⟨ht, rfl⟩, rfl⟩

/-- What is left behind a word comes from the same tokens. -/
theorem lexed_of_spells {w : List TokenKind} (hs : Spells w ts rest)
    (hts : ∀ t ∈ ts, t.Lexed) : ∀ t ∈ rest, t.Lexed := by
  obtain ⟨us, rfl, -⟩ := spells_iff.mp hs
  exact fun t ht => hts t (List.mem_append_right us ht)

theorem exists_extent {w : List TokenKind} (hw : Grammar.Bounds w) (hs : Spells w ts rest)
    (hts : ∀ t ∈ ts, t.Lexed) : ∃ e : Extent, Shows e.slots ts rest := by
  cases hw with
  | none => exact ⟨.single, hs⟩
  | upper hb =>
    simp only [fills_cons, fills_append, fills_nil] at hs
    obtain ⟨o, _, rfl, ho, _, hs, c, _, rfl, hc, rfl⟩ := hs
    obtain ⟨b, hb⟩ := exists_bound hb hs (List.forall_mem_cons.mp hts).2
    refine ⟨.upTo b, o, _, rfl, ho, ?_⟩
    exact fills_append.mpr ⟨_, hb, c, _, rfl, hc, rfl⟩
  | both hl hu =>
    simp only [fills_cons, fills_append, fills_nil] at hs
    obtain ⟨o, _, rfl, ho, _, hl', m, _, rfl, hm, _, hu', c, _, rfl, hc, rfl⟩ := hs
    obtain ⟨-, hmore⟩ := List.forall_mem_cons.mp hts
    obtain ⟨l, hl⟩ := exists_bound hl hl' hmore
    obtain ⟨-, hmore'⟩ := List.forall_mem_cons.mp (lexed_of_spells hl' hmore)
    obtain ⟨u, hu⟩ := exists_bound hu hu' hmore'
    refine ⟨.between l u, o, _, rfl, ho, ?_⟩
    refine fills_append.mpr ⟨_, hl, m, _, rfl, hm, ?_⟩
    exact fills_append.mpr ⟨_, hu, c, _, rfl, hc, rfl⟩

/-- A parameter in front of `rest`. -/
theorem exists_formal {type : Scalar} {direction : Direction} {w : List TokenKind}
    (hw : Grammar.Bounds w)
    (hs : Spells (.typeMark type :: .identifier :: (w ++ [.direction direction])) ts rest)
    (hts : ∀ t ∈ ts, t.Lexed) : ∃ f : Formal, Shows f.slots ts rest := by
  simp only [fills_cons, fills_append, fills_nil] at hs
  obtain ⟨x, _, rfl, hx, n, _, rfl, hn, _, hs, d, _, rfl, hd, rfl⟩ := hs
  simp only [List.forall_mem_cons] at hts
  obtain ⟨-, hlexed, hmore⟩ := hts
  obtain ⟨name, hname⟩ := exists_name hlexed hn
  obtain ⟨e, he⟩ := exists_extent hw hs hmore
  refine ⟨⟨type, name, e, direction⟩, x, _, rfl, hx, n, _, rfl, hname, ?_⟩
  exact fills_append.mpr ⟨_, he, d, _, rfl, hd, rfl⟩

theorem exists_formals {w : List TokenKind} (hw : Grammar.Parameters w) (hs : Spells w ts rest)
    (hts : ∀ t ∈ ts, t.Lexed) : ∃ f fs, Shows (formalSlots (f :: fs)) ts rest := by
  induction hw generalizing ts with
  | one type direction hb =>
    obtain ⟨f, hf⟩ := exists_formal hb hs hts
    exact ⟨f, [], hf⟩
  | @more type direction v w hb _ ih =>
    have hsplit : .typeMark type :: .identifier :: (v ++ .direction direction :: .comma :: w) =
        (.typeMark type :: .identifier :: (v ++ [.direction direction])) ++ .comma :: w := by simp
    rw [hsplit] at hs
    obtain ⟨_, hfirst, c, _, rfl, hc, hothers⟩ := fills_append.mp hs
    obtain ⟨f, hf⟩ := exists_formal hb hfirst hts
    obtain ⟨-, hmore⟩ := List.forall_mem_cons.mp (lexed_of_spells hfirst hts)
    obtain ⟨g, gs, hgs⟩ := ih hothers hmore
    exact ⟨f, g :: gs, fills_append.mpr ⟨_, hf, c, _, rfl, hc, hgs⟩⟩

theorem exists_header {w : List TokenKind} (hw : Grammar.Header w) (hs : Spells w ts rest)
    (hts : ∀ t ∈ ts, t.Lexed) :
    ∃ fs, Shows (.kind .leftParen :: (formalSlots fs ++ [.kind .rightParen])) ts rest := by
  cases hw with
  | empty => exact ⟨[], hs⟩
  | parameters hp =>
    simp only [fills_cons, fills_append, fills_nil] at hs
    obtain ⟨o, _, rfl, ho, _, hs, c, _, rfl, hc, rfl⟩ := hs
    obtain ⟨f, fs, hfs⟩ := exists_formals hp hs (List.forall_mem_cons.mp hts).2
    exact ⟨f :: fs, o, _, rfl, ho, fills_append.mpr ⟨_, hfs, c, _, rfl, hc, rfl⟩⟩

theorem exists_heading {g h i : List TokenKind} (hg : Optional .kwGlobal g) (hh : Grammar.Header h)
    (hi : Optional .kwIs i) (hs : Spells (g ++ .kwProcedure :: .identifier :: (h ++ i)) ts rest)
    (hts : ∀ t ∈ ts, t.Lexed) : ∃ h : Heading, Shows h.slots ts rest := by
  simp only [fills_append, fills_cons] at hs
  obtain ⟨_, hglobal, x, _, rfl, hx, n, _, rfl, hn, _, hheader, his⟩ := hs
  have hmore := lexed_of_spells hglobal hts
  simp only [List.forall_mem_cons] at hmore
  obtain ⟨-, hlexed, hmore⟩ := hmore
  obtain ⟨g, hg⟩ := exists_optional hg hglobal
  obtain ⟨name, hname⟩ := exists_name hlexed hn
  obtain ⟨fs, hfs⟩ := exists_header hh hheader hmore
  obtain ⟨i, hi⟩ := exists_optional hi his
  refine ⟨⟨g, name, fs, i⟩, fills_append.mpr ⟨_, hg, x, _, rfl, hx, n, _, rfl, hname, ?_⟩⟩
  have hslots := fills_append.mpr ⟨_, hfs, hi⟩
  simpa using hslots

/-- What there is for the words of a category. -/
def Exists : Parts → List TokenKind → Prop
  | .declaration, w => ∀ ts rest : List Token, (∀ t ∈ ts, t.Lexed) → Spells w ts rest →
      (∃ v : Variable, Shows v.slots ts rest) ∨
      ∃ (h : Heading) (inner : Declarations) (body : Statements),
        Shows (h.slots ++ (inner.slots ++ body.closing .kwProcedure)) ts rest
  | .declarations, w => ∀ ts rest : List Token, (∀ t ∈ ts, t.Lexed) → Spells w ts rest →
      ∃ ds : Declarations, Shows ds.slots ts rest
  | .body terminator, w => ∀ ts rest : List Token, (∀ t ∈ ts, t.Lexed) → Spells w ts rest →
      ∃ (ds : Declarations) (body : Statements),
        Shows (ds.slots ++ body.closing terminator) ts rest

theorem exists_of_part {c : Parts} {w : List TokenKind} (hw : Part c w) : Exists c w := by
  induction hw with
  | variableDecl type hg hb =>
    intro ts rest hts hs
    simp only [fills_append, fills_cons] at hs
    obtain ⟨_, hglobal, x, _, rfl, hx, n, _, rfl, hn, hs⟩ := hs
    have hmore := lexed_of_spells hglobal hts
    simp only [List.forall_mem_cons] at hmore
    obtain ⟨-, hlexed, hmore⟩ := hmore
    obtain ⟨g, hg⟩ := exists_optional hg hglobal
    obtain ⟨name, hname⟩ := exists_name hlexed hn
    obtain ⟨e, he⟩ := exists_extent hb hs hmore
    refine .inl ⟨⟨g, type, name, e⟩, ?_⟩
    exact fills_append.mpr ⟨_, hg, x, _, rfl, hx, n, _, rfl, hname, he⟩
  | @procedureDecl g h i w hg hh hi _ ih =>
    intro ts rest hts hs
    have hsplit : g ++ .kwProcedure :: .identifier :: (h ++ i ++ w) =
        (g ++ .kwProcedure :: .identifier :: (h ++ i)) ++ w := by simp
    rw [hsplit] at hs
    obtain ⟨_, hs, hbody⟩ := fills_append.mp hs
    obtain ⟨heading, hheading⟩ := exists_heading hg hh hi hs hts
    obtain ⟨inner, body, hinner⟩ := ih _ _ (lexed_of_spells hs hts) hbody
    exact .inr ⟨heading, inner, body, fills_append.mpr ⟨_, hheading, hinner⟩⟩
  | nil =>
    intro ts rest _ hs
    exact ⟨.nil, hs⟩
  | cons _ _ ihv ihw =>
    intro ts rest hts hs
    simp only [fills_append, fills_cons] at hs
    obtain ⟨_, hfirst, t, _, rfl, ht, hothers⟩ := hs
    obtain ⟨-, hmore⟩ := List.forall_mem_cons.mp (lexed_of_spells hfirst hts)
    obtain ⟨ds, hds⟩ := ihw _ _ hmore hothers
    rcases ihv _ _ hts hfirst with ⟨v, hv⟩ | ⟨h, inner, body, hprocedure⟩
    · exact ⟨.variableDecl v ds, fills_append.mpr ⟨_, hv, t, _, rfl, ht, hds⟩⟩
    · refine ⟨.procedureDecl h inner body ds, ?_⟩
      rw [← List.append_assoc] at hprocedure
      exact fills_append.mpr ⟨_, hprocedure, t, _, rfl, ht, hds⟩
  | @body n terminator v w _ hphrase ih =>
    intro ts rest hts hs
    simp only [fills_append, fills_cons, fills_nil] at hs
    obtain ⟨_, hdeclarations, b, _, rfl, hb, _, hstatements, e, _, rfl, he, x, _, rfl, hx, rfl⟩ := hs
    obtain ⟨ds, hds⟩ := ih _ _ hts hdeclarations
    refine ⟨ds, ⟨n, w, hphrase⟩, fills_append.mpr ⟨_, hds, b, _, rfl, hb, ?_⟩⟩
    exact fills_append.mpr ⟨_, shows_kinds.mpr hstatements, e, _, rfl, he, x, _, rfl, hx, rfl⟩

/-- Tokens that spell a program of the grammar are the tokens of a tree. -/
theorem exists_of_program (hts : ∀ t ∈ ts, t.Lexed)
    (h : Grammar.Program (ts.map Token.kind)) : ∃ tree : Tree, Shows tree.slots ts [] := by
  have hs : Spells (ts.map Token.kind) ts [] := spells_iff.mpr ⟨ts, by simp, rfl⟩
  generalize ts.map Token.kind = w at h hs
  cases h with
  | mk hbody =>
    simp only [fills_cons, fills_append, fills_nil] at hs
    obtain ⟨p, _, rfl, hp, n, _, rfl, hn, i, _, rfl, hi, _, hs, d, _, rfl, hd, rfl⟩ := hs
    simp only [List.forall_mem_cons] at hts
    obtain ⟨-, hlexed, -, hmore⟩ := hts
    obtain ⟨name, hname⟩ := exists_name hlexed hn
    obtain ⟨ds, body, hds⟩ := exists_of_part hbody _ _ hmore hs
    refine ⟨⟨name, ds, body⟩, p, _, rfl, hp, n, _, rfl, hname, i, _, rfl, hi, ?_⟩
    exact fills_append.mpr ⟨_, hds, d, _, rfl, hd, rfl⟩

end Derivations

end Tree

end OnePass
