import OnePass.Proofs.Grammar
set_option autoImplicit false

/-!
# The literals of an expression

Which literals fit an expression can be said without an order: literals in index brackets are integers
or truth values, and the others suit the context as a set (`Fitting`).  Productions check literals one
after the other and change the context as they go.  `settle` does so for a whole word; it tells how
many tokens stand in front of the first literal that does not fit.  Both say the same
(`fittingWithin_iff_settle`, `settle_error`).
-/

namespace OnePass.Program

open OnePass.Grammar

/-! ## Literals that fit -/

/-- Whether a literal of a type is text. -/
def isTextual (l : Scalar) : Bool := l = .char || l = .string

/-- Whether a literal suits a variable of a type: it has the type itself, or it is an integer for a
float, or both are integers or truth values. -/
def Suits (kind l : Scalar) : Prop :=
  l = kind ∨ (kind = .float ∧ l = .integer) ∨
    ((kind = .integer ∨ kind = .bool) ∧ (l = .integer ∨ l = .bool))

/-- Whether a context admits the literals that have a property, taken together. -/
def Context.Admits : Context → (Scalar → Prop) → Prop
  | .unchecked, _ => True
  | .expect .procedure, _ => True
  | .expect (.scalar kind), P => ∀ l, P l → Suits kind l
  | .expect _, P => ∀ l, ¬P l
  | .condition fixed, P =>
    (∀ l, P l → l ≠ .float) ∧
    (∀ l, P l → isTextual l = true → ∀ f ∈ fixed, l = f) ∧
    ∀ l l', P l → P l' → isTextual l = true → isTextual l' = true → l = l'

/-- The number of index brackets that are open behind a token. -/
def stepDepth (depth : Nat) : TokenKind → Nat
  | .leftBracket => depth + 1
  | .rightBracket => depth - 1
  | _ => depth

/-- The literals of a word, each with whether it stands in index brackets.  In front of the word
`depth` brackets are open. -/
def literals : Nat → List TokenKind → List (Bool × Scalar)
  | _, [] => []
  | depth, .literal l :: w => (decide (0 < depth), l.scalar) :: literals depth w
  | depth, k :: w => literals (stepDepth depth k) w

/-- Whether the literals of a word fit a context, where `depth` brackets are open in front of it. -/
structure FittingWithin (ctx : Context) (depth : Nat) (w : List TokenKind) : Prop where
  indices : ∀ l, (true, l) ∈ literals depth w → l = .integer ∨ l = .bool
  others : ctx.Admits fun l => (false, l) ∈ literals depth w

/-- Whether the literals of a word fit a context: those in index brackets are integers and truth
values, and the context admits the others. -/
abbrev Fitting (ctx : Context) (w : List TokenKind) : Prop := FittingWithin ctx 0 w

/-! ## Literals one after the other -/

/-- The context behind a token, where `depth` brackets are open; none if it is a literal that does not
fit. -/
def check? (ctx : Context) (depth : Nat) : TokenKind → Option Context
  | .literal l =>
    if 0 < depth then if l.scalar.isCounting then some ctx else none else ctx.accept? l.scalar
  | _ => some ctx

/-- Checks the literals of a word from the left, with `depth` brackets open in front of it.  Gives the
context behind the word, or the number of tokens in front of the first literal that does not fit. -/
def settle (ctx : Context) (depth : Nat) : List TokenKind → Except Nat Context
  | [] => .ok ctx
  | k :: w =>
    match check? ctx depth k with
    | some ctx => (settle ctx (stepDepth depth k) w).mapError (· + 1)
    | none => .error 0

section Settling

variable {ctx ctx₁ : Context} {depth : Nat} {k : TokenKind} {v w : List TokenKind}

theorem settle_cons_of_some (h : check? ctx depth k = some ctx₁) :
    settle ctx depth (k :: w) = (settle ctx₁ (stepDepth depth k) w).mapError (· + 1) := by
  rw [settle, h]

theorem settle_cons_of_none (h : check? ctx depth k = none) :
    settle ctx depth (k :: w) = .error 0 := by
  rw [settle, h]

/-- Settling one word and then another. -/
theorem settle_append :
    settle ctx depth (v ++ w) = (settle ctx depth v).bind fun ctx₁ =>
      (settle ctx₁ (v.foldl stepDepth depth) w).mapError (· + v.length) := by
  induction v generalizing ctx depth with
  | nil =>
    change settle ctx depth w = (settle ctx depth w).mapError (· + 0)
    cases settle ctx depth w <;> rfl
  | cons k v ih =>
    cases hcheck : check? ctx depth k with
    | none =>
      rw [List.cons_append, settle_cons_of_none hcheck, settle_cons_of_none hcheck]
      rfl
    | some ctx₁ =>
      rw [List.cons_append, settle_cons_of_some hcheck, settle_cons_of_some hcheck, ih]
      cases settle ctx₁ (stepDepth depth k) v with
      | error n => rfl
      | ok ctx₂ =>
        change ((settle ctx₂ ((k :: v).foldl stepDepth depth) w).mapError (· + v.length)).mapError
            (· + 1) =
          (settle ctx₂ ((k :: v).foldl stepDepth depth) w).mapError (· + (v.length + 1))
        cases settle ctx₂ ((k :: v).foldl stepDepth depth) w with
        | error n => exact congrArg Except.error (Nat.add_assoc n v.length 1)
        | ok ctx₃ => rfl

end Settling

/-! ## Both say the same -/

section Fitting

variable {ctx ctx₁ : Context} {depth : Nat} {k : TokenKind} {w : List TokenKind} {l : Scalar}
  {P : Scalar → Prop}

theorem isCounting_iff : l.isCounting = true ↔ l = .integer ∨ l = .bool := by
  cases l <;> decide

theorem fits_iff_suits {kind : Scalar} : Context.fits kind l = true ↔ Suits kind l := by
  unfold Context.fits Suits
  rw [Bool.or_eq_true, Bool.or_eq_true, Bool.and_eq_true, Bool.and_eq_true, isCounting_iff,
    isCounting_iff, or_assoc]
  simp only [decide_eq_true_eq]

/-- The first text in a condition decides for all of them. -/
theorem admits_condition_insert_textual (hl : isTextual l = true) (fixed : Option Scalar) :
    (Context.condition fixed).Admits (fun x => x = l ∨ P x) ↔
      (∀ f ∈ fixed, l = f) ∧ (Context.condition (some l)).Admits P := by
  have hfloat : l ≠ .float := by
    rintro rfl
    cases hl
  constructor
  · rintro ⟨hnumber, hfixed, hsame⟩
    refine ⟨hfixed l (.inl rfl) hl, fun x hx => hnumber x (.inr hx), fun x hx htext f hf => ?_,
      fun x y hx hy => hsame x y (.inr hx) (.inr hy)⟩
    cases hf
    exact hsame x l (.inr hx) (.inl rfl) htext hl
  · rintro ⟨hfirst, hnumber, hfixed, hsame⟩
    have heq (x : Scalar) (hx : x = l ∨ P x) (htext : isTextual x = true) : x = l :=
      hx.elim id fun hx => hfixed x hx htext l rfl
    refine ⟨fun x hx => hx.elim (fun hx => hx ▸ hfloat) (hnumber x), fun x hx htext f hf => ?_,
      fun x y hx hy hx' hy' => (heq x hx hx').trans (heq y hy hy').symm⟩
    exact (heq x hx htext).trans (hfirst f hf)

theorem admits_condition_insert_counting (hl : l.isCounting = true) (fixed : Option Scalar) :
    (Context.condition fixed).Admits (fun x => x = l ∨ P x) ↔
      (Context.condition fixed).Admits P := by
  have hplain : l ≠ .float ∧ ¬isTextual l = true := by
    rcases isCounting_iff.mp hl with rfl | rfl
    · decide
    · decide
  constructor
  · rintro ⟨hnumber, hfixed, hsame⟩
    exact ⟨fun x hx => hnumber x (.inr hx), fun x hx => hfixed x (.inr hx),
      fun x y hx hy => hsame x y (.inr hx) (.inr hy)⟩
  · rintro ⟨hnumber, hfixed, hsame⟩
    have hothers {x : Scalar} (hx : x = l ∨ P x) (htext : isTextual x = true) : P x :=
      hx.resolve_left fun hx => hplain.2 (hx ▸ htext)
    exact ⟨fun x hx => hx.elim (fun hx => hx ▸ hplain.1) (hnumber x),
      fun x hx htext => hfixed x (hothers hx htext) htext,
      fun x y hx hy hx' hy' => hsame x y (hothers hx hx') (hothers hy hy') hx' hy'⟩

theorem accept?_condition_textual (hl : isTextual l = true) (fixed : Option Scalar) :
    (Context.condition fixed).accept? l =
      if ∀ f ∈ fixed, l = f then some (.condition (some l)) else none := by
  have hcases : l = .char ∨ l = .string := by simpa [isTextual] using hl
  cases fixed with
  | none => rcases hcases with rfl | rfl <;> simp [Context.accept?]
  | some first =>
    have hfirst : (∀ f ∈ some first, l = f) ↔ first = l := by simp [eq_comm]
    simp only [hfirst]
    by_cases heq : first = l
    · subst heq
      rcases hcases with rfl | rfl <;> rfl
    · rcases hcases with rfl | rfl <;> simp [Context.accept?, heq]

/-- A context admits a literal and others if, behind the literal, it goes on as one that admits the
others. -/
theorem admits_insert_iff :
    ctx.Admits (fun x => x = l ∨ P x) ↔ ∃ ctx₁, ctx.accept? l = some ctx₁ ∧ ctx₁.Admits P := by
  have htext (fixed : Option Scalar) (hl : isTextual l = true) :
      (Context.condition fixed).Admits (fun x => x = l ∨ P x) ↔
        ∃ ctx₁, (Context.condition fixed).accept? l = some ctx₁ ∧ ctx₁.Admits P := by
    rw [admits_condition_insert_textual hl, accept?_condition_textual hl]
    split
    · next hfixed =>
      simp only [Option.some.injEq, exists_eq_left']
      exact and_iff_right hfixed
    · next hfixed => simp only [hfixed, false_and, reduceCtorEq, exists_false]
  cases ctx with
  | unchecked => simp [Context.accept?, Context.Admits]
  | expect kind =>
    cases kind with
    | procedure => simp [Context.accept?, Context.Admits]
    | scalar kind =>
      simp only [Context.accept?, Context.Admits, forall_eq_or_imp, ← fits_iff_suits]
      by_cases hfits : Context.fits kind l = true
      · simp [hfits, fits_iff_suits]
      · simp [hfits]
    | _ =>
      simp only [Context.accept?, Context.Admits, reduceCtorEq, false_and, exists_false, iff_false]
      exact fun h => h l (.inl rfl)
  | condition fixed =>
    cases l with
    | integer =>
      rw [admits_condition_insert_counting rfl]
      simp [Context.accept?]
    | bool =>
      rw [admits_condition_insert_counting rfl]
      simp [Context.accept?]
    | float => simp [Context.accept?, Context.Admits]
    | char => exact htext fixed rfl
    | string => exact htext fixed rfl

theorem admits_none (ctx : Context) : ctx.Admits fun _ => False := by
  unfold Context.Admits
  split <;> simp

/-- A literal and then the rest of a word. -/
theorem fittingWithin_literal_iff {l : Literal} :
    FittingWithin ctx depth (.literal l :: w) ↔
      ∃ ctx₁, check? ctx depth (.literal l) = some ctx₁ ∧ FittingWithin ctx₁ depth w := by
  have hliterals : literals depth (.literal l :: w) =
      (decide (0 < depth), l.scalar) :: literals depth w := by
    rw [literals]
  by_cases hdepth : 0 < depth
  · -- In an index: the literal is no matter of the context.
    rw [check?, if_pos hdepth]
    simp only [decide_eq_true hdepth] at hliterals
    constructor
    · rintro ⟨hindices, hothers⟩
      simp only [hliterals, List.mem_cons, Prod.mk.injEq, true_and, Bool.false_eq_true, false_and,
        false_or] at hindices hothers
      rw [if_pos (isCounting_iff.mpr (hindices _ (.inl rfl)))]
      exact ⟨ctx, rfl, fun l' hl' => hindices l' (.inr hl'), hothers⟩
    · rintro ⟨ctx₁, hcheck, hindices, hothers⟩
      split at hcheck
      · next hcounting =>
        cases hcheck
        constructor
        · simp only [hliterals, List.mem_cons, Prod.mk.injEq, true_and]
          rintro l' (rfl | hl')
          · exact isCounting_iff.mp hcounting
          · exact hindices l' hl'
        · simpa only [hliterals, List.mem_cons, Prod.mk.injEq, Bool.false_eq_true, false_and,
            false_or] using hothers
      · cases hcheck
  · rw [check?, if_neg hdepth]
    simp only [decide_eq_false hdepth] at hliterals
    have hmember (l' : Scalar) : (false, l') ∈ literals depth (.literal l :: w) ↔
        l' = l.scalar ∨ (false, l') ∈ literals depth w := by
      simp [hliterals]
    have hindex (l' : Scalar) : (true, l') ∈ literals depth (.literal l :: w) ↔
        (true, l') ∈ literals depth w := by
      simp [hliterals]
    constructor
    · rintro ⟨hindices, hothers⟩
      simp only [hmember, hindex] at hindices hothers
      obtain ⟨ctx₁, hcheck, hothers⟩ := admits_insert_iff.mp hothers
      exact ⟨ctx₁, hcheck, hindices, hothers⟩
    · rintro ⟨ctx₁, hcheck, hindices, hothers⟩
      constructor
      · simpa only [hindex] using hindices
      · simp only [hmember]
        exact admits_insert_iff.mpr ⟨ctx₁, hcheck, hothers⟩

/-- A token and then the rest of a word. -/
theorem fittingWithin_cons_iff :
    FittingWithin ctx depth (k :: w) ↔
      ∃ ctx₁, check? ctx depth k = some ctx₁ ∧ FittingWithin ctx₁ (stepDepth depth k) w := by
  by_cases hliteral : ∃ l, k = .literal l
  · obtain ⟨l, rfl⟩ := hliteral
    exact fittingWithin_literal_iff
  · have hk (l : Literal) : k ≠ .literal l := fun hl => hliteral ⟨l, hl⟩
    have hliterals : literals depth (k :: w) = literals (stepDepth depth k) w := by
      rw [literals]
      exact hk
    have hcheck : check? ctx depth k = some ctx := by
      rw [check?]
      exact hk
    rw [hcheck]
    constructor
    · rintro ⟨hindices, hothers⟩
      rw [hliterals] at hindices hothers
      exact ⟨ctx, rfl, hindices, hothers⟩
    · rintro ⟨ctx₁, heq, hindices, hothers⟩
      cases heq
      rw [← hliterals] at hindices hothers
      exact ⟨hindices, hothers⟩

/-- The literals of a word fit exactly if settling goes through it. -/
theorem fittingWithin_iff_settle :
    FittingWithin ctx depth w ↔ ∃ ctx₁, settle ctx depth w = .ok ctx₁ := by
  induction w generalizing ctx depth with
  | nil =>
    refine ⟨fun _ => ⟨ctx, rfl⟩, fun _ => ⟨fun _ h => ?_, ?_⟩⟩
    · cases h
    · simpa [literals] using admits_none ctx
  | cons k w ih =>
    rw [fittingWithin_cons_iff]
    cases hcheck : check? ctx depth k with
    | none =>
      rw [settle_cons_of_none hcheck]
      simp
    | some ctx₁ =>
      rw [settle_cons_of_some hcheck]
      simp only [Option.some.injEq, exists_eq_left', ih]
      delta Except.mapError
      cases settle ctx₁ (stepDepth depth k) w <;> simp

instance : Decidable (FittingWithin ctx depth w) :=
  decidable_of_iff ((settle ctx depth w).isOk = true) <| by
    rw [fittingWithin_iff_settle]
    cases settle ctx depth w <;> simp [Except.isOk, Except.toBool]

/-- Where settling stops, the word up to there fits, and no longer with the token there, which is a
literal. -/
theorem settle_error {n : Nat} (h : settle ctx depth w = .error n) :
    ∃ v l u, w = v ++ .literal l :: u ∧ v.length = n ∧ FittingWithin ctx depth v ∧
      ¬FittingWithin ctx depth (v ++ [.literal l]) := by
  induction w generalizing ctx depth n with
  | nil => cases h
  | cons k w ih =>
    cases hcheck : check? ctx depth k with
    | none =>
      rw [settle_cons_of_none hcheck] at h
      cases h
      obtain ⟨l, rfl⟩ : ∃ l, k = .literal l := by
        unfold check? at hcheck
        split at hcheck
        · next l => exact ⟨l, rfl⟩
        · cases hcheck
      refine ⟨[], l, w, rfl, rfl, fittingWithin_iff_settle.mpr ⟨ctx, rfl⟩, ?_⟩
      rw [List.nil_append, fittingWithin_cons_iff, hcheck]
      simp
    | some ctx₁ =>
      rw [settle_cons_of_some hcheck] at h
      cases hrest : settle ctx₁ (stepDepth depth k) w with
      | ok ctx₂ =>
        rw [hrest] at h
        cases h
      | error m =>
        rw [hrest] at h
        cases h
        obtain ⟨v, l, u, rfl, rfl, hfits, hnot⟩ := ih hrest
        refine ⟨k :: v, l, u, rfl, rfl, ?_, ?_⟩
        · exact fittingWithin_cons_iff.mpr ⟨ctx₁, hcheck, hfits⟩
        · rw [List.cons_append, fittingWithin_cons_iff, hcheck]
          simpa using hnot

end Fitting

/-! ## Words of expressions -/

section Words

variable {level : Level} {ctx ctx₁ : Context} {depth : Nat} {v w : List TokenKind}

/-- Every bracket of an expression is closed in it. -/
theorem foldl_stepDepth_of_expression (h : Expression level w) (depth : Nat) :
    w.foldl stepDepth depth = depth := by
  induction h generalizing depth with
  | literal l => rfl
  | negative _ ih => exact ih depth
  | parens _ ih =>
    rw [List.foldl_cons, List.foldl_append, ih]
    rfl
  | name => rfl
  | element _ ih =>
    rw [List.foldl_cons, List.foldl_cons, List.foldl_append, ih]
    rfl
  | negation _ ih => exact ih depth
  | operand _ _ ih => exact ih depth
  | joined _ _ _ ihv ihw =>
    rw [List.foldl_append, List.foldl_cons, ihv]
    exact ihw depth

theorem settle_expression_append (h : Expression level v) :
    settle ctx depth (v ++ w) = (settle ctx depth v).bind fun ctx₁ =>
      (settle ctx₁ depth w).mapError (· + v.length) := by
  rw [settle_append, foldl_stepDepth_of_expression h]

/-- A word between two tokens of which the second one is no literal. -/
theorem settle_enclosed (h : Expression level w) {k : TokenKind}
    (hk : ∀ ctx : Context, check? ctx depth k = some ctx) :
    settle ctx depth (w ++ [k]) = settle ctx depth w := by
  rw [settle_expression_append h]
  cases settle ctx depth w with
  | error n => rfl
  | ok ctx₁ =>
    change (settle ctx₁ depth [k]).mapError (· + w.length) = .ok ctx₁
    rw [settle_cons_of_some (hk ctx₁)]
    rfl

theorem settle_negative :
    settle ctx depth (.op .minus :: w) = (settle ctx depth w).mapError (· + 1) :=
  settle_cons_of_some rfl

theorem settle_negation :
    settle ctx depth (.kwNot :: w) = (settle ctx depth w).mapError (· + 1) :=
  settle_cons_of_some rfl

theorem settle_parens (h : Expression level w) :
    settle ctx depth (.leftParen :: (w ++ [.rightParen])) =
      (settle ctx depth w).mapError (· + 1) := by
  rw [settle_cons_of_some rfl]
  change (settle ctx depth (w ++ [.rightParen])).mapError (· + 1) = _
  rw [settle_enclosed h fun _ => rfl]

theorem settle_element (h : Expression level w) :
    settle ctx depth (.identifier :: .leftBracket :: (w ++ [.rightBracket])) =
      (settle ctx (depth + 1) w).mapError (· + 2) := by
  rw [settle_cons_of_some rfl, settle_cons_of_some rfl]
  change ((settle ctx (depth + 1) (w ++ [.rightBracket])).mapError (· + 1)).mapError (· + 1) = _
  rw [settle_enclosed h fun _ => rfl]
  cases settle ctx (depth + 1) w <;> rfl

theorem settle_joined (h : Expression level v) {o : Operator} :
    settle ctx depth (v ++ .op o :: w) = (settle ctx depth v).bind fun ctx₁ =>
      (settle ctx₁ depth w).mapError (· + (v.length + 1)) := by
  rw [settle_expression_append h]
  cases settle ctx depth v with
  | error n => rfl
  | ok ctx₁ =>
    change (settle ctx₁ depth (.op o :: w)).mapError (· + v.length) =
      (settle ctx₁ depth w).mapError (· + (v.length + 1))
    rw [settle_cons_of_some rfl]
    change ((settle ctx₁ depth w).mapError (· + 1)).mapError (· + v.length) = _
    cases settle ctx₁ depth w with
    | error n => exact congrArg Except.error (by dsimp only; omega)
    | ok ctx₂ => rfl

/-- In the context of an index the context stays. -/
theorem settle_index_eq (h : settle .index depth w = .ok ctx) : ctx = .index := by
  induction w generalizing depth with
  | nil =>
    cases h
    rfl
  | cons k w ih =>
    have hcheck : check? .index depth k = some .index ∨ check? .index depth k = none := by
      unfold check?
      split
      · next l =>
        generalize l.scalar = type
        by_cases hdepth : 0 < depth
        · rw [if_pos hdepth]
          cases type <;> simp [Scalar.isCounting]
        · rw [if_neg hdepth]
          cases type <;> simp [Context.index, Context.accept?, Context.fits, Scalar.isCounting]
      · exact .inl rfl
    rcases hcheck with hcheck | hcheck
    · rw [settle_cons_of_some hcheck] at h
      cases hrest : settle .index (stepDepth depth k) w with
      | ok ctx₁ =>
        rw [hrest] at h
        cases h
        exact ih hrest
      | error n =>
        rw [hrest] at h
        cases h
    · rw [settle_cons_of_none hcheck] at h
      cases h

/-- The literals of an expression in index brackets are checked in the context of an index, and leave
the context around alone. -/
theorem settle_inside (h : Expression level w) (ctx : Context) (depth : Nat) :
    settle ctx (depth + 1) w = (settle .index 0 w).map fun _ => ctx := by
  have hmap (r : Except Nat Context) (ctx : Context) (n : Nat) :
      (r.map fun _ => ctx).mapError (· + n) = (r.mapError (· + n)).map fun _ => ctx := by
    cases r <;> rfl
  induction h generalizing ctx depth with
  | literal l => cases l <;> rfl
  | negative _ ih => rw [settle_negative, settle_negative, ih, hmap]
  | parens hw ih => rw [settle_parens hw, settle_parens hw, ih, hmap]
  | name => rfl
  | element hw ih =>
    rw [settle_element hw, settle_element hw, ih, ih, hmap, hmap]
    cases settle .index 0 _ <;> rfl
  | negation _ ih => rw [settle_negation, settle_negation, ih, hmap]
  | operand _ _ ih => exact ih ctx depth
  | joined _ hv _ ihv ihw =>
    rw [settle_joined hv, settle_joined hv, ihv]
    cases hfirst : settle .index 0 _ with
    | error n => rfl
    | ok ctx₁ =>
      cases settle_index_eq hfirst
      change (settle ctx (depth + 1) _).mapError _ = ((settle .index 0 _).mapError _).map _
      rw [ihw, hmap]

end Words

end OnePass.Program
