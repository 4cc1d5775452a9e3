import OnePass.Proofs.Acceptance.Statement
import OnePass.Proofs.Elaboration.Basic
import OnePass.Proofs.ScopeKey
set_option autoImplicit false

/-!
# Recognising one declaration

Each production, run on the tokens of its part of a tree, gives the data of that part, or has the
effect that elaborating the part has (`variableDeclaration_declares`,
`procedureDeclaration_declares`).  A declaration that is rejected has none of its effects, and stops
on its last token.
-/

namespace OnePass.Program

open OnePass.Grammar OnePass.Tree

/-! ## Bounds and parameters -/

section Bounds

variable {s : State} {more rest : List Token}

theorem bound_reads {b : Tree.Bound} (hlast : OnLast more s) (hs : Shows b.slots more rest) :
    Ends bound s (fun written s' => written = b.text ∧ OnLast rest s') (fun _ _ => False) := by
  obtain ⟨negative, digits, _⟩ := b
  obtain ⟨u, hu, hs'⟩ := hlast
  cases negative with
  | false =>
    obtain ⟨t, _, rfl, ⟨ht, rfl⟩, rfl⟩ := hs
    have hplain : Plain t.kind := by rw [ht]; decide
    simp only [bound, ends_bind, ends_peekIs, Cursor.peek_of_ahead hs', ht, reduceCtorEq,
      decide_false, Bool.false_eq_true, if_false, ends_peek]
    exact ⟨rfl, t, hplain, by simp [hs']⟩
  | true =>
    obtain ⟨m, _, rfl, hm, t, _, rfl, ⟨ht, rfl⟩, rfl⟩ := hs
    have hplain : Plain t.kind := by rw [ht]; decide
    have hpeek : s.cursor.next.peek = t := by simp [Cursor.peek, hs']
    simp only [Slot.Fits] at hm
    simp only [bound, ends_bind, ends_peekIs, Cursor.peek_of_ahead hs', hm]
    simp only [decide_true, if_true, ends_bind, ends_advance, ends_peek, hpeek, ht]
    exact ⟨rfl, t, hplain, by simp [hs']⟩

theorem bounds_reads {e : Extent} {b : Bounds} (hb : e.bounds? = some b) {t : Token}
    (hs : Shows e.slots (t :: more) rest) (hlast : s.cursor.ahead = t :: more) :
    Ends bounds s (fun written s' => written = b ∧ OnLast rest s') (fun _ _ => False) := by
  cases e with
  | single => simp [Extent.bounds?] at hb
  | upTo upper =>
    obtain rfl : ⟨text "0", upper.text⟩ = b := by simpa [Extent.bounds?] using hb
    simp only [Extent.slots, fills_cons, fills_append, fills_nil, Slot.Fits] at hs
    obtain ⟨_, _, heq, ho, _, hupper, c, _, rfl, hc, rfl⟩ := hs
    obtain ⟨rfl, rfl⟩ := List.cons.inj heq
    have hopen : OnLast more s := ⟨t, by rw [ho]; decide, hlast⟩
    unfold bounds
    rw [ends_bind]
    refine Ends.mono (bound_reads hopen hupper) ?_ (fun _ _ h => h)
    rintro _ s' ⟨rfl, hlast'⟩
    have hplain : Plain c.kind := by rw [hc]; decide
    simp only [ends_bind, ends_peekIs, hlast'.peek, hc, decide_true, ends_ite, if_true,
      ends_advance]
    exact ⟨rfl, hlast'.next hplain⟩
  | between lower upper =>
    obtain rfl : ⟨lower.text, upper.text⟩ = b := by simpa [Extent.bounds?] using hb
    simp only [Extent.slots, fills_cons, fills_append, fills_nil, Slot.Fits] at hs
    obtain ⟨_, _, heq, ho, _, hlower, m, _, rfl, hm, _, hupper, c, _, rfl, hc, rfl⟩ := hs
    obtain ⟨rfl, rfl⟩ := List.cons.inj heq
    have hopen : OnLast more s := ⟨t, by rw [ho]; decide, hlast⟩
    unfold bounds
    rw [ends_bind]
    refine Ends.mono (bound_reads hopen hlower) ?_ (fun _ _ h => h)
    rintro _ s₁ ⟨rfl, hlast₁⟩
    have hcolon : Plain m.kind := by rw [hm]; decide
    simp only [ends_bind, ends_peekIs, hlast₁.peek, hm, reduceCtorEq, decide_false, ends_ite,
      Bool.false_eq_true, if_false, ends_expectPeek, if_true]
    refine Ends.mono (bound_reads (hlast₁.next hcolon) hupper) ?_ (fun _ _ h => h)
    rintro _ s₂ ⟨rfl, hlast₂⟩
    have hclose : Plain c.kind := by rw [hc]; decide
    simp only [hlast₂.peek, hc, if_true]
    exact ⟨rfl, hlast₂.next hclose⟩

/-- Bounds behind a name, in front of a token that opens none. -/
theorem optionalBounds_reads {e : Extent} {t : Token} (hlast : OnLast more s)
    (hs : Shows e.slots more (t :: rest)) (ht : t.kind ≠ .leftBracket) :
    Ends optionalBounds s (fun b? s' => b? = e.bounds? ∧ OnLast (t :: rest) s')
      (fun _ _ => False) := by
  unfold optionalBounds
  rw [ends_bind, ends_peekIs]
  cases hb : e.bounds? with
  | none =>
    cases e with
    | single =>
      obtain rfl := hs
      simp only [hlast.peek, ht, decide_false, Bool.false_eq_true, if_false]
      exact ⟨rfl, hlast⟩
    | upTo _ => simp [Extent.bounds?] at hb
    | between _ _ => simp [Extent.bounds?] at hb
  | some b =>
    obtain ⟨o, more', rfl, ho⟩ : ∃ o more', more = o :: more' ∧ o.kind = .leftBracket := by
      cases e with
      | single => simp [Extent.bounds?] at hb
      | upTo _ => obtain ⟨o, more', rfl, ho, -⟩ := hs; exact ⟨o, more', rfl, ho⟩
      | between _ _ => obtain ⟨o, more', rfl, ho, -⟩ := hs; exact ⟨o, more', rfl, ho⟩
    obtain ⟨u, -, hs'⟩ := id hlast
    simp only [hlast.peek, ho, decide_true, if_true, ends_bind, ends_advance]
    refine Ends.mono (bounds_reads hb hs (by simp [hs'])) ?_ (fun _ _ h => h)
    rintro _ s' ⟨rfl, hlast'⟩
    exact ⟨rfl, hlast'⟩

end Bounds

section Parameters

variable {s : State} {more rest : List Token}

theorem parameter_reads {f : Tree.Formal} (hs : Shows f.slots s.cursor.ahead rest) :
    Ends parameter s (fun p s' => p = f.parameter ∧ OnLast rest s') (fun _ _ => False) := by
  simp only [Tree.Formal.slots, fills_cons, fills_append, fills_nil, Slot.Fits] at hs
  obtain ⟨t, _, hs, ht, n, more, rfl, ⟨hn, hliteral, -⟩, _, hextent, d, rest, rfl, hd, rfl⟩ := hs
  have hplain : Plain n.kind := by rw [hn]; decide
  have hlast : OnLast more { s with cursor := s.cursor.next } := ⟨n, hplain, by simp [hs]⟩
  have hcurrent : s.cursor.next.current = n := by simp [Cursor.current, hs]
  simp only [parameter, ends_bind, ends_current, Cursor.current_of_ahead hs, ht, ends_expectPeek,
    Cursor.peek_of_ahead hs, hn, if_true, hcurrent, hliteral]
  refine Ends.mono (optionalBounds_reads hlast hextent (by simp [hd])) ?_ (fun _ _ h => h)
  rintro _ s' ⟨rfl, hlast'⟩
  obtain ⟨u, -, hs'⟩ := id hlast'
  have hdirection : s'.cursor.next.current = d := by simp [Cursor.current, hs']
  have hplain' : Plain d.kind := by simp [Plain, hd]
  simp only [ends_advance, hdirection, hd]
  exact ⟨rfl, hlast'.next hplain'⟩

/-- Parameters behind the current token. -/
theorem parametersWithin_reads (fs : List Tree.Formal) {f : Tree.Formal} {count : Nat} {t : Token}
    (hcount : (formalSlots (f :: fs)).length ≤ count) (hlast : OnLast more s)
    (hs : Shows (formalSlots (f :: fs)) more (t :: rest)) (ht : t.kind = .rightParen) :
    Ends (parametersWithin count) s
      (fun ps s' => ps = (f :: fs).map Tree.Formal.parameter ∧ OnLast (t :: rest) s')
      (fun _ _ => False) := by
  obtain ⟨u, -, hs'⟩ := id hlast
  induction fs generalizing f count s more u with
  | nil =>
    cases count with
    | zero => simp [formalSlots, Tree.Formal.slots] at hcount
    | succ count =>
      simp only [parametersWithin, ends_bind, ends_advance]
      refine Ends.mono (parameter_reads (f := f) (by simpa [hs', formalSlots] using hs)) ?_
        (fun _ _ h => h)
      rintro _ s₁ ⟨rfl, hlast₁⟩
      simp only [ends_peekIs, hlast₁.peek, ht, reduceCtorEq, decide_false, Bool.false_eq_true,
        ends_ite, if_false]
      exact ⟨rfl, hlast₁⟩
  | cons g gs ih =>
    simp only [formalSlots, fills_append, fills_cons, Slot.Fits] at hs
    obtain ⟨_, hfirst, c, more', rfl, hc, hothers⟩ := hs
    simp only [formalSlots, List.length_append, List.length_cons] at hcount
    cases count with
    | zero => omega
    | succ count =>
      simp only [parametersWithin, ends_bind, ends_advance]
      refine Ends.mono (parameter_reads (f := f) (by simpa [hs'] using hfirst)) ?_ (fun _ _ h => h)
      rintro _ s₁ ⟨rfl, hlast₁⟩
      have hcomma : Plain c.kind := by rw [hc]; decide
      simp only [ends_peekIs, hlast₁.peek, hc, decide_true, ends_ite, if_true, ends_bind,
        ends_advance]
      have hnext := hlast₁.next hcomma
      obtain ⟨v, -, hv⟩ := id hnext
      refine Ends.mono (ih (by omega) hnext hothers v hv) ?_ (fun _ _ h => h)
      rintro _ s₂ ⟨rfl, hlast₂⟩
      exact ⟨rfl, hlast₂⟩

/-- The parameters of a procedure in parentheses, behind the current token. -/
theorem parameters_reads {fs : List Tree.Formal} (hlast : OnLast more s)
    (hs : Shows (.kind .leftParen :: (formalSlots fs ++ [.kind .rightParen])) more rest) :
    Ends parameters s (fun ps s' => ps = fs.map Tree.Formal.parameter ∧ OnLast rest s')
      (fun _ _ => False) := by
  simp only [fills_cons, fills_append, fills_nil, Slot.Fits] at hs
  obtain ⟨o, more, rfl, ho, _, hformals, c, rest, rfl, hc, rfl⟩ := hs
  have hopen : Plain o.kind := by rw [ho]; decide
  have hclose : Plain c.kind := by rw [hc]; decide
  have hlast' := hlast.next hopen
  simp only [parameters, ends_bind, ends_expectPeek, hlast.peek, ho, if_true, ends_peekIs]
  cases fs with
  | nil =>
    obtain rfl := hformals
    simp only [hlast'.peek, hc, decide_true, if_true, ends_bind, ends_pure, ends_expectPeek]
    exact ⟨rfl, hlast'.next hclose⟩
  | cons f fs =>
    obtain ⟨x, more', rfl, hx⟩ : ∃ x more', more = x :: more' ∧ x.kind = .typeMark f.type := by
      cases fs with
      | nil => obtain ⟨x, more', rfl, hx, -⟩ := hformals; exact ⟨x, more', rfl, hx⟩
      | cons _ _ => obtain ⟨x, more', rfl, hx, -⟩ := hformals; exact ⟨x, more', rfl, hx⟩
    have hlength := hformals.length
    obtain ⟨u, -, hs'⟩ := id hlast'
    simp only [hlast'.peek, hx, reduceCtorEq, decide_false, Bool.false_eq_true, if_false,
      ends_bind, ends_remaining]
    refine Ends.mono (parametersWithin_reads fs ?_ hlast' hformals hc) ?_ (fun _ _ h => h)
    · have hremaining := congrArg List.length hs'
      simp only [Cursor.remaining, List.length_cons] at hlength hremaining ⊢
      omega
    · rintro _ s₁ ⟨rfl, hlast₁⟩
      simp only [ends_expectPeek, hlast₁.peek, hc, if_true]
      exact ⟨rfl, hlast₁.next hclose⟩

end Parameters

/-! ## Variables -/

/-- What declarations have worked on so far. -/
def State.env (s : State) : Env := ⟨s.table.bindings, s.builder⟩

/-- What is asked of the tokens that are left and of the diagnostics where a declaration ends. -/
abbrev Goal : Type := Cursor → List Diagnostic → Prop

/-- The last token before `rest` is reached, with a diagnostic if there was a fault. -/
def before (faulty : Bool) (rest : List Token) : Goal := fun cursor diagnostics =>
  (∃ t, Plain t.kind ∧ cursor.ahead = t :: rest) ∧ (faulty = true → diagnostics ≠ [])

theorem OnLast.before {rest : List Token} {s : State} (h : OnLast rest s) (ds : List Diagnostic) :
    before false rest s.cursor ds := by
  refine ⟨h, fun hfaulty => ?_⟩
  cases hfaulty

/-- What a declaration leaves: the scopes of `s`, nothing staged, and the bindings and the code of
`e`. -/
structure Declared (s : State) (e : Env) (goal : Goal) (s' : State) : Prop where
  table : s'.table = { s.table with bindings := e.bindings, staged := none }
  builder : s'.builder = e.builder
  reached : goal s'.cursor s'.diagnostics

/-- A production declares and emits what `e` says and ends where the goal is met, whether it
succeeds or is rejected. -/
def Declares (p : Parser Unit) (s : State) (e : Env) (goal : Goal) : Prop :=
  Ends p s (fun _ s' => Declared s e goal s')
    (fun stop s' => stop = .reject ∧ Declared s e goal s')

section Variables

variable {s : State} {more rest : List Token} {goal : Goal}

theorem variableTail_declares (v : Variable) (name : Token) {t : Token} (hlast : OnLast more s)
    (hs : Shows v.extent.slots more (t :: rest)) (ht : t.kind = .semicolon) :
    Declares (variableTail { kind := .scalar v.type, line := v.name.line, global := v.global } name)
      s (v.elaborate s.table.scope s.env) (before false (t :: rest)) := by
  have hbounds := (optionalBounds_reads hlast hs (by simp [ht])).and
    (Reads.frame.keeps made_optionalBounds s)
  unfold Declares variableTail
  rw [ends_bind, ends_get, ends_bind, ends_orDiscard]
  refine Ends.mono hbounds ?_ (fun _ _ h => h.1.elim)
  rintro _ s₁ ⟨⟨rfl, hlast₁⟩, hreads⟩
  have htable := hreads.table
  have hbuilder := hreads.builder
  -- the symbol is complete from here on
  have hsymbol : ({
      kind := .scalar v.type
      line := v.name.line
      global := v.global
      bounds := v.extent.bounds? } : Symbol) = v.symbol := rfl
  simp only [variableEnd, ends_bind, ends_modifyTable, ends_get, hsymbol, Table.irName, Table.stage,
    htable]
  unfold Variable.elaborate
  cases hline : Ir.declaration s.table.scope.irName v.symbol with
  | error _ =>
    dsimp only
    split
    · exact ⟨rfl, rfl, hbuilder, hlast₁.before _⟩
    · exact ⟨rfl, rfl, hbuilder, hlast₁.before _⟩
  | ok line =>
    simp only [ends_bind]
    rw [ends_commit name rfl]
    by_cases hbound : s.table.scope ∈ s.table.bindings
    · simp only [hbound, if_true, State.env, ends_pure, Bool.false_eq_true, if_false]
      exact ⟨rfl, hbuilder, hlast₁.before _⟩
    · simp only [hbound, if_false, State.env, if_true, ends_bind, ends_emitStorage, ends_note]
      refine ⟨rfl, ?_, hlast₁.before _⟩
      simp only [hbuilder]

/-- The state inside the scope of a name. -/
def State.inside (s : State) (n : Tree.Name) : State :=
  { s with table := { s.table with scope := s.table.scope.child n.lower } }

/-- A production inside the scope of a name, when a scope is open already. -/
theorem inScope_declares {p : Parser Unit} {e : Env} {n : Tree.Name} (hroot : s.table.global ≠ [])
    (hscope : s.table.scope ≠ []) (h : Declares p (s.inside n) e goal) :
    Declares (inScope n.literal p) s e goal := by
  have henter : { s with table := s.table.enter n.literal } = s.inside n := by
    simp [State.inside, Table.enter, hroot, hscope, Tree.Name.lower]
  have hexit {s' : State} (hs' : Declared (s.inside n) e goal s') :
      Declared s e goal { s' with table := s'.table.exit } := by
    obtain ⟨htable, hbuilder, hreached⟩ := hs'
    refine ⟨?_, hbuilder, hreached⟩
    have hparent := ScopeKey.parent_child s.table.scope n.isName.period_notMem_lower
    simp [htable, State.inside, Table.exit, Tree.Name.lower, hparent]
  unfold Declares
  rw [ends_inScope, henter]
  exact Ends.mono h (fun _ _ h => hexit h) (fun _ _ h => ⟨h.1, hexit h.2⟩)

/-- The state in the scope that a declaration belongs to. -/
def State.at (s : State) (global : Bool) : State :=
  if global then { s with table := s.table.enterGlobal } else s

theorem inScopeOf_declares {p : Parser Unit} {e : Env} {global : Bool}
    (h : Declares p (s.at global) e goal) : Declares (inScopeOf global p) s e goal := by
  cases global with
  | false => exact h
  | true =>
    have hexit {s' : State} (hs' : Declared (s.at true) e goal s') :
        Declared s e goal { s' with table := s'.table.exitGlobal } := by
      obtain ⟨htable, hbuilder, hreached⟩ := hs'
      refine ⟨?_, hbuilder, hreached⟩
      simp [htable, State.at, Table.enterGlobal, Table.exitGlobal]
    unfold Declares
    rw [ends_inScopeOf_true]
    exact Ends.mono h (fun _ _ h => hexit h) (fun _ _ h => ⟨h.1, hexit h.2⟩)

@[simp] theorem scope_at (s : State) (global : Bool) :
    (s.at global).table.scope = scopeOf global s.table.global s.table.scope := by
  cases global <;> rfl

@[simp] theorem global_at (s : State) (global : Bool) :
    (s.at global).table.global = s.table.global := by
  cases global <;> rfl

@[simp] theorem env_at (s : State) (global : Bool) : (s.at global).env = s.env := by
  cases global <;> rfl

@[simp] theorem cursor_at (s : State) (global : Bool) : (s.at global).cursor = s.cursor := by
  cases global <;> rfl

theorem scopeOf_ne_nil {global : Bool} {root scope : ScopeKey} (hroot : root ≠ [])
    (hscope : scope ≠ []) : scopeOf global root scope ≠ [] := by
  cases global
  · exact hscope
  · exact hroot

/-- What the declarations of variables and of procedures have in common: a name, for which a symbol
is staged, and a tail in the scope of the name. -/
theorem named_declares {symbol : Token → Symbol} {tail : Symbol → Token → Parser Unit} {e : Env}
    {global : Bool} {x t : Token} {n : Tree.Name} (hs : s.cursor.ahead = x :: t :: more)
    (hname : (Slot.name n).Fits t) (hroot : s.table.global ≠ []) (hscope : s.table.scope ≠ [])
    (h : ∀ s' : State, OnLast more s' →
      s'.table.scope = (scopeOf global s.table.global s.table.scope).child n.lower →
      s'.table.global = s.table.global → s'.env = s.env → Declares (tail (symbol t) t) s' e goal) :
    Declares (inScopeOf global (named symbol tail)) s e goal := by
  have hplain : Plain t.kind := by rw [hname.1]; decide
  obtain ⟨ht, hliteral, -⟩ := hname
  have hpeek : (s.at global).cursor.peek = t := by rw [cursor_at, Cursor.peek_of_ahead hs]
  have hroot' : (s.at global).table.global ≠ [] := by rwa [global_at]
  have hscope' : (s.at global).table.scope ≠ [] := by
    rw [scope_at]
    exact scopeOf_ne_nil hroot hscope
  have htail : Declares (tail (symbol t) t) (State.inside { s.at global with
      cursor := (s.at global).cursor.next
      table := (s.at global).table.stage (symbol t) } n) e goal :=
    h _ ⟨t, hplain, by simp [State.inside, hs]⟩ (congrArg (·.child n.lower) (scope_at s global))
      (global_at s global) (env_at s global)
  refine inScopeOf_declares ?_
  unfold Declares
  rw [ends_named, hpeek, if_pos ht, hliteral]
  refine Ends.mono (inScope_declares hroot' hscope' htail) ?_ ?_
  · exact fun _ _ h => ⟨h.table, h.builder, h.reached⟩
  · exact fun _ _ h => ⟨h.1, h.2.table, h.2.builder, h.2.reached⟩

/-- A variable's declaration in the scope that it belongs to, from its type on. -/
theorem variableDeclaration_declares (v : Variable) {x n t : Token}
    (hs : s.cursor.ahead = x :: n :: more) (hname : (Slot.name v.name).Fits n)
    (hextent : Shows v.extent.slots more (t :: rest)) (ht : t.kind = .semicolon)
    (hroot : s.table.global ≠ []) (hscope : s.table.scope ≠ []) :
    Declares (inScopeOf v.global (variableDeclaration v.global v.type)) s
      (v.elaborate (v.key s.table.global s.table.scope) s.env) (before false (t :: rest)) := by
  refine named_declares hs hname hroot hscope fun s' hlast hkey _ henv => ?_
  have htail := variableTail_declares v n hlast hextent ht
  rw [hkey, henv] at htail
  rw [hname.2.2]
  exact htail

end Variables

/-! ## Procedures -/

theorem ofParameter_parameter (f : Tree.Formal) :
    Ir.Formal.ofParameter f.parameter = .ok f.emitted := by
  unfold Ir.Formal.ofParameter Tree.Formal.emitted Tree.Formal.parameter
  simp only [Option.any_some, Tree.Name.lower, f.name.isName.lower_lower]
  split <;> rfl

theorem openProcedure_symbol (b : Ir.Builder) (name : Bytes) (h : Heading) :
    b.openProcedure name h.symbol = .ok { b with
      parked := b.current :: b.parked
      current := .ofProcedure name (h.formals.map Tree.Formal.emitted) } := by
  have hformals (fs : List Tree.Formal) : (fs.map Tree.Formal.parameter).mapM
      Ir.Formal.ofParameter = .ok (fs.map Tree.Formal.emitted) := by
    induction fs with
    | nil => rfl
    | cons f fs ih =>
      simp only [List.map_cons, List.mapM_cons, ofParameter_parameter, ih]
      rfl
  exact b.openProcedure_of_formals name h.symbol (hformals h.formals)

theorem bindParameters_stage (t : Table) (h : Heading) :
    (t.stage h.symbol).bindParameters =
      { t with staged := some h.symbol, bindings := h.bindFormals t.scope t.bindings } := by
  have hfold (fs : List Tree.Formal) (line : Int) (t : Table) :
      (fs.map Tree.Formal.parameter).foldl (fun t p => t.bindParameter line p) t =
        { t with bindings := fs.foldl (bindFormal t.scope line) t.bindings } := by
    induction fs generalizing t with
    | nil => rfl
    | cons f fs ih =>
      have hstep : t.bindParameter line f.parameter =
          { t with bindings := bindFormal t.scope line t.bindings f } := by
        simp only [Table.bindParameter, bindFormal, Tree.Formal.parameter, Tree.Name.lower,
          f.name.isName.lower_lower]
        by_cases hbound : t.scope.child f.name.literal.lower ∈ t.bindings
        · simp [hbound]
        · simp [hbound]
      rw [List.map_cons, List.foldl_cons, List.foldl_cons, hstep, ih]
  exact hfold h.formals h.name.line (t.stage h.symbol)

theorem ends_leaveFunction {s : State} {Q : Unit → State → Prop} {E : Stop → State → Prop}
    (kept : Bool) :
    Ends (leaveFunction (if kept then Ir.Builder.closeProcedure else Ir.Builder.discardProcedure)) s
      Q E ↔ Q () { s with builder := leave kept s.builder } := by
  unfold leaveFunction leave
  rw [ends_modify]
  cases kept with
  | false =>
    simp only [Bool.false_eq_true, if_false, Ir.Builder.discardProcedure]
    cases s.builder.parked <;> rfl
  | true =>
    simp only [if_true, Ir.Builder.closeProcedure]
    cases s.builder.parked <;> rfl

/-- Binding the staged symbol, whichever way it ends. -/
theorem ends_commit_eq {s : State} {Q : Bool → State → Prop} {E : Stop → State → Prop}
    (place : Token) {sym : Symbol} (hsym : s.table.staged = some sym) :
    Ends (commit place) s Q E ↔
      Q (decide (s.table.scope ∉ s.table.bindings)) { s with
        table := { s.table with
          staged := none
          bindings := if s.table.scope ∈ s.table.bindings then s.table.bindings
            else s.table.bindings.insert s.table.scope sym }
        diagnostics := s.diagnostics ++ if s.table.scope ∈ s.table.bindings then
          [.duplicate (place.position s.file) s.table.scope] else [] } := by
  rw [ends_commit place hsym]
  by_cases hbound : s.table.scope ∈ s.table.bindings
  · simp [hbound, Table.discard]
  · simp [hbound, Table.discard]

section Procedures

variable {s : State} {more inside : List Token} {goal : Goal}

/-- The body of a procedure from the token before it on, and the return to the function around. -/
theorem procedureBody_declares {body : Parser Unit} {key : ScopeKey} {e : Env} (kept : Bool)
    (hbody : Ends body { s with cursor := s.cursor.next }
      (fun _ s' => Declared { s with cursor := s.cursor.next } e goal s') (fun _ _ => False)) :
    Declares (procedureBody body key kept) s { e with builder := leave kept e.builder } goal := by
  unfold Declares procedureBody
  simp only [ends_bind, ends_advance]
  refine Ends.mono hbody ?_ (fun _ _ h => h.elim)
  rintro _ s' ⟨htable, hbuilder, hreached⟩
  rw [ends_get, ends_leaveFunction, ends_note]
  exact ⟨htable, by rw [hbuilder], hreached⟩

/-- Behind the word `is` the cursor stands in front of the body, whether the word is there or not. -/
theorem optionalIs_shows {hasIs : Bool} {t : Token} {Q : Unit → State → Prop}
    {E : Stop → State → Prop} (hlast : OnLast more s)
    (hs : Shows (optional hasIs .kwIs) more (t :: inside)) (ht : t.kind ≠ .kwIs)
    (h : ∀ c : Cursor, c.next.ahead = t :: inside → Q () { s with cursor := c }) :
    Ends optionalIs s Q E := by
  obtain ⟨u, -, hahead⟩ := id hlast
  rw [ends_optionalIs]
  cases hasIs with
  | false =>
    obtain rfl := hs
    rw [hlast.peek, if_neg ht]
    exact h s.cursor (by simp [hahead])
  | true =>
    obtain ⟨i, _, rfl, hi, rfl⟩ := hs
    simp only [Slot.Fits] at hi
    rw [hlast.peek, if_pos hi]
    exact h s.cursor.next (by simp [hahead])

/-- The rest of a procedure's declaration behind its name, given what its body does. -/
theorem procedureTail_declares {body : Parser Unit} (h : Heading) (name : Token) {t : Token}
    {e : Env} (hlast : OnLast more s)
    (hs : Shows (.kind .leftParen :: (formalSlots h.formals ++ .kind .rightParen ::
      optional h.hasIs .kwIs)) more (t :: inside))
    (ht : t.kind ≠ .kwIs)
    (hbody : ∀ s' : State, s'.cursor.ahead = t :: inside → s'.table.scope = s.table.scope →
      s'.table.global = s.table.global → s'.table.staged = none →
      s'.env = h.enter s.table.scope s.env →
      Ends body s' (fun _ s'' => Declared s' e goal s'') (fun _ _ => False)) :
    Declares (procedureTail body { kind := .procedure, line := h.name.line, global := h.global } name)
      s (h.exit s.table.scope s.env e) goal := by
  have hsplit : Slot.kind .leftParen :: (formalSlots h.formals ++ .kind .rightParen ::
      optional h.hasIs .kwIs) = (.kind .leftParen :: (formalSlots h.formals ++
      [.kind .rightParen])) ++ optional h.hasIs .kwIs := by simp
  rw [hsplit] at hs
  obtain ⟨middle, hheader, his⟩ := fills_append.mp hs
  have hparameters := (parameters_reads hlast hheader).and (Reads.frame.keeps made_parameters s)
  unfold Declares procedureTail
  rw [ends_bind, ends_orDiscard]
  refine Ends.mono hparameters ?_ (fun _ _ h => h.1.elim)
  rintro _ s₁ ⟨⟨rfl, hlast₁⟩, hreads⟩
  have htable := hreads.table
  have hbuilder := hreads.builder
  have hsymbol : ({
      kind := .procedure
      line := h.name.line
      global := h.global
      parameters := h.formals.map Tree.Formal.parameter } : Symbol) = h.symbol := rfl
  simp only [ends_bind, ends_modifyTable, ends_get, hsymbol, bindParameters_stage, htable]
  rw [ends_commit_eq name rfl]
  simp only [openFunction, ends_bind, ends_get, openProcedure_symbol, ends_set, procedureInside,
    ends_note]
  refine optionalIs_shows hlast₁ his ht fun c hc => ?_
  refine Ends.mono (procedureBody_declares _ (hbody _ hc rfl rfl rfl ?_)) ?_ ?_
  · simp only [State.env, Heading.enter, hbuilder, Table.irName]
    rfl
  · exact fun _ _ h => ⟨h.table, h.builder, h.reached⟩
  · exact fun _ _ h => ⟨h.1, h.2.table, h.2.builder, h.2.reached⟩

/-- A procedure's declaration in the scope that it belongs to, from its first word on. -/
theorem procedureDeclaration_declares {body : Parser Unit} (h : Heading) {x n t : Token} {e : Env}
    (hs : s.cursor.ahead = x :: n :: more) (hname : (Slot.name h.name).Fits n)
    (hheader : Shows (.kind .leftParen :: (formalSlots h.formals ++ .kind .rightParen ::
      optional h.hasIs .kwIs)) more (t :: inside))
    (ht : t.kind ≠ .kwIs) (hroot : s.table.global ≠ []) (hscope : s.table.scope ≠ [])
    (hbody : ∀ s' : State, s'.cursor.ahead = t :: inside →
      s'.table.scope = h.key s.table.global s.table.scope → s'.table.global = s.table.global →
      s'.table.staged = none → s'.env = h.enter (h.key s.table.global s.table.scope) s.env →
      Ends body s' (fun _ s'' => Declared s' e goal s'') (fun _ _ => False)) :
    Declares (inScopeOf h.global (procedureDeclaration body h.global)) s
      (h.exit (h.key s.table.global s.table.scope) s.env e) goal := by
  refine named_declares hs hname hroot hscope fun s' hlast hkey hglobal henv => ?_
  have hinside (s'' : State) (hs'' : s''.cursor.ahead = t :: inside)
      (hscope'' : s''.table.scope = s'.table.scope) (hglobal'' : s''.table.global = s'.table.global)
      (hstaged'' : s''.table.staged = none) (henv'' : s''.env = h.enter s'.table.scope s'.env) :
      Ends body s'' (fun _ s₁ => Declared s'' e goal s₁) (fun _ _ => False) := by
    refine hbody s'' hs'' (hscope''.trans hkey) (hglobal''.trans hglobal) hstaged'' ?_
    rw [henv'', hkey, henv]
    rfl
  have htail := procedureTail_declares h n hlast hheader ht hinside
  rw [hkey, henv] at htail
  rw [hname.2.2]
  exact htail

end Procedures

end OnePass.Program
