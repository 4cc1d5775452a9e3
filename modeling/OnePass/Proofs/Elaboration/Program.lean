import OnePass.Proofs.Elaboration.Declaration
set_option autoImplicit false

/-!
# Recognising whole programs

Declarations are recognised one after the other and inside each other, by induction on how their
tokens are `Laid` (`declarationsWithin_elaborates`); a declaration that is rejected is left behind at
its own semicolon.  A whole program is then recognised, with the bindings and the code that its tree
elaborates to (`program_hasEffect`).

Statements declare and emit nothing.  Of the tokens of a body it is asked only that recognising them
ends on the terminator of the body (`Closes`), as the statements of the grammar do
(`closes_of_shows`).  `faulty` says whether the tokens are known to leave a diagnostic.
-/

namespace OnePass.Program

open OnePass.Grammar OnePass.Tree

/-! ## Bodies -/

/-- Tokens of the end of a body, from its first word on: recognising it ends on the terminator, in
front of `rest`. -/
structure Closes (faulty : Bool) (terminator : TokenKind) (ts rest : List Token) : Prop where
  first : ∃ t more, ts = t :: more ∧ t.kind = .kwBegin
  length : rest.length ≤ ts.length
  ends : ∀ s : State, s.cursor.ahead = ts →
    Ends (bodyTail terminator) s
      (fun _ s' => OnLast rest s' ∧ (faulty = true → s'.diagnostics ≠ [])) (fun _ _ => False)

/-- Statements whose words are taken can stand in a body. -/
theorem closes_of_accepted {faulty : Bool} {n : Nat} {w : List TokenKind} {terminator : TokenKind}
    {ts rest : List Token} (hw : Accepted faulty (.many n) w) (hplain : Plain terminator)
    (hs : Spells (.kwBegin :: (w ++ [.kwEnd, terminator])) ts rest) :
    Closes faulty terminator ts rest := by
  have hlength := hs.length
  simp only [fills_cons, fills_append, fills_nil] at hs
  obtain ⟨b, _, rfl, hb, _, hstatements, e, _, rfl, he, x, rest, rfl, hx, rfl⟩ := hs
  refine ⟨⟨b, _, rfl, hb⟩, by omega, fun s hs => ?_⟩
  have hpass : Passes faulty statements n { s with cursor := s.cursor.next } (e :: x :: rest) :=
    statements_pass hw (by simp [startsStatement, he]) (by simpa [hs] using hstatements)
  unfold bodyTail
  simp only [ends_bind, ends_mustCurrent, Cursor.current_of_ahead hs, hb, if_true, ends_advance]
  refine Ends.mono hpass ?_ (fun _ _ h => h)
  rintro _ s₁ ⟨-, hs₁, -, hreported⟩
  simp only [Cursor.current_of_ahead hs₁, he, if_true, ends_mustPeek, Cursor.peek_of_ahead hs₁, hx]
  exact ⟨⟨x, by rwa [hx], by simp [hs₁]⟩, hreported⟩

theorem closes_of_shows (body : Statements) {terminator : TokenKind} (hplain : Plain terminator)
    {ts rest : List Token} (hs : Shows (body.closing terminator) ts rest) :
    Closes false terminator ts rest := by
  refine closes_of_accepted (accepted_of_phrase body.isPhrase) hplain ?_
  rw [← shows_kinds]
  simpa [Statements.closing, Statements.slots] using hs

/-- Tokens of declarations.  Of their bodies only the declarations are told; the statements in them
need not be those of the tree. -/
inductive Laid : Bool → Declarations → List Token → List Token → Prop
  | nil (ts : List Token) : Laid false .nil ts ts
  | variableDecl {faulty : Bool} {v : Variable} {ds : Declarations} {d : Token}
      {ts middle rest : List Token} : Shows v.slots ts (d :: middle) → d.kind = .semicolon →
      Laid faulty ds middle rest → Laid faulty (.variableDecl v ds) ts rest
  | procedureDecl {inside closes faulty : Bool} {h : Heading} {inner ds : Declarations}
      (body : Statements) {d : Token} {ts opening closing middle rest : List Token} :
      Shows h.slots ts opening → Laid inside inner opening closing →
      Closes closes .kwProcedure closing (d :: middle) → d.kind = .semicolon →
      Laid faulty ds middle rest →
      Laid (inside || closes || faulty) (.procedureDecl h inner body ds) ts rest

theorem Laid.length {faulty : Bool} {ds : Declarations} {ts rest : List Token}
    (h : Laid faulty ds ts rest) : rest.length ≤ ts.length := by
  induction h with
  | nil ts => exact Nat.le_refl _
  | variableDecl hv _ _ ih =>
    have hlength := hv.length
    simp only [List.length_cons] at hlength
    omega
  | procedureDecl _ hh _ hcloses _ _ ihInner ih =>
    have hlength := hh.length
    have hclosing := hcloses.length
    simp only [List.length_cons] at hclosing
    omega

theorem laid_of_shows (ds : Declarations) {ts rest : List Token} (hs : Shows ds.slots ts rest) :
    Laid false ds ts rest := by
  induction ds generalizing ts rest with
  | nil =>
    obtain rfl := hs
    exact .nil ts
  | variableDecl v ds ih =>
    simp only [Declarations.slots, fills_append, fills_cons] at hs
    obtain ⟨_, hv, d, middle, rfl, hd, hds⟩ := hs
    exact .variableDecl hv hd (ih hds)
  | procedureDecl h inner body ds ihInner ihRest =>
    simp only [Declarations.slots, List.append_assoc, fills_append, fills_cons] at hs
    obtain ⟨opening, hheading, closing, hinner, _, hclosing, d, middle, rfl, hd, hds⟩ := hs
    exact .procedureDecl body hheading (ihInner hinner)
      (closes_of_shows body (by decide) hclosing) hd (ihRest hds)

section Bodies

variable {s : State} {goal : Goal}

/-- The end of a body: statements change nothing. -/
theorem bodyTail_declares {faulty faulty' : Bool} {terminator : TokenKind} {rest : List Token}
    (hcloses : Closes faulty' terminator s.cursor.ahead rest) (hstaged : s.table.staged = none)
    (hreported : faulty = true → s.diagnostics ≠ []) :
    Ends (bodyTail terminator) s
      (fun _ s' => Declared s s.env (before (faulty || faulty') rest) s') (fun _ _ => False) := by
  have hends := hcloses.ends s rfl
  refine Ends.mono (hends.and (Reads.frame.keeps (made_bodyTail terminator) s)) ?_ (fun _ _ h => h.1)
  rintro _ s' ⟨⟨hlast, hreported'⟩, hreads⟩
  refine ⟨?_, hreads.builder, hlast, fun hfaulty => ?_⟩
  · rw [hreads.table]
    simp [State.env, ← hstaged]
  · rcases Bool.or_eq_true_iff.mp hfaulty with h | h
    · exact hreads.toProceeds.diagnostics_ne_nil (hreported h)
    · exact hreported' h

/-- A declaration and its semicolon, however the declaration ends. -/
theorem declared_step {faulty : Bool} {p : Parser Unit} {e : Env} {t : Token} {rest : List Token}
    (h : Declares p s e (before faulty (t :: rest))) (ht : t.kind = .semicolon) {k : Parser Unit}
    {Q : Unit → State → Prop}
    (hk : ∀ s' : State, s'.cursor.ahead = rest →
      s'.table = { s.table with bindings := e.bindings, staged := none } → s'.builder = e.builder →
      (faulty = true → s'.diagnostics ≠ []) → Ends k s' Q (fun _ _ => False)) :
    Ends (do orRecover (do p; expectPeek .semicolon); k) s Q (fun _ _ => False) := by
  rw [ends_bind, ends_orRecover, ends_bind]
  refine Ends.mono h ?_ ?_
  · rintro _ s' ⟨htable, hbuilder, hlast, hreported⟩
    have hlast : OnLast (t :: rest) s' := hlast
    obtain ⟨u, -, hs'⟩ := id hlast
    simp only [ends_expectPeek, hlast.peek, ht, if_true]
    exact hk _ (by simp [hs']) htable hbuilder hreported
  · rintro stop s' ⟨rfl, htable, hbuilder, hlast, hreported⟩
    have hlast : OnLast (t :: rest) s' := hlast
    have hresumes : Resumes 0 (t :: rest) rest := .semicolon ht (by omega)
    obtain ⟨n, hn, hrest⟩ := (hlast.short.resumes hresumes).1
    simp only [ends_recover, hn]
    exact hk _ hrest htable hbuilder fun h =>
      List.append_ne_nil_of_left_ne_nil (hreported h) _

/-- The word that makes a declaration global decides in which scope it is recognised. -/
theorem declaration_declares {body : Parser Unit} {global : Bool} {e : Env} {x : Token}
    {more : List Token} (hs : Shows (optional global .kwGlobal) s.cursor.ahead (x :: more))
    (hx : x.kind ≠ .kwGlobal)
    (h : ∀ s' : State, s'.cursor.ahead = x :: more → s'.table = s.table → s'.builder = s.builder →
      Declares (declarationTail body global) s' e goal) :
    Declares (declaration body) s e goal := by
  cases global with
  | false =>
    have hcurrent := Cursor.current_of_ahead hs
    unfold Declares declaration
    rw [ends_bind, ends_currentIs, hcurrent, decide_eq_false hx]
    exact h s hs rfl rfl
  | true =>
    obtain ⟨g, _, hs, hg, rfl⟩ := hs
    simp only [Slot.Fits] at hg
    unfold Declares declaration
    rw [ends_bind, ends_currentIs, Cursor.current_of_ahead hs, hg, if_pos (decide_eq_true rfl),
      ends_bind, ends_advance]
    refine Ends.mono (h { s with cursor := s.cursor.next } (by simp [hs]) rfl rfl) ?_ ?_
    · exact fun _ _ h => ⟨h.table, h.builder, h.reached⟩
    · exact fun _ _ h => ⟨h.1, h.2.table, h.2.builder, h.2.reached⟩

theorem declaration_declares_variable (body : Parser Unit) (v : Variable) {t : Token}
    {rest : List Token}
    (hs : Shows v.slots s.cursor.ahead (t :: rest)) (ht : t.kind = .semicolon)
    (hroot : s.table.global ≠ []) (hscope : s.table.scope ≠ []) :
    Declares (declaration body) s (v.elaborate (v.key s.table.global s.table.scope) s.env)
      (before false (t :: rest)) := by
  obtain ⟨_, hglobal, x, _, rfl, hx, n, _, rfl, hname, hextent⟩ := fills_append.mp hs
  simp only [Slot.Fits] at hx
  refine declaration_declares hglobal (by simp [hx]) fun s' hs' htable hbuilder => ?_
  have henv : s'.env = s.env := by simp [State.env, htable, hbuilder]
  have h := variableDeclaration_declares v hs' hname hextent ht (by rwa [htable])
    (by rwa [htable])
  rw [htable, henv] at h
  unfold Declares declarationTail
  rw [ends_bind, ends_current, Cursor.current_of_ahead hs', hx]
  exact h

theorem declaration_declares_procedure {body : Parser Unit} (h : Heading) {e : Env} {t : Token}
    {inside : List Token} (hs : Shows h.slots s.cursor.ahead (t :: inside)) (ht : t.kind ≠ .kwIs)
    (hroot : s.table.global ≠ []) (hscope : s.table.scope ≠ [])
    (hbody : ∀ s' : State, s'.cursor.ahead = t :: inside →
      s'.table.scope = h.key s.table.global s.table.scope → s'.table.global = s.table.global →
      s'.table.staged = none → s'.env = h.enter (h.key s.table.global s.table.scope) s.env →
      Ends body s' (fun _ s'' => Declared s' e goal s'') (fun _ _ => False)) :
    Declares (declaration body) s (h.exit (h.key s.table.global s.table.scope) s.env e) goal := by
  obtain ⟨_, hglobal, x, _, rfl, hx, n, _, rfl, hname, hheader⟩ := fills_append.mp hs
  simp only [Slot.Fits] at hx
  refine declaration_declares hglobal (by simp [hx]) fun s' hs' htable hbuilder => ?_
  have henv : s'.env = s.env := by simp [State.env, htable, hbuilder]
  have hprocedure : Declares (inScopeOf h.global (procedureDeclaration body h.global)) s'
      (h.exit (h.key s'.table.global s'.table.scope) s'.env e) goal :=
    procedureDeclaration_declares h hs' hname hheader ht (by rwa [htable]) (by rwa [htable])
      (by rwa [htable, henv])
  rw [htable, henv] at hprocedure
  unfold Declares declarationTail
  rw [ends_bind, ends_current, Cursor.current_of_ahead hs', hx]
  exact hprocedure

end Bodies

/-! ## Declarations -/

/-- Every declaration begins with a token that starts declarations. -/
theorem declaration_starts {global : Bool} {k : TokenKind} {ps : List Slot} {ts rest : List Token}
    (hs : Shows (optional global .kwGlobal ++ .kind k :: ps) ts rest)
    (hk : k = .kwProcedure ∨ ∃ type, k = .typeMark type) :
    ∃ u more, ts = u :: more ∧ u.kind ≠ .kwIs ∧ ∀ next, startsDeclaration u next = true := by
  have hstarts (u : Token) (hu : u.kind = .kwGlobal ∨ u.kind = k) :
      u.kind ≠ .kwIs ∧ ∀ next, startsDeclaration u next = true := by
    rcases hk with rfl | ⟨type, rfl⟩ <;> rcases hu with hu | hu <;> simp [startsDeclaration, hu]
  cases global with
  | false =>
    obtain ⟨u, more, rfl, hu, -⟩ := hs
    exact ⟨u, more, rfl, hstarts u (.inr hu)⟩
  | true =>
    obtain ⟨u, more, rfl, hu, -⟩ := hs
    exact ⟨u, more, rfl, hstarts u (.inl hu)⟩

/-- A body begins with a declaration or with its own first word, never with the word that may end
the heading before it. -/
theorem body_first {faulty : Bool} {ds : Declarations} {ts rest : List Token}
    (hs : Laid faulty ds ts rest) (hrest : ∃ t more, rest = t :: more ∧ t.kind = .kwBegin) :
    ∃ u more, ts = u :: more ∧ u.kind ≠ .kwIs := by
  cases hs with
  | nil =>
    obtain ⟨t, more, hts, ht⟩ := hrest
    exact ⟨t, more, hts, by simp [ht]⟩
  | @variableDecl _ v _ _ _ _ _ hv =>
    obtain ⟨u, more, hts, hu, -⟩ := declaration_starts hv (.inr ⟨v.type, rfl⟩)
    exact ⟨u, more, hts, hu⟩
  | procedureDecl _ hheading =>
    obtain ⟨u, more, hts, hu, -⟩ := declaration_starts hheading (.inl rfl)
    exact ⟨u, more, hts, hu⟩

/-- What recognising declarations leaves. -/
structure Elaborated (faulty : Bool) (s : State) (e : Env) (rest : List Token) (s' : State) :
    Prop where
  table : s'.table = { s.table with bindings := e.bindings }
  builder : s'.builder = e.builder
  ahead : s'.cursor.ahead = rest
  reported : faulty = true → s'.diagnostics ≠ []

/-- From behind a declaration on: what is done there counts from the beginning. -/
theorem elaborates_rest {faulty faulty' : Bool} {ds : Declarations} {depth : Nat} {s s' : State}
    {e : Env} {rest : List Token} (hstaged : s.table.staged = none)
    (htable : s'.table = { s.table with bindings := e.bindings, staged := none })
    (hbuilder : s'.builder = e.builder) (hreported : faulty = true → s'.diagnostics ≠ [])
    (h : Ends (declarationsWithin depth) s'
      (fun _ => Elaborated faulty' s' (ds.elaborate s'.table.global s'.table.scope s'.env) rest)
      (fun _ _ => False)) :
    Ends (declarationsWithin depth) s'
      (fun _ => Elaborated (faulty || faulty') s (ds.elaborate s.table.global s.table.scope e) rest)
      (fun _ _ => False) := by
  have henv : s'.env = e := by simp [State.env, htable, hbuilder]
  have hproceeds := Proceeds.wideFrame.keeps (made_declarationsWithin depth) s'
  refine Ends.mono (h.and hproceeds) ?_ (fun _ _ h => h.1)
  rintro _ s'' ⟨⟨htable', hbuilder', hahead, hreported'⟩, hproceeds⟩
  rw [henv, htable] at htable' hbuilder'
  refine ⟨?_, hbuilder', hahead, fun hfaulty => ?_⟩
  · rw [htable', ← hstaged]
  · rcases Bool.or_eq_true_iff.mp hfaulty with h | h
    · exact hproceeds.diagnostics_ne_nil (hreported h)
    · exact hreported' h

/-- One declaration with its semicolon, and then the declarations behind it. -/
theorem declarationsWithin_cons {faulty faulty' : Bool} {ds : Declarations} {depth : Nat} {s : State}
    {e : Env} {u d : Token} {more middle rest : List Token} (hu : s.cursor.ahead = u :: more)
    (hstarts : ∀ next, startsDeclaration u next = true) (hd : d.kind = .semicolon)
    (hstaged : s.table.staged = none)
    (h : Declares (declaration (do declarationsWithin depth; bodyTail .kwProcedure)) s e
      (before faulty (d :: middle)))
    (hrest : ∀ s' : State, s'.cursor.ahead = middle → s'.table.staged = none →
      s'.table.global = s.table.global → s'.table.scope = s.table.scope →
      Ends (declarationsWithin depth) s'
        (fun _ => Elaborated faulty' s' (ds.elaborate s'.table.global s'.table.scope s'.env) rest)
        (fun _ _ => False)) :
    Ends (declarationsWithin (depth + 1)) s
      (fun _ => Elaborated (faulty || faulty') s (ds.elaborate s.table.global s.table.scope e) rest)
      (fun _ _ => False) := by
  unfold declarationsWithin
  rw [ends_bind, ends_current, Cursor.current_of_ahead hu, ends_bind, ends_peek, if_pos (hstarts _)]
  refine declared_step h hd fun s' hs' htable hbuilder hreported => ?_
  have hmore := hrest s' hs' (by rw [htable]) (by rw [htable]) (by rw [htable])
  exact elaborates_rest hstaged htable hbuilder hreported hmore

/-- A body: its declarations are elaborated, and its statements change nothing. -/
theorem body_declares {inside closes : Bool} {inner : Declarations} {depth : Nat} {s : State}
    {root key : ScopeKey} {e : Env} {terminator : TokenKind} {closing rest : List Token}
    (hcloses : Closes closes terminator closing rest) (hstaged : s.table.staged = none)
    (h : Ends (declarationsWithin depth) s
      (fun _ => Elaborated inside s (inner.elaborate root key e) closing) (fun _ _ => False)) :
    Ends (do declarationsWithin depth; bodyTail terminator) s
      (fun _ s' => Declared s (inner.elaborate root key e) (before (inside || closes) rest) s')
      (fun _ _ => False) := by
  rw [ends_bind]
  refine Ends.mono h ?_ (fun _ _ h => h)
  rintro _ s₁ ⟨htable₁, hbuilder₁, hs₁, hreported₁⟩
  refine Ends.mono (bodyTail_declares (by rwa [hs₁]) (by rw [htable₁]; exact hstaged) hreported₁) ?_
    (fun _ _ h => h)
  rintro _ s₂ ⟨htable₂, hbuilder₂, hreached₂⟩
  refine ⟨?_, ?_, hreached₂⟩
  · rw [htable₂]
    simp [State.env, htable₁]
  · rw [hbuilder₂]
    exact hbuilder₁

/-- A procedure with its body. -/
theorem procedure_declares {inside closes : Bool} (h : Heading) {inner : Declarations} {depth : Nat}
    {s : State} {opening closing rest : List Token} (hheading : Shows h.slots s.cursor.ahead opening)
    (hinner : Laid inside inner opening closing)
    (hcloses : Closes closes .kwProcedure closing rest)
    (hroot : s.table.global ≠ []) (hscope : s.table.scope ≠ [])
    (hdeclarations : ∀ s' : State, s'.cursor.ahead = opening → s'.table.staged = none →
      s'.table.global ≠ [] → s'.table.scope ≠ [] →
      Ends (declarationsWithin depth) s'
        (fun _ => Elaborated inside s' (inner.elaborate s'.table.global s'.table.scope s'.env) closing)
        (fun _ _ => False)) :
    Declares (declaration (do declarationsWithin depth; bodyTail .kwProcedure)) s
      (h.exit (h.key s.table.global s.table.scope) s.env
        (inner.elaborate s.table.global (h.key s.table.global s.table.scope)
          (h.enter (h.key s.table.global s.table.scope) s.env)))
      (before (inside || closes) rest) := by
  obtain ⟨x, more, rfl, hx⟩ := body_first hinner hcloses.first
  refine declaration_declares_procedure h hheading hx hroot hscope ?_
  intro s' hs' hkey hroot' hstaged' henv
  have hbody := hdeclarations s' hs' hstaged' (by rwa [hroot'])
    (by rw [hkey]; exact ScopeKey.child_ne_nil _ _)
  rw [hkey, hroot', henv] at hbody
  exact body_declares hcloses hstaged' hbody

/-- Recognising the declarations of a tree has the effect that the tree elaborates to. -/
theorem declarationsWithin_elaborates {faulty : Bool} {ds : Declarations} {ts rest : List Token}
    (hs : Laid faulty ds ts rest) (hrest : ∃ t more, rest = t :: more ∧ t.kind = .kwBegin)
    {depth : Nat} {s : State} (hahead : s.cursor.ahead = ts)
    (hdepth : ts.length < rest.length + depth)
    (hstaged : s.table.staged = none) (hroot : s.table.global ≠ []) (hscope : s.table.scope ≠ []) :
    Ends (declarationsWithin depth) s
      (fun _ => Elaborated faulty s (ds.elaborate s.table.global s.table.scope s.env) rest)
      (fun _ _ => False) := by
  induction hs generalizing depth s with
  | nil ts =>
    obtain ⟨t, more, rfl, ht⟩ := hrest
    cases depth with
    | zero => omega
    | succ depth =>
      unfold declarationsWithin
      rw [ends_bind, ends_current, Cursor.current_of_ahead hahead, ends_bind, ends_peek]
      rw [if_neg (by simp [startsDeclaration, ht])]
      exact ⟨rfl, rfl, hahead, by simp⟩
  | @variableDecl _ v ds d ts middle rest hv hd hds ih =>
    obtain ⟨u, more, rfl, -, hstarts⟩ := declaration_starts hv (.inr ⟨v.type, rfl⟩)
    have hlength := hv.length
    have hlaid := hds.length
    simp only [List.length_cons] at hlength hdepth
    cases depth with
    | zero => omega
    | succ depth =>
      have hdeclares := declaration_declares_variable
        (do declarationsWithin depth; bodyTail .kwProcedure) v (by rwa [hahead]) hd hroot hscope
      have hshort : middle.length < rest.length + depth := by omega
      have helaborates := declarationsWithin_cons hahead hstarts hd hstaged hdeclares
        fun s' hs' hstaged' hroot' hscope' =>
          ih hrest hs' hshort hstaged' (by rwa [hroot']) (by rwa [hscope'])
      exact helaborates
  | @procedureDecl inside closes _ h inner ds _ d ts opening closing middle rest hheading hinner
      hcloses hd hds ihInner ihRest =>
    obtain ⟨u, more, rfl, -, hstarts⟩ := declaration_starts hheading (.inl rfl)
    have hlength := hheading.length
    have hlaid := hinner.length
    have hlaid' := hds.length
    have hclosing := hcloses.length
    simp only [List.length_cons] at hlength hdepth hclosing
    cases depth with
    | zero => omega
    | succ depth =>
      have hinside : opening.length < closing.length + depth := by omega
      have hshort : middle.length < rest.length + depth := by omega
      have hdeclares := procedure_declares h (by rwa [hahead]) hinner hcloses hroot hscope
        fun s' hs' hstaged' hroot' hscope' =>
          ihInner hcloses.first hs' hinside hstaged' hroot' hscope'
      have helaborates := declarationsWithin_cons hahead hstarts hd hstaged hdeclares
        fun s' hs' hstaged' hroot' hscope' =>
          ihRest hrest hs' hshort hstaged' (by rwa [hroot']) (by rwa [hscope'])
      exact helaborates

theorem body_elaborates {inside closes : Bool} {ds : Declarations} {terminator : TokenKind} {s : State}
    {closing rest : List Token} (hds : Laid inside ds s.cursor.ahead closing)
    (hcloses : Closes closes terminator closing rest) (hstaged : s.table.staged = none)
    (hroot : s.table.global ≠ []) (hscope : s.table.scope ≠ []) :
    Ends (body terminator) s
      (fun _ s' => Declared s (ds.elaborate s.table.global s.table.scope s.env)
        (before (inside || closes) rest) s')
      (fun _ _ => False) := by
  unfold body
  rw [ends_bind, ends_remaining]
  refine body_declares hcloses hstaged
    (declarationsWithin_elaborates hds hcloses.first rfl ?_ hstaged hroot hscope)
  rw [Cursor.remaining]
  omega

/-! ## Programs -/

/-- Tokens of a program.  Of its bodies only the declarations are told. -/
inductive LaidOut : Bool → Tree → List Token → List Token → Prop
  | mk {inside closes : Bool} {tree : Tree} {p n i d : Token} {opening closing rest : List Token} :
      p.kind = .kwProgram → (Slot.name tree.name).Fits n → i.kind = .kwIs →
      Laid inside tree.declarations opening closing →
      Closes closes .kwProgram closing (d :: rest) → d.kind = .period →
      LaidOut (inside || closes) tree (p :: n :: i :: opening) rest

theorem laidOut_of_shows (tree : Tree) {ts rest : List Token} (hs : Shows tree.slots ts rest) :
    LaidOut false tree ts rest := by
  simp only [Tree.slots, fills_cons, fills_append, fills_nil] at hs
  obtain ⟨p, _, rfl, hp, n, _, rfl, hn, i, _, rfl, hi, _, ⟨_, hds, hclosing⟩, d, _, rfl, hd,
    rfl⟩ := hs
  exact .mk hp hn hi (laid_of_shows _ hds) (closes_of_shows tree.statements (by decide) hclosing) hd

/-- What is left of a table and the code behind a program. -/
structure HasEffect (tree : Tree) (t : Table) (b : Ir.Builder) (s : State) : Prop where
  table : s.table = { tree.opening t with bindings := (tree.effect t b).bindings }.exit
  builder : s.builder = (tree.effect t b).builder

/-- A program has the effect of its tree, over any table and any code. -/
theorem program_hasEffect {faulty : Bool} {tree : Tree} {s : State} {rest : List Token}
    (hs : LaidOut faulty tree s.cursor.ahead rest) :
    Ends program s
      (fun name s' => name = tree.name.literal ∧ HasEffect tree s.table s.builder s' ∧
        (faulty = true → s'.diagnostics ≠ []))
      (fun _ _ => False) := by
  generalize hahead : s.cursor.ahead = ts at hs
  obtain ⟨hp, ⟨hn, hliteral, hline⟩, hi, hds, hcloses, hd⟩ := hs
  rename_i inside closes p n i d opening closing
  have hcurrent : s.cursor.next.current = n := by simp [Cursor.current, hahead]
  have hpeek : s.cursor.next.peek = i := by simp [Cursor.peek, hahead]
  have hopening : Laid inside tree.declarations s.cursor.next.next.next.ahead closing := by
    simpa [hahead] using hds
  have hlower := tree.name.isName.lower_ne_nil
  unfold program programOpening programClosing
  simp only [ends_bind, ends_mustCurrent, Cursor.current_of_ahead hahead, hp, if_true,
    ends_mustPeek, Cursor.peek_of_ahead hahead, hn, ends_current, hcurrent, ends_modifyTable, hpeek,
    hi, hliteral]
  rw [ends_commit_eq n rfl]
  simp only [ends_modify, ends_note, ends_advance, ends_pure, hline]
  refine Ends.mono (body_elaborates hopening hcloses rfl (Table.global_enter_ne_nil s.table hlower)
    (Table.scope_enter_ne_nil s.table hlower)) ?_ (fun _ _ h => h)
  rintro _ s₁ ⟨htable, hbuilder, hlast, hreported⟩
  have hlast : OnLast (d :: rest) s₁ := hlast
  simp only [hlast.peek, hd, if_true]
  refine ⟨trivial, ⟨?_, ?_⟩, hreported⟩
  · rw [htable, Tree.effect, opening_eq]
    rfl
  · rw [hbuilder, Tree.effect, opening_eq]
    rfl

/-- From scratch the scope of a program's name is the global one. -/
theorem effect_empty (tree : Tree) (b : Ir.Builder) : tree.effect .empty b = tree.elaborate b := by
  have henter : (Table.empty.enter tree.name.literal) =
      { Table.empty with
        global := tree.name.lower
        scope := tree.name.lower
        bindings := Table.bindBuiltins ∅ tree.name.lower } := rfl
  -- the program's own key is not one of a built-in procedure
  have hfresh : tree.name.lower ∉ Table.bindBuiltins ∅ tree.name.lower := by
    rw [Table.mem_bindBuiltins]
    rintro (h | ⟨b, h⟩)
    · exact Std.ExtTreeMap.not_mem_empty h
    · exact ScopeKey.ne_child tree.name.isName.period_notMem_lower _ _ h
  rw [effect, opening_eq, henter, if_neg hfresh]
  rfl

end OnePass.Program
