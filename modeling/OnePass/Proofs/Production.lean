import OnePass.Program.Parse
set_option autoImplicit false

/-!
# How productions end

`Ends p s Q E` says how the production `p` ends when it starts in the state `s`: with a value and a
state of which `Q` holds, or with a stop and a state of which `E` holds.  One equation for each way
of composing productions, and one for each step that productions are made of, reduce every such
statement to statements about the states in between; no later proof looks at how productions run.
-/

namespace OnePass.Program

/-- How a production ends: `Q` holds of the value and the state behind it if it succeeds, and `E` of
the stop and the state if it does not. -/
def Ends {α : Type} (p : Parser α) (s : State) (Q : α → State → Prop)
    (E : Stop → State → Prop) : Prop :=
  match p s with
  | .ok a s' => Q a s'
  | .error stop s' => E stop s'

/-! ## Composition -/

section Composition

variable {α β : Type} {s : State} {Q Q' : α → State → Prop} {E E' : Stop → State → Prop}

theorem ends_of_ok {p : Parser α} {a : α} {s' : State} (h : p s = .ok a s') :
    Ends p s Q E ↔ Q a s' := by
  rw [Ends, h]

theorem ends_of_error {p : Parser α} {stop : Stop} {s' : State} (h : p s = .error stop s') :
    Ends p s Q E ↔ E stop s' := by
  rw [Ends, h]

theorem Ends.mono {p : Parser α} (h : Ends p s Q E) (hQ : ∀ a s', Q a s' → Q' a s')
    (hE : ∀ stop s', E stop s' → E' stop s') : Ends p s Q' E' := by
  unfold Ends at h ⊢
  cases hp : p s with
  | ok a s' => rw [hp] at h; exact hQ a s' h
  | error stop s' => rw [hp] at h; exact hE stop s' h

theorem Ends.and {p : Parser α} (h : Ends p s Q E) (h' : Ends p s Q' E') :
    Ends p s (fun a s' => Q a s' ∧ Q' a s') (fun stop s' => E stop s' ∧ E' stop s') := by
  unfold Ends at h h' ⊢
  cases hp : p s with
  | ok a s' => rw [hp] at h h'; exact ⟨h, h'⟩
  | error stop s' => rw [hp] at h h'; exact ⟨h, h'⟩

/-- Everything ends somehow. -/
theorem ends_trivial (p : Parser α) (s : State) :
    Ends p s (fun _ _ => True) (fun _ _ => True) := by
  unfold Ends
  cases p s <;> trivial

@[simp] theorem ends_pure (a : α) : Ends (pure a) s Q E ↔ Q a s := Iff.rfl

@[simp] theorem ends_bind (p : Parser β) (f : β → Parser α) :
    Ends (p >>= f) s Q E ↔ Ends p s (fun b s' => Ends (f b) s' Q E) E := by
  simp only [Ends, bind, EStateM.bind]
  cases p s <;> rfl

/-- If what is known of the value depends on the second production alone. -/
theorem ends_bind_of_forall {p : Parser β} {f : β → Parser α}
    (h : ∀ b s', Ends (f b) s' Q fun _ _ => True) : Ends (p >>= f) s Q fun _ _ => True := by
  rw [ends_bind]
  exact (ends_trivial p s).mono (fun b s' _ => h b s') fun _ _ _ => trivial

@[simp] theorem ends_map (p : Parser β) (f : β → α) :
    Ends (f <$> p) s Q E ↔ Ends p s (fun b s' => Q (f b) s') E := by
  simp only [map_eq_pure_bind, ends_bind, ends_pure]

@[simp] theorem ends_throw (stop : Stop) : Ends (throw stop : Parser α) s Q E ↔ E stop s := Iff.rfl

@[simp] theorem ends_tryCatch (p : Parser α) (handle : Stop → Parser α) :
    Ends (tryCatch p handle) s Q E ↔
      Ends p s Q (fun stop s' => Ends (handle stop) s' Q E) := by
  simp only [Ends, tryCatch, tryCatchThe, MonadExceptOf.tryCatch]
  delta EStateM.tryCatch
  dsimp only
  cases p s <;> rfl

@[simp] theorem ends_ite {c : Prop} [Decidable c] (p q : Parser α) :
    Ends (if c then p else q) s Q E ↔ if c then Ends p s Q E else Ends q s Q E := by
  split <;> rfl

end Composition

/-! ## The steps that productions are made of -/

section Steps

variable {α : Type} {s : State} {E : Stop → State → Prop}

@[simp] theorem ends_get {Q : State → State → Prop} : Ends get s Q E ↔ Q s s := Iff.rfl

@[simp] theorem ends_set {Q : PUnit → State → Prop} (s' : State) :
    Ends (set s') s Q E ↔ Q ⟨⟩ s' := Iff.rfl

@[simp] theorem ends_modify {Q : PUnit → State → Prop} (f : State → State) :
    Ends (modify f) s Q E ↔ Q ⟨⟩ (f s) := Iff.rfl

@[simp] theorem ends_current {Q : Token → State → Prop} :
    Ends current s Q E ↔ Q s.cursor.current s := Iff.rfl

@[simp] theorem ends_peek {Q : Token → State → Prop} :
    Ends peek s Q E ↔ Q s.cursor.peek s := Iff.rfl

@[simp] theorem ends_currentIs {Q : Bool → State → Prop} (kind : TokenKind) :
    Ends (currentIs kind) s Q E ↔ Q (s.cursor.current.kind = kind) s := Iff.rfl

@[simp] theorem ends_peekIs {Q : Bool → State → Prop} (kind : TokenKind) :
    Ends (peekIs kind) s Q E ↔ Q (s.cursor.peek.kind = kind) s := Iff.rfl

@[simp] theorem ends_advance {Q : Unit → State → Prop} :
    Ends advance s Q E ↔ Q () { s with cursor := s.cursor.next } := Iff.rfl

@[simp] theorem ends_remaining {Q : Nat → State → Prop} :
    Ends remaining s Q E ↔ Q s.cursor.remaining s := Iff.rfl

@[simp] theorem ends_reported {Q : Nat → State → Prop} :
    Ends reported s Q E ↔ Q s.diagnostics.length s := Iff.rfl

@[simp] theorem ends_unexpected {Q : Unit → State → Prop} (t : Token) :
    Ends (unexpected t) s Q E ↔
      Q () { s with diagnostics := s.diagnostics ++ [misplaced s.file t] } := Iff.rfl

@[simp] theorem ends_note {Q : Unit → State → Prop} (words : Bytes) :
    Ends (note words) s Q E ↔
      Q () { s with trace := s.trace ++
        [s.file ++ text ":" ++ Bytes.ofNat s.cursor.current.line ++ text ": " ++ words] } :=
  Iff.rfl

@[simp] theorem ends_rejectToken {Q : α → State → Prop} (t : Token) :
    Ends (rejectToken t) s Q E ↔
      E .reject { s with diagnostics := s.diagnostics ++ [misplaced s.file t] } := Iff.rfl

@[simp] theorem ends_exhausted {Q : α → State → Prop} :
    Ends exhausted s Q E ↔ E (.fatal .unexpectedEnd) s := Iff.rfl

/-- The error that a token is given up with. -/
def StructureError.at (t : Token) : StructureError :=
  if t.kind = .eof then .unexpectedEnd else .malformed t.line t.literal

@[simp] theorem ends_fail {Q : α → State → Prop} (t : Token) :
    Ends (fail t) s Q E ↔
      E (.fatal (.at t)) { s with diagnostics := s.diagnostics ++ [misplaced s.file t] } := by
  unfold fail StructureError.at
  by_cases h : t.kind = .eof <;> simp [h]

@[simp] theorem ends_expectPeek {Q : Unit → State → Prop} (kind : TokenKind) :
    Ends (expectPeek kind) s Q E ↔
      if s.cursor.peek.kind = kind then Q () { s with cursor := s.cursor.next }
      else E .reject
        { s with diagnostics := s.diagnostics ++ [misplaced s.file s.cursor.peek] } := by
  simp [expectPeek]

@[simp] theorem ends_mustCurrent {Q : Unit → State → Prop} (kind : TokenKind) :
    Ends (mustCurrent kind) s Q E ↔
      if s.cursor.current.kind = kind then Q () s
      else E (.fatal (.at s.cursor.current))
        { s with diagnostics := s.diagnostics ++ [misplaced s.file s.cursor.current] } := by
  simp [mustCurrent]

@[simp] theorem ends_mustPeek {Q : Unit → State → Prop} (kind : TokenKind) :
    Ends (mustPeek kind) s Q E ↔
      if s.cursor.peek.kind = kind then Q () { s with cursor := s.cursor.next }
      else E (.fatal (.at s.cursor.peek))
        { s with diagnostics := s.diagnostics ++ [misplaced s.file s.cursor.peek] } := by
  simp [mustPeek]

/-- A rejected production is caught with all that it did; a broken structure is passed on. -/
@[simp] theorem ends_succeeds {Q : Bool → State → Prop} (p : Parser Unit) :
    Ends (succeeds p) s Q E ↔
      Ends p s (fun _ s' => Q true s') (fun stop s' => match stop with
        | .reject => Q false s'
        | .fatal e => E (.fatal e) s') := by
  simp only [succeeds, ends_tryCatch, ends_bind, ends_pure]
  unfold Ends
  cases p s with
  | ok _ _ => rfl
  | error stop _ => cases stop <;> rfl

@[simp] theorem ends_andThenTable {Q : α → State → Prop} (p : Parser α) (f : Table → Table) :
    Ends (andThenTable p f) s Q E ↔
      Ends p s (fun a s' => Q a { s' with table := f s'.table })
        (fun stop s' => E stop { s' with table := f s'.table }) := by
  simp only [andThenTable, ends_bind, ends_tryCatch, ends_modify, ends_throw, ends_pure]

/-- What recovering reports by itself: the current token, if nothing was reported since there were
`mark` diagnostics. -/
def overdue (mark : Nat) (s : State) : List Diagnostic :=
  if s.diagnostics.length = mark then [misplaced s.file s.cursor.current] else []

/-- Recovering leaves a diagnostic, its own or one from before. -/
theorem append_overdue_ne_nil {mark : Nat} (h : mark ≤ s.diagnostics.length) :
    s.diagnostics ++ overdue mark s ≠ [] := by
  intro hnone
  obtain ⟨hbefore, hown⟩ := List.append_eq_nil_iff.mp hnone
  unfold overdue at hown
  split at hown
  · cases hown
  · next hmore =>
    rw [hbefore, List.length_nil] at h hmore
    omega

/-- Recovering goes behind the semicolon that skipping finds; without one it gives the program up
at the end. -/
theorem ends_recover {Q : Unit → State → Prop} (mark : Nat) (depth : Int) :
    Ends (recover mark depth) s Q E ↔
      match skipLength depth s.cursor.ahead with
      | some n =>
        Q () { s with
          cursor := s.cursor.skip n
          diagnostics := s.diagnostics ++ overdue mark s }
      | none =>
        E (.fatal (.at (s.cursor.skip s.cursor.remaining).current))
          { s with
            cursor := s.cursor.skip s.cursor.remaining
            diagnostics := s.diagnostics ++ overdue mark s ++
              [misplaced s.file (s.cursor.skip s.cursor.remaining).current] } := by
  unfold recover overdue
  by_cases h : s.diagnostics.length = mark
  · cases hn : skipLength depth s.cursor.ahead <;> simp [h, hn]
  · cases hn : skipLength depth s.cursor.ahead <;> simp [h, hn]

@[simp] theorem ends_recoverFrom {Q : Unit → State → Prop} (mark base : Nat) :
    Ends (recoverFrom mark base) s Q E ↔
      Ends (recover mark (s.nesting - base)) s (fun _ s' => Q () { s' with nesting := base }) E := by
  simp only [recoverFrom, ends_bind, ends_get, ends_modify]

end Steps

/-! ## How far skipping goes -/

section Skipping

variable {depth : Int} {t : Token} {ts : List Token} {n : Nat}

theorem skipLength_of_semicolon (h : depth ≤ 0 ∧ t.kind = .semicolon) :
    skipLength depth (t :: ts) = some 1 := by
  cases ts <;> rw [skipLength, if_pos h]

theorem skipLength_of_closing {u : Token} (h : t.kind = .kwEnd ∧ opensBlock u) :
    skipLength depth (t :: u :: ts) = (skipLength (depth - 1) ts).map (· + 2) := by
  rw [skipLength, if_neg (by simp [h.1]), if_pos h]

/-- Behind a token that neither ends it nor closes a statement, skipping goes on. -/
theorem skipLength_cons (hstay : ¬(depth ≤ 0 ∧ t.kind = .semicolon))
    (hopen : ∀ u ∈ ts.head?, ¬(t.kind = .kwEnd ∧ opensBlock u)) :
    skipLength depth (t :: ts) =
      (skipLength (if opensBlock t then depth + 1 else depth) ts).map (· + 1) := by
  cases ts with
  | nil =>
    have hlast : skipLength depth [t] = none := by rw [skipLength, if_neg hstay]
    rw [hlast, skipLength]
    rfl
  | cons u ts =>
    rw [skipLength, if_neg hstay, if_neg (hopen u rfl)]
    split <;> rfl

/-- Skipping ends on a semicolon, passes the two words that close a statement, or passes a token. -/
theorem skipping_induction {motive : Int → List Token → Prop} (nil : ∀ depth, motive depth [])
    (semicolon : ∀ depth t ts, (depth ≤ 0 ∧ t.kind = .semicolon) → motive depth (t :: ts))
    (closing : ∀ depth t u ts, (t.kind = .kwEnd ∧ opensBlock u) → motive (depth - 1) ts →
      motive depth (t :: u :: ts))
    (passing : ∀ depth t ts, ¬(depth ≤ 0 ∧ t.kind = .semicolon) →
      (∀ u ∈ ts.head?, ¬(t.kind = .kwEnd ∧ opensBlock u)) →
      motive (if opensBlock t then depth + 1 else depth) ts → motive depth (t :: ts))
    (depth : Int) (ts : List Token) : motive depth ts := by
  fun_induction skipLength depth ts with
  | case1 => exact nil _
  | case2 _ _ hend => exact semicolon _ _ _ hend
  | case3 _ _ hstay => exact passing _ _ _ hstay (by simp) (nil _)
  | case4 _ _ _ _ hend => exact semicolon _ _ _ hend
  | case5 _ _ _ _ _ hclose ih => exact closing _ _ _ _ hclose ih
  | case6 _ _ _ _ hstay hclose hopen ih =>
    exact passing _ _ _ hstay (by simpa using hclose) (by rwa [if_pos hopen])
  | case7 _ _ _ _ hstay hclose hopen ih =>
    exact passing _ _ _ hstay (by simpa using hclose) (by rwa [if_neg hopen])

theorem skipLength_bounds (h : skipLength depth ts = some n) : 1 ≤ n ∧ n ≤ ts.length := by
  induction depth, ts using skipping_induction generalizing n with
  | nil => cases h
  | semicolon depth t ts hend =>
    rw [skipLength_of_semicolon hend] at h
    cases h
    simp
  | closing depth t u ts hclose ih =>
    rw [skipLength_of_closing hclose] at h
    obtain ⟨m, hm, rfl⟩ := Option.map_eq_some_iff.mp h
    have := ih hm
    simp only [List.length_cons]
    omega
  | passing depth t ts hstay hopen ih =>
    rw [skipLength_cons hstay hopen] at h
    obtain ⟨m, hm, rfl⟩ := Option.map_eq_some_iff.mp h
    have := ih hm
    simp only [List.length_cons]
    omega

/-- Skipping ends on a semicolon, so it does not end on a first token that is none. -/
theorem two_le_skipLength (ht : t.kind ≠ .semicolon) (h : skipLength depth (t :: ts) = some n) :
    2 ≤ n := by
  by_cases hclose : ∃ u ∈ ts.head?, t.kind = .kwEnd ∧ opensBlock u
  · obtain ⟨u, hu, hclose⟩ := hclose
    obtain ⟨ts, rfl⟩ := List.head?_eq_some_iff.mp hu
    rw [skipLength_of_closing hclose] at h
    obtain ⟨m, -, rfl⟩ := Option.map_eq_some_iff.mp h
    omega
  · rw [skipLength_cons (fun hend => ht hend.2) (by simpa using hclose)] at h
    obtain ⟨m, hm, rfl⟩ := Option.map_eq_some_iff.mp h
    have := skipLength_bounds hm
    omega

end Skipping

/-! ## The steps of declarations -/

section Declaring

variable {α : Type} {s : State} {Q : α → State → Prop} {E : Stop → State → Prop}

@[simp] theorem ends_modifyTable {Q : Unit → State → Prop} (f : Table → Table) :
    Ends (modifyTable f) s Q E ↔ Q () { s with table := f s.table } := Iff.rfl

@[simp] theorem ends_inScope (name : Bytes) (p : Parser α) :
    Ends (inScope name p) s Q E ↔
      Ends p { s with table := s.table.enter name }
        (fun a s' => Q a { s' with table := s'.table.exit })
        (fun stop s' => E stop { s' with table := s'.table.exit }) := by
  simp only [inScope, ends_bind, ends_modifyTable, ends_andThenTable]

@[simp] theorem ends_inScopeOf_false (p : Parser α) :
    Ends (inScopeOf false p) s Q E ↔ Ends p s Q E := Iff.rfl

@[simp] theorem ends_inScopeOf_true (p : Parser α) :
    Ends (inScopeOf true p) s Q E ↔
      Ends p { s with table := s.table.enterGlobal }
        (fun a s' => Q a { s' with table := s'.table.exitGlobal })
        (fun stop s' => E stop { s' with table := s'.table.exitGlobal }) := by
  simp only [inScopeOf, if_true, inGlobalScope, ends_bind, ends_modifyTable, ends_andThenTable]

@[simp] theorem ends_orDiscard (p : Parser α) :
    Ends (orDiscard p) s Q E ↔
      Ends p s Q (fun stop s' => E stop { s' with table := s'.table.discard }) := by
  simp only [orDiscard, ends_tryCatch, ends_bind, ends_modifyTable, ends_throw]

theorem ends_orRecover {Q : Unit → State → Prop} (p : Parser Unit) :
    Ends (orRecover p) s Q E ↔
      Ends p s (fun _ s' => Q () { s' with cursor := s'.cursor.next }) fun stop s' =>
        match stop with
        | .reject => Ends (recover s.diagnostics.length 0) s' Q E
        | .fatal e => E (.fatal e) s' := by
  rw [orRecover, ends_bind, ends_reported, ends_bind, ends_succeeds]
  exact Iff.rfl

theorem ends_named {Q : Unit → State → Prop} {symbol : Token → Symbol}
    {tail : Symbol → Token → Parser Unit} :
    Ends (named symbol tail) s Q E ↔
      if s.cursor.peek.kind = .identifier then
        Ends (inScope s.cursor.peek.literal (tail (symbol s.cursor.peek) s.cursor.peek))
          { s with cursor := s.cursor.next, table := s.table.stage (symbol s.cursor.peek) } Q E
      else E .reject
        { s with diagnostics := s.diagnostics ++ [misplaced s.file s.cursor.peek] } := by
  rw [named, ends_bind, ends_expectPeek]
  exact Iff.rfl

theorem ends_optionalIs {Q : Unit → State → Prop} :
    Ends optionalIs s Q E ↔
      if s.cursor.peek.kind = .kwIs then Q () { s with cursor := s.cursor.next } else Q () s := by
  simp only [optionalIs, ends_bind, ends_peekIs, decide_eq_true_eq]
  split <;> exact Iff.rfl

@[simp] theorem ends_emitStorage {Q : Unit → State → Prop} (global : Bool) (line : Ir.Line) :
    Ends (emitStorage global line) s Q E ↔
      Q () { s with
        builder := if global then s.builder.addGlobal line else s.builder.addLocal line } :=
  Iff.rfl

/-- Binding whatever is staged changes the table, and reports the current key if that fails. -/
theorem ends_commit_table {Q : Bool → State → Prop} (place : Token) :
    Ends (commit place) s Q E ↔
      if s.table.commit.1.isOk then Q true { s with table := s.table.commit.2 }
      else Q false { s with
        table := s.table.commit.2
        diagnostics := s.diagnostics ++ [.duplicate (place.position s.file) s.table.scope] } := by
  unfold commit
  rw [ends_bind, ends_get]
  rcases s.table.commit with ⟨result, t⟩
  cases result with
  | ok sym => exact Iff.rfl
  | error e => exact Iff.rfl

/-- Binding the staged symbol succeeds exactly if the current key is not bound yet. -/
theorem ends_commit {Q : Bool → State → Prop} (place : Token) {sym : Symbol}
    (hsym : s.table.staged = some sym) :
    Ends (commit place) s Q E ↔
      if s.table.scope ∈ s.table.bindings then
        Q false { s with
          table := s.table.discard
          diagnostics := s.diagnostics ++ [.duplicate (place.position s.file) s.table.scope] }
      else
        Q true { s with table := { s.table.discard with
          bindings := s.table.bindings.insert s.table.scope sym } } := by
  by_cases h : s.table.scope ∈ s.table.bindings
  · have hcommit : s.table.commit = (.error (.duplicate s.table.scope), s.table.discard) := by
      simp [Table.commit, hsym, h]
    rw [ends_commit_table, hcommit, if_pos h]
    exact Iff.rfl
  · have hcommit : s.table.commit = (.ok sym, { s.table.discard with
        bindings := s.table.bindings.insert s.table.scope sym }) := by
      simp [Table.commit, hsym, h]
    rw [ends_commit_table, hcommit, if_neg h]
    exact Iff.rfl

end Declaring

/-! ## Sources -/

section Sources

variable {file source : Bytes} {table : Table} {builder : Ir.Builder} {name : Bytes} {s : State}

theorem parse_of_ok (h : program (.start file source table builder) = .ok name s) :
    parse file source table builder = ⟨finish name s, s⟩ := by
  unfold parse EStateM.run
  rw [h]
  rfl

theorem parse_of_fatal {e : StructureError}
    (h : program (.start file source table builder) = .error (.fatal e) s) :
    parse file source table builder = ⟨.error (.broken e), s⟩ := by
  unfold parse EStateM.run
  rw [h]
  rfl

/-- A source with a program is a run of the production of programs that succeeds. -/
theorem program_of_parse_ok {p : Program} (h : (parse file source table builder).result = .ok p) :
    program (.start file source table builder) =
      .ok p.name (parse file source table builder).state := by
  unfold parse EStateM.run at h ⊢
  cases hrun : program (.start file source table builder) with
  | error stop s =>
    rw [hrun] at h
    cases stop <;> cases h
  | ok name s =>
    rw [hrun, outcome, finish] at h
    split at h
    · cases h
      rfl
    · cases h

/-- What the production of programs ends with if it succeeds holds of a source with a program. -/
theorem Ends.of_parse_ok {p : Program} {Q : Bytes → State → Prop} {E : Stop → State → Prop}
    (h : Ends program (.start file source table builder) Q E)
    (hok : (parse file source table builder).result = .ok p) :
    Q p.name (parse file source table builder).state :=
  (ends_of_ok (program_of_parse_ok hok)).mp h

/-- What holds behind the production of programs, however it ends, holds of the state that a source
leaves. -/
theorem Ends.state_parse {P : State → Prop}
    (h : Ends program (.start file source table builder) (fun _ s => P s) fun _ s => P s) :
    P (parse file source table builder).state := by
  unfold parse EStateM.run
  cases hrun : program (.start file source table builder) with
  | ok name s => exact (ends_of_ok hrun).mp h
  | error stop s =>
    rw [ends_of_error hrun] at h
    cases stop with
    | reject => exact h
    | fatal e => exact h

/-- A source on which the production of programs cannot fail has the code that is finished behind it. -/
theorem Ends.parse_eq {Q : Bytes → State → Prop}
    (h : Ends program (.start file source table builder) Q fun _ _ => False) :
    ∃ name s, Q name s ∧ parse file source table builder = ⟨finish name s, s⟩ := by
  cases hrun : program (.start file source table builder) with
  | error stop s => exact ((ends_of_error hrun).mp h).elim
  | ok name s => exact ⟨name, s, (ends_of_ok hrun).mp h, parse_of_ok hrun⟩

end Sources

end OnePass.Program
