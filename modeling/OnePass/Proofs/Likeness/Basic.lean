import Mathlib.Data.List.Forall2
import OnePass.Proofs.Run
set_option autoImplicit false

/-!
# Alike runs

Two sources may be written differently and still be read alike, and one source may be read for two
targets.  A `Likeness` says in what two runs may differ: in bytes that are folded into one, and in the
target.  Names are looked up in small letters, so folding has to respect these.

`Agree` relates two productions that take alike states to alike states and end in the same way.  One
rule for each way of composing productions, and one for each step that productions are made of, carry
it to all productions.
-/

namespace OnePass

/-- In what two runs may differ: in bytes that are folded into one, and in the target.  Texts that
are folded into one are the same in small letters. -/
structure Likeness where
  fold : UInt8 → UInt8
  first : Target
  second : Target
  lower_eq {a b : Bytes} : a.map fold = b.map fold → a.lower = b.lower

namespace Likeness

/-! ## What is alike -/

/-- Whether two texts are folded into one. -/
def SameText (L : Likeness) (a b : Bytes) : Prop := a.map L.fold = b.map L.fold

/-- Whether two tokens are alike: they differ in their texts at most, and these are folded into one;
integers do not differ. -/
structure SameToken (L : Likeness) (t t' : Token) : Prop where
  kind : t'.kind = t.kind
  line : t'.line = t.line
  column : t'.column = t.column
  literal : L.SameText t.literal t'.literal
  integer : t.kind = .literal .integer → t'.literal = t.literal

/-- Whether two diagnostics are alike: they differ in their texts at most. -/
structure SameDiagnostic (L : Likeness) (d d' : Diagnostic) : Prop where
  code : d'.code = d.code
  message : L.SameText d.message d'.message
  lexeme : L.SameText d.lexeme d'.lexeme
  position : d'.position = d.position
  level : d'.level = d.level
  category : d'.category = d.category

/-- Whether two cursors stand in alike places of alike streams. -/
structure SameCursor (L : Likeness) (c c' : Cursor) : Prop where
  ahead : List.Forall₂ L.SameToken c.ahead c'.ahead
  eof : L.SameToken c.eof c'.eof

/-- Whether two builders hold the same, one for each target. -/
structure SameBuilder (L : Likeness) (b b' : Ir.Builder) : Prop where
  first : b.target = L.first
  second : b' = { b with target := L.second }

/-- Whether two stops are alike. -/
inductive SameStop (L : Likeness) : Program.Stop → Program.Stop → Prop where
  | reject : L.SameStop .reject .reject
  | unexpectedEnd : L.SameStop (.fatal .unexpectedEnd) (.fatal .unexpectedEnd)
  | malformed {line : Nat} {a b : Bytes} (lexeme : L.SameText a b) :
    L.SameStop (.fatal (.malformed line a)) (.fatal (.malformed line b))

/-- Whether two states are alike.  What has been passed and what has been traced is left out. -/
structure SameState (L : Likeness) (s s' : Program.State) : Prop where
  file : s'.file = s.file
  cursor : L.SameCursor s.cursor s'.cursor
  table : s'.table = s.table
  builder : L.SameBuilder s.builder s'.builder
  diagnostics : List.Forall₂ L.SameDiagnostic s.diagnostics s'.diagnostics
  nesting : s'.nesting = s.nesting

section Texts

variable {L : Likeness} {a b c d : Bytes}

theorem SameText.refl (a : Bytes) : L.SameText a a := rfl

theorem SameText.append (h : L.SameText a b) (h' : L.SameText c d) :
    L.SameText (a ++ c) (b ++ d) := by
  unfold SameText at h h' ⊢
  rw [List.map_append, List.map_append, h, h']

theorem SameText.lower (h : L.SameText a b) : b.lower = a.lower := (L.lower_eq h).symm

theorem SameText.lower_child (h : L.SameText a b) (key : ScopeKey) :
    (key.child b).lower = (key.child a).lower := by
  have hchild : L.SameText (key ++ ([Ascii.period] ++ a)) (key ++ ([Ascii.period] ++ b)) :=
    (SameText.refl _).append ((SameText.refl _).append h)
  exact hchild.lower

end Texts

section Tokens

variable {L : Likeness} {t t' : Token} {c c' : Cursor}

theorem SameToken.position (h : L.SameToken t t') (file : Bytes) :
    t'.position file = t.position file := by
  unfold Token.position
  rw [h.line, h.column]

theorem SameCursor.current (h : L.SameCursor c c') : L.SameToken c.current c'.current := by
  rcases c with ⟨passed, ahead, eof⟩
  rcases c' with ⟨passed', ahead', eof'⟩
  obtain ⟨hahead, heof⟩ := h
  cases hahead with
  | nil => exact heof
  | cons hhead _ => exact hhead

theorem SameCursor.next (h : L.SameCursor c c') : L.SameCursor c.next c'.next := by
  rcases c with ⟨passed, ahead, eof⟩
  rcases c' with ⟨passed', ahead', eof'⟩
  obtain ⟨hahead, heof⟩ := h
  cases hahead with
  | nil => exact ⟨.nil, heof⟩
  | cons _ htail => exact ⟨htail, heof⟩

theorem SameCursor.peek (h : L.SameCursor c c') : L.SameToken c.peek c'.peek := h.next.current

theorem SameCursor.skip (h : L.SameCursor c c') (n : Nat) :
    L.SameCursor (c.skip n) (c'.skip n) :=
  ⟨List.forall₂_drop n h.ahead, h.eof⟩

theorem SameCursor.remaining (h : L.SameCursor c c') : c'.remaining = c.remaining :=
  h.ahead.length_eq.symm

/-- Skipping looks at the kinds of tokens only. -/
theorem skipLength_eq {ts ts' : List Token} (h : List.Forall₂ L.SameToken ts ts') (depth : Int) :
    Program.skipLength depth ts' = Program.skipLength depth ts := by
  have hopens {t t' : Token} (h : L.SameToken t t') :
      Program.opensBlock t' = Program.opensBlock t := by
    rw [Program.opensBlock, h.kind]
    rfl
  induction depth, ts using Program.skipping_induction generalizing ts' with
  | nil =>
    cases h
    rfl
  | semicolon depth t ts hend =>
    obtain _ | ⟨ht, -⟩ := h
    rw [Program.skipLength_of_semicolon hend, Program.skipLength_of_semicolon (by rwa [ht.kind])]
  | closing depth t u ts hclose ih =>
    obtain _ | ⟨ht, _ | ⟨hu, hrest⟩⟩ := h
    rw [Program.skipLength_of_closing hclose, ← ih hrest]
    exact Program.skipLength_of_closing (by rwa [ht.kind, hopens hu])
  | passing depth t ts hstay hopen ih =>
    obtain _ | ⟨ht, hrest⟩ := h
    rw [Program.skipLength_cons hstay hopen, ← ih hrest, ← hopens ht]
    refine Program.skipLength_cons (by rwa [ht.kind]) fun u' hu' => ?_
    obtain _ | ⟨hu, -⟩ := hrest
    · cases hu'
    · cases hu'
      rw [ht.kind, hopens hu]
      exact hopen _ rfl

end Tokens

section Diagnostics

variable {L : Likeness} {t t' : Token} {file : Bytes}

theorem sameDiagnostic_refl (d : Diagnostic) : L.SameDiagnostic d d :=
  ⟨rfl, .refl _, .refl _, rfl, rfl, rfl⟩

theorem sameDiagnostic_argument {a b : Bytes} (h : L.SameText a b) (position : Position) :
    L.SameDiagnostic (.argument position a) (.argument position b) :=
  ⟨rfl, ((SameText.refl _).append h).append (.refl _), h, rfl, rfl, rfl⟩

theorem sameDiagnostic_scan {a b : Bytes} (h : L.SameText a b) (position : Position) :
    L.SameDiagnostic (.scan position a) (.scan position b) :=
  ⟨rfl, .refl _, h, rfl, rfl, rfl⟩

theorem sameDiagnostic_parse {a b : Bytes} (h : L.SameText a b) (position : Position) :
    L.SameDiagnostic (.parse position a) (.parse position b) := by
  refine ⟨rfl, ?_, h, rfl, rfl, rfl⟩
  exact ((((SameText.refl _).append h).append (.refl _)).append (.refl _)).append (.refl _)

theorem SameToken.misplaced (h : L.SameToken t t') :
    L.SameDiagnostic (Program.misplaced file t) (Program.misplaced file t') := by
  unfold Program.misplaced
  rw [h.kind, h.position]
  split
  · exact sameDiagnostic_scan h.literal _
  · exact sameDiagnostic_refl _
  · exact sameDiagnostic_parse h.literal _

end Diagnostics

end Likeness

namespace Program

/-! ## Agreeing productions -/

/-- Whether two runs end alike: both with values in a relation, or both with alike stops. -/
inductive SameRun (L : Likeness) {α : Type} (V : α → α → Prop) :
    EStateM.Result Stop State α → EStateM.Result Stop State α → Prop where
  | ok {a a' : α} {s s' : State} (value : V a a') (state : L.SameState s s') :
    SameRun L V (.ok a s) (.ok a' s')
  | error {stop stop' : Stop} {s s' : State} (stops : L.SameStop stop stop')
      (state : L.SameState s s') :
    SameRun L V (.error stop s) (.error stop' s')

/-- Two productions that end alike wherever they start in alike states. -/
def Agree (L : Likeness) {α : Type} (V : α → α → Prop) (p p' : Parser α) : Prop :=
  ∀ s s', L.SameState s s' → SameRun L V (p s) (p' s')

section Composition

variable {L : Likeness} {α β : Type} {V : β → β → Prop} {W : α → α → Prop}

theorem agree_pure {a a' : α} (h : W a a') : Agree L W (pure a) (pure a') :=
  fun _ _ hs => .ok h hs

theorem agree_throw {stop stop' : Stop} (h : L.SameStop stop stop') :
    Agree L W (throw stop : Parser α) (throw stop') :=
  fun _ _ hs => .error h hs

theorem agree_bind {p p' : Parser β} {f f' : β → Parser α} (hp : Agree L V p p')
    (hf : ∀ b b', V b b' → Agree L W (f b) (f' b')) : Agree L W (p >>= f) (p' >>= f') := by
  intro s s' hs
  have hrun := hp s s' hs
  generalize hfirst : p s = r, hsecond : p' s' = r' at hrun
  cases hrun with
  | ok hb ht =>
    rw [bind_run_of_ok hfirst, bind_run_of_ok hsecond]
    exact hf _ _ hb _ _ ht
  | error hstop ht =>
    rw [bind_run_of_error hfirst, bind_run_of_error hsecond]
    exact .error hstop ht

/-- Productions that give the same value, and one that goes on with it. -/
theorem agree_bind_eq {p p' : Parser β} {f f' : β → Parser α} (hp : Agree L Eq p p')
    (hf : ∀ b, Agree L W (f b) (f' b)) : Agree L W (p >>= f) (p' >>= f') := by
  refine agree_bind hp ?_
  rintro b _ rfl
  exact hf b

theorem agree_tryCatch {p p' : Parser α} {handle handle' : Stop → Parser α} (hp : Agree L W p p')
    (hhandle : ∀ stop stop', L.SameStop stop stop' → Agree L W (handle stop) (handle' stop')) :
    Agree L W (tryCatch p handle) (tryCatch p' handle') := by
  intro s s' hs
  have hrun := hp s s' hs
  generalize hfirst : p s = r, hsecond : p' s' = r' at hrun
  cases hrun with
  | ok ha ht =>
    rw [tryCatch_run_of_ok hfirst, tryCatch_run_of_ok hsecond]
    exact .ok ha ht
  | error hstop ht =>
    rw [tryCatch_run_of_error hfirst, tryCatch_run_of_error hsecond]
    exact hhandle _ _ hstop _ _ ht

theorem agree_succeeds {p p' : Parser Unit} (hp : Agree L Eq p p') :
    Agree L Eq (succeeds p) (succeeds p') := by
  refine agree_tryCatch (agree_bind_eq hp fun _ => agree_pure rfl) ?_
  intro stop stop' hstop
  cases hstop with
  | reject => exact agree_pure rfl
  | unexpectedEnd => exact agree_throw .unexpectedEnd
  | malformed hlexeme => exact agree_throw (.malformed hlexeme)

end Composition

/-! ## Single steps -/

section Steps

variable {L : Likeness} {α : Type} {W : α → α → Prop} {t t' : Token}

theorem agree_get : Agree L L.SameState get get := fun _ _ hs => .ok hs hs

theorem agree_set {s s' : State} (h : L.SameState s s') : Agree L Eq (set s) (set s') :=
  fun _ _ _ => .ok rfl h

theorem agree_modify {f f' : State → State}
    (h : ∀ s s', L.SameState s s' → L.SameState (f s) (f' s')) :
    Agree L Eq (modify f) (modify f') :=
  fun s s' hs => .ok rfl (h s s' hs)

theorem agree_current : Agree L L.SameToken current current :=
  fun _ _ hs => .ok hs.cursor.current hs

theorem agree_peek : Agree L L.SameToken peek peek := fun _ _ hs => .ok hs.cursor.peek hs

theorem agree_currentIs (kind : TokenKind) : Agree L Eq (currentIs kind) (currentIs kind) := by
  refine agree_bind agree_current fun t t' ht => agree_pure ?_
  rw [ht.kind]

theorem agree_peekIs (kind : TokenKind) : Agree L Eq (peekIs kind) (peekIs kind) := by
  refine agree_bind agree_peek fun t t' ht => agree_pure ?_
  rw [ht.kind]

theorem agree_remaining : Agree L Eq remaining remaining :=
  fun _ _ hs => .ok hs.cursor.remaining.symm hs

theorem agree_reported : Agree L Eq reported reported :=
  fun _ _ hs => .ok hs.diagnostics.length_eq hs

theorem agree_advance : Agree L Eq advance advance :=
  agree_modify fun _ _ hs => { hs with cursor := hs.cursor.next }

theorem agree_note (words words' : Bytes) : Agree L Eq (note words) (note words') :=
  agree_modify fun _ _ hs => { hs with }

theorem agree_report {d d' : Diagnostic} (h : L.SameDiagnostic d d') :
    Agree L Eq (report d) (report d') :=
  agree_modify fun _ _ hs =>
    { hs with diagnostics := List.rel_append hs.diagnostics (.cons h .nil) }

theorem agree_unexpected (h : L.SameToken t t') : Agree L Eq (unexpected t) (unexpected t') := by
  refine agree_bind agree_get fun s s' hs => ?_
  rw [hs.file]
  exact agree_report h.misplaced

theorem agree_rejectToken (h : L.SameToken t t') :
    Agree L W (rejectToken t : Parser α) (rejectToken t') :=
  agree_bind_eq (agree_unexpected h) fun _ => agree_throw .reject

theorem agree_rejectArgument (h : L.SameToken t t') :
    Agree L W (rejectArgument t : Parser α) (rejectArgument t') := by
  refine agree_bind (V := Eq) ?_ ?_
  · refine agree_bind agree_get fun s s' hs => agree_pure ?_
    rw [hs.file, h.position]
  · rintro position _ rfl
    exact agree_bind_eq (agree_report (L.sameDiagnostic_argument h.literal position)) fun _ =>
      agree_throw .reject

theorem agree_fail (h : L.SameToken t t') : Agree L W (fail t : Parser α) (fail t') := by
  refine agree_bind_eq (agree_unexpected h) fun _ => ?_
  rw [h.kind, h.line]
  split
  · exact agree_throw .unexpectedEnd
  · exact agree_throw (.malformed h.literal)

theorem agree_exhausted : Agree L W (exhausted : Parser α) exhausted := agree_throw .unexpectedEnd

theorem agree_expectPeek (kind : TokenKind) : Agree L Eq (expectPeek kind) (expectPeek kind) := by
  refine agree_bind_eq (agree_peekIs kind) fun b => ?_
  split
  · exact agree_advance
  · exact agree_bind agree_peek fun _ _ => agree_rejectToken

theorem agree_mustCurrent (kind : TokenKind) :
    Agree L Eq (mustCurrent kind) (mustCurrent kind) := by
  refine agree_bind_eq (agree_currentIs kind) fun b => ?_
  split
  · exact agree_pure rfl
  · exact agree_bind agree_current fun _ _ => agree_fail

theorem agree_mustPeek (kind : TokenKind) : Agree L Eq (mustPeek kind) (mustPeek kind) := by
  refine agree_bind_eq (agree_peekIs kind) fun b => ?_
  dsimp only
  split
  · exact agree_advance
  · refine agree_bind agree_peek fun _ _ ht => ?_
    exact agree_bind_eq (agree_fail ht) fun _ => agree_advance

theorem agree_recover (mark : Nat) (depth : Int) :
    Agree L Eq (recover mark depth) (recover mark depth) := by
  refine agree_bind_eq agree_reported fun n => ?_
  dsimp only
  split
  on_goal 1 =>
    refine agree_bind agree_current fun _ _ ht => ?_
    refine agree_bind_eq (agree_unexpected ht) fun _ => ?_
  -- Skipping is the same, whether there was a report before it or not.
  all_goals
    refine agree_bind agree_get fun s s' hs => ?_
    rw [Likeness.skipLength_eq hs.cursor.ahead]
    split
    · exact agree_modify fun _ _ hs => { hs with cursor := hs.cursor.skip _ }
    · refine agree_bind_eq (agree_modify fun s s' hs => ?_) fun _ =>
        agree_bind agree_current fun _ _ => agree_fail
      rw [hs.cursor.remaining]
      exact { hs with cursor := hs.cursor.skip _ }

end Steps

end Program

end OnePass
