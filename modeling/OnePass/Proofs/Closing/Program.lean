import OnePass.Proofs.Boundary
import OnePass.Proofs.Reporting.Program
import OnePass.Proofs.Seam.Production
set_option autoImplicit false

/-!
# What stands behind the closing period

A program ends with a period, and the production of programs looks at nothing behind it.  The tokens up
to a period do not depend on what follows in the text, so the seam is put right behind that period:
everything up to the closing `end program` is read in front of it.  So a source that is recognised is
recognised with anything behind it, and gives the same (`parse_append`).
-/

namespace OnePass.Program

/-- A program up to the period that closes it. -/
def programInside : Parser Bytes := do
  let name ← programOpening
  body .kwProgram
  return name

theorem program_eq : program = programInside >>= programClosing := by
  simp only [program, programInside, bind_assoc, pure_bind]

section Running

variable {J : Seam} {s s' : State} {name : Bytes}

theorem made_programInside {G : (α : Type) → Parser α → Prop} : Made G true true programInside :=
  .bind made_programOpening fun _ => .bind (made_body _) fun _ => .pure _

/-- The state behind the period that closes a program. -/
def State.closed (s : State) (name : Bytes) : State :=
  { s with
    cursor := s.cursor.next
    table := s.table.exit
    trace := s.trace ++ [s.file ++ text ":" ++ Bytes.ofNat s.cursor.peek.line ++ text ": " ++
      (text "program " ++ name)] }

theorem programClosing_of_period (h : s.cursor.peek.kind = .period) :
    programClosing name s = .ok name (s.closed name) := by
  refine ok_iff_ends.mpr ?_
  simp only [programClosing, ends_bind, ends_mustPeek, if_pos h, ends_note, ends_pure, true_and]
  rfl

theorem period_of_programClosing {word : Bytes} (h : programClosing name s = .ok word s') :
    s.cursor.peek.kind = .period := by
  refine Decidable.byContradiction fun hperiod => ?_
  have hends : Ends (programClosing name) s (fun _ _ => False) fun _ _ => True := by
    simp only [programClosing, ends_bind, ends_mustPeek, if_neg hperiod]
  rw [ends_of_ok h] at hends
  exact hends

theorem closed_across (hJ : J.earlier = {}) (h : J.Ahead s.cursor) (name : Bytes) :
    (J.across s).closed name = { s.closed name with cursor := (J.cross s.cursor).next } := by
  rw [Seam.across_of_plain hJ]
  simp only [State.closed, h.cross_peek]

end Running

variable {file source : Bytes} {table : Table} {builder : Ir.Builder}

/-- The seam behind the closing period of a source that goes on with a suffix. -/
theorem exists_seam (file : Bytes) (table : Table) (builder : Ir.Builder) {s : State}
    (hs : s.Delimited)
    (hahead : s.cursor.ahead <:+ (TokenStream.ofSource source).tokens)
    (hperiod : s.cursor.peek.kind = .period) (suffix : Bytes) :
    ∃ J : Seam, J.earlier = {} ∧ J.Ahead s.cursor ∧
      J.across (.start file source table builder) =
        .start file (source ++ suffix) table builder := by
  have hremaining := one_lt_remaining hs (by simp [hperiod])
  obtain ⟨t, u, rest, hrest⟩ : ∃ t u rest, s.cursor.ahead = t :: u :: rest := by
    unfold Cursor.remaining at hremaining
    cases hc : s.cursor.ahead with
    | nil => simp [hc] at hremaining
    | cons t tail =>
      cases tail with
      | nil => simp [hc] at hremaining
      | cons u rest => exact ⟨t, u, rest, rfl⟩
  rw [Cursor.peek_of_ahead hrest] at hperiod
  obtain ⟨before, hbefore⟩ := hahead
  have htokens : (TokenStream.ofSource source).tokens = (before ++ [t]) ++ u :: rest := by
    rw [← hbefore, hrest]
    simp
  obtain ⟨rest', hfollowed⟩ := TokenStream.tokens_followed htokens hperiod suffix
  let stream := TokenStream.ofSource (source ++ suffix)
  have hfollowed : stream.tokens = (before ++ [t, u]) ++ rest' := by
    rw [show stream.tokens = _ from hfollowed]
    simp
  let J : Seam :=
    { first := rest
      second := ⟨rest', stream.eof⟩
      bounded := .inl ⟨TokenStream.kind_eof _ _, fun x hx =>
        TokenStream.kind_ne_eof_of_mem (s := source ++ suffix) <| by
          change x ∈ stream.tokens
          rw [hfollowed]
          exact List.mem_append_right _ hx⟩ }
  refine ⟨J, rfl, ⟨t, u, [], hrest⟩, ?_⟩
  have hcross : J.cross (.ofStream (.ofSource source)) = .ofStream stream := by
    rw [Seam.cross_of_append (w := before ++ [t, u]) (htokens.trans (by simp [J]))]
    simp only [Cursor.ofStream, hfollowed, J, List.append_nil]
  rw [Seam.across_of_plain rfl]
  simp only [State.start, hcross, stream]

/-- A program up to its period is read in the same way whatever follows the source. -/
theorem programInside_append {name : Bytes} {s : State}
    (h : programInside (.start file source table builder) = .ok name s)
    (hperiod : s.cursor.peek.kind = .period) (suffix : Bytes) :
    ∃ J : Seam, J.earlier = {} ∧ J.Ahead s.cursor ∧
      programInside (.start file (source ++ suffix) table builder) = .ok name (J.across s) := by
  have hs : (State.start file source table builder).Delimited := start_delimited
  have hproceeds := (Proceeds.wideFrame.keeps made_programInside).of_ok h
  obtain ⟨J, hJ, hahead, hacross⟩ := exists_seam file table builder
    (hproceeds.delimited hs) hproceeds.ahead hperiod suffix
  have hrun := (made_programInside.isLocal fun _ => by rw [hJ]).run (J := J) _ hs
  rw [Mirrors, ends_of_ok h] at hrun
  rw [← hacross]
  exact ⟨J, hJ, hahead, hrun.2 hahead⟩

/-- A source that gives a program gives the same program with anything behind it: the same name and
code, and the same table, code so far, diagnostics and trace.  Only the tokens that are left differ. -/
theorem parse_append {p : Program}
    (h : (parse file source table builder).result = .ok p) (suffix : Bytes) :
    (parse file (source ++ suffix) table builder).result = .ok p ∧
      ∃ cursor, (parse file (source ++ suffix) table builder).state =
        { (parse file source table builder).state with cursor := cursor } := by
  have hprogram := program_of_parse_ok h
  rw [program_eq] at hprogram
  cases hinside : programInside (.start file source table builder) with
  | error stop s =>
    rw [bind_run_of_error hinside] at hprogram
    cases hprogram
  | ok name s =>
    rw [bind_run_of_ok hinside] at hprogram
    have hperiod := period_of_programClosing hprogram
    obtain ⟨J, hJ, hahead, hcross⟩ := programInside_append hinside hperiod suffix
    have hsame : (J.across s).cursor.peek.kind = .period := by
      rw [← hperiod]
      exact congrArg Token.kind hahead.cross_peek
    have hwhole : program (.start file source table builder) = .ok name (s.closed name) := by
      rw [program_eq, bind_run_of_ok hinside, programClosing_of_period hperiod]
    have hfollowed : program (.start file (source ++ suffix) table builder) =
        .ok name { s.closed name with cursor := (J.cross s.cursor).next } := by
      rw [program_eq, bind_run_of_ok hcross, programClosing_of_period hsame, closed_across hJ hahead]
    rw [parse_of_ok hwhole] at h ⊢
    rw [parse_of_ok hfollowed]
    exact ⟨h, _, rfl⟩

/-- A program with a name that is declared twice, a procedure and a statement that is skipped. -/
def closedSource : Bytes :=
  text "program Twice is integer i; global float i; procedure q(integer a in) begin return; end procedure;
    begin i := ; if (i == 2) then i := 1; end if; end program."

/-- The source is recognised with two diagnostics, also with a digit, an open comment and an open string
right behind its period. -/
theorem closedSource_followed :
    ∃ p, (parse [] closedSource .empty (.new .standard)).result = .ok p ∧
      (parse [] closedSource .empty (.new .standard)).state.diagnostics.length = 2 ∧
      (parse [] (closedSource ++ text "5 /* \"") .empty (.new .standard)).result = .ok p ∧
      ∃ cursor, (parse [] (closedSource ++ text "5 /* \"") .empty (.new .standard)).state =
        { (parse [] closedSource .empty (.new .standard)).state with cursor := cursor } := by
  obtain ⟨hok, hdiagnostics⟩ :
      (parse [] closedSource .empty (.new .standard)).result.isOk = true ∧
        (parse [] closedSource .empty (.new .standard)).state.diagnostics.length = 2 := by
    decide +kernel
  cases hp : (parse [] closedSource .empty (.new .standard)).result with
  | error e =>
    rw [hp] at hok
    cases hok
  | ok p => exact ⟨p, rfl, hdiagnostics, parse_append hp _⟩

end OnePass.Program
