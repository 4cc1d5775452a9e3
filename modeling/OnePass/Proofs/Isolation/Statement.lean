import OnePass.Proofs.Acceptance.Statement
import OnePass.Proofs.Seam.Production
set_option autoImplicit false

/-!
# Statements keep to themselves

A statement is read with statements before it, which may have left diagnostics, and with other tokens
behind it.  In front of a seam behind its semicolon it is read as if there was nothing else
(`exists_terminated`): a statement of the grammar ends before its semicolon, and one that is rejected is
skipped up to it.  So what is behind the semicolon is read as if nothing had happened, and the diagnostics
of a run of statements are those of its parts in a row (`statements_append`).
-/

namespace OnePass.Program

open OnePass.Grammar

/-! ## Tokens alone -/

/-- The state in which there is nothing but some tokens to be read. -/
def State.alone (file : Bytes) (table : Table) (ts : List Token) : State :=
  ⟨file, ⟨[], ts, default⟩, table, default, [], [], 0⟩

/-- The seam in a state in front of `rest`, behind which there is nothing in the first stream. -/
def State.seam (s : State) (rest : List Token) : Seam where
  first := []
  second := ⟨rest, s.cursor.eof⟩
  earlier := ⟨s.cursor.passed, s.diagnostics, s.trace, s.nesting, some s.builder⟩
  bounded := .inr (Nat.zero_le _)

theorem across_alone {s : State} {ts rest : List Token} (h : s.cursor.ahead = ts ++ rest) :
    (s.seam rest).across (.alone s.file s.table ts) = s := by
  simp [State.seam, State.alone, Seam.across, Seam.cross, ← h]

/-- Statements do not hold the end of the source. -/
theorem eof_notMem_phrase {c : Phrases} {w : List TokenKind} (hw : Phrase c w) :
    TokenKind.eof ∉ w := by
  induction hw with
  | returns => simp
  | builtin b hcall => simp [eof_notMem_of_plain (plain_of_mem_call hcall)]
  | call hcall => simp [eof_notMem_of_plain (plain_of_mem_call hcall)]
  | assignment ha => exact eof_notMem_of_plain (plain_of_mem_assignment ha)
  | ifThen hc _ ih => simp [eof_notMem_of_plain (plain_of_mem_expression hc), ih]
  | ifElse hc _ _ ihv ihw => simp [eof_notMem_of_plain (plain_of_mem_expression hc), ihv, ihw]
  | forLoop ha hc _ ih =>
    simp [eof_notMem_of_plain (plain_of_mem_assignment ha),
      eof_notMem_of_plain (plain_of_mem_expression hc), ih]
  | nil => simp
  | cons _ _ ihv ihw => simp [ihv, ihw]

/-! ## Statements and their semicolons -/

section Terminated

variable {J : Seam} {s s' : State} {inner : Parser Nat}

theorem terminated_of_ok {u : Unit} (h : statement inner s = .ok u s')
    (hpeek : s'.cursor.peek.kind = .semicolon) :
    terminated inner s = .ok () { s' with cursor := s'.cursor.next.next } := by
  refine ok_iff_ends.mpr ?_
  simp only [terminated, endStatement, ends_bind, ends_reported, ends_get, ends_succeeds, ends_of_ok h,
    ends_peekIs, hpeek, decide_true, Bool.and_self, ends_ite, if_true, ends_advance, true_and]

theorem terminated_of_reject {s₁ s₂ : State} (h : statement inner s = .error .reject s₁)
    (hrecover : recover s.diagnostics.length ((s₁.nesting : Int) - s.nesting) s₁ = .ok () s₂) :
    terminated inner s = .ok () { s₂ with nesting := s.nesting } := by
  refine ok_iff_ends.mpr ?_
  simp only [terminated, endStatement, ends_bind, ends_reported, ends_get, ends_succeeds,
    ends_of_error h, ends_peekIs, Bool.false_and, Bool.false_eq_true, ends_ite, if_false,
    ends_recoverFrom, ends_of_ok hrecover]
  exact ⟨trivial, trivial⟩

/-- A statement and its semicolon in front of the seam, however the statement ends. -/
theorem terminated_across {t : Token} (ht : t.kind = .semicolon)
    (hstatement : Mirrors J (statement inner) (statement inner) s)
    (hends : Recovers false s.nesting (statement inner) s (t :: J.first) J.first)
    (hrun : terminated inner s = .ok () s') :
    terminated inner (J.across s) = .ok () (J.across s') := by
  unfold Recovers at hends
  unfold Mirrors at hstatement
  cases hq : statement inner s with
  | ok u s₁ =>
    rw [ends_of_ok hq] at hends hstatement
    obtain ⟨htail, -⟩ := hends
    obtain ⟨x, hs₁⟩ : ∃ x, s₁.cursor.ahead = x :: ([t] ++ J.first) := by
      cases hahead : s₁.cursor.ahead with
      | nil => simp [hahead] at htail
      | cons x rest => exact ⟨x, congrArg (x :: ·) ((congrArg List.tail hahead).symm.trans htail)⟩
    have hahead : J.Ahead s₁.cursor := ⟨x, t, [], hs₁⟩
    have hpeek : s₁.cursor.peek.kind = .semicolon := by rw [Cursor.peek_of_ahead hs₁, ht]
    have hpeek' : (J.across s₁).cursor.peek.kind = .semicolon :=
      (congrArg Token.kind hahead.cross_peek).trans hpeek
    have hnext : s₁.cursor.next.ahead = t :: ([] ++ J.first) := by
      rw [Cursor.ahead_next, hs₁]
      rfl
    rw [terminated_of_ok hq hpeek] at hrun
    obtain ⟨-, rfl⟩ := EStateM.Result.ok.inj hrun
    rw [terminated_of_ok (hstatement.2 hahead) hpeek']
    simp only [Seam.across, Seam.cross_next hs₁, Seam.cross_next hnext]
  | error stop s₁ =>
    rw [ends_of_error hq] at hends hstatement
    obtain ⟨rfl, d, hnesting, ⟨n, hskip, hgoal⟩, hplain⟩ := hends
    -- Where it is rejected, a token of the statement and its semicolon are ahead.
    obtain ⟨w, hw, hn⟩ : ∃ w, s₁.cursor.ahead = w ++ J.first ∧ w.length = n := by
      refine ⟨s₁.cursor.ahead.take n, ?_, ?_⟩
      · rw [← hgoal, List.take_append_drop]
      · rw [List.length_take, Nat.min_eq_left (skipLength_bounds hskip).2]
    have hahead : J.Ahead s₁.cursor := by
      obtain ⟨x, more, hx⟩ : ∃ x more, s₁.cursor.ahead = x :: more :=
        List.exists_cons_of_length_pos (Nat.le_trans (skipLength_bounds hskip).1 (skipLength_bounds hskip).2)
      rw [Cursor.current_of_ahead hx] at hplain
      have htwo := two_le_skipLength hplain.1 (hx ▸ hskip)
      obtain ⟨x, w, rfl⟩ : ∃ x w', w = x :: w' := List.exists_cons_of_length_pos (by omega)
      obtain ⟨y, w, rfl⟩ : ∃ y w', w = y :: w' :=
        List.exists_cons_of_length_pos (by rw [List.length_cons] at hn; omega)
      exact ⟨x, y, w, hw⟩
    have hdepth : (s₁.nesting : Int) - s.nesting = d := by omega
    have hdepth' : ((J.across s₁).nesting : Int) - (J.across s).nesting = d := by
      change ((J.earlier.nesting + s₁.nesting : Nat) : Int) - (J.earlier.nesting + s.nesting : Nat) = d
      omega
    have hlength : (J.across s).diagnostics.length =
        J.earlier.diagnostics.length + s.diagnostics.length := List.length_append
    have hrecover : recover s.diagnostics.length d s₁ = .ok () { s₁ with
        cursor := s₁.cursor.skip n
        diagnostics := s₁.diagnostics ++ overdue s.diagnostics.length s₁ } := by
      rw [unit_ok_iff_ends, ends_recover, hskip]
    have hrecover' := recover_across s.diagnostics.length hw hskip (Nat.le_of_eq hn.symm)
    rw [← hdepth] at hrecover
    rw [← hlength, ← hdepth'] at hrecover'
    rw [terminated_of_reject hq hrecover] at hrun
    obtain ⟨-, rfl⟩ := EStateM.Result.ok.inj hrun
    rw [terminated_of_reject (hstatement.2 rfl hahead) hrecover']
    rfl

end Terminated

/-! ## The diagnostics of statements in a row -/

/-- What reading statements leaves behind: the tokens up to `rest` are passed and `found` is reported;
the table and the number of open blocks stay. -/
structure Behind (s s' : State) (rest : List Token) (found : List Diagnostic) : Prop where
  file : s'.file = s.file
  table : s'.table = s.table
  ahead : s'.cursor.ahead = rest
  eof : s'.cursor.eof = s.cursor.eof
  diagnostics : s'.diagnostics = s.diagnostics ++ found
  nesting : s'.nesting = s.nesting

theorem Behind.trans {s s₁ s₂ : State} {middle rest : List Token} {found found' : List Diagnostic}
    (h : Behind s s₁ middle found) (h' : Behind s₁ s₂ rest found') :
    Behind s s₂ rest (found ++ found') where
  file := h'.file.trans h.file
  table := h'.table.trans h.table
  ahead := h'.ahead
  eof := h'.eof.trans h.eof
  diagnostics := by rw [h'.diagnostics, h.diagnostics, List.append_assoc]
  nesting := h'.nesting.trans h.nesting

/-- Whether reading `count` statements finds what is said, wherever they stand in a file and whatever
follows them, and goes on behind them. -/
def Find (file : Bytes) (table : Table) (ts : List Token) (count : Nat) (found : List Diagnostic) :
    Prop :=
  ∀ (s : State) (rest : List Token) (depth : Nat), s.file = file → s.table = table →
    s.cursor.ahead = ts ++ rest → ts.length < depth + count →
    ∃ s', Behind s s' rest found ∧ ∀ n s'', statementsWithin depth s' = .ok n s'' →
      statementsWithin (depth + count) s = .ok (n + count) s''

section Rows

variable {file : Bytes} {table : Table} {m n : Nat} {ts us : List Token} {t : Token}

/-- Alone, a statement is read in the same way whatever it is bounded by. -/
theorem terminated_alone (hw : Phrase .one (ts.map Token.kind)) (ht : t.kind = .semicolon)
    (file : Bytes) (table : Table) :
    (State.alone file table (ts ++ [t])).Delimited ∧ ∀ depth, ts.length < depth →
      terminated (statementsWithin depth) (.alone file table (ts ++ [t])) =
        terminated (statementsWithin (ts.length + 1)) (.alone file table (ts ++ [t])) := by
  have hdelimited : (State.alone file table (ts ++ [t])).Delimited := by
    refine ⟨rfl, fun x hx heof => ?_⟩
    rcases List.mem_append.mp hx with hx | hx
    · exact eof_notMem_phrase hw (heof ▸ List.mem_map_of_mem hx)
    · rw [List.mem_singleton.mp hx, ht] at heof
      cases heof
  have hcut (depth : Nat) (hdepth : ts.length < depth) :=
    (terminated_strides (fun s' hs' (hlt : s'.cursor.remaining < ts.length + 1) =>
      statementsWithin_strides exhausted depth (ts.length + 1) s' hs' (by omega) hlt) hdelimited
      (by simp [Cursor.remaining, State.alone])).1
  refine ⟨hdelimited, fun depth hdepth => ?_⟩
  rw [← hcut depth hdepth, hcut _ (Nat.lt_add_one _)]

/-- What a statement finds depends on its tokens, the file and the table only. -/
theorem exists_terminated (hw : Phrase .one (ts.map Token.kind)) (ht : t.kind = .semicolon)
    (file : Bytes) (table : Table) :
    ∃ found, ∀ (s : State) (rest : List Token) (depth : Nat), s.file = file → s.table = table →
      s.cursor.ahead = ts ++ t :: rest → ts.length < depth →
      ∃ s', Behind s s' rest found ∧ terminated (statementsWithin depth) s = .ok () s' := by
  obtain ⟨hdelimited, hsame⟩ := terminated_alone hw ht file table
  have hspells : Spells (ts.map Token.kind) (State.alone file table (ts ++ [t])).cursor.ahead [t] :=
    spells_iff.mpr ⟨ts, rfl, rfl⟩
  have hlength : (ts.map Token.kind).length = ts.length := List.length_map _
  have htaken := taken_of_accepted (accepted_of_phrase hw) (ts.length + 1) _ t [] (by omega) ht hspells
  have hreads := Reads.frame.keeps (made_terminated (made_statementsWithin (ts.length + 1)))
    (.alone file table (ts ++ [t]))
  have hends := Ends.and htaken hreads
  unfold Ends at hends
  cases hrun : terminated (statementsWithin (ts.length + 1)) (.alone file table (ts ++ [t])) with
  | error stop s' =>
    rw [hrun] at hends
    exact hends.1.elim
  | ok u s' =>
    rw [hrun] at hends
    obtain ⟨⟨hahead, hnesting, -⟩, hreads⟩ := hends
    refine ⟨s'.diagnostics, ?_⟩
    rintro s rest depth rfl rfl hs hdepth
    have hlocal : Local (s.seam rest) (statement (statementsWithin depth)) :=
      Made.isLocal (w := false) (made_statement (made_statementsWithin depth)) fun h =>
        Bool.noConfusion h
    have hrecovers := accepted_of_phrase hw depth _ [t] [] (by omega)
      (.of_kind ht (by simp) (by simp)) (.semicolon ht (by simp)) hspells
    have hself := terminated_across ht (hlocal.run _ hdelimited) hrecovers
      ((hsame depth hdepth).trans hrun)
    rw [across_alone (by rw [hs, List.append_assoc]; rfl)] at hself
    refine ⟨(s.seam rest).across s', ⟨hreads.file, hreads.table, ?_, rfl, rfl, ?_⟩, hself⟩
    · simp [Seam.across, Seam.cross, State.seam, hahead]
    · change s.nesting + s'.nesting = s.nesting
      rw [hnesting]
      rfl

theorem exists_find_one (hw : Phrase .one (ts.map Token.kind)) (ht : t.kind = .semicolon)
    (file : Bytes) (table : Table) : ∃ found, Find file table (ts ++ [t]) 1 found := by
  obtain ⟨found, hfound⟩ := exists_terminated hw ht file table
  refine ⟨found, fun s rest depth hfile htable hs hdepth => ?_⟩
  rw [List.length_append, List.length_singleton] at hdepth
  rw [List.append_assoc] at hs
  obtain ⟨s', hbehind, hrun⟩ := hfound s rest depth hfile htable hs (by omega)
  have hstarts : startsStatement s.cursor.current = true :=
    (starts_of_phrase hw).current (spells_iff.mpr ⟨ts, hs, rfl⟩)
  refine ⟨s', hbehind, fun n s'' hothers => ?_⟩
  change (if startsStatement s.cursor.current then _ else _ : Parser Nat) s = _
  rw [if_pos hstarts, bind_run_of_ok hrun, bind_run_of_ok hothers]
  rfl

theorem find_nil : Find file table [] 0 [] := by
  intro s rest depth _ _ hs _
  exact ⟨s, ⟨rfl, rfl, hs, rfl, (List.append_nil _).symm, rfl⟩, fun _ _ hothers => hothers⟩

/-- Statements in a row find what they find one after the other. -/
theorem Find.append {found found' : List Diagnostic} (hm : m ≤ ts.length)
    (h : Find file table ts m found) (h' : Find file table us n found') :
    Find file table (ts ++ us) (m + n) (found ++ found') := by
  intro s rest depth hfile htable hs hdepth
  rw [List.length_append] at hdepth
  rw [List.append_assoc] at hs
  obtain ⟨s₁, hfirst, hrun⟩ := h s (us ++ rest) (depth + n) hfile htable hs (by omega)
  obtain ⟨s₂, hsecond, hrun'⟩ := h' s₁ rest depth (hfirst.file.trans hfile)
    (hfirst.table.trans htable) hfirst.ahead (by omega)
  refine ⟨s₂, hfirst.trans hsecond, fun k s₃ hothers => ?_⟩
  rw [Nat.add_comm m n, ← Nat.add_assoc, ← Nat.add_assoc]
  exact hrun _ s₃ (hrun' k s₃ hothers)

theorem count_le_length_of_phrase {w : List TokenKind} (hw : Phrase (.many n) w) :
    n ≤ w.length := by
  induction n generalizing w with
  | zero => exact Nat.zero_le _
  | succ n ih =>
    cases hw with
    | cons _ hw =>
      have := ih hw
      simp only [List.length_append, List.length_cons]
      omega

theorem exists_find (hw : Phrase (.many n) (ts.map Token.kind)) (file : Bytes) (table : Table) :
    ∃ found, Find file table ts n found := by
  induction n generalizing ts with
  | zero =>
    generalize hword : ts.map Token.kind = w at hw
    cases hw with
    | nil =>
      obtain rfl := List.map_eq_nil_iff.mp hword
      exact ⟨[], find_nil⟩
  | succ n ih =>
    generalize hword : ts.map Token.kind = w at hw
    cases hw with
    | cons hv hw =>
      obtain ⟨us, behind, rfl, rfl, hbehind⟩ := List.map_eq_append_iff.mp hword
      obtain ⟨t, vs, rfl, ht, rfl⟩ := List.map_eq_cons_iff.mp hbehind
      obtain ⟨found, hfirst⟩ := exists_find_one hv ht file table
      obtain ⟨found', hothers⟩ := ih hw
      have hrow := Find.append (by simp) hfirst hothers
      rw [List.append_assoc, Nat.add_comm] at hrow
      exact ⟨found ++ found', hrow⟩

/-- Statements that nothing which starts a statement follows. -/
theorem Find.ends {found : List Diagnostic} (hn : n ≤ ts.length) (h : Find file table ts n found)
    {s : State} {rest : List Token} (hfile : s.file = file) (htable : s.table = table)
    (hs : s.cursor.ahead = ts ++ rest) (hrest : startsStatement (rest.headD s.cursor.eof) = false) :
    ∃ s', Behind s s' rest found ∧ statements s = .ok n s' := by
  have hremaining : s.cursor.remaining = ts.length + rest.length := by
    rw [Cursor.remaining, hs, List.length_append]
  obtain ⟨depth, hdepth⟩ : ∃ depth, s.cursor.remaining + 1 = depth + 1 + n :=
    ⟨s.cursor.remaining - n, by omega⟩
  obtain ⟨s', hbehind, hrun⟩ := h s rest (depth + 1) hfile htable hs (by omega)
  have hcurrent : startsStatement s'.cursor.current = false := by
    rw [Cursor.current, hbehind.ahead, hbehind.eof]
    exact hrest
  have hlast : statementsWithin (depth + 1) s' = .ok 0 s' := by
    change (if startsStatement s'.cursor.current then _ else _ : Parser Nat) s' = _
    rw [hcurrent]
    rfl
  refine ⟨s', hbehind, ?_⟩
  change statementsWithin (s.cursor.remaining + 1) s = _
  rw [hdepth, hrun 0 s' hlast, Nat.zero_add]

/-- Statements in a row report what each part reports by itself, in that order, whatever is wrong with
them, and are counted together.  What they report depends on their tokens, the file and the table
only. -/
theorem statements_append (hts : Phrase (.many m) (ts.map Token.kind))
    (hus : Phrase (.many n) (us.map Token.kind)) (file : Bytes) (table : Table) :
    ∃ found found' : List Diagnostic, ∀ (s : State) (rest : List Token), s.file = file →
      s.table = table → startsStatement (rest.headD s.cursor.eof) = false →
      (s.cursor.ahead = ts ++ rest →
        ∃ s', Behind s s' rest found ∧ statements s = .ok m s') ∧
      (s.cursor.ahead = us ++ rest →
        ∃ s', Behind s s' rest found' ∧ statements s = .ok n s') ∧
      (s.cursor.ahead = ts ++ us ++ rest →
        ∃ s', Behind s s' rest (found ++ found') ∧ statements s = .ok (m + n) s') := by
  have hm : m ≤ ts.length := List.length_map (f := Token.kind) ▸ count_le_length_of_phrase hts
  have hn : n ≤ us.length := List.length_map (f := Token.kind) ▸ count_le_length_of_phrase hus
  obtain ⟨found, hfirst⟩ := exists_find hts file table
  obtain ⟨found', hsecond⟩ := exists_find hus file table
  have hrow := hfirst.append hm hsecond
  refine ⟨found, found', fun s rest hfile htable hrest => ⟨fun hs => ?_, fun hs => ?_, fun hs => ?_⟩⟩
  · exact hfirst.ends hm hfile htable hs hrest
  · exact hsecond.ends hn hfile htable hs hrest
  · exact hrow.ends (by rw [List.length_append]; omega) hfile htable hs hrest

/-- The tokens of `if (1.5) then return; end if;`, where a float is no condition. -/
def faultyTokens : List Token :=
  [⟨.kwIf, text "if", 1, 1⟩, ⟨.leftParen, text "(", 1, 4⟩, ⟨.literal .float, text "1.5", 1, 5⟩,
    ⟨.rightParen, text ")", 1, 8⟩, ⟨.kwThen, text "then", 1, 10⟩, ⟨.kwReturn, text "return", 1, 15⟩,
    ⟨.semicolon, text ";", 1, 21⟩, ⟨.kwEnd, text "end", 1, 23⟩, ⟨.kwIf, text "if", 1, 27⟩,
    ⟨.semicolon, text ";", 1, 29⟩]

/-- The tokens of `return;`. -/
def returnTokens : List Token :=
  [⟨.kwReturn, text "return", 2, 1⟩, ⟨.semicolon, text ";", 2, 7⟩]

/-- Tokens in front of `end`. -/
def closedRow (ts : List Token) : State :=
  .alone (text "row.src") .empty (ts ++ [⟨.kwEnd, text "end", 3, 1⟩])

/-- The inner statement and the inner semicolon are skipped with the faulty statement around them, and
what follows is read. -/
theorem faultyTokens_isolated :
    ∃ found found' : List Diagnostic,
      (∃ s', Behind (closedRow faultyTokens) s' [⟨.kwEnd, text "end", 3, 1⟩] found ∧
        statements (closedRow faultyTokens) = .ok 1 s') ∧
      (∃ s', Behind (closedRow returnTokens) s' [⟨.kwEnd, text "end", 3, 1⟩] found' ∧
        statements (closedRow returnTokens) = .ok 1 s') ∧
      ∃ s', Behind (closedRow (faultyTokens ++ returnTokens)) s' [⟨.kwEnd, text "end", 3, 1⟩]
          (found ++ found') ∧
        statements (closedRow (faultyTokens ++ returnTokens)) = .ok 2 s' := by
  have hreturns : Phrase (.many 1) (returnTokens.map Token.kind) := .cons .returns .nil
  have hfaulty : Phrase (.many 1) (faultyTokens.map Token.kind) :=
    .cons (.ifThen (.ofFactor (.literal .float)) hreturns) .nil
  obtain ⟨found, found', h⟩ := statements_append hfaulty hreturns (text "row.src") .empty
  refine ⟨found, found', ?_, ?_, ?_⟩
  · exact (h (closedRow faultyTokens) _ rfl rfl rfl).1 rfl
  · exact (h (closedRow returnTokens) _ rfl rfl rfl).2.1 rfl
  · exact (h (closedRow (faultyTokens ++ returnTokens)) _ rfl rfl rfl).2.2 rfl

end Rows

end OnePass.Program
