import OnePass.Proofs.Soundness.Expression
set_option autoImplicit false

/-!
# What productions report

The tokens that are reported between two states of a run stand in the order of the source, and none
is reported twice.  A production that succeeds has passed all that it reported (`Reports`).  One
that is rejected has reported one token more, which may still be ahead (`Refuses`); but recovering
passes that token too, or there is nothing to recover to, and then the program is given up at its
end (`Breaks`).

`Quiet` productions report nothing if they succeed and one token if they are rejected; `Orderly`
ones may have recovered on their way.
-/

namespace OnePass

/-- The tokens from the current one on, with the end. -/
def Cursor.stream (c : Cursor) : List Token := c.ahead ++ [c.eof]

@[simp] theorem Cursor.current_next (c : Cursor) : c.next.current = c.peek := rfl

theorem Cursor.current_mem_stream (c : Cursor) : c.current ∈ c.stream := by
  unfold current stream
  cases c.ahead <;> simp

theorem Cursor.peek_mem_stream (c : Cursor) : c.peek ∈ c.stream := by
  unfold peek stream
  rcases c.ahead with _ | ⟨t, _ | ⟨u, rest⟩⟩ <;> simp

namespace Program

/-! ## Diagnostics about tokens -/

/-- Whether diagnostics are about tokens, one by one, and none is about the end of the source. -/
structure About (file : Bytes) (ts : List Token) (ds : List Diagnostic) : Prop where
  positions : ds.map Diagnostic.position = ts.map (Token.position · file)
  located : ∀ d ∈ ds, d.code ≠ Diagnostic.scanEndCode

section About

variable {file : Bytes} {ts ts' : List Token} {ds ds' : List Diagnostic} {t : Token}

theorem about_nil : About file [] [] := by
  constructor
  · rfl
  · simp

theorem About.append (h : About file ts ds) (h' : About file ts' ds') :
    About file (ts ++ ts') (ds ++ ds') where
  positions := by rw [List.map_append, List.map_append, h.positions, h'.positions]
  located d hd := (List.mem_append.mp hd).elim (h.located d) (h'.located d)

theorem about_singleton {d : Diagnostic} (hposition : d.position = t.position file)
    (hcode : d.code ≠ Diagnostic.scanEndCode) : About file [t] [d] where
  positions := congrArg (· :: []) hposition
  located := List.forall_mem_singleton.mpr hcode

theorem misplaced_of_eof (h : t.kind = .eof) : misplaced file t = .scanEnd := by
  rw [misplaced, h]

theorem about_misplaced (h : t.kind ≠ .eof) : About file [t] [misplaced file t] := by
  unfold misplaced
  split
  · exact about_singleton rfl (by decide : Diagnostic.scanCode ≠ Diagnostic.scanEndCode)
  · next heof => exact absurd heof h
  · exact about_singleton rfl (by decide : Diagnostic.parseCode ≠ Diagnostic.scanEndCode)

theorem about_argument (literal : Bytes) :
    About file [t] [.argument (t.position file) literal] :=
  about_singleton rfl (by decide : Diagnostic.argumentCode ≠ Diagnostic.scanEndCode)

theorem about_duplicate (key : Bytes) :
    About file [t] [.duplicate (t.position file) key] :=
  about_singleton rfl (by decide : Diagnostic.duplicateCode ≠ Diagnostic.scanEndCode)

end About

/-! ## Reports between two states -/

/-- Whether the tokens `ts`, and nothing else, were reported between two states, and all of them
were passed. -/
structure Reports (ts : List Token) (s s' : State) : Prop where
  file : s'.file = s.file
  eof : s'.cursor.eof = s.cursor.eof
  passed : ∃ w, s.cursor.ahead = w ++ s'.cursor.ahead ∧ ts.Sublist w
  diagnostics : ∃ ds, s'.diagnostics = s.diagnostics ++ ds ∧ About s.file ts ds

/-- Whether the tokens `ts`, and nothing else, were reported between two states, and all of them
were passed or are under the cursor. -/
structure ReportsHere (ts : List Token) (s s' : State) : Prop where
  file : s'.file = s.file
  eof : s'.cursor.eof = s.cursor.eof
  passed : ∃ w, s.cursor.ahead = w ++ s'.cursor.ahead ∧ ts.Sublist (w ++ s'.cursor.ahead.take 1)
  diagnostics : ∃ ds, s'.diagnostics = s.diagnostics ++ ds ∧ About s.file ts ds

/-- Whether a diagnostic is about a token that comes behind the tokens `ts` and that recovering
passes, where the tokens `w` have been passed before; or it is about the end, and there is nothing
to recover to. -/
inductive Outstanding (file : Bytes) (w ts : List Token) (c : Cursor) (d : Diagnostic) : Prop where
  | token (t : Token) (n : Nat) (about : About file [t] [d])
      (order : (ts ++ [t]).Sublist (w ++ c.stream.take n))
      (skipped : ∀ depth m, skipLength depth c.ahead = some m → n ≤ m)
  | ending (about : d = .scanEnd) (order : ts.Sublist (w ++ c.stream))
      (stuck : ∀ depth, skipLength depth c.ahead = none)

/-- Whether the tokens `ts` were reported between two states, and then one more, because of which
the production was rejected. -/
structure Refuses (ts : List Token) (s s' : State) : Prop where
  file : s'.file = s.file
  eof : s'.cursor.eof = s.cursor.eof
  reported : ∃ w ds d, s.cursor.ahead = w ++ s'.cursor.ahead ∧ About s.file ts ds ∧
    s'.diagnostics = s.diagnostics ++ (ds ++ [d]) ∧ Outstanding s.file w ts s'.cursor d

/-- What was reported between two states when the program is given up: tokens in their order, and
then the end of the source, once or twice, or the token that breaks the structure. -/
inductive Breaks (s s' : State) : StructureError → Prop where
  | unexpectedEnd (ts : List Token) (ds : List Diagnostic) (n : Nat)
      (order : ts.Sublist s.cursor.stream) (about : About s.file ts ds) (times : n = 1 ∨ n = 2)
      (diagnostics : s'.diagnostics = s.diagnostics ++ (ds ++ List.replicate n .scanEnd)) :
      Breaks s s' .unexpectedEnd
  | malformed (ts : List Token) (ds : List Diagnostic) (t : Token)
      (order : (ts ++ [t]).Sublist s.cursor.stream) (about : About s.file ts ds)
      (kind : t.kind ≠ .eof)
      (diagnostics : s'.diagnostics = s.diagnostics ++ (ds ++ [misplaced s.file t])) :
      Breaks s s' (.malformed t.line t.literal)

/-- What was reported between two states when a production stops. -/
def Stops (s : State) : Stop → State → Prop
  | .reject, s' => ∃ ts, Refuses ts s s'
  | .fatal e, s' => Breaks s s' e

section Reports

variable {ts ts' : List Token} {s s' s'' : State}

/-- Nothing was passed and nothing was reported. -/
theorem Reports.of_eq (hfile : s'.file = s.file) (hcursor : s'.cursor = s.cursor)
    (hdiagnostics : s'.diagnostics = s.diagnostics) : Reports [] s s' where
  file := hfile
  eof := by rw [hcursor]
  passed := ⟨[], by rw [hcursor, List.nil_append], .slnil⟩
  diagnostics := ⟨[], by rw [hdiagnostics, List.append_nil], about_nil⟩

theorem Reports.refl (s : State) : Reports [] s s := .of_eq rfl rfl rfl

theorem Reports.trans (h : Reports ts s s') (h' : Reports ts' s' s'') :
    Reports (ts ++ ts') s s'' where
  file := h'.file.trans h.file
  eof := h'.eof.trans h.eof
  passed := by
    obtain ⟨w, hw, hsub⟩ := h.passed
    obtain ⟨w', hw', hsub'⟩ := h'.passed
    exact ⟨w ++ w', by rw [hw, hw', List.append_assoc], hsub.append hsub'⟩
  diagnostics := by
    obtain ⟨ds, hds, habout⟩ := h.diagnostics
    obtain ⟨ds', hds', habout'⟩ := h'.diagnostics
    rw [h.file] at habout'
    exact ⟨ds ++ ds', by rw [hds', hds, List.append_assoc], habout.append habout'⟩

theorem Reports.remaining_le (h : Reports ts s s') : s'.cursor.remaining ≤ s.cursor.remaining := by
  obtain ⟨w, hw, -⟩ := h.passed
  unfold Cursor.remaining
  rw [hw, List.length_append]
  omega

theorem Reports.here (h : Reports ts s s') : ReportsHere ts s s' where
  file := h.file
  eof := h.eof
  passed := by
    obtain ⟨w, hw, hsub⟩ := h.passed
    exact ⟨w, hw, hsub.trans (List.sublist_append_left w _)⟩
  diagnostics := h.diagnostics

/-- Stepping over the current token passes all that was reported. -/
theorem ReportsHere.next (h : ReportsHere ts s s') :
    Reports ts s { s' with cursor := s'.cursor.next } where
  file := h.file
  eof := h.eof
  passed := by
    obtain ⟨w, hw, hsub⟩ := h.passed
    refine ⟨w ++ s'.cursor.ahead.take 1, ?_, hsub⟩
    rw [hw, List.append_assoc]
    change _ = w ++ (s'.cursor.ahead.take 1 ++ s'.cursor.ahead.tail)
    rw [← List.drop_one, List.take_append_drop]
  diagnostics := h.diagnostics

theorem Reports.next (s : State) : Reports [] s { s with cursor := s.cursor.next } :=
  (Reports.refl s).here.next

theorem Reports.trans_here (h : Reports ts s s') (h' : ReportsHere ts' s' s'') :
    ReportsHere (ts ++ ts') s s'' where
  file := h'.file.trans h.file
  eof := h'.eof.trans h.eof
  passed := by
    obtain ⟨w, hw, hsub⟩ := h.passed
    obtain ⟨w', hw', hsub'⟩ := h'.passed
    refine ⟨w ++ w', by rw [hw, hw', List.append_assoc], ?_⟩
    rw [List.append_assoc]
    exact hsub.append hsub'
  diagnostics := by
    obtain ⟨ds, hds, habout⟩ := h.diagnostics
    obtain ⟨ds', hds', habout'⟩ := h'.diagnostics
    rw [h.file] at habout'
    exact ⟨ds ++ ds', by rw [hds', hds, List.append_assoc], habout.append habout'⟩

/-- The tokens that were passed, and the stream behind them, are the stream before. -/
theorem Reports.stream (h : Reports ts s s') :
    ∃ w, s.cursor.stream = w ++ s'.cursor.stream ∧ ts.Sublist w := by
  obtain ⟨w, hw, hsub⟩ := h.passed
  refine ⟨w, ?_, hsub⟩
  rw [Cursor.stream, hw, ← h.eof, List.append_assoc, ← Cursor.stream]

/-- What a production that starts with reports is refused for. -/
theorem Reports.refuses (h : Reports ts s s') (h' : Refuses ts' s' s'') :
    Refuses (ts ++ ts') s s'' := by
  obtain ⟨w, hw, hsub⟩ := h.passed
  obtain ⟨ds, hds, habout⟩ := h.diagnostics
  obtain ⟨w', ds', d, hw', habout', hds', hlast⟩ := h'.reported
  rw [h.file] at habout' hlast
  refine ⟨h'.file.trans h.file, h'.eof.trans h.eof, w ++ w', ds ++ ds', d, ?_, ?_, ?_, ?_⟩
  · rw [hw, hw', List.append_assoc]
  · exact habout.append habout'
  · rw [hds', hds, List.append_assoc, List.append_assoc]
  · cases hlast with
    | token t n hd horder hskipped =>
      refine .token t n hd ?_ hskipped
      rw [List.append_assoc, List.append_assoc]
      exact hsub.append horder
    | ending hd horder hstuck =>
      refine .ending hd ?_ hstuck
      rw [List.append_assoc]
      exact hsub.append horder

/-- What a production that starts with reports gives the program up for. -/
theorem Reports.breaks {e : StructureError} (h : Reports ts s s') (h' : Breaks s' s'' e) :
    Breaks s s'' e := by
  obtain ⟨w, hw, hsub⟩ := h.stream
  obtain ⟨ds, hds, habout⟩ := h.diagnostics
  cases h' with
  | unexpectedEnd ts' ds' n horder habout' htimes hds' =>
    rw [h.file] at habout'
    refine .unexpectedEnd (ts ++ ts') (ds ++ ds') n ?_ (habout.append habout') htimes ?_
    · rw [hw]
      exact hsub.append horder
    · rw [hds', hds, List.append_assoc, List.append_assoc]
  | malformed ts' ds' t horder habout' hkind hds' =>
    rw [h.file] at habout' hds'
    refine .malformed (ts ++ ts') (ds ++ ds') t ?_ (habout.append habout') hkind ?_
    · rw [hw, List.append_assoc]
      exact hsub.append horder
    · rw [hds', hds, List.append_assoc, List.append_assoc]

theorem Reports.stops {stop : Stop} (h : Reports ts s s') (h' : Stops s' stop s'') :
    Stops s stop s'' := by
  cases stop with
  | reject =>
    obtain ⟨ts', h'⟩ := h'
    exact ⟨ts ++ ts', h.refuses h'⟩
  | fatal e => exact h.breaks h'

end Reports

/-! ## Where the end stands -/

/-- Whether the kind that marks the end is that of the end and of no token in front of it. -/
structure State.Delimited (s : State) : Prop where
  marked : s.Marked
  proper : ∀ t ∈ s.cursor.ahead, t.kind ≠ .eof

section Delimited

variable {s s' : State}

theorem State.Delimited.of_suffix (hs : s.Delimited) (heof : s'.cursor.eof = s.cursor.eof)
    (hahead : s'.cursor.ahead <:+ s.cursor.ahead) : s'.Delimited := by
  constructor
  · unfold State.Marked
    rw [heof]
    exact hs.marked
  · intro t ht
    exact hs.proper t (hahead.subset ht)

theorem Proceeds.delimited (h : Proceeds s s') (hs : s.Delimited) : s'.Delimited :=
  hs.of_suffix h.eof h.ahead

theorem State.Delimited.withTable (hs : s.Delimited) (t : Table) :
    State.Delimited { s with table := t } := ⟨hs.marked, hs.proper⟩

theorem Reports.delimited {ts : List Token} (h : Reports ts s s') (hs : s.Delimited) :
    s'.Delimited := by
  obtain ⟨w, hw, -⟩ := h.passed
  exact hs.of_suffix h.eof ⟨w, hw.symm⟩

theorem ReportsHere.delimited {ts : List Token} (h : ReportsHere ts s s') (hs : s.Delimited) :
    s'.Delimited := by
  obtain ⟨w, hw, -⟩ := h.passed
  exact hs.of_suffix h.eof ⟨w, hw.symm⟩

theorem ahead_eq_nil (hs : s.Delimited) (h : s.cursor.current.kind = .eof) :
    s.cursor.ahead = [] := by
  cases hahead : s.cursor.ahead with
  | nil => rfl
  | cons t rest =>
    rw [Cursor.current_of_ahead hahead] at h
    have ht : t ∈ s.cursor.ahead := by simp [hahead]
    exact absurd h (hs.proper t ht)

theorem remaining_pos (hs : s.Delimited) (h : s.cursor.current.kind ≠ .eof) :
    0 < s.cursor.remaining := by
  unfold Cursor.remaining
  cases hahead : s.cursor.ahead with
  | nil =>
    unfold Cursor.current at h
    rw [hahead] at h
    exact absurd hs.marked h
  | cons t rest => simp

theorem one_lt_remaining (hs : s.Delimited) (h : s.cursor.peek.kind ≠ .eof) :
    1 < s.cursor.remaining := by
  have hnext := remaining_pos ((Reports.next s).delimited hs) h
  rw [Cursor.remaining_next] at hnext
  omega

/-- There is nothing to recover to on the last token, unless it is a semicolon. -/
theorem skipLength_of_peek_eof (hs : s.Delimited) (h : s.cursor.peek.kind = .eof)
    (hcurrent : s.cursor.current.kind ≠ .semicolon) (depth : Int) :
    skipLength depth s.cursor.ahead = none := by
  have htail : s.cursor.ahead.tail = [] := ahead_eq_nil ((Reports.next s).delimited hs) h
  cases hahead : s.cursor.ahead with
  | nil => rfl
  | cons t rest =>
    rw [hahead, List.tail_cons] at htail
    rw [Cursor.current_of_ahead hahead] at hcurrent
    rw [htail, skipLength, if_neg fun hend => hcurrent hend.2]

end Delimited

/-! ## Reporting one token -/

section One

variable {s s' : State}

/-- A token among those that were passed or under the cursor is reported. -/
theorem Reports.refuses_of_mem {s'' : State} (h : Reports [] s s') {w : List Token} {t : Token}
    {d : Diagnostic} (hw : s.cursor.ahead = w ++ s'.cursor.ahead)
    (ht : t ∈ w ++ s'.cursor.stream.take 1) (habout : About s'.file [t] [d])
    (hfile : s''.file = s'.file) (hcursor : s''.cursor = s'.cursor)
    (hdiagnostics : s''.diagnostics = s'.diagnostics ++ [d]) : Refuses [] s s'' := by
  obtain ⟨ds, hds, hds'⟩ := h.diagnostics
  obtain rfl : ds = [] := List.map_eq_nil_iff.mp hds'.positions
  rw [h.file] at habout
  refine ⟨hfile.trans h.file, ?_, w, [], d, ?_, about_nil, ?_, ?_⟩
  · rw [hcursor, h.eof]
  · rw [hcursor, hw]
  · rw [hdiagnostics, hds, List.append_nil, List.nil_append]
  · rw [hcursor]
    exact .token t 1 habout (List.singleton_sublist.mpr ht) fun _ _ hm => (skipLength_bounds hm).1

/-- The token that a quiet part of a run started on is reported. -/
theorem Reports.refuses_start {s'' : State} (h : Reports [] s s') {d : Diagnostic}
    (habout : About s'.file [s.cursor.current] [d])
    (hfile : s''.file = s'.file) (hcursor : s''.cursor = s'.cursor)
    (hdiagnostics : s''.diagnostics = s'.diagnostics ++ [d]) : Refuses [] s s'' := by
  obtain ⟨w, hw, -⟩ := h.passed
  refine h.refuses_of_mem hw ?_ habout hfile hcursor hdiagnostics
  unfold Cursor.current Cursor.stream
  rw [hw, h.eof]
  rcases w with _ | ⟨t, w⟩
  · cases s'.cursor.ahead <;> simp
  · simp

theorem refuses_current (hs : s.Delimited) :
    Refuses [] s
      { s with diagnostics := s.diagnostics ++ [misplaced s.file s.cursor.current] } := by
  by_cases h : s.cursor.current.kind = .eof
  · have hahead := ahead_eq_nil hs h
    refine ⟨rfl, rfl, [], [], .scanEnd, rfl, about_nil, ?_, ?_⟩
    · rw [misplaced_of_eof h, List.nil_append]
    · refine .ending rfl (List.nil_sublist _) fun depth => ?_
      change skipLength depth s.cursor.ahead = none
      rw [hahead, skipLength]
  · exact (Reports.refl s).refuses_start (about_misplaced h) rfl rfl rfl

/-- The next token is reported behind what was reported up to the current one. -/
theorem ReportsHere.refuses_peek {ts : List Token} (h : ReportsHere ts s s') (hs : s.Delimited)
    (hcurrent : s'.cursor.current.kind ≠ .semicolon) :
    Refuses ts s
      { s' with diagnostics := s'.diagnostics ++ [misplaced s'.file s'.cursor.peek] } := by
  have hs' := h.delimited hs
  obtain ⟨w, hw, hsub⟩ := h.passed
  obtain ⟨ds, hds, habout⟩ := h.diagnostics
  refine ⟨h.file, h.eof, w, ds, misplaced s'.file s'.cursor.peek, hw, habout, ?_, ?_⟩
  · rw [hds, List.append_assoc]
  by_cases heof : s'.cursor.peek.kind = .eof
  · have hstuck := skipLength_of_peek_eof hs' heof hcurrent
    refine .ending (misplaced_of_eof heof) ?_ hstuck
    refine hsub.trans ((List.Sublist.refl w).append ?_)
    exact (List.take_sublist 1 _).trans (List.sublist_append_left _ _)
  · rw [h.file]
    refine .token s'.cursor.peek 2 (about_misplaced heof) ?_ ?_
    · have hremaining := one_lt_remaining hs' heof
      have htake : s'.cursor.stream.take 2 = s'.cursor.ahead.take 1 ++ [s'.cursor.peek] := by
        unfold Cursor.remaining at hremaining
        rcases hahead : s'.cursor.ahead with _ | ⟨t, _ | ⟨u, rest⟩⟩
        · simp [hahead] at hremaining
        · simp [hahead] at hremaining
        · simp [Cursor.stream, Cursor.peek, hahead]
      rw [htake, ← List.append_assoc]
      exact hsub.append (.refl _)
    · intro depth m hm
      change skipLength depth s'.cursor.ahead = some m at hm
      cases hahead : s'.cursor.ahead with
      | nil =>
        rw [hahead] at hm
        cases hm
      | cons t rest =>
        rw [Cursor.current_of_ahead hahead] at hcurrent
        rw [hahead] at hm
        exact two_le_skipLength hcurrent hm

theorem refuses_peek (hs : s.Delimited) (hcurrent : s.cursor.current.kind ≠ .semicolon) :
    Refuses [] s { s with diagnostics := s.diagnostics ++ [misplaced s.file s.cursor.peek] } :=
  (Reports.refl s).here.refuses_peek hs hcurrent

/-- The program is given up at a token that is not passed yet. -/
theorem breaks_at {t : Token} (ht : t ∈ s.cursor.stream) :
    Breaks s { s with diagnostics := s.diagnostics ++ [misplaced s.file t] } (.at t) := by
  unfold StructureError.at
  split
  · next h =>
    refine .unexpectedEnd [] [] 1 (List.nil_sublist _) about_nil (.inl rfl) ?_
    rw [misplaced_of_eof h]
    rfl
  · next h => exact .malformed [] [] t (List.singleton_sublist.mpr ht) about_nil h rfl

theorem Refuses.remaining_le {ts : List Token} (h : Refuses ts s s') :
    s'.cursor.remaining ≤ s.cursor.remaining := by
  obtain ⟨w, ds, d, hw, -⟩ := h.reported
  unfold Cursor.remaining
  rw [hw, List.length_append]
  omega

/-- Skipping passes all that was reported. -/
theorem Refuses.reports_skip {ts : List Token} (h : Refuses ts s s') {depth : Int} {n : Nat}
    (hn : skipLength depth s'.cursor.ahead = some n) :
    ∃ ts', Reports ts' s { s' with cursor := s'.cursor.skip n } := by
  obtain ⟨w, ds, d, hw, habout, hds, hlast⟩ := h.reported
  obtain ⟨-, hle⟩ := skipLength_bounds hn
  cases hlast with
  | ending _ _ hstuck => simp [hstuck] at hn
  | token t m hd horder hskipped =>
    have hm := hskipped _ _ hn
    refine ⟨ts ++ [t], h.file, h.eof, ⟨w ++ s'.cursor.ahead.take n, ?_, ?_⟩, ?_⟩
    · rw [hw, Cursor.ahead_skip, List.append_assoc, List.take_append_drop]
    · refine horder.trans ((List.Sublist.refl w).append ?_)
      rw [Cursor.stream, List.take_append_of_le_length (Nat.le_trans hm hle)]
      exact List.take_sublist_take_left hm
    · exact ⟨ds ++ [d], hds, habout.append hd⟩

/-- The end of the tokens is reported behind what was reported, or once more. -/
theorem Refuses.breaks_end {ts : List Token} (h : Refuses ts s s') {c : Cursor} :
    Breaks s { s' with cursor := c, diagnostics := s'.diagnostics ++ [.scanEnd] }
      .unexpectedEnd := by
  obtain ⟨w, ds, d, hw, habout, hds, hlast⟩ := h.reported
  cases hlast with
  | ending hd horder _ =>
    refine .unexpectedEnd ts ds 2 ?_ habout (.inr rfl) ?_
    · rw [Cursor.stream, hw, ← h.eof, List.append_assoc]
      exact horder
    · change s'.diagnostics ++ [.scanEnd] = _
      rw [hds, hd]
      simp [List.replicate]
  | token t m hd horder _ =>
    refine .unexpectedEnd (ts ++ [t]) (ds ++ [d]) 1 ?_ (habout.append hd) (.inl rfl) ?_
    · refine horder.trans ?_
      rw [Cursor.stream, Cursor.stream, hw, ← h.eof, List.append_assoc]
      exact (List.Sublist.refl w).append (List.take_sublist m _)
    · change s'.diagnostics ++ [.scanEnd] = _
      rw [hds, List.append_assoc]
      rfl

/-- Recovering passes all that was reported, or gives the program up at its end. -/
theorem Refuses.ends_recover {ts : List Token} (h : Refuses ts s s') (hs : s.Delimited)
    (depth : Int) :
    Ends (recover s.diagnostics.length depth) s'
      (fun _ s'' => (∃ ts', Reports ts' s s'') ∧ s''.cursor.remaining < s'.cursor.remaining)
      (fun stop s'' => ∃ e, stop = .fatal e ∧ Breaks s s'' e) := by
  have hoverdue : overdue s.diagnostics.length s' = [] := by
    obtain ⟨w, ds, d, -, -, hds, -⟩ := h.reported
    rw [overdue, if_neg]
    rw [hds, List.length_append, List.length_append, List.length_singleton]
    omega
  rw [Program.ends_recover, hoverdue, List.append_nil]
  split
  · next n hn =>
    obtain ⟨hpos, hle⟩ := skipLength_bounds hn
    refine ⟨h.reports_skip hn, ?_⟩
    rw [Cursor.remaining_skip]
    unfold Cursor.remaining
    omega
  · have heof : s.cursor.eof.kind = .eof := hs.marked
    have hlength : s'.cursor.remaining = s'.cursor.ahead.length := rfl
    have hend : (s'.cursor.skip s'.cursor.remaining).current = s.cursor.eof := by
      unfold Cursor.current
      rw [Cursor.ahead_skip, Cursor.eof_skip, hlength, List.drop_length, h.eof]
      rfl
    rw [hend, StructureError.at, if_pos heof, misplaced_of_eof heof]
    exact ⟨_, rfl, h.breaks_end⟩

end One

/-! ## Quiet, orderly and steady productions -/

/-- A production that reports nothing if it succeeds, and then `Q` holds; and exactly one token if
it does not, and then it is rejected. -/
def Quiet {α : Type} (p : Parser α) (s : State) (Q : α → State → Prop) : Prop :=
  Ends p s (fun a s' => Reports [] s s' ∧ Q a s') fun stop s' => stop = .reject ∧ Refuses [] s s'

/-- A production that reports tokens in their order; if it succeeds, `Q` holds. -/
def Orderly {α : Type} (p : Parser α) (s : State) (Q : α → State → Prop) : Prop :=
  Ends p s (fun a s' => (∃ ts, Reports ts s s') ∧ Q a s') (Stops s)

/-- A production that reports tokens in their order and is never rejected; if it succeeds, `Q`
holds. -/
def Steady {α : Type} (p : Parser α) (s : State) (Q : α → State → Prop) : Prop :=
  Ends p s (fun a s' => (∃ ts, Reports ts s s') ∧ Q a s')
    fun stop s' => ∃ e, stop = .fatal e ∧ Breaks s s' e

section Judgements

variable {α β : Type} {s : State} {P : β → State → Prop} {Q Q' : α → State → Prop}

theorem Quiet.orderly {p : Parser α} (h : Quiet p s Q) : Orderly p s Q := by
  refine Ends.mono h (fun a s' ha => ⟨⟨[], ha.1⟩, ha.2⟩) ?_
  rintro _ s' ⟨rfl, hrefused⟩
  exact ⟨[], hrefused⟩

theorem Steady.orderly {p : Parser α} (h : Steady p s Q) : Orderly p s Q := by
  refine Ends.mono h (fun _ _ ha => ha) ?_
  rintro _ s' ⟨e, rfl, hbreaks⟩
  exact hbreaks

theorem quiet_pure {a : α} (h : Q a s) : Quiet (pure a) s Q := ⟨.refl s, h⟩

theorem Quiet.bind {p : Parser β} {f : β → Parser α} (hp : Quiet p s P)
    (hf : ∀ b s', Reports [] s s' → P b s' → Quiet (f b) s' Q) : Quiet (p >>= f) s Q := by
  unfold Quiet
  rw [ends_bind]
  refine Ends.mono hp ?_ fun _ _ hstop => hstop
  rintro b s' ⟨hreports, hP⟩
  refine Ends.mono (hf b s' hreports hP) ?_ ?_
  · rintro a s'' ⟨hreports', hQ⟩
    exact ⟨hreports.trans hreports', hQ⟩
  · rintro stop s'' ⟨hstop, hrefused⟩
    exact ⟨hstop, hreports.refuses hrefused⟩

theorem Orderly.bind {p : Parser β} {f : β → Parser α} (hp : Orderly p s P)
    (hf : ∀ b s' ts, Reports ts s s' → P b s' → Orderly (f b) s' Q) : Orderly (p >>= f) s Q := by
  unfold Orderly
  rw [ends_bind]
  refine Ends.mono hp ?_ fun _ _ hstop => hstop
  rintro b s' ⟨⟨ts, hreports⟩, hP⟩
  refine Ends.mono (hf b s' ts hreports hP) ?_ ?_
  · rintro a s'' ⟨⟨ts', hreports'⟩, hQ⟩
    exact ⟨⟨ts ++ ts', hreports.trans hreports'⟩, hQ⟩
  · intro stop s'' hstops
    exact hreports.stops hstops

/-- A production that starts with reports goes on. -/
theorem Reports.steady {s' : State} {ts : List Token} {p : Parser α} (h : Reports ts s s')
    (hp : Steady p s' Q) :
    Ends p s' (fun a s'' => (∃ ts, Reports ts s s'') ∧ Q a s'')
      fun stop s'' => ∃ e, stop = .fatal e ∧ Breaks s s'' e := by
  refine Ends.mono hp ?_ ?_
  · rintro a s'' ⟨⟨ts', h'⟩, hQ⟩
    exact ⟨⟨ts ++ ts', h.trans h'⟩, hQ⟩
  · rintro stop s'' ⟨e, hstop, hbreaks⟩
    exact ⟨e, hstop, h.breaks hbreaks⟩

theorem Steady.bind {p : Parser β} {f : β → Parser α} (hp : Steady p s P)
    (hf : ∀ b s' ts, Reports ts s s' → P b s' → Steady (f b) s' Q) : Steady (p >>= f) s Q := by
  unfold Steady
  rw [ends_bind]
  refine Ends.mono hp ?_ fun _ _ hstop => hstop
  rintro b s' ⟨⟨ts, hreports⟩, hP⟩
  exact hreports.steady (hf b s' ts hreports hP)

end Judgements

/-! ## Single steps -/

section Steps

variable {α : Type} {s : State} {Q : α → State → Prop}

theorem quiet_bind_current (f : Token → Parser α) :
    Quiet (current >>= f) s Q ↔ Quiet (f s.cursor.current) s Q := Iff.rfl

theorem quiet_bind_peek (f : Token → Parser α) :
    Quiet (peek >>= f) s Q ↔ Quiet (f s.cursor.peek) s Q := Iff.rfl

theorem quiet_bind_currentIs (kind : TokenKind) (f : Bool → Parser α) :
    Quiet (currentIs kind >>= f) s Q ↔ Quiet (f (s.cursor.current.kind = kind)) s Q := Iff.rfl

theorem quiet_bind_peekIs (kind : TokenKind) (f : Bool → Parser α) :
    Quiet (peekIs kind >>= f) s Q ↔ Quiet (f (s.cursor.peek.kind = kind)) s Q := Iff.rfl

theorem quiet_bind_remaining (f : Nat → Parser α) :
    Quiet (remaining >>= f) s Q ↔ Quiet (f s.cursor.remaining) s Q := Iff.rfl

theorem quiet_bind_get (f : State → Parser α) :
    Quiet (get >>= f) s Q ↔ Quiet (f s) s Q := Iff.rfl

theorem quiet_advance (s : State) : Quiet advance s fun _ s' => s'.cursor = s.cursor.next :=
  ⟨.next s, rfl⟩

theorem quiet_rejectCurrent (hs : s.Delimited) :
    Quiet (rejectToken s.cursor.current : Parser α) s Q := ⟨rfl, refuses_current hs⟩

theorem quiet_rejectPeek (hs : s.Delimited) (hcurrent : s.cursor.current.kind ≠ .semicolon) :
    Quiet (rejectToken s.cursor.peek : Parser α) s Q := ⟨rfl, refuses_peek hs hcurrent⟩

/-- Where `expectPeek` leads to if it succeeds. -/
structure Steps (kind : TokenKind) (s s' : State) : Prop where
  current : s'.cursor.current.kind = kind
  remaining : s'.cursor.remaining = s.cursor.remaining - 1

theorem quiet_expectPeek {kind : TokenKind} (hs : s.Delimited)
    (hcurrent : s.cursor.current.kind ≠ .semicolon) :
    Quiet (expectPeek kind) s fun _ => Steps kind s := by
  unfold Quiet
  rw [ends_expectPeek]
  split
  · next hkind => exact ⟨.next s, hkind, Cursor.remaining_next s.cursor⟩
  · exact ⟨rfl, refuses_peek hs hcurrent⟩

end Steps

end Program

end OnePass
