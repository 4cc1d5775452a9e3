import OnePass.Proofs.Emission.Declaration
import OnePass.Proofs.Reporting.Statement
set_option autoImplicit false

/-!
# What declarations report

Bounds and parameters are quiet.  A declaration may report the name that it declares, which is the
last token that it reads if there is nothing behind the name; so what it has reported when it
succeeds may still be under the cursor.  A list of declarations is steady, and so are bodies and
whole programs.
-/

namespace OnePass.Program

/-! ## Bounds -/

section Bounds

variable {s : State}

/-- The digits of a bound, behind its sign if there is one. -/
theorem digits_quiet {s₁ : State} (hs : s.Delimited) (h₁ : Reports [] s s₁)
    (hinteger : s₁.cursor.peek.kind = .literal .integer) (value : Bytes) :
    Quiet (do
      advance
      return value) s₁ fun _ s' =>
        s'.cursor.current.kind ≠ .semicolon ∧ s'.cursor.remaining < s.cursor.remaining := by
  have hahead := one_lt_remaining (h₁.delimited hs) (by simp [hinteger])
  have hle := h₁.remaining_le
  refine (quiet_advance s₁).bind fun _ s₂ _ hs₂ => quiet_pure ⟨?_, ?_⟩
  · simp [hs₂, hinteger]
  · rw [hs₂, Cursor.remaining_next]
    omega

theorem float_quiet (sign : Bytes) {Q : Bytes → State → Prop} :
    Quiet (do
      advance
      rejectArgument { s.cursor.peek with literal := sign ++ s.cursor.peek.literal }) s Q := by
  refine (quiet_advance s).bind fun _ s' _ hs' => ⟨rfl, ?_⟩
  refine (Reports.refl s').refuses_start ?_ rfl rfl rfl
  rw [hs']
  exact about_argument _

theorem bound_quiet (hs : s.Delimited) (hcurrent : s.cursor.current.kind ≠ .semicolon) :
    Quiet bound s fun _ s' =>
      s'.cursor.current.kind ≠ .semicolon ∧ s'.cursor.remaining < s.cursor.remaining := by
  unfold bound
  rw [quiet_bind_peekIs]
  split
  · next hminus =>
    refine (quiet_advance s).bind fun _ s₁ h₁ hs₁ => ?_
    have hplain : s₁.cursor.current.kind ≠ .semicolon := by
      simp [hs₁, of_decide_eq_true hminus]
    rw [quiet_bind_peek]
    split
    · next hinteger => exact digits_quiet hs h₁ hinteger _
    · exact float_quiet _
    · exact quiet_rejectPeek (h₁.delimited hs) hplain
  · rw [quiet_bind_peek]
    split
    · next hinteger => exact digits_quiet hs (.refl s) hinteger _
    · exact float_quiet _
    · exact quiet_rejectPeek hs hcurrent

theorem bounds_quiet (hs : s.Delimited) (hcurrent : s.cursor.current.kind ≠ .semicolon) :
    Quiet bounds s fun _ s' =>
      s'.cursor.current.kind ≠ .semicolon ∧ s'.cursor.remaining + 2 ≤ s.cursor.remaining := by
  unfold bounds
  refine (bound_quiet hs hcurrent).bind ?_
  rintro first s₁ h₁ ⟨hlast, hlt⟩
  have hs₁ := h₁.delimited hs
  rw [quiet_bind_peekIs]
  split
  · next hclose =>
    have hahead := one_lt_remaining hs₁ (by simp [of_decide_eq_true hclose])
    refine (quiet_advance s₁).bind fun _ s₂ _ hs₂ => quiet_pure ⟨?_, ?_⟩
    · simp [hs₂, of_decide_eq_true hclose]
    · rw [hs₂, Cursor.remaining_next]
      omega
  · refine (quiet_expectPeek hs₁ hlast).bind fun _ s₂ h₂ hcolon => ?_
    have hs₂ := h₂.delimited hs₁
    refine (bound_quiet hs₂ (by simp [hcolon.current])).bind ?_
    rintro second s₃ h₃ ⟨hlast', hlt'⟩
    refine (quiet_expectPeek (h₃.delimited hs₂) hlast').bind fun _ s₄ h₄ hclose => ?_
    have hle := h₂.remaining_le
    have hle' := h₄.remaining_le
    exact quiet_pure ⟨by simp [hclose.current], by omega⟩

theorem optionalBounds_quiet (hs : s.Delimited) (hcurrent : s.cursor.current.kind ≠ .semicolon) :
    Quiet optionalBounds s fun bounds? s' =>
      s'.cursor.current.kind ≠ .semicolon ∧
        (bounds? ≠ none → s'.cursor.remaining + 3 ≤ s.cursor.remaining) := by
  unfold optionalBounds
  rw [quiet_bind_peekIs]
  split
  · next hopen =>
    have hahead := one_lt_remaining hs (by simp [of_decide_eq_true hopen])
    refine (quiet_advance s).bind fun _ s₁ h₁ hs₁ => ?_
    refine (bounds_quiet (h₁.delimited hs) (by simp [hs₁, of_decide_eq_true hopen])).bind ?_
    rintro b s₂ _ ⟨hlast, hle⟩
    rw [hs₁, Cursor.remaining_next] at hle
    exact quiet_pure ⟨hlast, fun _ => by omega⟩
  · exact quiet_pure ⟨hcurrent, fun h => absurd rfl h⟩

end Bounds

/-! ## Parameters -/

section Parameters

variable {s : State}

theorem parameter_quiet (hs : s.Delimited) :
    Quiet parameter s fun _ s' => s'.cursor.current.kind ≠ .semicolon := by
  unfold parameter
  rw [quiet_bind_current]
  split
  · next type htype =>
    refine (quiet_expectPeek hs (by simp [htype])).bind fun _ s₁ h₁ hname => ?_
    rw [quiet_bind_current]
    refine (optionalBounds_quiet (h₁.delimited hs) (by simp [hname.current])).bind ?_
    intro bounds? s₂ h₂ _
    refine (quiet_advance s₂).bind fun _ s₃ h₃ _ => ?_
    rw [quiet_bind_current]
    split
    · next hdirection => exact quiet_pure (by simp [hdirection])
    · exact quiet_rejectCurrent (((h₁.trans h₂).trans h₃).delimited hs)
  · exact quiet_rejectCurrent hs

theorem parametersWithin_quiet (count : Nat) :
    ∀ s, s.Delimited → s.cursor.remaining < count →
      Quiet (parametersWithin count) s fun _ s' => s'.cursor.current.kind ≠ .semicolon := by
  induction count with
  | zero =>
    intro s hs hcount
    omega
  | succ count ih =>
    intro s hs hcount
    unfold parametersWithin
    refine (quiet_advance s).bind fun _ s₁ h₁ _ => ?_
    refine (parameter_quiet (h₁.delimited hs)).bind fun p s₂ h₂ hlast => ?_
    have h₂ := h₁.trans h₂
    rw [quiet_bind_peekIs]
    split
    · next hcomma =>
      have hahead := one_lt_remaining (h₂.delimited hs) (by simp [of_decide_eq_true hcomma])
      have hle := h₂.remaining_le
      refine (quiet_advance s₂).bind fun _ s₃ h₃ hs₃ => ?_
      refine (ih s₃ ((h₂.trans h₃).delimited hs) ?_).bind fun _ s₄ _ hlast' => quiet_pure hlast'
      rw [hs₃, Cursor.remaining_next]
      omega
    · exact quiet_pure hlast

theorem parameters_quiet (hs : s.Delimited) (hname : s.cursor.current.kind ≠ .semicolon) :
    Quiet parameters s fun _ s' => s'.cursor.current.kind ≠ .semicolon := by
  have hclose {s₁ : State} (hs₁ : s₁.Delimited) (hlast : s₁.cursor.current.kind ≠ .semicolon)
      (ps : List Parameter) :
      Quiet (do
        expectPeek .rightParen
        return ps) s₁ fun _ s' => s'.cursor.current.kind ≠ .semicolon := by
    refine (quiet_expectPeek hs₁ hlast).bind fun _ s₂ _ hparen => ?_
    exact quiet_pure (by simp [hparen.current])
  unfold parameters
  refine (quiet_expectPeek hs hname).bind fun _ s₁ h₁ hopen => ?_
  have hs₁ := h₁.delimited hs
  rw [quiet_bind_peekIs]
  split
  · exact hclose hs₁ (by simp [hopen.current]) []
  · rw [quiet_bind_remaining]
    refine (parametersWithin_quiet _ s₁ hs₁ (Nat.lt_succ_self _)).bind fun ps s₂ h₂ hlast => ?_
    exact hclose (h₂.delimited hs₁) hlast ps

end Parameters

/-! ## Declarations -/

/-- A declaration that reports tokens in their order; if it succeeds, the cursor stands on its last
token, which is no semicolon. -/
def Tidy (p : Parser Unit) (s : State) : Prop :=
  Ends p s (fun _ s' => (∃ ts, ReportsHere ts s s') ∧ s'.cursor.current.kind ≠ .semicolon) (Stops s)

section Declarations

variable {s s' : State}

theorem Stops.withTable {stop : Stop} (h : Stops s stop s') (t : Table) :
    Stops s stop { s' with table := t } := by
  cases stop with
  | reject =>
    obtain ⟨ts, h⟩ := h
    exact ⟨ts, h.file, h.eof, h.reported⟩
  | fatal e =>
    cases h with
    | unexpectedEnd ts ds n horder habout htimes hds =>
      exact .unexpectedEnd ts ds n horder habout htimes hds
    | malformed ts ds t horder habout hkind hds => exact .malformed ts ds t horder habout hkind hds

/-- A declaration behind what is orderly. -/
theorem Orderly.bind_tidy {β : Type} {p : Parser β} {f : β → Parser Unit}
    {P : β → State → Prop} (hp : Orderly p s P)
    (hf : ∀ b s' ts, Reports ts s s' → P b s' → Tidy (f b) s') : Tidy (p >>= f) s := by
  unfold Tidy
  rw [ends_bind]
  refine Ends.mono hp ?_ fun _ _ hstop => hstop
  rintro b s₁ ⟨⟨ts, h₁⟩, hP⟩
  refine Ends.mono (hf b s₁ ts h₁ hP) ?_ ?_
  · rintro _ s₂ ⟨⟨ts', h₂⟩, hlast⟩
    exact ⟨⟨ts ++ ts', h₁.trans_here h₂⟩, hlast⟩
  · intro stop s₂ hstops
    exact h₁.stops hstops

theorem Tidy.within {p : Parser Unit} (enter leave : Table → Table)
    (h : ∀ t, Tidy p { s with table := t }) :
    Tidy (do modifyTable enter; andThenTable p leave) s := by
  unfold Tidy
  rw [ends_bind, ends_modifyTable, ends_andThenTable]
  refine Ends.mono (h _) ?_ ?_
  · rintro _ s₁ ⟨⟨ts, h₁⟩, hlast⟩
    exact ⟨⟨ts, h₁.file, h₁.eof, h₁.passed, h₁.diagnostics⟩, hlast⟩
  · intro stop s₁ hstops
    have hentered : Reports [] s { s with table := enter s.table } := .of_eq rfl rfl rfl
    exact (hentered.stops hstops).withTable _

theorem Tidy.inScopeOf {p : Parser Unit} (global : Bool)
    (h : ∀ t, Tidy p { s with table := t }) : Tidy (inScopeOf global p) s := by
  cases global with
  | false => exact h s.table
  | true => exact .within _ _ h

/-- Binding a name reports at most the token of the name. -/
theorem commit_ends (hs : s.Delimited) (hname : s.cursor.current.kind ≠ .eof)
    (h : Reports [] s s') :
    Ends (commit s.cursor.current) s'
      (fun _ s'' => (∃ ts, ReportsHere ts s s'') ∧ s''.cursor = s'.cursor) fun _ _ => False := by
  rw [ends_commit_table]
  split
  · have hbound : Reports [] s' { s' with table := s'.table.commit.2 } := .of_eq rfl rfl rfl
    exact ⟨⟨[], (h.trans hbound).here⟩, rfl⟩
  · obtain ⟨w, hw, -⟩ := h.passed
    obtain ⟨ds, hds, habout⟩ := h.diagnostics
    refine ⟨⟨[] ++ [s.cursor.current], h.file, h.eof, ⟨w, hw, ?_⟩,
      ⟨ds ++ [.duplicate (s.cursor.current.position s'.file) s'.table.scope], ?_, ?_⟩⟩, rfl⟩
    · have hpos := remaining_pos hs hname
      unfold Cursor.remaining at hpos
      unfold Cursor.current
      rw [hw] at hpos ⊢
      cases w with
      | nil =>
        cases hahead : s'.cursor.ahead with
        | nil => simp [hahead] at hpos
        | cons t rest => simp
      | cons t w => simp
    · rw [hds, List.append_assoc]
    · rw [h.file]
      exact habout.append (about_duplicate _)

/-- Bounds stand behind the name and the bracket, so the token that they start with is passed. -/
theorem start_mem_passed (hle : s'.cursor.remaining + 3 ≤ s.cursor.remaining) {w : List Token}
    (hw : s.cursor.ahead = w ++ s'.cursor.ahead) : s.cursor.next.peek ∈ w := by
  unfold Cursor.remaining at hle
  rw [hw, List.length_append] at hle
  unfold Cursor.peek
  rw [Cursor.ahead_next, hw]
  rcases w with _ | ⟨t, _ | ⟨u, _ | ⟨v, w⟩⟩⟩
  · rw [List.length_nil] at hle
    omega
  · rw [List.length_singleton] at hle
    omega
  · rw [List.length_cons, List.length_singleton] at hle
    omega
  · simp

theorem variableTail_tidy (hs : s.Delimited) (hname : s.cursor.current.kind = .identifier)
    (sym : Symbol) : Tidy (variableTail sym s.cursor.current) s := by
  unfold Tidy variableTail
  rw [ends_bind, ends_get, ends_bind, ends_orDiscard]
  refine Ends.mono (optionalBounds_quiet hs (by simp [hname])) ?_ ?_
  · rintro bounds? s₁ ⟨h₁, hlast, hbounds⟩
    simp only [variableEnd, ends_bind, ends_modifyTable, ends_get]
    split
    · simp only [ends_bind, ends_modifyTable]
      split
      · obtain ⟨w, hw, -⟩ := h₁.passed
        have hstart := start_mem_passed (hbounds (by simp)) hw
        refine ⟨[], h₁.refuses_of_mem hw (List.mem_append_left _ hstart) ?_ rfl rfl rfl⟩
        exact about_argument _
      · exact ⟨[], h₁.refuses_start (about_misplaced (by simp [hname])) rfl rfl rfl⟩
    · have hstaged (t : Table) : Reports [] s { s₁ with table := t } :=
        h₁.trans (.of_eq rfl rfl rfl)
      rw [ends_bind]
      refine Ends.mono (commit_ends hs (by simp [hname]) (hstaged _)) ?_ fun _ _ h => h.elim
      rintro b s₃ ⟨⟨ts, h₃⟩, hs₃⟩
      have hplain : s₃.cursor.current.kind ≠ .semicolon := by
        rw [hs₃]
        exact hlast
      split
      · exact ⟨⟨ts, h₃.file, h₃.eof, h₃.passed, h₃.diagnostics⟩, hplain⟩
      · exact ⟨⟨ts, h₃⟩, hplain⟩
  · rintro _ s₁ ⟨rfl, h₁⟩
    exact ⟨[], h₁.file, h₁.eof, h₁.reported⟩

/-- A declaration from the token before its name on, given its part inside the scope of the name. -/
theorem named_tidy (hs : s.Delimited) (hcurrent : s.cursor.current.kind ≠ .semicolon)
    {sym : Token → Symbol} {tail : Symbol → Token → Parser Unit}
    (htail : ∀ s', s'.Delimited → s'.cursor.current.kind = .identifier →
      s'.cursor.remaining = s.cursor.remaining - 1 → ∀ sym, Tidy (tail sym s'.cursor.current) s') :
    Tidy (named sym tail) s := by
  refine (quiet_expectPeek hs hcurrent).orderly.bind_tidy fun _ s₁ _ h₁ hname => ?_
  have hs₁ := h₁.delimited hs
  change Tidy (modifyTable (·.stage (sym s₁.cursor.current)) >>= fun _ =>
    inScope s₁.cursor.current.literal (tail (sym s₁.cursor.current) s₁.cursor.current)) s₁
  refine Orderly.bind_tidy (P := fun _ s' => ∃ t, s' = { s₁ with table := t })
    ⟨⟨[], .of_eq rfl rfl rfl⟩, _, rfl⟩ ?_
  rintro _ _ _ _ ⟨t, rfl⟩
  refine Tidy.within _ _ fun t' => ?_
  exact htail { s₁ with table := t' } (hs₁.withTable t') hname.current hname.remaining _

theorem variableDeclaration_tidy (hs : s.Delimited) (hcurrent : s.cursor.current.kind ≠ .semicolon)
    (global : Bool) (type : Scalar) : Tidy (variableDeclaration global type) s :=
  named_tidy hs hcurrent fun _ hs' hname _ sym => variableTail_tidy hs' hname sym

variable {inner : Parser Unit} {bound : Nat}
  (hinner : ∀ s, s.Delimited → s.cursor.remaining < bound →
    Steady inner s fun _ s' => s'.cursor.current.kind ≠ .semicolon)

include hinner

/-- A procedure's body and the end of its function, whether the function is kept or not. -/
theorem procedureBody_tidy (hs : s.Delimited) (hbound : s.cursor.remaining < bound) {s₁ : State}
    {key : ScopeKey} {kept : Bool} (h₁ : ∃ ts, Reports ts s { s₁ with cursor := s₁.cursor.next }) :
    Ends (procedureBody inner key kept) s₁
      (fun _ s' => (∃ ts, ReportsHere ts s s') ∧ s'.cursor.current.kind ≠ .semicolon)
      (Stops s) := by
  obtain ⟨ts, h₁⟩ := h₁
  rw [procedureBody, ends_bind, ends_advance, ends_bind]
  refine Ends.mono (hinner _ (h₁.delimited hs) (Nat.lt_of_le_of_lt h₁.remaining_le hbound)) ?_ ?_
  · rintro _ s₂ ⟨⟨ts', h₂⟩, hlast⟩
    have h₂ := (h₁.trans h₂).here
    rw [ends_bind, ends_get]
    simp only [leaveFunction, ends_bind, ends_modify, ends_note]
    split
    · exact ⟨⟨_, h₂.file, h₂.eof, h₂.passed, h₂.diagnostics⟩, hlast⟩
    · exact ⟨⟨_, h₂.file, h₂.eof, h₂.passed, h₂.diagnostics⟩, hlast⟩
  · rintro _ s₂ ⟨e, rfl, hbreaks⟩
    exact h₁.breaks hbreaks

theorem procedureTail_tidy (hs : s.Delimited) (hname : s.cursor.current.kind = .identifier)
    (hbound : s.cursor.remaining < bound) (sym : Symbol) :
    Tidy (procedureTail inner sym s.cursor.current) s := by
  unfold Tidy procedureTail
  rw [ends_bind, ends_orDiscard]
  refine Ends.mono ((parameters_quiet hs (by simp [hname])).and (parameters_isFormal s)) ?_ ?_
  · rintro ps s₁ ⟨⟨h₁, -⟩, hscalar⟩
    have hstaged (t : Table) : Reports [] s { s₁ with table := t } :=
      h₁.trans (.of_eq rfl rfl rfl)
    obtain ⟨formals, hformals⟩ := exists_formals_of_isFormal hscalar
    rw [ends_bind, ends_modifyTable, ends_bind, ends_get, ends_bind]
    refine Ends.mono (commit_ends hs (by simp [hname]) (hstaged _)) ?_ fun _ _ h => h.elim
    rintro kept s₂ ⟨⟨ts, h₂⟩, hs₂⟩
    have hopened (b : Ir.Builder) (key : Bytes) :=
      b.openProcedure_of_formals key { sym with parameters := ps } hformals
    have h₃ := h₂.next
    rw [openFunction, ends_bind, ends_get]
    simp only [hopened, ends_bind, ends_set, procedureInside, ends_note, ends_optionalIs]
    split
    · have h₄ := h₃.trans (Reports.next _)
      exact procedureBody_tidy hinner hs hbound ⟨_, h₄.file, h₄.eof, h₄.passed, h₄.diagnostics⟩
    · exact procedureBody_tidy hinner hs hbound ⟨ts, h₃.file, h₃.eof, h₃.passed, h₃.diagnostics⟩
  · rintro _ s₁ ⟨⟨rfl, h₁⟩, -⟩
    exact ⟨[], h₁.file, h₁.eof, h₁.reported⟩

theorem procedureDeclaration_tidy (hs : s.Delimited) (hword : s.cursor.current.kind = .kwProcedure)
    (hbound : s.cursor.remaining ≤ bound) (global : Bool) :
    Tidy (procedureDeclaration inner global) s := by
  have hpos := remaining_pos hs (by simp [hword])
  refine named_tidy hs (by simp [hword]) fun s' hs' hname hremaining sym => ?_
  exact procedureTail_tidy hinner hs' hname (by omega) sym

theorem declarationTail_tidy (hs : s.Delimited) (hbound : s.cursor.remaining ≤ bound)
    (global : Bool) : Tidy (declarationTail inner global) s := by
  unfold Tidy declarationTail
  rw [ends_bind, ends_current]
  split
  · next hword =>
    refine Tidy.inScopeOf global fun t => ?_
    exact procedureDeclaration_tidy hinner (hs.withTable t) hword hbound global
  · next htype =>
    refine Tidy.inScopeOf global fun t => ?_
    refine variableDeclaration_tidy (hs.withTable t) ?_ global _
    simp [htype]
  · exact ⟨[], refuses_current hs⟩

theorem declaration_tidy (hs : s.Delimited) (hbound : s.cursor.remaining ≤ bound) :
    Tidy (declaration inner) s := by
  unfold Tidy declaration
  rw [ends_bind, ends_currentIs]
  split
  · refine (quiet_advance s).orderly.bind_tidy fun _ s₁ _ h₁ _ => ?_
    exact declarationTail_tidy hinner (h₁.delimited hs) (Nat.le_trans h₁.remaining_le hbound) true
  · exact declarationTail_tidy hinner hs hbound false

/-- A declaration that is behind its semicolon, or was recovered from, has passed a token. -/
theorem separated_steady (hs : s.Delimited) (hbound : s.cursor.remaining ≤ bound) :
    Steady (orRecover (do declaration inner; expectPeek .semicolon)) s
      fun _ s' => s'.cursor.remaining < s.cursor.remaining := by
  have hrecover {ts : List Token} {s₁ : State} (h₁ : Refuses ts s s₁) :
      Ends (recover s.diagnostics.length 0) s₁
        (fun _ s' => (∃ ts, Reports ts s s') ∧ s'.cursor.remaining < s.cursor.remaining)
        fun stop s' => ∃ e, stop = .fatal e ∧ Breaks s s' e := by
    refine Ends.mono (h₁.ends_recover hs _) ?_ fun _ _ hstop => hstop
    rintro _ s₂ ⟨h₂, hlt⟩
    exact ⟨h₂, Nat.lt_of_lt_of_le hlt h₁.remaining_le⟩
  unfold Steady
  rw [ends_orRecover, ends_bind]
  refine Ends.mono (declaration_tidy hinner hs hbound) ?_ ?_
  · rintro _ s₁ ⟨⟨ts, h₁⟩, hlast⟩
    have hs₁ := h₁.delimited hs
    rw [ends_expectPeek]
    split
    · next hsemicolon =>
      have hahead := one_lt_remaining hs₁ (by simp [hsemicolon])
      have h₂ := h₁.next
      have hle := h₂.remaining_le
      refine ⟨⟨_, h₂.trans (.next _)⟩, ?_⟩
      simp only [Cursor.remaining_next] at hle ⊢
      omega
    · exact hrecover (h₁.refuses_peek hs hlast)
  · intro stop s₁ hstops
    cases stop with
    | reject =>
      obtain ⟨ts, h₁⟩ := hstops
      exact hrecover h₁
    | fatal e => exact ⟨e, rfl, hstops⟩

end Declarations

/-! ## Bodies and programs -/

section Bodies

variable {s : State}

theorem steady_mustCurrent (kind : TokenKind) :
    Steady (mustCurrent kind) s fun _ s' => s' = s ∧ s.cursor.current.kind = kind := by
  unfold Steady
  rw [ends_mustCurrent]
  split
  · next hkind => exact ⟨⟨[], .refl s⟩, rfl, hkind⟩
  · exact ⟨_, rfl, breaks_at s.cursor.current_mem_stream⟩

theorem steady_mustPeek (kind : TokenKind) :
    Steady (mustPeek kind) s fun _ s' => s'.cursor.current.kind = kind := by
  unfold Steady
  rw [ends_mustPeek]
  split
  · next hkind => exact ⟨⟨[], .next s⟩, hkind⟩
  · exact ⟨_, rfl, breaks_at s.cursor.peek_mem_stream⟩

theorem bodyTail_steady (hs : s.Delimited) (terminator : TokenKind) :
    Steady (bodyTail terminator) s fun _ s' => s'.cursor.current.kind = terminator := by
  unfold bodyTail
  refine (steady_mustCurrent _).bind ?_
  rintro _ _ _ _ ⟨rfl, -⟩
  refine Steady.bind (P := fun _ _ => True) ⟨⟨[], .next _⟩, trivial⟩ fun _ s₁ _ h₁ _ => ?_
  refine (statements_steady (h₁.delimited hs)).bind fun _ s₂ _ _ _ => ?_
  refine (steady_mustCurrent _).bind ?_
  rintro _ _ _ _ ⟨rfl, -⟩
  exact steady_mustPeek terminator

theorem declarationsWithin_steady (depth : Nat) :
    ∀ s, s.Delimited → s.cursor.remaining < depth →
      Steady (declarationsWithin depth) s fun _ _ => True := by
  induction depth with
  | zero =>
    intro s hs hdepth
    omega
  | succ depth ih =>
    intro s hs hdepth
    unfold declarationsWithin
    change Steady (if startsDeclaration s.cursor.current s.cursor.peek then _ else _) s _
    split
    · have hbody (s₁ : State) (hs₁ : s₁.Delimited) (hlt : s₁.cursor.remaining < depth) :
          Steady (do
            declarationsWithin depth
            bodyTail .kwProcedure) s₁ fun _ s' => s'.cursor.current.kind ≠ .semicolon := by
        refine (ih s₁ hs₁ hlt).bind fun _ s₂ _ h₂ _ => ?_
        refine Ends.mono (bodyTail_steady (h₂.delimited hs₁) _) ?_ fun _ _ hstop => hstop
        rintro _ s₃ ⟨h₃, hlast⟩
        exact ⟨h₃, by simp [hlast]⟩
      have hfirst := separated_steady hbody hs (Nat.le_of_lt_succ hdepth)
      exact hfirst.bind fun _ s₁ _ h₁ hlt => ih s₁ (h₁.delimited hs) (by omega)
    · exact ⟨⟨[], .refl s⟩, trivial⟩

theorem body_steady (hs : s.Delimited) (terminator : TokenKind) :
    Steady (body terminator) s fun _ s' => s'.cursor.current.kind = terminator := by
  unfold Steady body
  rw [ends_bind, ends_remaining]
  refine (declarationsWithin_steady _ s hs (Nat.lt_succ_self _)).bind fun _ s₁ _ h₁ _ => ?_
  exact bodyTail_steady (h₁.delimited hs) terminator

theorem programOpening_steady (hs : s.Delimited) : Steady programOpening s fun _ _ => True := by
  unfold programOpening
  refine (steady_mustCurrent _).bind ?_
  rintro _ _ _ _ ⟨rfl, -⟩
  refine (steady_mustPeek _).bind fun _ s₁ _ h₁ hname => ?_
  have hs₁ := h₁.delimited hs
  have hentered (t : Table) : Reports [] s₁ { s₁ with table := t } := .of_eq rfl rfl rfl
  unfold Steady
  rw [ends_bind, ends_current, ends_bind, ends_modifyTable, ends_bind, ends_mustPeek]
  split
  · rw [ends_bind]
    refine Ends.mono (commit_ends hs₁ (by simp [hname]) ((hentered _).trans (.next _))) ?_
      fun _ _ h => h.elim
    rintro _ s₃ ⟨⟨ts, h₃⟩, -⟩
    have h₄ := h₃.next
    exact ⟨⟨ts, h₄.file, h₄.eof, h₄.passed, h₄.diagnostics⟩, trivial⟩
  · exact ⟨_, rfl, (hentered _).breaks (breaks_at (Cursor.peek_mem_stream _))⟩

/-- A program is recognised with all its reports in order, or it is given up. -/
theorem program_steady (hs : s.Delimited) : Steady program s fun _ _ => True := by
  refine (programOpening_steady hs).bind fun _ s₁ _ h₁ _ => ?_
  refine (body_steady (h₁.delimited hs) _).bind fun _ s₂ _ _ _ => ?_
  refine (steady_mustPeek _).bind fun _ s₃ _ _ _ => ?_
  exact ⟨⟨[], .of_eq rfl rfl rfl⟩, trivial⟩

end Bodies

end OnePass.Program
