import OnePass.Proofs.Emission.Names
set_option autoImplicit false

/-!
# Code and symbol table

The code of a recognised program and the symbol table that it leaves behind agree, whatever was
rejected or dropped on the way (`code_agrees_with_table`).  The lines of the global variables and the
headers of the procedures are those of the entries, one for one.  If no key was declared twice, the
functions are those of the procedures' keys, and each holds the storage of the variables whose keys
have its key as their parent.

All of this is said of the text: a line of text is recognised by how it starts, and functions are cut
apart at their headers.
-/

namespace OnePass.Program

/-! ## Kinds of lines -/

/-- Whether a line of text declares a global variable. -/
def isGlobalText (line : Bytes) : Bool := (text "@").isPrefixOf line

/-- Whether a line of text is the header of a procedure. -/
def isProcedureText (line : Bytes) : Bool := (text "define void").isPrefixOf line

/-- Whether a line of text is the header of a function. -/
def isHeaderText (line : Bytes) : Bool := (text "define ").isPrefixOf line

/-- Whether a line of text reserves storage under a name that is not the number of a slot. -/
def isStorageText (line : Bytes) : Bool :=
  (text "%").isPrefixOf line && !((line.drop 1).takeWhile continuesName).all Ascii.isDigit &&
    (text " = alloca ").isPrefixOf ((line.drop 1).dropWhile continuesName)

/-- Whether a line declares a global variable. -/
def isGlobal : Ir.Line → Bool
  | .global .. => true
  | _ => false

/-- Whether a line is the header of a procedure. -/
def isProcedureHeader : Ir.Line → Bool
  | .procedure .. => true
  | _ => false

/-- Whether a line is the header of a function. -/
def isHeader : Ir.Line → Bool
  | .procedure .. => true
  | .main => true
  | _ => false

/-- The lines that the code of a program is made of. -/
inductive IsCode : Ir.Line → Prop
  | blank : IsCode .blank
  | global (name : Bytes) (ty : Ir.Ty) (zero : Ir.Zero) (align : Nat) :
      IsCode (.global name ty zero align)
  | procedure (name : Bytes) (formals : List Ir.Formal) : IsCode (.procedure name formals)
  | main : IsCode .main
  | returnZero : IsCode .returnZero
  | inner {l : Ir.Line} (h : IsInner l) : IsCode l

/-! ## Kinds of lines in the text -/

theorem continuesName_of_isDigit {b : UInt8} (h : Ascii.isDigit b = true) :
    continuesName b = true :=
  continuesName_of_isWordByte (by simp [Lexeme.isWordByte, h])

theorem isStorageText_append {name : Bytes} (hname : ∀ b ∈ name, continuesName b = true)
    (rest : Bytes) :
    isStorageText (text "%" ++ name ++ text " = alloca " ++ rest) = !name.all Ascii.isDigit := by
  have hdrop : (text "%" ++ name ++ text " = alloca " ++ rest).drop 1 =
      name ++ (text " = alloca " ++ rest) := by
    simp only [List.append_assoc]
    rfl
  have htake : (name ++ (text " = alloca " ++ rest)).takeWhile continuesName = name :=
    takeWhile_continuesName hname rfl _
  have hrest : (name ++ (text " = alloca " ++ rest)).dropWhile continuesName =
      text " = alloca " ++ rest := by
    rw [List.dropWhile_append_of_pos hname]
    rfl
  have hstart : (text "%").isPrefixOf (text "%" ++ name ++ text " = alloca " ++ rest) = true := by
    simp only [List.append_assoc]
    exact List.isPrefixOf_iff_prefix.mpr (List.prefix_append _ _)
  have halloca : (text " = alloca ").isPrefixOf (text " = alloca " ++ rest) = true :=
    List.isPrefixOf_iff_prefix.mpr (List.prefix_append _ _)
  rw [isStorageText, hdrop, htake, hrest, hstart, halloca, Bool.true_and, Bool.and_true]

theorem IsDotted.all_isDigit_irName {key : ScopeKey} (h : IsDotted key) :
    key.irName.all Ascii.isDigit = false := by
  rw [List.all_eq_false]
  exact ⟨_, h.underscore_mem_irName, by decide⟩

section Render

variable {l : Ir.Line} (h : IsCode l) (style : PointerStyle)

include h

theorem IsCode.isGlobalText_render : isGlobalText (l.render style) = isGlobal l := by
  cases h with
  | inner h => cases h <;> rfl
  | _ => rfl

theorem IsCode.isProcedureText_render : isProcedureText (l.render style) = isProcedureHeader l := by
  cases h with
  | inner h => cases h <;> rfl
  | _ => rfl

theorem IsCode.isHeaderText_render : isHeaderText (l.render style) = isHeader l := by
  cases h with
  | inner h => cases h <;> rfl
  | _ => rfl

theorem IsCode.isStorageText_render : isStorageText (l.render style) = isNamed l := by
  cases h with
  | inner h =>
    cases h with
    | named hkey ty align =>
      simp only [Ir.Line.render, Ir.Local.render, List.append_assoc]
      simp only [← List.append_assoc (text "%"), ← List.append_assoc _ (text " = alloca ")]
      rw [isStorageText_append (fun b hb => hkey.continuesName_of_mem hb), hkey.all_isDigit_irName]
      rfl
    | slot number ty align =>
      have hdigits := Bytes.isDigit_of_mem_ofNat number
      simp only [Ir.Line.render, Ir.Local.render, List.append_assoc]
      simp only [← List.append_assoc (text "%"), ← List.append_assoc _ (text " = alloca ")]
      rw [isStorageText_append (fun b hb => continuesName_of_isDigit (hdigits b hb)),
        List.all_eq_true.mpr hdigits]
      rfl
    | _ => rfl
  | _ => rfl

end Render

/-- Choosing lines by their text is choosing them by what they are. -/
theorem filter_map_render {ls : List Ir.Line} {style : PointerStyle} {p : Bytes → Bool}
    {q : Ir.Line → Bool} (h : ∀ l ∈ ls, p (l.render style) = q l) :
    (ls.map (Ir.Line.render style)).filter p = (ls.filter q).map (Ir.Line.render style) := by
  rw [List.filter_map]
  exact congrArg _ (List.filter_congr h)

/-! ## Functions in the text -/

/-- The functions in lines of text: every header with the lines up to the next one. -/
def functions : List Bytes → List (List Bytes)
  | [] => []
  | l :: ls =>
    if isHeaderText l then (l :: ls.takeWhile (!isHeaderText ·)) :: functions ls else functions ls

theorem functions_append {ls ls' : List Bytes} (h : ∀ l ∈ ls, isHeaderText l = false) :
    functions (ls ++ ls') = functions ls' := by
  induction ls with
  | nil => rfl
  | cons l ls ih =>
    obtain ⟨hl, hls⟩ := List.forall_mem_cons.mp h
    rw [List.cons_append, functions, hl, if_neg Bool.false_ne_true]
    exact ih hls

/-- Lines that are one function. -/
def IsFunction (ls : List Bytes) : Prop :=
  ∃ header inside, ls = header :: inside ∧ isHeaderText header = true ∧
    ∀ l ∈ inside, isHeaderText l = false

theorem functions_flatten {us : List (List Bytes)} (h : ∀ u ∈ us, IsFunction u) :
    functions us.flatten = us := by
  induction us with
  | nil => rfl
  | cons u us ih =>
    obtain ⟨hu, hus⟩ := List.forall_mem_cons.mp h
    obtain ⟨header, inside, rfl, hheader, hinside⟩ := hu
    -- The lines of the function end where the next one starts.
    have hend : us.flatten.takeWhile (!isHeaderText ·) = [] := by
      cases us with
      | nil => rfl
      | cons v vs =>
        obtain ⟨header', inside', rfl, hheader', -⟩ := hus v List.mem_cons_self
        simp [hheader']
    have htake : (inside ++ us.flatten).takeWhile (!isHeaderText ·) = inside := by
      rw [List.takeWhile_append_of_pos fun l hl => by rw [hinside l hl]; rfl, hend,
        List.append_nil]
    rw [List.flatten_cons, List.cons_append, functions, if_pos hheader, htake,
      functions_append hinside, ih hus]

/-! ## Entries in the text -/

/-- The text of the line that an entry of a variable becomes. -/
def Entry.lineText (style : PointerStyle) (e : Entry) : Except Ir.Error Bytes :=
  e.line.map (Ir.Line.render style)

/-- The text of the header that an entry of a procedure becomes. -/
def Entry.headerText (style : PointerStyle) (e : Entry) : Except Ir.Error Bytes :=
  e.header.map (Ir.Line.render style)

/-- Whether lines of text hold exactly the storage of the entries that are local to a key. -/
def StoresText (style : PointerStyle) (es : List Entry) (key : ScopeKey) (ls : List Bytes) : Prop :=
  ((ls.filter isStorageText).map Except.ok).Perm
    ((es.filter (Entry.isLocalTo key)).map (Entry.lineText style))

/-- Whether lines of text are the function of the procedure with a key, with the storage of the
variables that are local to it. -/
structure IsUnitText (style : PointerStyle) (es : List Entry) (key : ScopeKey) (ls : List Bytes) :
    Prop where
  header : ∃ e ∈ es, e.1 = key ∧ e.isProcedure = true ∧ ls.head?.map .ok = some (e.headerText style)
  storage : StoresText style es key ls

/-- The text of lines that entries become. -/
theorem map_render_perm {ls : List Ir.Line} {es : List Entry} {f : Entry → Except Ir.Error Ir.Line}
    (style : PointerStyle) (h : (ls.map Except.ok).Perm (es.map f)) :
    ((ls.map (Ir.Line.render style)).map Except.ok).Perm
      (es.map fun e => (f e).map (Ir.Line.render style)) := by
  have hmap := h.map (Except.map (Ir.Line.render style))
  rw [List.map_map, List.map_map] at hmap
  rw [List.map_map]
  exact hmap

/-! ## The code of a program -/

/-- The header of a function, and what stands behind it. -/
def unitOf (f : Ir.Function) : Ir.Line × List Ir.Line := (f.header, f.body ++ [.blank])

/-- The header of the program's own function, and what stands behind it. -/
def mainUnit (ls : List Ir.Line) : Ir.Line × List Ir.Line :=
  (.main, ls ++ [.blank, .returnZero, .close])

/-- The functions of a program. -/
def Emission.unitLines (d : Emission) : List (Ir.Line × List Ir.Line) :=
  d.finished.map unitOf ++ [mainUnit d.locals]

/-- A line that does not stand outside of functions, and starts none. -/
structure IsInside (l : Ir.Line) : Prop where
  code : IsCode l
  notGlobal : isGlobal l = false
  notProcedure : isProcedureHeader l = false
  notHeader : isHeader l = false

theorem IsInner.isInside {l : Ir.Line} (h : IsInner l) : IsInside l := by
  refine ⟨.inner h, ?_, ?_, ?_⟩ <;> cases h <;> rfl

theorem isInside_blank : IsInside .blank := ⟨.blank, rfl, rfl, rfl⟩

section Matches

variable {d : Emission} (h : d.Matches)

include h

theorem Emission.Matches.global_of_mem {l : Ir.Line} (hl : l ∈ d.globals) :
    ∃ name ty zero align, l = .global name ty zero align := by
  have hmem : Except.ok l ∈ (d.bound.filter Entry.isVariable).map Entry.line := by
    rw [← h.globals]
    exact List.mem_map_of_mem hl
  obtain ⟨e, he, hline⟩ := List.mem_map.mp hmem
  have hglobal : e.2.global = true := (Bool.and_eq_true_iff.mp (List.mem_filter.mp he).2).1
  obtain ⟨storage, hstorage⟩ := declaration_eq_ok hline
  rw [if_pos hglobal] at hstorage
  exact ⟨_, _, _, _, hstorage⟩

theorem Emission.Matches.header_of_mem {f : Ir.Function} (hf : f ∈ d.finished) :
    ∃ name formals, f.header = .procedure name formals := by
  have hmem := h.headers.mem_iff.mp (List.mem_map_of_mem hf)
  obtain ⟨e, -, hheader⟩ := List.mem_map.mp hmem
  obtain ⟨fs, -, hheader⟩ := exists_formals_of_header hheader
  exact ⟨_, _, hheader⟩

theorem Emission.Matches.header_of_mem_unitLines {u : Ir.Line × List Ir.Line}
    (hu : u ∈ d.unitLines) : IsCode u.1 ∧ isHeader u.1 = true ∧ isGlobal u.1 = false := by
  rcases List.mem_append.mp hu with hu | hu
  · obtain ⟨f, hf, rfl⟩ := List.mem_map.mp hu
    obtain ⟨name, formals, hheader⟩ := h.header_of_mem hf
    simp only [unitOf, hheader]
    exact ⟨.procedure name formals, rfl, rfl⟩
  · rw [List.mem_singleton.mp hu]
    exact ⟨.main, rfl, rfl⟩

theorem Emission.Matches.inside_of_mem_unitLines {u : Ir.Line × List Ir.Line}
    (hu : u ∈ d.unitLines) : ∀ l ∈ u.2, IsInside l := by
  intro l hl
  rcases List.mem_append.mp hu with hu | hu
  · obtain ⟨f, hf, rfl⟩ := List.mem_map.mp hu
    rcases List.mem_append.mp hl with hl | hl
    · exact (h.bodies f hf l hl).isInside
    · rw [List.mem_singleton.mp hl]
      exact isInside_blank
  · rw [List.mem_singleton.mp hu] at hl
    rcases List.mem_append.mp hl with hl | hl
    · exact (h.locals l hl).isInside
    · simp only [List.mem_cons, List.not_mem_nil, or_false] at hl
      rcases hl with rfl | rfl | rfl
      · exact isInside_blank
      · exact ⟨.returnZero, rfl, rfl, rfl⟩
      · exact IsInner.close.isInside

/-- Every function of the program is one of the text. -/
theorem Emission.Matches.isFunction_of_mem (style : PointerStyle) {u : Ir.Line × List Ir.Line}
    (hu : u ∈ d.unitLines) : IsFunction ((u.1 :: u.2).map (Ir.Line.render style)) := by
  obtain ⟨hcode, hheader, -⟩ := h.header_of_mem_unitLines hu
  refine ⟨_, _, List.map_cons .., ?_, fun line hline => ?_⟩
  · rw [hcode.isHeaderText_render, hheader]
  · obtain ⟨l, hl, rfl⟩ := List.mem_map.mp hline
    have hinside := h.inside_of_mem_unitLines hu l hl
    rw [hinside.code.isHeaderText_render, hinside.notHeader]

end Matches

/-- Lines that are never found behind a header are found among the headers. -/
theorem filter_flatMap_units {q : Ir.Line → Bool} {us : List (Ir.Line × List Ir.Line)}
    (h : ∀ u ∈ us, ∀ l ∈ u.2, q l = false) :
    (us.flatMap fun u => u.1 :: u.2).filter q = (us.map Prod.fst).filter q := by
  induction us with
  | nil => rfl
  | cons u us ih =>
    obtain ⟨hu, hus⟩ := List.forall_mem_cons.mp h
    have hnone : u.2.filter q = [] := by simpa [List.filter_eq_nil_iff] using hu
    rw [List.flatMap_cons, List.filter_append, ih hus, List.map_cons, ← List.singleton_append,
      List.filter_append, hnone, List.append_nil, ← List.filter_append, List.singleton_append]

section Leaves

variable {target : Target} {s : State} {d : Emission} (h : Leaves target s d)

include h

/-- Entries of variables and procedures in the table are those that were bound. -/
theorem Leaves.mem_entries_iff {e : Entry} (he : e.isDeclared = true) :
    e ∈ s.table.entries ↔ e ∈ d.bound := by
  rw [← h.bindings e he, Table.entries]
  exact Std.ExtTreeMap.mem_toList_iff_getElem?_eq_some

theorem Leaves.entries_perm {P : Entry → Bool} (hP : ∀ e, P e = true → e.isDeclared = true) :
    (d.bound.filter P).Perm (s.table.entries.filter P) := by
  have hdistinct : s.table.entries.Nodup := by
    refine Std.ExtTreeMap.distinct_keys_toList.imp ?_
    rintro e e' hne rfl
    exact hne (Std.compare_eq_iff_eq.mpr rfl)
  refine (List.perm_ext_iff_of_nodup (h.nodup.of_map.filter P) (hdistinct.filter P)).mpr fun e => ?_
  rw [List.mem_filter, List.mem_filter]
  exact and_congr_left fun he => (h.mem_entries_iff (hP e he)).symm

theorem Leaves.emitted_eq :
    emitted s.builder = (d.globals ++ [.blank]) ++ d.unitLines.flatMap fun u => u.1 :: u.2 := by
  have hunits : (d.finished.flatMap fun f => f.lines ++ [Ir.Line.blank]) =
      (d.finished.map unitOf).flatMap fun u => u.1 :: u.2 := by
    rw [List.flatMap_map]
    rfl
  rw [Emission.unitLines, List.flatMap_append, ← hunits]
  simp [h.builder, emitted, mainUnit, Ir.Function.lines]

theorem Leaves.isCode_of_mem {l : Ir.Line} (hl : l ∈ emitted s.builder) : IsCode l := by
  rw [h.emitted_eq, List.mem_append, List.mem_append, List.mem_singleton, List.mem_flatMap] at hl
  rcases hl with (hl | rfl) | ⟨u, hu, hl⟩
  · obtain ⟨name, ty, zero, align, rfl⟩ := h.matched.global_of_mem hl
    exact .global name ty zero align
  · exact .blank
  · rcases List.mem_cons.mp hl with rfl | hl
    · exact (h.matched.header_of_mem_unitLines hu).1
    · exact (h.matched.inside_of_mem_unitLines hu l hl).code

theorem Leaves.filter_isGlobal : (emitted s.builder).filter isGlobal = d.globals := by
  have hglobals : d.globals.filter isGlobal = d.globals := by
    rw [List.filter_eq_self]
    intro l hl
    obtain ⟨name, ty, zero, align, rfl⟩ := h.matched.global_of_mem hl
    rfl
  have hunits : (d.unitLines.map Prod.fst).filter isGlobal = [] := by
    rw [List.filter_eq_nil_iff]
    intro l hl
    obtain ⟨u, hu, rfl⟩ := List.mem_map.mp hl
    simp [(h.matched.header_of_mem_unitLines hu).2.2]
  rw [h.emitted_eq, List.filter_append, List.filter_append, hglobals, filter_flatMap_units
    fun u hu l hl => (h.matched.inside_of_mem_unitLines hu l hl).notGlobal, hunits]
  simp [isGlobal]

theorem Leaves.filter_isProcedureHeader :
    (emitted s.builder).filter isProcedureHeader = d.finished.map Ir.Function.header := by
  have hglobals : d.globals.filter isProcedureHeader = [] := by
    rw [List.filter_eq_nil_iff]
    intro l hl
    obtain ⟨name, ty, zero, align, rfl⟩ := h.matched.global_of_mem hl
    simp [isProcedureHeader]
  have hheaders : (d.finished.map Ir.Function.header).filter isProcedureHeader =
      d.finished.map Ir.Function.header := by
    rw [List.filter_eq_self]
    intro l hl
    obtain ⟨f, hf, rfl⟩ := List.mem_map.mp hl
    obtain ⟨name, formals, hheader⟩ := h.matched.header_of_mem hf
    rw [hheader]
    rfl
  have hunits : d.unitLines.map Prod.fst = d.finished.map Ir.Function.header ++ [.main] := by
    simp [Emission.unitLines, unitOf, mainUnit]
  rw [h.emitted_eq, List.filter_append, List.filter_append, hglobals, filter_flatMap_units
    fun u hu l hl => (h.matched.inside_of_mem_unitLines hu l hl).notProcedure, hunits,
    List.filter_append, hheaders]
  simp [isProcedureHeader]

/-- The functions of the text. -/
theorem Leaves.functions_eq (style : PointerStyle) :
    functions ((emitted s.builder).map (Ir.Line.render style)) =
      d.unitLines.map fun u => (u.1 :: u.2).map (Ir.Line.render style) := by
  have hoverhead : ∀ line ∈ (d.globals ++ [Ir.Line.blank]).map (Ir.Line.render style),
      isHeaderText line = false := by
    intro line hline
    obtain ⟨l, hl, rfl⟩ := List.mem_map.mp hline
    rcases List.mem_append.mp hl with hl | hl
    · obtain ⟨name, ty, zero, align, rfl⟩ := h.matched.global_of_mem hl
      rfl
    · rw [List.mem_singleton.mp hl]
      rfl
  rw [h.emitted_eq, List.map_append, functions_append hoverhead, List.map_flatMap,
    List.flatMap_def]
  refine functions_flatten fun ls hls => ?_
  obtain ⟨u, hu, rfl⟩ := List.mem_map.mp hls
  exact h.matched.isFunction_of_mem style hu

/-- Storage in a function of the text. -/
theorem Leaves.storesText {u : Ir.Line × List Ir.Line} (hu : u ∈ d.unitLines) {key : ScopeKey}
    (hstores : Stores d.bound key u.2) (style : PointerStyle) :
    StoresText style s.table.entries key ((u.1 :: u.2).map (Ir.Line.render style)) := by
  obtain ⟨hcode, hheader, -⟩ := h.matched.header_of_mem_unitLines hu
  have hall : ∀ l ∈ u.1 :: u.2, isStorageText (l.render style) = isNamed l := by
    refine List.forall_mem_cons.mpr ⟨hcode.isStorageText_render style, fun l hl => ?_⟩
    exact (h.matched.inside_of_mem_unitLines hu l hl).code.isStorageText_render style
  have hfilter : (u.1 :: u.2).filter isNamed = u.2.filter isNamed := by
    refine List.filter_cons_of_neg ?_
    cases hline : u.1 with
    | alloca name ty align =>
      rw [hline] at hheader
      cases hheader
    | _ => simp [isNamed]
  have hlocal (e : Entry) (he : e.isLocalTo key = true) : e.isDeclared = true :=
    Entry.isDeclared_of_isLocal (Bool.and_eq_true_iff.mp he).1
  rw [StoresText, filter_map_render hall, hfilter]
  exact (map_render_perm style (.of_eq hstores)).trans ((h.entries_perm hlocal).map _)

/-- The keys of the procedures in the table are those of the procedures that were bound. -/
theorem Leaves.procedureKeys_perm :
    (procedureKeys d.bound).Perm (procedureKeys s.table.entries) :=
  (h.entries_perm fun _ => Entry.isDeclared_of_isProcedure).map Prod.fst

/-- The function of a procedure in the text. -/
theorem Leaves.isUnitText {key : ScopeKey} {f : Ir.Function} (hf : f ∈ d.finished)
    (hunit : IsUnit d.bound key f) (style : PointerStyle) :
    IsUnitText style s.table.entries key
      (((unitOf f).1 :: (unitOf f).2).map (Ir.Line.render style)) where
  header := by
    obtain ⟨e, he, hkey, hprocedure, hheader⟩ := hunit.header
    refine ⟨e, (h.mem_entries_iff (Entry.isDeclared_of_isProcedure hprocedure)).mpr he, hkey,
      hprocedure, ?_⟩
    rw [Entry.headerText, hheader]
    rfl
  storage := by
    have hblank : Stores [] key [.blank] := rfl
    have hstores := hunit.storage.append hblank
    rw [List.append_nil] at hstores
    exact h.storesText (List.mem_append_left _ (List.mem_map_of_mem hf)) hstores style

/-- The program's own function in the text. -/
theorem Leaves.storesText_main {key : ScopeKey} (hstores : Stores d.bound key d.locals)
    (style : PointerStyle) :
    StoresText style s.table.entries key
      (((mainUnit d.locals).1 :: (mainUnit d.locals).2).map (Ir.Line.render style)) := by
  have hend : Stores [] key [.blank, .returnZero, .close] := rfl
  have hstores := hstores.append hend
  rw [List.append_nil] at hstores
  exact h.storesText (List.mem_append_right _ (List.mem_singleton_self _)) hstores style

end Leaves

/-- The code of a recognised program agrees with the symbol table.  Without a key that is declared
twice, the functions in the text are those of the procedures' keys `us` and the program's own one,
each with the storage of the variables that are local to its key, and every local variable is local
to one of them. -/
theorem code_agrees_with_table {file source : Bytes} {target : Target} {p : Program}
    (hok : (parse file source .empty (.new target)).result = .ok p) :
    let s := (parse file source .empty (.new target)).state
    ((p.lines.filter isGlobalText).map Except.ok).Perm
      ((s.table.entries.filter Entry.isVariable).map (Entry.lineText target.pointers)) ∧
    ((p.lines.filter isProcedureText).map Except.ok).Perm
      ((s.table.entries.filter Entry.isProcedure).map (Entry.headerText target.pointers)) ∧
    (s.Unduplicated → ∃ (us : List (ScopeKey × List Bytes)) (main : List Bytes),
      functions p.lines = us.map Prod.snd ++ [main] ∧
      (us.map Prod.fst).Perm (procedureKeys s.table.entries) ∧
      (∀ u ∈ us, IsUnitText target.pointers s.table.entries u.1 u.2) ∧
      StoresText target.pointers s.table.entries s.table.global main ∧
      ∀ e : Entry, e ∈ s.table.entries → e.isLocal = true →
        e.1.parent = s.table.global ∨ e.1.parent ∈ procedureKeys s.table.entries) := by
  intro s
  obtain ⟨d, hd⟩ := (program_start_emits file source target).of_parse_ok hok
  have hlines : p.lines = (emitted s.builder).map (Ir.Line.render target.pointers) := by
    rw [lines_of_parse_ok hok (congrArg Ir.Builder.parked hd.builder),
      congrArg Ir.Builder.target hd.builder]
  have hcode {l : Ir.Line} (hl : l ∈ emitted s.builder) : IsCode l := hd.isCode_of_mem hl
  refine ⟨?_, ?_, fun hclean => ?_⟩
  · rw [hlines, filter_map_render fun l hl => (hcode hl).isGlobalText_render _, hd.filter_isGlobal]
    refine (map_render_perm _ (.of_eq hd.matched.globals)).trans ((hd.entries_perm ?_).map _)
    exact fun e he => Entry.isDeclared_of_isEmitted (by rw [Entry.isEmitted, he, Bool.true_or])
  · have hheaders : ((d.finished.map Ir.Function.header).map Except.ok).Perm
        ((d.bound.filter Entry.isProcedure).map Entry.header) := by
      rw [List.map_map]
      exact hd.matched.headers
    rw [hlines, filter_map_render fun l hl => (hcode hl).isProcedureText_render _,
      hd.filter_isProcedureHeader]
    refine (map_render_perm _ hheaders).trans ((hd.entries_perm ?_).map _)
    exact fun e he => Entry.isDeclared_of_isEmitted (by rw [Entry.isEmitted, he, Bool.or_true])
  · have hplaced := hd.placed hclean
    obtain ⟨us, hfinished, hkeys, hus⟩ := hplaced.units
    refine ⟨us.map fun u =>
        (u.1, ((unitOf u.2).1 :: (unitOf u.2).2).map (Ir.Line.render target.pointers)),
      _, ?_, ?_, ?_, hd.storesText_main hplaced.locals _, ?_⟩
    · rw [hlines, hd.functions_eq, Emission.unitLines, ← hfinished]
      simp only [List.map_append, List.map_map, List.map_cons, List.map_nil]
      rfl
    · rw [List.map_map]
      exact hkeys.trans hd.procedureKeys_perm
    · intro v hv
      obtain ⟨u, hu, rfl⟩ := List.mem_map.mp hv
      exact hd.isUnitText (hfinished ▸ List.mem_map_of_mem hu) (hus u hu) _
    · intro e he hlocal
      have hbound := (hd.mem_entries_iff (Entry.isDeclared_of_isLocal hlocal)).mp he
      exact (hplaced.parents e hbound hlocal).imp_right hd.procedureKeys_perm.mem_iff.mp

/-- A program with variables of its own, of a procedure and of a procedure in it, with a global
variable that a procedure declares, with a parameter, and with a variable that is rejected. -/
def layeredSource : Bytes :=
  text "program p is integer a; procedure q(integer x in)
    global string h; bool b[0:2];
    procedure r() float c; begin end procedure;
    integer d[2:1]; begin end procedure;
    char e; begin end program."

/-- The code of the program has the storage of four variables in three functions. -/
theorem layeredSource_storage :
    ∃ p, (parse [] layeredSource .empty (.new .standard)).result = .ok p ∧
      (functions p.lines).map (fun u => (u.filter isStorageText).map fun l =>
        (l.drop 1).takeWhile continuesName) =
          [[text "p_q_r_c"], [text "p_q_b"], [text "p_a", text "p_e"]] ∧
      ∃ (us : List (ScopeKey × List Bytes)) (main : List Bytes),
        functions p.lines = us.map Prod.snd ++ [main] ∧
        ∀ u ∈ us, IsUnitText Target.standard.pointers
          (parse [] layeredSource .empty (.new .standard)).state.table.entries u.1 u.2 := by
  obtain ⟨hlines, hclean⟩ :
      (parse [] layeredSource .empty (.new .standard)).result.toOption.map
          (fun p => (functions p.lines).map fun u => (u.filter isStorageText).map fun l =>
            (l.drop 1).takeWhile continuesName) =
        some [[text "p_q_r_c"], [text "p_q_b"], [text "p_a", text "p_e"]] ∧
      ∀ d ∈ (parse [] layeredSource .empty (.new .standard)).state.diagnostics,
        d.code ≠ Diagnostic.duplicateCode := by
    decide +kernel
  cases hok : (parse [] layeredSource .empty (.new .standard)).result with
  | error e =>
    rw [hok] at hlines
    cases hlines
  | ok p =>
    rw [hok] at hlines
    obtain ⟨us, main, hfunctions, -, hus, -⟩ := (code_agrees_with_table hok).2.2 hclean
    exact ⟨p, rfl, Option.some.inj hlines, us, main, hfunctions, hus⟩

end OnePass.Program
