import Mathlib.Data.List.Nodup
import OnePass.Proofs.Acceptance.Program
import OnePass.Proofs.Emission.Program
set_option autoImplicit false

/-!
# The names that code defines

The code of a program defines the names of its global variables and procedures, one for each key
that is bound to one of them, and `main`.  The name of a key is the key with underscores for its
periods.  Names of a source may have underscores themselves, so different keys can have the same
name: the names are different exactly if no two keys of the program are mapped to one
(`nodup_definedName_iff`), and a program without any diagnostic can violate that
(`clashingSource_names`).
-/

namespace OnePass.Program

/-! ## Names in the text -/

theorem takeWhile_continuesName {name : Bytes} (hname : ∀ b ∈ name, continuesName b = true)
    {b : UInt8} (hb : continuesName b = false) (rest : Bytes) :
    (name ++ b :: rest).takeWhile continuesName = name := by
  rw [List.takeWhile_append_of_pos hname, List.takeWhile_cons, hb]
  simp

/-- The text of a line defines the name that the line defines. -/
theorem definedName?_render (style : PointerStyle) (l : Ir.Line)
    (hname : ∀ name, lineName? l = some name → ∀ b ∈ name, continuesName b = true) :
    definedName? (l.render style) = lineName? l := by
  cases l with
  | global name ty zero align =>
    have h := takeWhile_continuesName (hname name rfl) (b := Ascii.space) rfl
    simp only [Ir.Line.render, List.append_assoc]
    exact congrArg some (h _)
  | procedure name formals =>
    have h := takeWhile_continuesName (hname name rfl) (b := Ascii.leftParen) rfl
    simp only [Ir.Line.render, List.append_assoc]
    exact congrArg some (h _)
  | alloca name ty align => cases name <;> rfl
  | store ty value slot => rfl
  | verbatim content => rfl
  | blank => rfl
  | main => rfl
  | returnVoid => rfl
  | returnZero => rfl
  | close => rfl

theorem filterMap_definedName? (style : PointerStyle) (ls : List Ir.Line)
    (hnames : ∀ name ∈ ls.filterMap lineName?, ∀ b ∈ name, continuesName b = true) :
    (ls.map (Ir.Line.render style)).filterMap definedName? = ls.filterMap lineName? := by
  rw [List.filterMap_map]
  refine List.filterMap_congr fun l hl => definedName?_render style l fun name hname => ?_
  exact hnames name (List.mem_filterMap.mpr ⟨l, hl, hname⟩)

/-! ## Names of keys -/

theorem IsDotted.underscore_mem_irName {key : ScopeKey} (h : IsDotted key) :
    Ascii.underscore ∈ key.irName := by
  rw [ScopeKey.irName, Bytes.replaceByte, List.mem_map]
  exact ⟨_, h.period, if_pos rfl⟩

theorem IsDotted.irName_ne_main {key : ScopeKey} (h : IsDotted key) : key.irName ≠ text "main" := by
  intro heq
  have hmem := h.underscore_mem_irName
  rw [heq] at hmem
  exact absurd hmem (by decide)

/-- A key without underscores is found again in its name. -/
theorem replaceByte_irName {key : ScopeKey} (h : Ascii.underscore ∉ key) :
    Bytes.replaceByte Ascii.underscore Ascii.period key.irName = key := by
  rw [ScopeKey.irName, Bytes.replaceByte, Bytes.replaceByte, List.map_map]
  conv_rhs => rw [← List.map_id key]
  refine List.map_congr_left fun b hb => ?_
  have hb' : b ≠ Ascii.underscore := fun heq => h (heq ▸ hb)
  by_cases hperiod : b = Ascii.period
  · simp [hperiod]
  · simp [hperiod, hb']

/-- Only underscores can make different keys have the same name. -/
theorem eq_of_irName_eq {key key' : ScopeKey} (h : Ascii.underscore ∉ key)
    (h' : Ascii.underscore ∉ key') (heq : key.irName = key'.irName) : key = key' := by
  rw [← replaceByte_irName h, heq, replaceByte_irName h']

theorem continuesName_of_isWordByte {b : UInt8} (h : Lexeme.isWordByte b = true) :
    continuesName b = true := by
  unfold continuesName
  rw [Bool.and_eq_true, bne_iff_ne, bne_iff_ne]
  constructor
  · rintro rfl
    exact absurd h (by decide)
  · rintro rfl
    exact absurd h (by decide)

theorem IsDotted.continuesName_of_mem {key : ScopeKey} (h : IsDotted key) {b : UInt8}
    (hb : b ∈ key.irName) : continuesName b = true := by
  rw [ScopeKey.irName, Bytes.replaceByte, List.mem_map] at hb
  obtain ⟨c, hc, rfl⟩ := hb
  rcases h.bytes c hc with hword | rfl
  · split
    · decide
    · exact continuesName_of_isWordByte hword
  · decide

/-! ## Names of entries -/

theorem lineName?_line {e : Entry} {l : Ir.Line} (he : e.isVariable = true) (h : e.line = .ok l) :
    lineName? l = some e.1.irName := by
  have hglobal : e.2.global = true := (Bool.and_eq_true_iff.mp he).1
  obtain ⟨storage, rfl⟩ := declaration_eq_ok h
  rw [if_pos hglobal]
  rfl

theorem lineName?_header {e : Entry} {l : Ir.Line} (h : e.header = .ok l) :
    lineName? l = some e.1.irName := by
  obtain ⟨fs, -, rfl⟩ := exists_formals_of_header h
  rfl

/-- Lines that entries become define the names of the entries. -/
theorem filterMap_lineName?_perm {ls : List Ir.Line} {es : List Entry}
    {f : Entry → Except Ir.Error Ir.Line} (h : (ls.map Except.ok).Perm (es.map f))
    (hname : ∀ e ∈ es, ∀ l, f e = .ok l → lineName? l = some e.1.irName) :
    (ls.filterMap lineName?).Perm (es.map fun e => e.1.irName) := by
  have hline (e : Entry) (he : e ∈ es) : (f e).toOption.bind lineName? = some e.1.irName := by
    obtain ⟨l, -, hl⟩ := List.mem_map.mp (h.mem_iff.mpr (List.mem_map_of_mem he))
    rw [← hl]
    exact hname e he l hl.symm
  have hnames := h.filterMap fun r => r.toOption.bind lineName?
  rw [List.filterMap_map, List.filterMap_map] at hnames
  rw [← List.filterMap_eq_map']
  exact hnames.trans (.of_eq (List.filterMap_congr hline))

/-- An entry that is emitted is either a variable or a procedure. -/
theorem filter_isEmitted_perm (es : List Entry) :
    (es.filter Entry.isVariable ++ es.filter Entry.isProcedure).Perm
      (es.filter Entry.isEmitted) := by
  have hvariable : (es.filter Entry.isEmitted).filter Entry.isVariable =
      es.filter Entry.isVariable := by
    rw [List.filter_filter]
    refine List.filter_congr fun e _ => ?_
    cases h : e.isVariable <;> simp [Entry.isEmitted, h]
  have hprocedure : (es.filter Entry.isEmitted).filter (fun e => !e.isVariable) =
      es.filter Entry.isProcedure := by
    rw [List.filter_filter]
    refine List.filter_congr fun e _ => ?_
    cases hkind : e.2.kind <;>
      simp [Entry.isEmitted, Entry.isVariable, Entry.isProcedure, hkind, Kind.isScalar]
  have hsplit := List.filter_append_perm Entry.isVariable (es.filter Entry.isEmitted)
  rwa [hvariable, hprocedure] at hsplit

/-! ## Names of programs -/

/-- Whether a key is bound to a symbol whose name the code defines. -/
def Defines (m : Bindings) (key : ScopeKey) : Prop :=
  ∃ sym, m[key]? = some sym ∧ Entry.isEmitted (key, sym) = true

/-- Of a function whose body defines no names, the header defines what is defined. -/
theorem filterMap_lineName?_lines {f : Ir.Function} (h : ∀ l ∈ f.body, IsInner l) :
    f.lines.filterMap lineName? = [f.header].filterMap lineName? := by
  have hlines : f.lines = [f.header] ++ f.body := rfl
  have hbody := List.filterMap_eq_nil_iff.mpr fun l hl => (h l hl).lineName?
  rw [hlines, List.filterMap_append, hbody, List.append_nil]

theorem filterMap_lineName?_functions {fs : List Ir.Function}
    (h : ∀ f ∈ fs, ∀ l ∈ f.body, IsInner l) :
    (fs.flatMap fun f => f.lines ++ [.blank]).filterMap lineName? =
      (fs.map Ir.Function.header).filterMap lineName? := by
  induction fs with
  | nil => rfl
  | cons f fs ih =>
    obtain ⟨hf, hfs⟩ := List.forall_mem_cons.mp h
    have hblank : [Ir.Line.blank].filterMap lineName? = [] := rfl
    have hcons : (f :: fs).map Ir.Function.header = [f.header] ++ fs.map Ir.Function.header := rfl
    rw [List.flatMap_cons, List.filterMap_append, ih hfs, List.filterMap_append,
      filterMap_lineName?_lines hf, hblank, List.append_nil, hcons, List.filterMap_append]

section Leaves

variable {target : Target} {s : State} {d : Emission} (h : Leaves target s d)

include h

/-- The keys of the entries whose names are defined. -/
theorem Leaves.mem_keys_iff {key : ScopeKey} :
    key ∈ (d.bound.filter Entry.isEmitted).map Prod.fst ↔ Defines s.table.bindings key := by
  constructor
  · intro hkey
    obtain ⟨e, he, rfl⟩ := List.mem_map.mp hkey
    obtain ⟨hmem, hemitted⟩ := List.mem_filter.mp he
    exact ⟨e.2, (h.bindings e (Entry.isDeclared_of_isEmitted hemitted)).mpr hmem, hemitted⟩
  · rintro ⟨sym, hsym, hemitted⟩
    have hmem := (h.bindings (key, sym) (Entry.isDeclared_of_isEmitted hemitted)).mp hsym
    exact List.mem_map.mpr ⟨_, List.mem_filter.mpr ⟨hmem, hemitted⟩, rfl⟩

/-- The code defines the names of the keys, and `main`. -/
theorem Leaves.names_perm :
    ((emitted s.builder).filterMap lineName?).Perm
      (((d.bound.filter Entry.isEmitted).map Prod.fst).map ScopeKey.irName ++ [text "main"]) := by
  have hvariables := filterMap_lineName?_perm (.of_eq h.matched.globals)
    fun e he l => lineName?_line (List.mem_filter.mp he).2
  have hheaders : ((d.finished.map Ir.Function.header).map Except.ok).Perm
      ((d.bound.filter Entry.isProcedure).map Entry.header) := by
    rw [List.map_map]
    exact h.matched.headers
  have hprocedures := filterMap_lineName?_perm hheaders fun e _ l => lineName?_header
  have hcode : (emitted s.builder).filterMap lineName? =
      d.globals.filterMap lineName? ++ (d.finished.map Ir.Function.header).filterMap lineName? ++
        [text "main"] := by
    have hfunctions := filterMap_lineName?_functions h.matched.bodies
    have hcurrent := filterMap_lineName?_lines (f := ⟨.main, d.locals, 1⟩) h.matched.locals
    have hblank : [Ir.Line.blank].filterMap lineName? = [] := rfl
    have hend : [Ir.Line.blank, .returnZero, .close].filterMap lineName? = [] := rfl
    have hmain : [Ir.Line.main].filterMap lineName? = [text "main"] := rfl
    simp only [h.builder, emitted, List.filterMap_append, hfunctions, hcurrent, hblank, hend, hmain,
      List.append_nil]
  rw [hcode, List.map_map]
  refine List.Perm.append_right _ ((hvariables.append hprocedures).trans ?_)
  rw [← List.map_append]
  exact (filter_isEmitted_perm d.bound).map _

theorem Leaves.isDotted_of_defines {key : ScopeKey} (hkey : Defines s.table.bindings key) :
    IsDotted key := by
  obtain ⟨sym, hsym, hemitted⟩ := hkey
  exact h.matched.keys _ ((h.bindings (key, sym) (Entry.isDeclared_of_isEmitted hemitted)).mp hsym) hemitted

/-- Every name that is defined goes on to its end. -/
theorem Leaves.continuesName_of_mem {name : Bytes}
    (hname : name ∈ (emitted s.builder).filterMap lineName?) :
    ∀ b ∈ name, continuesName b = true := by
  rw [h.names_perm.mem_iff, List.mem_append, List.mem_map, List.mem_singleton] at hname
  rcases hname with ⟨key, hkey, rfl⟩ | rfl
  · intro b hb
    exact (h.isDotted_of_defines (h.mem_keys_iff.mp hkey)).continuesName_of_mem hb
  · have hmain : (text "main").all continuesName = true := rfl
    exact List.all_eq_true.mp hmain

/-- The names are different exactly if those of the keys are. -/
theorem Leaves.nodup_names_iff :
    ((emitted s.builder).filterMap lineName?).Nodup ↔
      ∀ key key', Defines s.table.bindings key → Defines s.table.bindings key' →
        key.irName = key'.irName → key = key' := by
  have hkeys : ((d.bound.filter Entry.isEmitted).map Prod.fst).Nodup :=
    (List.filter_sublist.map Prod.fst).nodup h.nodup
  have hmain : ∀ name ∈ ((d.bound.filter Entry.isEmitted).map Prod.fst).map ScopeKey.irName,
      name ≠ text "main" := by
    intro name hname
    obtain ⟨key, hkey, rfl⟩ := List.mem_map.mp hname
    exact (h.isDotted_of_defines (h.mem_keys_iff.mp hkey)).irName_ne_main
  rw [h.names_perm.nodup_iff, List.nodup_append, List.nodup_map_iff_inj_on hkeys]
  simp only [h.mem_keys_iff, List.mem_singleton, forall_eq]
  constructor
  · rintro ⟨hinj, -⟩ key key' hkey hkey'
    exact hinj key hkey key' hkey'
  · intro hinj
    exact ⟨fun key hkey key' hkey' => hinj key key' hkey hkey', List.nodup_singleton _, hmain⟩

end Leaves

/-- The lines of a recognised program are the text of what was emitted. -/
theorem lines_of_parse_ok {file source : Bytes} {table : Table} {builder : Ir.Builder} {p : Program}
    (hok : (parse file source table builder).result = .ok p)
    (hparked : (parse file source table builder).state.builder.parked = []) :
    p.lines = (emitted (parse file source table builder).state.builder).map
      (Ir.Line.render (parse file source table builder).state.builder.target.pointers) := by
  have hresult : (parse file source table builder).result =
      finish p.name (parse file source table builder).state := by
    exact congrArg Outcome.result (parse_of_ok (program_of_parse_ok hok))
  rw [hok, finish, finishedText_of_parked hparked] at hresult
  cases p
  cases hresult
  rfl

/-- The names that the code of a recognised program defines are different exactly if no two keys of
the program's global variables and procedures have the same name.  They are, if the keys have no
underscores. -/
theorem nodup_definedName_iff {file source : Bytes} {target : Target} {p : Program}
    (hok : (parse file source .empty (.new target)).result = .ok p) :
    ((p.lines.filterMap definedName?).Nodup ↔
      ∀ key key', Defines (parse file source .empty (.new target)).state.table.bindings key →
        Defines (parse file source .empty (.new target)).state.table.bindings key' →
        key.irName = key'.irName → key = key') ∧
    ((∀ key, Defines (parse file source .empty (.new target)).state.table.bindings key →
        Ascii.underscore ∉ key) → (p.lines.filterMap definedName?).Nodup) := by
  obtain ⟨d, hd⟩ := (program_start_emits file source target).of_parse_ok hok
  have hparked := congrArg Ir.Builder.parked hd.builder
  rw [lines_of_parse_ok hok hparked,
    filterMap_definedName? _ _ fun name hname => hd.continuesName_of_mem hname]
  refine ⟨hd.nodup_names_iff, fun hplain => hd.nodup_names_iff.mpr ?_⟩
  intro key key' hkey hkey' heq
  exact eq_of_irName_eq (hplain key hkey) (hplain key' hkey') heq

theorem exists_ok_of_map_toOption {α : Type} {r : Except Error Program} {f : Program → α} {a : α}
    (h : r.toOption.map f = some a) : ∃ p, r = .ok p ∧ f p = a := by
  cases r with
  | error e => cases h
  | ok p => exact ⟨p, rfl, Option.some.inj h⟩

/-- A program with underscores in its names, a rejected variable, and a procedure that is dropped
while the one inside of it stays. -/
def underscoredSource : Bytes :=
  text "program p is global integer a_b; global integer c[2:1];
    procedure a() procedure c() begin end procedure; begin end procedure;
    procedure a() procedure d_() begin end procedure; begin end procedure;
    begin end program."

/-- The names of the program are different, and so no two keys have the same name. -/
theorem underscoredSource_names :
    ∃ p, (parse [] underscoredSource .empty (.new .standard)).result = .ok p ∧
      p.lines.filterMap definedName? =
        [text "p_a_b", text "p_a_c", text "p_a", text "p_a_d_", text "main"] ∧
      ∀ key key',
        Defines (parse [] underscoredSource .empty (.new .standard)).state.table.bindings key →
        Defines (parse [] underscoredSource .empty (.new .standard)).state.table.bindings key' →
        key.irName = key'.irName → key = key' := by
  have hlines : (parse [] underscoredSource .empty (.new .standard)).result.toOption.map
        (fun p => p.lines.filterMap definedName?) =
      some [text "p_a_b", text "p_a_c", text "p_a", text "p_a_d_", text "main"] := by
    decide +kernel
  obtain ⟨p, hok, hnames⟩ := exists_ok_of_map_toOption hlines
  refine ⟨p, hok, hnames, (nodup_definedName_iff hok).1.mp ?_⟩
  rw [hnames]
  decide

/-- A program with a global variable and a procedure in a procedure whose keys differ in a period
only. -/
def clashingSource : Bytes :=
  text "program p is global integer a_b;
    procedure a() procedure b() begin end procedure; begin end procedure;
    begin end program."

/-- The code of a program without any diagnostic can define a name twice. -/
theorem clashingSource_names :
    ∃ p, (parse [] clashingSource .empty (.new .standard)).result = .ok p ∧
      (parse [] clashingSource .empty (.new .standard)).state.diagnostics = [] ∧
      p.lines.filterMap definedName? = [text "p_a_b", text "p_a_b", text "p_a", text "main"] ∧
      ¬(p.lines.filterMap definedName?).Nodup := by
  obtain ⟨hlines, hclean⟩ :
      (parse [] clashingSource .empty (.new .standard)).result.toOption.map
          (fun p => p.lines.filterMap definedName?) =
        some [text "p_a_b", text "p_a_b", text "p_a", text "main"] ∧
      (parse [] clashingSource .empty (.new .standard)).state.diagnostics = [] := by
    decide +kernel
  obtain ⟨p, hok, hnames⟩ := exists_ok_of_map_toOption hlines
  refine ⟨p, hok, hclean, hnames, ?_⟩
  rw [hnames]
  decide

end OnePass.Program
