import OnePass.Proofs.Emission.Layout
import OnePass.Proofs.Scoping.Program
set_option autoImplicit false

/-!
# Names inside functions

A function introduces names of three kinds: its parameters in the header, the slots in which these are
stored, and its variables.  Slots are numbers, and differ from everything else.  Variables are called by
their keys, and differ from each other.  Parameters keep the names they have in the source.  So if no
key was declared twice, a function introduces a name twice exactly if two parameters have one name, or
if a parameter has the name that a variable gets from its key (`nodup_introducedText_iff`).

Neither is ruled out: of two parameters with one name the first is bound and no complaint is made, and
a name of the source may look like a key (`repeatedFormal_names`).
-/

namespace OnePass

/-! ## Names of parameters -/

/-- Names in a tree of scopes start with a letter and are in small letters. -/
theorem Table.IsWellScoped.parameter_name {t : Table} (h : t.IsWellScoped) {key : ScopeKey}
    {sym : Symbol} (hsym : t.bindings[key]? = some sym) (hkind : sym.kind = .procedure)
    {p : Parameter} (hp : p ∈ sym.parameters) :
    p.name.head?.any Ascii.isLetter = true ∧ p.name.lower = p.name := by
  obtain ⟨-, bound, -, hbound, -⟩ := h.formals key sym hsym hkind p hp
  have hpieces : ∀ piece ∈ List.splitOn Ascii.period p.name, ScopeKey.IsSegment piece := by
    intro piece hpiece
    refine (h.keys _ bound hbound).segments piece ?_
    rw [ScopeKey.child, List.splitOn_append_cons_self]
    exact List.mem_append_right _ hpiece
  have hbytes : ∀ b ∈ p.name, b < 0x80 ∧ Ascii.toLower b = b := by
    intro b hb
    rcases Bytes.mem_splitOn Ascii.period hb with rfl | ⟨piece, hpiece, hb⟩
    · decide
    · have hsegment := hpieces piece hpiece
      exact ⟨Lexeme.lt_of_isWordByte (hsegment.isWordByte b hb),
        List.map_eq_map_iff.mp (hsegment.2.2.trans (List.map_id piece).symm) b hb⟩
  constructor
  · cases hname : p.name with
    | nil =>
      rw [hname] at hpieces
      exact absurd (hpieces [] (List.mem_singleton_self _)) (by decide)
    | cons b rest =>
      rw [hname, List.splitOn_cons_eq_if_modifyHead] at hpieces
      split at hpieces
      · exact absurd (hpieces [] List.mem_cons_self) (by decide)
      · cases hsplit : List.splitOn Ascii.period rest with
        | nil => exact absurd hsplit (List.splitOn_ne_nil _ rest)
        | cons piece pieces =>
          rw [hsplit] at hpieces
          exact (hpieces _ List.mem_cons_self).1
  · have hascii : p.name.isAscii = true := List.all_eq_true.mpr fun b hb =>
      decide_eq_true (hbytes b hb).1
    rw [Bytes.lower_of_isAscii hascii]
    exact (List.map_congr_left fun b hb => (hbytes b hb).2).trans (List.map_id p.name)

namespace Program

open OnePass.Tree (slotLines)

/-! ## Names in the text -/

/-- The sign in front of names inside functions. -/
abbrev percent : UInt8 := 0x25

/-- The names in a text that have the sign in front of them. -/
def percentNames : Bytes → List Bytes
  | [] => []
  | b :: s => if b = percent then s.takeWhile Lexeme.isWordByte :: percentNames s else percentNames s

/-- The names that a line of text introduces inside a function: headers introduce parameters, and all
other lines that introduce a name start with it. -/
def introducedText (line : Bytes) : List Bytes :=
  if isHeaderText line || (text "%").isPrefixOf line then percentNames line else []

/-- The names that a line introduces inside a function. -/
def introduced : Ir.Line → List Bytes
  | .procedure _ formals => formals.map Ir.Formal.name
  | .alloca (.named name) _ _ => [name]
  | .alloca (.slot number) _ _ => [Bytes.ofNat number]
  | _ => []

theorem percentNames_append {s : Bytes} (h : percent ∉ s) (t : Bytes) :
    percentNames (s ++ t) = percentNames t := by
  induction s with
  | nil => rfl
  | cons b s ih =>
    rw [List.mem_cons, not_or] at h
    rw [List.cons_append, percentNames, if_neg (Ne.symm h.1), ih h.2]

theorem percent_notMem_of_isWord {name : Bytes} (h : Ir.IsWord name) : percent ∉ name :=
  fun hmem => absurd (h _ hmem) (by decide)

theorem isWord_ofNat (n : Nat) : Ir.IsWord (Bytes.ofNat n) := by
  intro b hb
  simp [Lexeme.isWordByte, Bytes.isDigit_of_mem_ofNat n b hb]

/-- A name ends where a byte follows that no name has. -/
theorem percentNames_name {name : Bytes} (hname : Ir.IsWord name) {t : Bytes}
    (ht : t.head?.any Lexeme.isWordByte = false) :
    percentNames (text "%" ++ name ++ t) = name :: percentNames t := by
  have hend : t.takeWhile Lexeme.isWordByte = [] := by
    cases t with
    | nil => rfl
    | cons b t => exact List.takeWhile_cons_of_neg (by simpa using ht)
  have htake : (name ++ t).takeWhile Lexeme.isWordByte = name := by
    rw [List.takeWhile_append_of_pos hname, hend, List.append_nil]
  have hcons : text "%" ++ name ++ t = percent :: (name ++ t) := rfl
  rw [hcons, percentNames, if_pos rfl, htake, percentNames_append (percent_notMem_of_isWord hname)]

section Render

variable {style : PointerStyle}

theorem percent_notMem_ty (ty : Ir.Ty) : percent ∉ ty.render style :=
  fun h => absurd (ty.byte_of_mem_render h) (by decide)

theorem percentNames_formal {f : Ir.Formal} (hf : f.IsWorded) {t : Bytes}
    (ht : t.head?.any Lexeme.isWordByte = false) :
    percentNames (f.render style ++ t) = f.name :: percentNames t := by
  have htype : percent ∉ f.ty.render style ++ text " " := by
    rw [List.mem_append, not_or]
    exact ⟨percent_notMem_ty f.ty, by decide⟩
  rw [Ir.Formal.render, List.append_assoc, percentNames_append htype]
  exact percentNames_name hf.name ht

/-- The names of parameters that are joined by commas, with something behind them. -/
theorem percentNames_formals {fs : List Ir.Formal} (hfs : ∀ f ∈ fs, f.IsWorded) {t : Bytes}
    (ht : t.head?.any Lexeme.isWordByte = false) :
    percentNames (Bytes.join (text ", ") (fs.map (Ir.Formal.render style)) ++ t) =
      fs.map Ir.Formal.name ++ percentNames t := by
  induction fs with
  | nil => rfl
  | cons f fs ih =>
    obtain ⟨hf, hfs⟩ := List.forall_mem_cons.mp hfs
    cases fs with
    | nil =>
      have hjoin : Bytes.join (text ", ") ([f].map (Ir.Formal.render style)) = f.render style :=
        List.intercalate_singleton
      rw [hjoin, percentNames_formal hf ht]
      rfl
    | cons g gs =>
      have hcomma : percent ∉ text ", " := by decide
      rw [List.map_cons, List.map_cons, Bytes.join_cons_cons, ← List.map_cons, List.append_assoc,
        List.append_assoc, percentNames_formal hf rfl, percentNames_append hcomma, ih hfs]
      rfl

theorem introducedText_alloca {name : Bytes} (hname : Ir.IsWord name) (ty : Ir.Ty) (align : Nat) :
    introducedText (text "%" ++ name ++ text " = alloca " ++ ty.render style ++ text ", align " ++
      Bytes.ofNat align) = [name] := by
  have hrest : percent ∉ text " = alloca " ++ (ty.render style ++ (text ", align " ++
      Bytes.ofNat align)) := by
    simp only [List.mem_append, not_or]
    exact ⟨by decide, percent_notMem_ty ty, by decide, percent_notMem_of_isWord (isWord_ofNat align)⟩
  simp only [List.append_assoc]
  rw [introducedText, if_pos (by simp [text]), ← List.append_assoc (text "%"),
    percentNames_name hname rfl]
  have hnone := percentNames_append hrest []
  rw [List.append_nil] at hnone
  rw [hnone]
  rfl

/-- The names that a worded line introduces can be read in its text. -/
theorem introducedText_render {l : Ir.Line} (h : l.IsWorded) :
    introducedText (l.render style) = introduced l := by
  cases l with
  | procedure name formals =>
    have hfront : percent ∉ text "define void @" ++ name ++ text "(" := by
      simp only [List.mem_append, not_or]
      exact ⟨⟨by decide, percent_notMem_of_isWord h.1⟩, by decide⟩
    have hheader : isHeaderText ((Ir.Line.procedure name formals).render style) = true := rfl
    rw [introducedText, hheader, Bool.true_or, if_pos rfl, Ir.Line.render, List.append_assoc,
      percentNames_append hfront, percentNames_formals h.2 rfl]
    exact List.append_nil _
  | alloca name ty align =>
    cases name with
    | named name => exact introducedText_alloca h.1 ty align
    | slot number => exact introducedText_alloca (isWord_ofNat number) ty align
  | verbatim content => exact h.elim
  | _ => rfl

end Render

/-! ## Names of functions -/

/-- The names of entries that a function keeps for itself are those of the lines that store them. -/
theorem introduced_of_lines {ls : List Ir.Line} {es : List Entry}
    (h : ls.map Except.ok = es.map Entry.line) (hes : ∀ e ∈ es, e.isLocal = true) :
    ls.flatMap introduced = es.map fun e => e.1.irName := by
  induction es generalizing ls with
  | nil =>
    rw [List.map_eq_nil_iff.mp h]
    rfl
  | cons e es ih =>
    obtain ⟨he, hes⟩ := List.forall_mem_cons.mp hes
    obtain ⟨l, ls, rfl, hline, hls⟩ := List.map_eq_cons_iff.mp h
    have hglobal : e.2.global = false := by
      simp only [Entry.isLocal, Bool.and_eq_true, Bool.not_eq_true'] at he
      exact he.1.1
    obtain ⟨storage, rfl⟩ := declaration_eq_ok hline.symm
    rw [if_neg (by simp [hglobal]), List.flatMap_cons, ih hls hes]
    rfl

theorem introduced_slotLines (n : Nat) (fs : List Ir.Formal) :
    (slotLines n fs).flatMap introduced = (List.range' n fs.length).map Bytes.ofNat := by
  induction fs generalizing n with
  | nil => rfl
  | cons f fs ih =>
    rw [slotLines, List.flatMap_cons, List.flatMap_cons, ih, List.length_cons, List.range'_succ]
    rfl

/-- Of lines inside of functions that are no slots, those with a name introduce one. -/
theorem introduced_filter_isNamed {ls : List Ir.Line} (h : ∀ l ∈ ls, IsInner l)
    (hslots : ∀ l ∈ ls, isSlot l = false) :
    (ls.filter isNamed).flatMap introduced = ls.flatMap introduced := by
  induction ls with
  | nil => rfl
  | cons l ls ih =>
    obtain ⟨hl, hls⟩ := List.forall_mem_cons.mp h
    obtain ⟨hslot, hslots⟩ := List.forall_mem_cons.mp hslots
    rw [List.flatMap_cons, ← ih hls hslots]
    cases hl with
    | named hkey ty align => rfl
    | slot number ty align => cases hslot
    | store ty value slot => rfl
    | returnVoid => rfl
    | close => rfl

/-- The names in the header of a procedure are those of its parameters. -/
theorem formals_of_header {e : Entry} {header : Ir.Line} (h : e.header = .ok header) :
    (formalsOf header).map Ir.Formal.name = e.2.parameters.map fun p => p.name.lower := by
  have hname {p : Parameter} {f : Ir.Formal} (hf : Ir.Formal.ofParameter p = .ok f) :
      f.name = p.name.lower := by
    unfold Ir.Formal.ofParameter at hf
    split at hf
    · split at hf <;> cases hf <;> rfl
    · cases hf
  have hnames (ps : List Parameter) (fs : List Ir.Formal)
      (hfs : ps.mapM Ir.Formal.ofParameter = .ok fs) :
      fs.map Ir.Formal.name = ps.map fun p => p.name.lower := by
    induction ps generalizing fs with
    | nil =>
      cases hfs
      rfl
    | cons p ps ih =>
      rw [List.mapM_cons] at hfs
      cases hf : Ir.Formal.ofParameter p with
      | error e =>
        rw [hf] at hfs
        cases hfs
      | ok f =>
        cases hrest : ps.mapM Ir.Formal.ofParameter with
        | error e =>
          rw [hf, hrest] at hfs
          cases hfs
        | ok rest =>
          rw [hf, hrest] at hfs
          cases hfs
          rw [List.map_cons, List.map_cons, hname hf, ih rest hrest]
  obtain ⟨fs, hformals, rfl⟩ := exists_formals_of_header h
  exact hnames _ fs hformals

/-- The names that the function of a procedure introduces: those of its parameters, numbers, and those
of the keys of its variables. -/
def namesOf (es : List Entry) (key : ScopeKey) (formals : List Bytes) : List Bytes :=
  formals ++ ((List.range' 1 formals.length).map Bytes.ofNat ++
    (es.filter (Entry.isLocalTo key)).map fun e => e.1.irName)

/-- The names of lines that store parameters and variables, and are followed by others. -/
theorem introduced_body {es : List Entry} {key : ScopeKey} {f : Ir.Function} (hf : Slotted f)
    (hinner : ∀ l ∈ f.body, IsInner l) (hstores : Stores es key f.body) (rest : List Ir.Line)
    (hrest : ∀ l ∈ rest, introduced l = []) :
    (f.body ++ rest).flatMap introduced =
      (List.range' 1 (formalsOf f.header).length).map Bytes.ofNat ++
        (es.filter (Entry.isLocalTo key)).map fun e => e.1.irName := by
  have hlocal : ∀ e ∈ es.filter (Entry.isLocalTo key), e.isLocal = true :=
    fun e he => (Bool.and_eq_true_iff.mp (List.mem_filter.mp he).2).1
  obtain ⟨ls, hbody, hslots⟩ := hf
  rw [hbody] at hinner hstores
  have hnone : (slotLines 1 (formalsOf f.header)).filter isNamed = [] := by
    rw [List.filter_eq_nil_iff]
    intro l hl
    rw [(isInner_slotLines 1 _ l hl).2]
    exact Bool.false_ne_true
  rw [Stores, List.filter_append, hnone, List.nil_append] at hstores
  have hls := introduced_filter_isNamed (fun l hl => hinner l (List.mem_append_right _ hl)) hslots
  rw [List.flatMap_append, List.flatMap_eq_nil_iff.mpr hrest, List.append_nil, hbody,
    List.flatMap_append, introduced_slotLines, ← hls, introduced_of_lines hstores hlocal]

/-! ## When names differ -/

/-- Whether the parameters of a procedure have names of their own: no two of them have the same one, and
none is the name of the key of a variable of the procedure. -/
def HasOwnNames (es : List Entry) (e : Entry) : Prop :=
  (e.2.parameters.map Parameter.name).Nodup ∧
    ∀ p ∈ e.2.parameters, ∀ v ∈ es, v.isLocalTo e.1 = true → v.1.irName ≠ p.name

section Differ

variable {es : List Entry} {key : ScopeKey} {formals : List Bytes}

/-- The key of a variable of a function is that of a name in the scope of the function. -/
theorem exists_of_isLocalTo {e : Entry} (hkey : key ≠ []) (he : e.isLocalTo key = true) :
    ∃ name, Ascii.period ∉ name ∧ e.1 = key.child name := by
  have hparent : e.1.parent = key := of_decide_eq_true (Bool.and_eq_true_iff.mp he).2
  obtain ⟨name, hname, hchild⟩ := ScopeKey.exists_eq_child (hparent.symm ▸ hkey)
  rw [hparent] at hchild
  exact ⟨name, hname, hchild⟩

theorem underscore_mem_of_isLocalTo {e : Entry} (hkey : key ≠ []) (he : e.isLocalTo key = true) :
    Ascii.underscore ∈ e.1.irName := by
  obtain ⟨name, hname, hchild⟩ := exists_of_isLocalTo hkey he
  rw [hchild, ScopeKey.irName_child key hname]
  exact List.mem_append_right _ List.mem_cons_self

/-- Variables of one function have different names. -/
theorem nodup_irName_locals (hes : (es.map Prod.fst).Nodup)
    (hkey : ∀ e ∈ es, e.isLocalTo key = true → key ≠ []) :
    ((es.filter (Entry.isLocalTo key)).map fun e => e.1.irName).Nodup := by
  have hkeys : ((es.filter (Entry.isLocalTo key)).map Prod.fst).Nodup :=
    (List.filter_sublist.map Prod.fst).nodup hes
  have hsame : (es.filter (Entry.isLocalTo key)).map (fun e => e.1.irName) =
      ((es.filter (Entry.isLocalTo key)).map Prod.fst).map ScopeKey.irName := by
    rw [List.map_map]
    rfl
  rw [hsame, List.nodup_map_iff_inj_on hkeys]
  intro k hk k' hk' heq
  obtain ⟨e, he, rfl⟩ := List.mem_map.mp hk
  obtain ⟨e', he', rfl⟩ := List.mem_map.mp hk'
  obtain ⟨he, hlocal⟩ := List.mem_filter.mp he
  have hne := hkey e he hlocal
  obtain ⟨name, hname, hchild⟩ := exists_of_isLocalTo hne hlocal
  obtain ⟨name', hname', hchild'⟩ := exists_of_isLocalTo hne (List.mem_filter.mp he').2
  rw [hchild, hchild', ScopeKey.irName_child key hname, ScopeKey.irName_child key hname'] at heq
  rw [hchild, hchild', (List.cons.inj (List.append_cancel_left heq)).2]

theorem isDigit_of_isLetter {b : UInt8} (h : Ascii.isLetter b = true) : Ascii.isDigit b = false :=
  Ascii.forall_byte (p := fun b => Ascii.isLetter b = true → Ascii.isDigit b = false)
    (by decide +kernel) b h

/-- Only parameters can share their names, with each other or with variables. -/
theorem nodup_namesOf_iff (hes : (es.map Prod.fst).Nodup)
    (hkey : ∀ e ∈ es, e.isLocalTo key = true → key ≠ [])
    (hformals : ∀ name ∈ formals, name.head?.any Ascii.isLetter = true) :
    (namesOf es key formals).Nodup ↔
      formals.Nodup ∧ ∀ name ∈ formals, ∀ e ∈ es, e.isLocalTo key = true → e.1.irName ≠ name := by
  have hnumbers : ((List.range' 1 formals.length).map Bytes.ofNat).Nodup :=
    (List.nodup_range' 1).map fun _ _ => Numeral.ofNat_inj
  have hapart : ∀ number ∈ (List.range' 1 formals.length).map Bytes.ofNat,
      ∀ name ∈ (es.filter (Entry.isLocalTo key)).map fun e => e.1.irName, number ≠ name := by
    intro number hnumber name hname heq
    obtain ⟨n, -, rfl⟩ := List.mem_map.mp hnumber
    obtain ⟨e, he, rfl⟩ := List.mem_map.mp hname
    obtain ⟨he, hlocal⟩ := List.mem_filter.mp he
    have hunderscore := underscore_mem_of_isLocalTo (hkey e he hlocal) hlocal
    rw [← heq] at hunderscore
    exact absurd (Bytes.isDigit_of_mem_ofNat n _ hunderscore) (by decide)
  have hletters : ∀ name ∈ formals, ∀ number ∈ (List.range' 1 formals.length).map Bytes.ofNat,
      name ≠ number := by
    intro name hname number hnumber heq
    obtain ⟨n, -, rfl⟩ := List.mem_map.mp hnumber
    obtain ⟨b, rest, hcons, hdigit, -⟩ := Bytes.exists_ofNat_eq_cons n
    have hletter := hformals name hname
    rw [heq, hcons] at hletter
    exact absurd hdigit (Bool.eq_false_iff.mp (isDigit_of_isLetter hletter))
  rw [namesOf, List.nodup_append, List.nodup_append]
  constructor
  · rintro ⟨hnodup, -, hdisjoint⟩
    refine ⟨hnodup, fun name hname e he hlocal heq => ?_⟩
    refine hdisjoint name hname _ (List.mem_append_right _ ?_) heq.symm
    exact List.mem_map_of_mem (List.mem_filter.mpr ⟨he, hlocal⟩)
  · rintro ⟨hnodup, hvariables⟩
    refine ⟨hnodup, ⟨hnumbers, nodup_irName_locals hes hkey, hapart⟩, fun name hname other hother => ?_⟩
    rcases List.mem_append.mp hother with hother | hother
    · exact hletters name hname other hother
    · obtain ⟨e, he, rfl⟩ := List.mem_map.mp hother
      obtain ⟨he, hlocal⟩ := List.mem_filter.mp he
      exact (hvariables name hname e he hlocal).symm

end Differ

/-! ## Names of programs -/

theorem flatMap_introducedText {style : PointerStyle} {ls : List Ir.Line}
    (h : ∀ l ∈ ls, l.IsWorded) :
    (ls.map (Ir.Line.render style)).flatMap introducedText = ls.flatMap introduced := by
  rw [List.flatMap_map]
  exact List.flatMap_congr fun l hl => introducedText_render (h l hl)

section Leaves

variable {target : Target} {s : State} {d : Emission} (h : Leaves target s d)
  (hworded : s.builder.IsWorded) (hslotted : SlottedCode s.builder)
  (hscoped : s.table.IsWellScoped) (style : PointerStyle)

include h

theorem Leaves.getElem?_bindings {e : Entry} (he : e ∈ d.bound) (hdeclared : e.isDeclared = true) :
    s.table.bindings[e.1]? = some e.2 :=
  (h.bindings e hdeclared).mpr he

include hworded hslotted

/-- The names of the function of a procedure. -/
theorem Leaves.names_unit {f : Ir.Function} (hf : f ∈ d.finished) {e : Entry}
    (hformals : ∀ p ∈ e.2.parameters, p.name.lower = p.name) (hheader : e.header = .ok f.header)
    (hstores : Stores d.bound e.1 f.body) :
    (((unitOf f).1 :: (unitOf f).2).map (Ir.Line.render style)).flatMap introducedText =
      namesOf d.bound e.1 (e.2.parameters.map Parameter.name) := by
  have hmem : f ∈ s.builder.finished := by
    rw [h.builder]
    exact hf
  have hlines : ∀ l ∈ (unitOf f).1 :: (unitOf f).2, l.IsWorded := by
    intro l hl
    rcases List.mem_append.mp (show l ∈ f.lines ++ [.blank] from hl) with hl | hl
    · exact hworded.finished f hmem l hl
    · rw [List.mem_singleton.mp hl]
      trivial
  have hnames : (formalsOf f.header).map Ir.Formal.name = e.2.parameters.map Parameter.name := by
    rw [formals_of_header hheader]
    exact List.map_congr_left hformals
  have hintroduced : introduced f.header = (formalsOf f.header).map Ir.Formal.name := by
    obtain ⟨name, formals, hprocedure⟩ := h.matched.header_of_mem hf
    rw [hprocedure]
    rfl
  have hlength := congrArg List.length hnames
  rw [List.length_map] at hlength
  have hbody := introduced_body (hslotted.finished f hmem) (h.matched.bodies f hf) hstores
    [.blank] (by simp [introduced])
  rw [flatMap_introducedText hlines, List.flatMap_cons, unitOf, hbody, hintroduced, hnames, hlength,
    namesOf]

/-- The names of the program's own function. -/
theorem Leaves.names_main {key : ScopeKey} (hstores : Stores d.bound key d.locals) :
    (((mainUnit d.locals).1 :: (mainUnit d.locals).2).map (Ir.Line.render style)).flatMap
      introducedText = namesOf d.bound key [] := by
  have hcurrent : s.builder.current = ⟨.main, d.locals, 1⟩ := by rw [h.builder]
  have hlocals : ∀ l ∈ d.locals, l.IsWorded := by
    intro l hl
    refine hworded.current l ?_
    rw [hcurrent]
    exact List.mem_cons_of_mem _ hl
  have hlines : ∀ l ∈ (mainUnit d.locals).1 :: (mainUnit d.locals).2, l.IsWorded := by
    simp only [mainUnit, List.forall_mem_cons, List.forall_mem_append]
    exact ⟨trivial, hlocals, trivial, trivial, trivial, List.forall_mem_nil _⟩
  have hslots := hslotted.current
  rw [hcurrent] at hslots
  have hbody := introduced_body hslots h.matched.locals hstores
    [.blank, .returnZero, .close] (by simp [introduced])
  rw [flatMap_introducedText hlines, List.flatMap_cons, mainUnit, hbody]
  rfl

include hscoped

/-- The function of a procedure introduces no name twice if the parameters have names of their own. -/
theorem Leaves.nodup_unit_iff {f : Ir.Function} (hf : f ∈ d.finished) {e : Entry} (he : e ∈ d.bound)
    (hprocedure : e.isProcedure = true) (hheader : e.header = .ok f.header)
    (hstores : Stores d.bound e.1 f.body) :
    ((((unitOf f).1 :: (unitOf f).2).map (Ir.Line.render style)).flatMap introducedText).Nodup ↔
      HasOwnNames d.bound e := by
  have hdotted := h.matched.keys e he (Entry.isEmitted_of_isProcedure hprocedure)
  have hsym := h.getElem?_bindings he (Entry.isDeclared_of_isProcedure hprocedure)
  have hname {p : Parameter} (hp : p ∈ e.2.parameters) :=
    hscoped.parameter_name hsym (of_decide_eq_true hprocedure) hp
  rw [h.names_unit hworded hslotted style hf (fun p hp => (hname hp).2) hheader hstores,
    nodup_namesOf_iff h.nodup (fun _ _ _ => List.ne_nil_of_mem hdotted.period), HasOwnNames,
    List.forall_mem_map]
  intro name hmem
  obtain ⟨p, hp, rfl⟩ := List.mem_map.mp hmem
  exact (hname hp).1

/-- The program's own function has no parameters, and introduces no name twice. -/
theorem Leaves.nodup_main (hstores : Stores d.bound s.table.global d.locals) :
    ((((mainUnit d.locals).1 :: (mainUnit d.locals).2).map (Ir.Line.render style)).flatMap
      introducedText).Nodup := by
  rw [h.names_main hworded hslotted style hstores, nodup_namesOf_iff h.nodup ?_ (List.forall_mem_nil _)]
  · exact ⟨List.nodup_nil, List.forall_mem_nil _⟩
  · intro e he hlocal
    have hdeclared := Entry.isDeclared_of_isLocal (Bool.and_eq_true_iff.mp hlocal).1
    exact (hscoped.keys e.1 e.2 (h.getElem?_bindings he hdeclared)).isSegment.ne_nil

/-- Functions of procedures are those of the entries. -/
theorem Leaves.nodup_functions_iff (hplaced : d.Placed s.table.global) :
    (∀ u ∈ functions ((emitted s.builder).map (Ir.Line.render style)),
        (u.flatMap introducedText).Nodup) ↔
      ∀ e ∈ d.bound, e.isProcedure = true → HasOwnNames d.bound e := by
  obtain ⟨us, hfinished, hkeys, hus⟩ := hplaced.units
  rw [h.functions_eq, List.forall_mem_map, Emission.unitLines, List.forall_mem_append,
    List.forall_mem_map, List.forall_mem_singleton]
  constructor
  · rintro ⟨hfunctions, -⟩ e he hprocedure
    have hkey : e.1 ∈ procedureKeys d.bound :=
      List.mem_map_of_mem (List.mem_filter.mpr ⟨he, hprocedure⟩)
    obtain ⟨u, hu, hukey⟩ := List.mem_map.mp (hkeys.mem_iff.mpr hkey)
    have hf : u.2 ∈ d.finished := hfinished ▸ List.mem_map_of_mem hu
    obtain ⟨e', he', hkey', hprocedure', hheader⟩ := (hus u hu).header
    have hsame : e' = e := List.inj_on_of_nodup_map h.nodup he' he (hkey'.trans hukey)
    subst hsame
    exact (h.nodup_unit_iff hworded hslotted hscoped style hf he hprocedure hheader
      (hukey ▸ (hus u hu).storage)).mp (hfunctions u.2 hf)
  · intro hnames
    refine ⟨fun f hf => ?_, h.nodup_main hworded hslotted hscoped style hplaced.locals⟩
    have hmem := hf
    rw [← hfinished] at hmem
    obtain ⟨u, hu, rfl⟩ := List.mem_map.mp hmem
    obtain ⟨e, he, hkey, hprocedure, hheader⟩ := (hus u hu).header
    exact (h.nodup_unit_iff hworded hslotted hscoped style hf he hprocedure hheader
      (hkey ▸ (hus u hu).storage)).mpr (hnames e he hprocedure)

end Leaves

/-- The functions of a recognised program introduce no name twice exactly if the parameters of every
procedure have names of their own, unless a key was declared twice.  So they do not if parameters have
different names without underscores. -/
theorem nodup_introducedText_iff {file source : Bytes} {target : Target} {p : Program}
    (hok : (parse file source .empty (.new target)).result = .ok p)
    (hclean : (parse file source .empty (.new target)).state.Unduplicated) :
    let es := (parse file source .empty (.new target)).state.table.entries
    ((∀ u ∈ functions p.lines, (u.flatMap introducedText).Nodup) ↔
      ∀ e : Entry, e ∈ es → e.isProcedure = true → HasOwnNames es e) ∧
    ((∀ e : Entry, e ∈ es → e.isProcedure = true → (e.2.parameters.map Parameter.name).Nodup ∧
        ∀ q ∈ e.2.parameters, Ascii.underscore ∉ q.name) →
      ∀ u ∈ functions p.lines, (u.flatMap introducedText).Nodup) := by
  intro es
  obtain ⟨d, hd⟩ := (program_start_emits file source target).of_parse_ok hok
  have hlines := lines_of_parse_ok hok (congrArg Ir.Builder.parked hd.builder)
  have htree := parse_leavesTree file source (.new target)
  have hworded := htree.code (Ir.Builder.isWorded_new target)
  have hslotted := slottedCode_of_parse_ok hok (slottedCode_new target)
  have hplaced := hd.placed hclean
  have hiff := hd.nodup_functions_iff hworded hslotted htree.wellScoped
    (parse file source .empty (.new target)).state.builder.target.pointers hplaced
  rw [← hlines] at hiff
  have hsame (e : Entry) (he : e.isProcedure = true) :
      (e ∈ es ↔ e ∈ d.bound) ∧ (HasOwnNames es e ↔ HasOwnNames d.bound e) := by
    refine ⟨hd.mem_entries_iff (Entry.isDeclared_of_isProcedure he), and_congr_right fun _ => ?_⟩
    refine forall₂_congr fun q _ => forall_congr' fun v => ?_
    constructor
    · intro h hv hlocal
      have hdeclared := Entry.isDeclared_of_isLocal (Bool.and_eq_true_iff.mp hlocal).1
      exact h ((hd.mem_entries_iff hdeclared).mpr hv) hlocal
    · intro h hv hlocal
      have hdeclared := Entry.isDeclared_of_isLocal (Bool.and_eq_true_iff.mp hlocal).1
      exact h ((hd.mem_entries_iff hdeclared).mp hv) hlocal
  have hnames : (∀ u ∈ functions p.lines, (u.flatMap introducedText).Nodup) ↔
      ∀ e : Entry, e ∈ es → e.isProcedure = true → HasOwnNames es e := by
    rw [hiff]
    refine forall_congr' fun e => ?_
    constructor
    · intro h he hprocedure
      exact (hsame e hprocedure).2.mpr (h ((hsame e hprocedure).1.mp he) hprocedure)
    · intro h he hprocedure
      exact (hsame e hprocedure).2.mp (h ((hsame e hprocedure).1.mpr he) hprocedure)
  refine ⟨hnames, fun hplain => hnames.mpr fun e he hprocedure => ?_⟩
  obtain ⟨hnodup, hunderscores⟩ := hplain e he hprocedure
  refine ⟨hnodup, fun q hq v _ hlocal heq => hunderscores q hq ?_⟩
  have hdotted := hd.matched.keys e ((hsame e hprocedure).1.mp he)
    (Entry.isEmitted_of_isProcedure hprocedure)
  rw [← heq]
  exact underscore_mem_of_isLocalTo (List.ne_nil_of_mem hdotted.period) hlocal

/-- A program with parameters that look like keys, and with a parameter and a variable of one name in
different functions. -/
def ownNamesSource : Bytes :=
  text "program p is integer a; procedure q(integer p_q_b in, bool a out)
    procedure r(char p_q_b inout) float b; global string c; begin end procedure;
    integer p_q_b_; begin end procedure;
    begin end program."

/-- The names that the functions of the program introduce are different, and so its parameters have
names of their own. -/
theorem ownNamesSource_names :
    ∃ p, (parse [] ownNamesSource .empty (.new .standard)).result = .ok p ∧
      (functions p.lines).map (List.flatMap introducedText) =
        [[text "p_q_b", text "1", text "p_q_r_b"],
          [text "p_q_b", text "a", text "1", text "2", text "p_q_p_q_b_"], [text "p_a"]] ∧
      ∀ e : Entry, e ∈ (parse [] ownNamesSource .empty (.new .standard)).state.table.entries →
        e.isProcedure = true →
        HasOwnNames (parse [] ownNamesSource .empty (.new .standard)).state.table.entries e := by
  obtain ⟨hlines, hclean⟩ :
      (parse [] ownNamesSource .empty (.new .standard)).result.toOption.map
          (fun p => (functions p.lines).map (List.flatMap introducedText)) =
        some [[text "p_q_b", text "1", text "p_q_r_b"],
          [text "p_q_b", text "a", text "1", text "2", text "p_q_p_q_b_"], [text "p_a"]] ∧
      ∀ d ∈ (parse [] ownNamesSource .empty (.new .standard)).state.diagnostics,
        d.code ≠ Diagnostic.duplicateCode := by
    decide +kernel
  obtain ⟨p, hok, hnames⟩ := exists_ok_of_map_toOption hlines
  refine ⟨p, hok, hnames, (nodup_introducedText_iff hok hclean).1.mp ?_⟩
  have hnodup : ∀ names ∈ (functions p.lines).map (List.flatMap introducedText), names.Nodup := by
    rw [hnames]
    decide
  exact List.forall_mem_map.mp hnodup

/-- A program with two parameters of one name in a procedure, and with a parameter in another one that
has the name of a variable's key. -/
def repeatedFormalSource : Bytes :=
  text "program p is procedure q(integer a in, integer a in) begin end procedure;
    procedure r(integer p_r_x in) integer x; begin end procedure;
    begin end program."

/-- The functions of a program without any diagnostic can introduce a name twice. -/
theorem repeatedFormal_names :
    ∃ p, (parse [] repeatedFormalSource .empty (.new .standard)).result = .ok p ∧
      (parse [] repeatedFormalSource .empty (.new .standard)).state.diagnostics = [] ∧
      (functions p.lines).map (List.flatMap introducedText) =
        [[text "a", text "a", text "1", text "2"], [text "p_r_x", text "1", text "p_r_x"], []] ∧
      ¬∀ u ∈ functions p.lines, (u.flatMap introducedText).Nodup := by
  obtain ⟨hlines, hclean⟩ :
      (parse [] repeatedFormalSource .empty (.new .standard)).result.toOption.map
          (fun p => (functions p.lines).map (List.flatMap introducedText)) =
        some [[text "a", text "a", text "1", text "2"], [text "p_r_x", text "1", text "p_r_x"], []] ∧
      (parse [] repeatedFormalSource .empty (.new .standard)).state.diagnostics = [] := by
    decide +kernel
  obtain ⟨p, hok, hnames⟩ := exists_ok_of_map_toOption hlines
  refine ⟨p, hok, hclean, hnames, fun hnodup => ?_⟩
  have hnodups := List.forall_mem_map.mpr hnodup
  rw [hnames] at hnodups
  exact absurd hnodups (by decide)

end Program

end OnePass
