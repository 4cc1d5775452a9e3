import OnePass.Proofs.Pointers.Spelling
set_option autoImplicit false

/-!
# Lines of words

What a variable or a procedure becomes is worded, if its name and the names of its parameters are made
of letters, digits and underscores: all other bytes of a line are fixed, and types that are emitted are
those of scalars, pointers to them, and arrays of them.  A builder that holds worded lines goes on to
do so, and its finished code is made of them (`Ir.Builder.IsWorded.finish`).

A worded line is plain (`Ir.Line.IsWorded.isPlain`), and its text is one line
(`Ir.Line.IsWorded.newline_notMem`).
-/

namespace OnePass.Ir

/-- A name of letters, digits and underscores. -/
def IsWord (name : Bytes) : Prop := ∀ b ∈ name, Lexeme.isWordByte b = true

theorem IsWord.star_notMem {name : Bytes} (h : IsWord name) : Ascii.star ∉ name :=
  fun hmem => absurd (h _ hmem) (by decide)

theorem IsWord.newline_notMem {name : Bytes} (h : IsWord name) : Ascii.newline ∉ name :=
  fun hmem => absurd (h _ hmem) (by decide)

/-! ## Worded lines -/

/-- A name inside a function that is a word or a number. -/
def Local.IsWorded : Local → Prop
  | .named name => IsWord name
  | .slot _ => True

/-- A parameter of a flat type and with a word for its name. -/
structure Formal.IsWorded (f : Formal) : Prop where
  ty : f.ty.isFlat = true
  name : IsWord f.name

/-- A line in which all names are words, and types point to no arrays. -/
def Line.IsWorded : Line → Prop
  | .global name ty _ _ => IsWord name ∧ ty.isPlain = true
  | .procedure name formals => IsWord name ∧ ∀ f ∈ formals, f.IsWorded
  | .alloca name ty _ => name.IsWorded ∧ ty.isPlain = true
  | .store ty value slot => ty.isFlat = true ∧ value.IsWorded ∧ slot.IsWorded
  | .verbatim _ => False
  | .blank | .main | .returnVoid | .returnZero | .close => True

theorem Local.IsWorded.isPlain {name : Local} (h : name.IsWorded) : name.IsPlain := by
  cases name with
  | named name => exact Local.isPlain_named (IsWord.star_notMem h)
  | slot number => exact Local.isPlain_slot number

theorem Line.IsWorded.isPlain {l : Line} (h : l.IsWorded) : l.IsPlain := by
  cases l with
  | global name ty zero align => exact ⟨h.1.star_notMem, h.2⟩
  | procedure name formals =>
    exact ⟨h.1.star_notMem, fun f hf => ⟨(h.2 f hf).ty, (h.2 f hf).name.star_notMem⟩⟩
  | alloca name ty align => exact ⟨h.1.isPlain, h.2⟩
  | store ty value slot => exact ⟨h.1, h.2.1.isPlain, h.2.2.isPlain⟩
  | verbatim content => exact h.elim
  | _ => trivial

/-! ## Lines without line ends -/

section Newlines

variable {style : PointerStyle}

theorem newline_notMem_ofNat (n : Nat) : Ascii.newline ∉ Bytes.ofNat n :=
  fun h => absurd (Bytes.isDigit_of_mem_ofNat n _ h) (by decide)

/-- The bytes that the text of a type is made of. -/
theorem Ty.byte_of_mem_render {b : UInt8} (ty : Ty) (h : b ∈ ty.render style) :
    Ascii.isDigit b = true ∨ b ∈ text "*[] adefilnoprtx" := by
  have hfixed (s : Bytes) (hs : s.all (fun b => Ascii.isDigit b || b ∈ text "*[] adefilnoprtx") = true)
      (h : b ∈ s) : Ascii.isDigit b = true ∨ b ∈ text "*[] adefilnoprtx" := by
    simpa using List.all_eq_true.mp hs b h
  induction ty with
  | pointer elem ih =>
    cases style with
    | typed =>
      rcases List.mem_append.mp h with h | h
      · exact ih h
      · exact hfixed _ rfl h
    | untyped => exact hfixed _ rfl h
  | array length elem ih =>
    simp only [Ty.render, List.mem_append] at h
    rcases h with (((h | h) | h) | h) | h
    · exact hfixed _ rfl h
    · exact .inl (Bytes.isDigit_of_mem_ofNat length b h)
    · exact hfixed _ rfl h
    · exact ih h
    · exact hfixed _ rfl h
  | _ => exact hfixed _ rfl h

theorem Ty.newline_notMem (ty : Ty) : Ascii.newline ∉ ty.render style :=
  fun h => absurd (ty.byte_of_mem_render h) (by decide)

theorem Zero.newline_notMem (zero : Zero) : Ascii.newline ∉ zero.render := by
  cases zero <;> decide

theorem Local.IsWorded.newline_notMem {name : Local} (h : name.IsWorded) :
    Ascii.newline ∉ name.render := by
  cases name with
  | named name =>
    simp only [Local.render, List.mem_append, not_or]
    exact ⟨by decide, IsWord.newline_notMem h⟩
  | slot number =>
    simp only [Local.render, List.mem_append, not_or]
    exact ⟨by decide, newline_notMem_ofNat number⟩

theorem Formal.IsWorded.newline_notMem {f : Formal} (h : f.IsWorded) :
    Ascii.newline ∉ f.render style := by
  have hname : Ascii.newline ∉ (Local.named f.name).render := Local.IsWorded.newline_notMem h.name
  simp only [Formal.render, List.mem_append, not_or]
  exact ⟨⟨f.ty.newline_notMem, by decide⟩, hname⟩

theorem newline_notMem_formals {formals : List Formal} (h : ∀ f ∈ formals, f.IsWorded) :
    Ascii.newline ∉ Bytes.join (text ", ") (formals.map (Formal.render style)) := by
  intro hmem
  rcases Bytes.mem_join hmem with hmem | ⟨piece, hpiece, hmem⟩
  · exact absurd hmem (by decide)
  · obtain ⟨f, hf, rfl⟩ := List.mem_map.mp hpiece
    exact (h f hf).newline_notMem hmem

/-- The text of a worded line is one line. -/
theorem Line.IsWorded.newline_notMem {l : Line} (h : l.IsWorded) :
    Ascii.newline ∉ l.render style := by
  cases l with
  | global name ty zero align =>
    simp only [Line.render, List.mem_append, not_or]
    exact ⟨⟨⟨⟨⟨⟨⟨by decide, h.1.newline_notMem⟩, by decide⟩, ty.newline_notMem⟩, by decide⟩,
      zero.newline_notMem⟩, by decide⟩, newline_notMem_ofNat align⟩
  | procedure name formals =>
    simp only [Line.render, List.mem_append, not_or]
    exact ⟨⟨⟨⟨by decide, h.1.newline_notMem⟩, by decide⟩, newline_notMem_formals h.2⟩, by decide⟩
  | alloca name ty align =>
    simp only [Line.render, List.mem_append, not_or]
    exact ⟨⟨⟨⟨h.1.newline_notMem, by decide⟩, ty.newline_notMem⟩, by decide⟩,
      newline_notMem_ofNat align⟩
  | store ty value slot =>
    simp only [Line.render, List.mem_append, not_or]
    exact ⟨⟨⟨⟨⟨⟨⟨by decide, ty.newline_notMem⟩, by decide⟩, h.2.1.newline_notMem⟩, by decide⟩,
      Ty.newline_notMem _⟩, by decide⟩, h.2.2.newline_notMem⟩
  | verbatim content => exact h.elim
  | _ =>
    rw [Line.render]
    decide

end Newlines

/-! ## Variables and parameters -/

theorem Ty.isFlat_ofScalar (s : Scalar) : (Ty.ofScalar s).isFlat = true := by
  cases s <;> rfl

theorem Storage.isPlain_ofSymbol {sym : Symbol} {storage : Storage}
    (h : Storage.ofSymbol sym = .ok storage) : storage.ty.isPlain = true := by
  unfold Storage.ofSymbol at h
  split at h
  · next s _ =>
    split at h
    · cases h
      exact Ty.isPlain_of_isFlat (Ty.isFlat_ofScalar s)
    · unfold Storage.ofArray at h
      split at h
      · cases h
      · split at h
        · cases h
        · cases h
          exact Ty.isFlat_ofScalar s
  · cases h

theorem isWorded_declaration {name : Bytes} {sym : Symbol} {line : Line}
    (h : declaration name sym = .ok line) (hname : IsWord name) : line.IsWorded := by
  unfold declaration at h
  cases hstorage : Storage.ofSymbol sym with
  | error e =>
    rw [hstorage] at h
    cases h
  | ok storage =>
    have hty := Storage.isPlain_ofSymbol hstorage
    rw [hstorage] at h
    change (if sym.global = true then _ else _) = _ at h
    split at h
    · cases h
      exact ⟨hname, hty⟩
    · cases h
      exact ⟨hname, hty⟩

theorem Formal.isWorded_ofParameter {p : Parameter} {f : Formal} (h : Formal.ofParameter p = .ok f)
    (hp : IsWord p.name.lower) : f.IsWorded := by
  unfold Formal.ofParameter at h
  split at h
  · next s _ =>
    split at h
    · cases h
      exact ⟨Ty.isFlat_ofScalar s, hp⟩
    · cases h
      exact ⟨Ty.isFlat_ofScalar s, hp⟩
  · cases h

theorem isWorded_formals {ps : List Parameter} {formals : List Formal}
    (h : ps.mapM Formal.ofParameter = .ok formals) (hps : ∀ p ∈ ps, IsWord p.name.lower) :
    ∀ f ∈ formals, f.IsWorded := by
  induction ps generalizing formals with
  | nil =>
    cases h
    exact List.forall_mem_nil _
  | cons p ps ih =>
    obtain ⟨hp, hps⟩ := List.forall_mem_cons.mp hps
    rw [List.mapM_cons] at h
    cases hf : Formal.ofParameter p with
    | error e =>
      rw [hf] at h
      cases h
    | ok f =>
      cases hfs : ps.mapM Formal.ofParameter with
      | error e =>
        rw [hf, hfs] at h
        cases h
      | ok fs =>
        rw [hf, hfs] at h
        cases h
        exact List.forall_mem_cons.mpr ⟨Formal.isWorded_ofParameter hf hp, ih hfs hps⟩

/-! ## Functions -/

/-- A function of worded lines. -/
def Function.IsWorded (f : Function) : Prop := ∀ l ∈ f.lines, l.IsWorded

theorem Function.IsWorded.append {f : Function} (hf : f.IsWorded) {ls : List Line}
    (hls : ∀ l ∈ ls, l.IsWorded) (temp : Nat) :
    Function.IsWorded { f with body := f.body ++ ls, temp := temp } := by
  intro l hl
  rcases List.mem_append.mp (show l ∈ (f.header :: f.body) ++ ls from hl) with hl | hl
  · exact hf l hl
  · exact hls l hl

theorem Function.IsWorded.push {f : Function} (hf : f.IsWorded) {l : Line} (hl : l.IsWorded) :
    (f.push l).IsWorded :=
  hf.append (List.forall_mem_singleton.mpr hl) f.temp

theorem Function.isWorded_ofProcedure {name : Bytes} {formals : List Formal}
    (hname : IsWord name) (hformals : ∀ f ∈ formals, f.IsWorded) :
    (Function.ofProcedure name formals).IsWorded := by
  have hfold (fs : List Formal) (hfs : ∀ f ∈ fs, f.IsWorded) (g : Function) (hg : g.IsWorded) :
      (fs.foldl Function.pushParameter g).IsWorded := by
    induction fs generalizing g with
    | nil => exact hg
    | cons f fs ih =>
      obtain ⟨hf, hfs⟩ := List.forall_mem_cons.mp hfs
      refine ih hfs _ (hg.append ?_ _)
      refine List.forall_mem_cons.mpr ⟨?_, List.forall_mem_singleton.mpr ?_⟩
      · exact ⟨trivial, Ty.isPlain_of_isFlat hf.ty⟩
      · exact ⟨hf.ty, hf.name, trivial⟩
  exact hfold formals hformals _ (List.forall_mem_singleton.mpr ⟨hname, hformals⟩)

/-! ## Builders -/

/-- A builder that holds worded lines. -/
structure Builder.IsWorded (b : Builder) : Prop where
  globals : ∀ l ∈ b.globals, l.IsWorded
  finished : ∀ f ∈ b.finished, f.IsWorded
  parked : ∀ f ∈ b.parked, f.IsWorded
  current : b.current.IsWorded

namespace Builder

variable {b b' : Builder}

theorem isWorded_new (target : Target) : (new target).IsWorded where
  globals := List.forall_mem_nil _
  finished := List.forall_mem_nil _
  parked := List.forall_mem_nil _
  current := List.forall_mem_singleton.mpr trivial

theorem IsWorded.openProgram (h : b.IsWorded) : b.openProgram.IsWorded :=
  { h with current := List.forall_mem_singleton.mpr trivial }

theorem IsWorded.addGlobal (h : b.IsWorded) {line : Line} (hline : line.IsWorded) :
    (b.addGlobal line).IsWorded :=
  { h with
    globals := fun l hl => (List.mem_append.mp hl).elim (h.globals l)
      fun hl => List.mem_singleton.mp hl ▸ hline }

theorem IsWorded.addLocal (h : b.IsWorded) {line : Line} (hline : line.IsWorded) :
    (b.addLocal line).IsWorded :=
  { h with current := h.current.push hline }

theorem IsWorded.openProcedure (h : b.IsWorded) {name : Bytes} {sym : Symbol}
    (hopen : b.openProcedure name sym = .ok b') (hname : IsWord name)
    (hps : ∀ p ∈ sym.parameters, IsWord p.name.lower) : b'.IsWorded := by
  obtain ⟨formals, hformals, rfl⟩ := openProcedure_eq_ok hopen
  exact { h with
    parked := List.forall_mem_cons.mpr ⟨h.current, h.parked⟩
    current := Function.isWorded_ofProcedure hname (isWorded_formals hformals hps) }

theorem IsWorded.closeProcedure (h : b.IsWorded) (hclose : b.closeProcedure = .ok b') :
    b'.IsWorded := by
  have hparked := h.parked
  obtain ⟨outer, rest, heq, rfl⟩ := closeProcedure_eq_ok hclose
  rw [heq] at hparked
  obtain ⟨houter, hrest⟩ := List.forall_mem_cons.mp hparked
  refine ⟨h.globals, fun f hf => ?_, hrest, houter⟩
  rcases List.mem_append.mp hf with hf | hf
  · exact h.finished f hf
  · rw [List.mem_singleton.mp hf]
    exact (h.current.push (l := .returnVoid) trivial).push (l := .close) trivial

theorem IsWorded.discardProcedure (h : b.IsWorded) (hdiscard : b.discardProcedure = .ok b') :
    b'.IsWorded := by
  have hparked := h.parked
  obtain ⟨outer, rest, heq, rfl⟩ := discardProcedure_eq_ok hdiscard
  rw [heq] at hparked
  obtain ⟨houter, hrest⟩ := List.forall_mem_cons.mp hparked
  exact ⟨h.globals, h.finished, hrest, houter⟩

theorem IsWorded.finish (h : b.IsWorded) {lines : List Line} (hfinish : b.finish = .ok lines) :
    ∀ l ∈ lines, l.IsWorded := by
  unfold Builder.finish at hfinish
  split at hfinish
  · cases hfinish
    intro l hl
    simp only [List.mem_append, List.mem_flatMap, List.mem_cons, List.not_mem_nil, or_false] at hl
    rcases hl with (((hl | rfl) | ⟨f, hf, hl | rfl⟩) | hl) | rfl | rfl | rfl
    · exact h.globals l hl
    · trivial
    · exact h.finished f hf l hl
    · trivial
    · exact h.current l hl
    · trivial
    · trivial
    · trivial
  · cases hfinish

end Builder

end OnePass.Ir
