import Mathlib.Data.List.Infix
import OnePass.Proofs.Emission.Agreement
set_option autoImplicit false

/-!
# Two spellings of pointers

A text with typed pointers becomes one with untyped pointers by writing `ptr` for every pointer type
in it: the word of a type that is no pointer, and all the stars behind it (`Ir.respell`).  Of emitted
lines this is so because nothing in them but types holds a star, and what stands in front of a type
cannot be taken for the beginning of its word (`Ir.Line.respell_render`).
-/

namespace OnePass.Ir

/-! ## Pointer types in texts -/

/-- The words that types start with. -/
def typeWords : List Bytes := [text "i32", text "i8", text "float"]

/-- What follows the pointer type that a text starts with, if it starts with one: a word and all the
stars behind it, of which there is at least one. -/
def behindPointer? (s : Bytes) : Option Bytes :=
  (typeWords.find? fun w => (w ++ [Ascii.star]).isPrefixOf s).map fun w =>
    (s.drop w.length).dropWhile (· = Ascii.star)

theorem typeWords_ne_nil {w : Bytes} (hw : w ∈ typeWords) : w ≠ [] := by
  have hwords : ∀ w ∈ typeWords, w ≠ [] := by decide
  exact hwords w hw

theorem length_behindPointer?_lt {s after : Bytes} (h : behindPointer? s = some after) :
    after.length < s.length := by
  obtain ⟨w, hw, rfl⟩ := Option.map_eq_some_iff.mp h
  have hfound := List.find?_some hw
  have hlength := (List.isPrefixOf_iff_prefix.mp hfound).length_le
  have hword := List.length_pos_iff.mpr (typeWords_ne_nil (List.mem_of_find?_eq_some hw))
  have hstars := (List.dropWhile_suffix (l := s.drop w.length) (· = Ascii.star)).length_le
  simp only [List.length_append, List.length_singleton] at hlength
  rw [List.length_drop] at hstars
  omega

/-- The text with every pointer type in it written as `ptr`, from left to right. -/
def respell : Bytes → Bytes
  | [] => []
  | b :: rest =>
    match h : behindPointer? (b :: rest) with
    | some after =>
      have : after.length < (b :: rest).length := length_behindPointer?_lt h
      text "ptr" ++ respell after
    | none => b :: respell rest
termination_by s => s.length
decreasing_by
  · assumption
  · exact Nat.lt_add_one rest.length

theorem respell_of_none {b : UInt8} {rest : Bytes} (h : behindPointer? (b :: rest) = none) :
    respell (b :: rest) = b :: respell rest := by
  rw [respell]
  split
  · next h' => simp [h] at h'
  · rfl

theorem respell_of_some {s after : Bytes} (h : behindPointer? s = some after) :
    respell s = text "ptr" ++ respell after := by
  cases s with
  | nil => exact absurd (length_behindPointer?_lt h) (Nat.not_lt_zero _)
  | cons b rest =>
    rw [respell]
    split
    · next h' =>
      rw [h] at h'
      rw [Option.some.inj h']
    · next h' => simp [h] at h'

theorem behindPointer?_eq_none {s : Bytes} :
    behindPointer? s = none ↔ ∀ w ∈ typeWords, ¬ w ++ [Ascii.star] <+: s := by
  simp [behindPointer?]

/-- Behind a word and some stars stands what follows the last star. -/
theorem behindPointer?_append {w : Bytes} (hw : w ∈ typeWords) (n : Nat) {b : Bytes}
    (hb : b.head? ≠ some Ascii.star) :
    behindPointer? (w ++ (List.replicate (n + 1) Ascii.star ++ b)) = some b := by
  have hunique : ∀ w ∈ typeWords, ∀ w' ∈ typeWords,
      w' ++ [Ascii.star] <+: w ++ [Ascii.star] ∨ w ++ [Ascii.star] <+: w' ++ [Ascii.star] →
        w' = w := by decide
  have hbegins : w ++ [Ascii.star] <+: w ++ (List.replicate (n + 1) Ascii.star ++ b) := by
    rw [List.prefix_append_right_inj, List.replicate_succ, List.cons_append]
    exact List.prefix_append [Ascii.star] _
  unfold behindPointer?
  cases hfind : typeWords.find? fun u =>
      (u ++ [Ascii.star]).isPrefixOf (w ++ (List.replicate (n + 1) Ascii.star ++ b)) with
  | none =>
    have hnone := List.find?_eq_none.mp hfind w hw
    exact absurd (List.isPrefixOf_iff_prefix.mpr hbegins) hnone
  | some w' =>
    have hfound := List.find?_some hfind
    have hbegins' := List.isPrefixOf_iff_prefix.mp hfound
    obtain rfl := hunique w hw w' (List.mem_of_find?_eq_some hfind)
      (List.prefix_or_prefix_of_prefix hbegins' hbegins)
    rw [Option.map_some, List.drop_left, List.dropWhile_append_of_pos (by simp)]
    cases b with
    | nil => rfl
    | cons c b => rw [List.dropWhile_cons_of_neg (by simpa using hb)]

/-! ## Texts that are kept -/

theorem respell_of_notMem {s : Bytes} (h : Ascii.star ∉ s) : respell s = s := by
  induction s with
  | nil => simp [respell]
  | cons b rest ih =>
    rw [respell_of_none, ih (List.not_mem_of_not_mem_cons h)]
    rw [behindPointer?_eq_none]
    intro w _ hbegins
    exact h (hbegins.subset (by simp))

/-- A text without stars is kept if no pointer type starts in it and ends behind it: where an end of
it is the beginning of a word, it is the whole word, and no star follows. -/
theorem respell_append {a b : Bytes} (hstar : Ascii.star ∉ a)
    (hapart : ∀ x, x ≠ [] → x <:+ a → ∀ w ∈ typeWords, x <+: w →
      x = w ∧ b.head? ≠ some Ascii.star) :
    respell (a ++ b) = a ++ respell b := by
  induction a with
  | nil => rfl
  | cons c a ih =>
    have hnone : behindPointer? (c :: (a ++ b)) = none := by
      rw [behindPointer?_eq_none]
      intro w hw hpointer
      rcases List.prefix_or_prefix_of_prefix hpointer (List.prefix_append (c :: a) b) with h | h
      · exact hstar (h.subset (by simp))
      · rcases List.prefix_concat_iff.mp h with h | h
        · rw [h] at hstar
          exact hstar (by simp)
        · obtain ⟨rfl, hhead⟩ := hapart _ (List.cons_ne_nil c a) List.suffix_rfl w hw h
          rw [← List.cons_append, List.prefix_append_right_inj] at hpointer
          obtain ⟨rest, rfl⟩ := hpointer
          exact hhead rfl
    rw [List.cons_append, respell_of_none hnone, ih (List.not_mem_of_not_mem_cons hstar),
      List.cons_append]
    exact fun x hx hsuffix => hapart x hx (hsuffix.trans (List.suffix_cons c a))

theorem star_notMem_append {a b : Bytes} (ha : Ascii.star ∉ a) (hb : Ascii.star ∉ b) :
    Ascii.star ∉ a ++ b :=
  fun h => (List.mem_append.mp h).elim ha hb

/-- A text that can stand in front of a type: it holds no star, and ends with a byte that stands in no
word. -/
def IsLead (a : Bytes) : Prop :=
  Ascii.star ∉ a ∧ ∃ c ∈ a.getLast?, ∀ w ∈ typeWords, c ∉ w

instance (a : Bytes) : Decidable (IsLead a) := inferInstanceAs (Decidable (_ ∧ _))

theorem IsLead.append {a b : Bytes} (ha : Ascii.star ∉ a) (hb : IsLead b) : IsLead (a ++ b) := by
  obtain ⟨hstar, c, hlast, hc⟩ := hb
  refine ⟨star_notMem_append ha hstar, c, ?_, hc⟩
  rw [List.getLast?_append, Option.mem_def, hlast]
  rfl

theorem respell_lead {a : Bytes} (h : IsLead a) (b : Bytes) : respell (a ++ b) = a ++ respell b := by
  obtain ⟨hstar, c, hlast, hc⟩ := h
  refine respell_append hstar ?_
  rintro x hx ⟨before, rfl⟩ w hw hbegins
  rw [List.getLast?_append_of_ne_nil before hx] at hlast
  exact absurd (hbegins.subset (List.mem_of_getLast? hlast)) (hc w hw)

theorem respell_append_word {w b : Bytes} (hw : w ∈ typeWords) (hb : b.head? ≠ some Ascii.star) :
    respell (w ++ b) = w ++ respell b := by
  have hstar : ∀ w ∈ typeWords, Ascii.star ∉ w := by decide
  have hapart : ∀ w ∈ typeWords, ∀ x ∈ w.tails, x ≠ [] → ∀ u ∈ typeWords, x <+: u → x = u := by
    decide
  refine respell_append (hstar w hw) fun x hx hsuffix u hu hbegins => ⟨?_, hb⟩
  exact hapart w hw x ((List.mem_tails x w).mpr hsuffix) hx u hu hbegins

/-! ## Types -/

/-- A type that is no array, and does not point to one. -/
def Ty.isFlat : Ty → Bool
  | .i32 | .i8 | .float => true
  | .pointer elem => elem.isFlat
  | .array _ _ => false

/-- A type that is flat, or an array of a type that is. -/
def Ty.isPlain : Ty → Bool
  | .array _ elem => elem.isFlat
  | ty => ty.isFlat

theorem Ty.isPlain_of_isFlat {ty : Ty} (h : ty.isFlat = true) : ty.isPlain = true := by
  cases ty with
  | array length elem => cases h
  | _ => exact h

/-- The text of a flat type is a word and the stars of its pointers. -/
theorem Ty.render_typed_of_isFlat {ty : Ty} (h : ty.isFlat = true) :
    ∃ w ∈ typeWords, ∃ n, ty.render .typed = w ++ List.replicate n Ascii.star ∧
      ty.render .untyped = if n = 0 then w else text "ptr" := by
  induction ty with
  | i32 => exact ⟨text "i32", by decide, 0, rfl, rfl⟩
  | i8 => exact ⟨text "i8", by decide, 0, rfl, rfl⟩
  | float => exact ⟨text "float", by decide, 0, rfl, rfl⟩
  | pointer elem ih =>
    obtain ⟨w, hw, n, htyped, -⟩ := ih h
    refine ⟨w, hw, n + 1, ?_, rfl⟩
    rw [Ty.render, htyped, List.replicate_succ', ← List.append_assoc]
    rfl
  | array length elem => cases h

theorem respell_flat {ty : Ty} (h : ty.isFlat = true) {b : Bytes}
    (hb : b.head? ≠ some Ascii.star) :
    respell (ty.render .typed ++ b) = ty.render .untyped ++ respell b := by
  obtain ⟨w, hw, n, htyped, huntyped⟩ := Ty.render_typed_of_isFlat h
  rw [htyped, huntyped, List.append_assoc]
  cases n with
  | zero => exact respell_append_word hw hb
  | succ n => exact respell_of_some (behindPointer?_append hw n hb)

theorem head?_append_ne_star {a : Bytes} (hne : a ≠ []) (hstar : Ascii.star ∉ a) {b : Bytes} :
    (a ++ b).head? ≠ some Ascii.star := by
  rw [List.head?_append_of_ne_nil a hne]
  exact fun h => hstar (List.mem_of_head? h)

theorem star_notMem_ofNat (n : Nat) : Ascii.star ∉ Bytes.ofNat n := by
  intro hstar
  exact absurd (Bytes.isDigit_of_mem_ofNat n _ hstar) (by decide)

theorem respell_plain {ty : Ty} (h : ty.isPlain = true) {b : Bytes}
    (hb : b.head? ≠ some Ascii.star) :
    respell (ty.render .typed ++ b) = ty.render .untyped ++ respell b := by
  cases ty with
  | array length elem =>
    have hrender (style : PointerStyle) : (Ty.array length elem).render style ++ b =
        (text "[" ++ Bytes.ofNat length ++ text " x ") ++ (elem.render style ++ (text "]" ++ b)) := by
      simp only [Ty.render, List.append_assoc]
    have hopen : IsLead (text "[" ++ Bytes.ofNat length ++ text " x ") :=
      .append (star_notMem_append (by decide) (star_notMem_ofNat length)) (by decide)
    have hclose : (text "]" ++ b).head? ≠ some Ascii.star :=
      head?_append_ne_star (by decide) (by decide)
    rw [hrender, respell_lead hopen, respell_flat h hclose, respell_lead (by decide)]
    simp only [Ty.render, List.append_assoc]
  | i32 => exact respell_flat h hb
  | i8 => exact respell_flat h hb
  | float => exact respell_flat h hb
  | pointer elem => exact respell_flat h hb

/-! ## Lines -/

/-- A name inside a function without a star. -/
def Local.IsPlain (name : Local) : Prop := Ascii.star ∉ name.render

/-- A parameter of a flat type and with a name without a star. -/
structure Formal.IsPlain (f : Formal) : Prop where
  ty : f.ty.isFlat = true
  name : Ascii.star ∉ f.name

/-- A line in which nothing but its types holds a star, and types point to no arrays. -/
def Line.IsPlain : Line → Prop
  | .global name ty _ _ => Ascii.star ∉ name ∧ ty.isPlain = true
  | .procedure name formals => Ascii.star ∉ name ∧ ∀ f ∈ formals, f.IsPlain
  | .alloca name ty _ => name.IsPlain ∧ ty.isPlain = true
  | .store ty value slot => ty.isFlat = true ∧ value.IsPlain ∧ slot.IsPlain
  | .verbatim content => Ascii.star ∉ content
  | .blank | .main | .returnVoid | .returnZero | .close => True

theorem Local.isPlain_named {name : Bytes} (h : Ascii.star ∉ name) : (Local.named name).IsPlain :=
  star_notMem_append (by decide) h

theorem Local.isPlain_slot (number : Nat) : (Local.slot number).IsPlain :=
  star_notMem_append (by decide) (star_notMem_ofNat number)

theorem star_notMem_zero (zero : Zero) : Ascii.star ∉ zero.render := by
  cases zero <;> decide

/-- A type with a text without stars on either side. -/
theorem respell_around {before after : Bytes} {ty : Ty} (hbefore : IsLead before)
    (hty : ty.isPlain = true) (hafter : Ascii.star ∉ after) :
    respell (before ++ (ty.render .typed ++ after)) = before ++ (ty.render .untyped ++ after) := by
  have hhead : after.head? ≠ some Ascii.star := fun h => hafter (List.mem_of_head? h)
  rw [respell_lead hbefore, respell_plain hty hhead, respell_of_notMem hafter]

/-- The parameters of a header, up to its end. -/
theorem respell_formals {formals : List Formal} (h : ∀ f ∈ formals, f.IsPlain) :
    respell (Bytes.join (text ", ") (formals.map (Formal.render .typed)) ++ text ") \x7b") =
      Bytes.join (text ", ") (formals.map (Formal.render .untyped)) ++ text ") \x7b" := by
  induction formals with
  | nil => exact respell_of_notMem (by decide)
  | cons f formals ih =>
    obtain ⟨hf, hformals⟩ := List.forall_mem_cons.mp h
    have hrender (style : PointerStyle) (b : Bytes) : f.render style ++ b =
        f.ty.render style ++ (text " " ++ ((Local.named f.name).render ++ b)) := by
      simp only [Formal.render, List.append_assoc]
    have hname : Ascii.star ∉ text " " ++ (Local.named f.name).render :=
      star_notMem_append (by decide) (Local.isPlain_named hf.name)
    have hhead (b : Bytes) : (text " " ++ b).head? ≠ some Ascii.star :=
      head?_append_ne_star (by decide) (by decide)
    cases formals with
    | nil =>
      simp only [List.map_cons, List.map_nil, Bytes.join, List.intercalate_singleton]
      rw [hrender, hrender, respell_flat hf.ty (hhead _), ← List.append_assoc (text " "),
        respell_of_notMem (star_notMem_append hname (by decide))]
    | cons g formals =>
      have hnext : IsLead (text " " ++ (Local.named f.name).render ++ text ", ") :=
        .append hname (by decide)
      have hjoin (style : PointerStyle) :
          Bytes.join (text ", ") ((f :: g :: formals).map (Formal.render style)) ++ text ") \x7b" =
            f.ty.render style ++ (text " " ++ (Local.named f.name).render ++ text ", " ++
              (Bytes.join (text ", ") ((g :: formals).map (Formal.render style)) ++
                text ") \x7b")) := by
        simp only [List.map_cons, Bytes.join, List.intercalate_cons_cons, Formal.render,
          List.append_assoc]
      rw [hjoin, hjoin, respell_flat hf.ty, respell_lead hnext, ih hformals]
      simp only [List.append_assoc]
      exact hhead _

theorem Line.respell_render {l : Line} (h : l.IsPlain) :
    respell (l.render .typed) = l.render .untyped := by
  cases l with
  | blank => simp [Line.render, respell]
  | main => exact respell_of_notMem (by decide)
  | returnVoid => exact respell_of_notMem (by decide)
  | returnZero => exact respell_of_notMem (by decide)
  | close => exact respell_of_notMem (by decide)
  | verbatim content => exact respell_of_notMem h
  | global name ty zero align =>
    obtain ⟨hname, hty⟩ := h
    have hrender (style : PointerStyle) : (Line.global name ty zero align).render style =
        (text "@" ++ name ++ text " = common global ") ++ (ty.render style ++
          (text " " ++ zero.render ++ text ", align " ++ Bytes.ofNat align)) := by
      simp only [Line.render, List.append_assoc]
    have hafter : Ascii.star ∉ text " " ++ zero.render ++ text ", align " ++ Bytes.ofNat align :=
      star_notMem_append (star_notMem_append (star_notMem_append (by decide) (star_notMem_zero zero))
        (by decide)) (star_notMem_ofNat align)
    rw [hrender, hrender]
    exact respell_around (.append (star_notMem_append (by decide) hname) (by decide)) hty hafter
  | procedure name formals =>
    obtain ⟨hname, hformals⟩ := h
    have hrender (style : PointerStyle) : (Line.procedure name formals).render style =
        (text "define void @" ++ name ++ text "(") ++
          (Bytes.join (text ", ") (formals.map (Formal.render style)) ++ text ") \x7b") := by
      simp only [Line.render, List.append_assoc]
    rw [hrender, hrender, respell_lead, respell_formals hformals]
    exact .append (star_notMem_append (by decide) hname) (by decide)
  | alloca name ty align =>
    obtain ⟨hname, hty⟩ := h
    have hrender (style : PointerStyle) : (Line.alloca name ty align).render style =
        (name.render ++ text " = alloca ") ++ (ty.render style ++
          (text ", align " ++ Bytes.ofNat align)) := by
      simp only [Line.render, List.append_assoc]
    rw [hrender, hrender]
    exact respell_around (.append hname (by decide)) hty
      (star_notMem_append (by decide) (star_notMem_ofNat align))
  | store ty value slot =>
    obtain ⟨hty, hvalue, hslot⟩ := h
    have hrender (style : PointerStyle) : (Line.store ty value slot).render style =
        text "store " ++ (ty.render style ++ ((text " " ++ value.render ++ text ", ") ++
          ((Ty.pointer ty).render style ++ (text " " ++ slot.render)))) := by
      simp only [Line.render, List.append_assoc]
    have hhead (b : Bytes) : (text " " ++ value.render ++ text ", " ++ b).head? ≠ some Ascii.star := by
      simp only [List.append_assoc]
      exact head?_append_ne_star (by decide) (by decide)
    rw [hrender, hrender, respell_lead (by decide), respell_flat hty (hhead _), respell_around]
    · exact .append (star_notMem_append (by decide) hvalue) (by decide)
    · exact Ty.isPlain_of_isFlat (show (Ty.pointer ty).isFlat = true from hty)
    · exact star_notMem_append (by decide) hslot

/-- A parameter that is the address of a string is stored in its slot. -/
example : respell (text "store i8** %s, i8*** %1") = text "store ptr %s, ptr %1" := by cbv

end OnePass.Ir
