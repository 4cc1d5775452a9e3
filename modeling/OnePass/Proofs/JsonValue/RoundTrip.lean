import OnePass.JsonValue.Render
import OnePass.Proofs.JsonValue.Literal
import OnePass.Proofs.Numeral
import OnePass.Proofs.Pieces
set_option autoImplicit false

/-!
# Values are read back

A value whose numbers are integers, whose texts are valid and which does not nest too deeply is read
back from its text (`ofText?_render`).

A value is read back whatever stands behind it, as long as that could not be a part of a number
(`WellFormed.value?_renderAt`).  Blanks around items and members do not matter, so what has to be
shown of an array or an object is that every item or member is taken off the text up to the mark
behind it (`itemsWithin_join`).
-/

namespace OnePass.JsonValue

/-! ## Numbers -/

section Numbers

variable {s rest : Bytes}

/-- Whether a number ends in front of a text, whatever its digits. -/
def EndsNumber (rest : Bytes) : Prop :=
  ∀ b ∈ rest.head?, Ascii.isDigit b = false ∧ b ≠ Ascii.period ∧ Ascii.toLower b ≠ 0x65

theorem EndsNumber.nil : EndsNumber [] := fun _ h => by cases h

theorem EndsNumber.fraction? (h : EndsNumber rest) : fraction? rest = some ([], rest) := by
  cases rest with
  | nil => rfl
  | cons b t => rw [JsonValue.fraction?, if_neg (h b rfl).2.1]

theorem EndsNumber.exponent? (h : EndsNumber rest) : exponent? rest = some ([], rest) := by
  cases rest with
  | nil => rfl
  | cons b t => rw [JsonValue.exponent?, if_neg (h b rfl).2.2]

theorem EndsNumber.digits? (h : EndsNumber rest) (hne : s ≠ [])
    (hs : ∀ b ∈ s, Ascii.isDigit b = true) : digits? (s ++ rest) = some (s, rest) := by
  have htake : rest.takeWhile Ascii.isDigit = [] ∧ rest.dropWhile Ascii.isDigit = rest := by
    cases rest with
    | nil => exact ⟨rfl, rfl⟩
    | cons b t =>
      have hb := (h b rfl).1
      exact ⟨List.takeWhile_cons_of_neg (by simp [hb]), List.dropWhile_cons_of_neg (by simp [hb])⟩
  unfold JsonValue.digits?
  rw [List.takeWhile_append_of_pos hs, List.dropWhile_append_of_pos hs, htake.1, htake.2,
    List.append_nil]
  cases s with
  | nil => exact absurd rfl hne
  | cons b t => rfl

theorem EndsNumber.whole? (h : EndsNumber rest) (n : Nat) :
    whole? (Bytes.ofNat n ++ rest) = some (Bytes.ofNat n, rest) := by
  rcases Nat.eq_zero_or_pos n with rfl | hpos
  · have hzero : Bytes.ofNat 0 = [Ascii.zero] := by rw [Bytes.ofNat, if_pos (by decide)]; rfl
    rw [hzero]
    rfl
  · obtain ⟨b, t, heq, -, hb⟩ := Bytes.exists_ofNat_eq_cons n
    have hdigits := h.digits? (Bytes.ofNat_ne_nil n) (Bytes.isDigit_of_mem_ofNat n)
    rw [heq, List.cons_append] at hdigits ⊢
    rw [JsonValue.whole?, if_neg (hb hpos), hdigits]

theorem number?_eq {minus whole t : Bytes} (h : EndsNumber rest)
    (hsign : sign [Ascii.minus] s = (minus, t)) (hwhole : whole? t = some (whole, rest)) :
    number? s = some (.number (minus ++ whole), rest) := by
  simp [number?, hsign, hwhole, h.fraction?, h.exponent?]

theorem EndsNumber.number? (h : EndsNumber rest) (i : Int) :
    number? (Bytes.ofInt i ++ rest) = some (.number (Bytes.ofInt i), rest) := by
  cases i with
  | ofNat n =>
    obtain ⟨b, t, heq, hb, -⟩ := Bytes.exists_ofNat_eq_cons n
    have hminus : b ∉ [Ascii.minus] := by
      intro hmem
      rw [List.mem_singleton.mp hmem] at hb
      cases hb
    have hsign : sign [Ascii.minus] (Bytes.ofNat n ++ rest) = ([], Bytes.ofNat n ++ rest) := by
      rw [heq, List.cons_append, sign, if_neg hminus]
    exact number?_eq h hsign (h.whole? n)
  | negSucc n =>
    have hsign : sign [Ascii.minus] (Ascii.minus :: (Bytes.ofNat (n + 1) ++ rest)) =
        ([Ascii.minus], Bytes.ofNat (n + 1) ++ rest) := by
      rw [sign, if_pos List.mem_cons_self]
    exact number?_eq h hsign (h.whole? (n + 1))

end Numbers

/-! ## Blanks -/

section Blanks

variable {α : Type} {read : Bytes → Option (α × Bytes)} {before s after rest : Bytes} {a : α}

/-- Whether a text is made of blanks. -/
def IsBlank (s : Bytes) : Prop := ∀ b ∈ s, Ascii.isBlank b = true

theorem IsBlank.nil : IsBlank [] := List.forall_mem_nil _

/-- The marks that items end at. -/
def closings : List UInt8 := [Ascii.rightBracket, Ascii.rightBrace]

/-- Whether a text starts like an item: with something else than a blank or a closing mark. -/
def StartsItem (s : Bytes) : Prop :=
  ∃ b t, s = b :: t ∧ Ascii.isBlank b = false ∧ b ∉ closings

theorem skipBlanks_cons {b : UInt8} (h : Ascii.isBlank b = false) (t : Bytes) :
    skipBlanks (b :: t) = b :: t :=
  List.dropWhile_cons_of_neg (by simp [h])

theorem skipBlanks_mark {mark : UInt8} (h : mark ∈ Ascii.comma :: closings) (t : Bytes) :
    skipBlanks (mark :: t) = mark :: t := by
  have hall : (Ascii.comma :: closings).all (fun mark => !Ascii.isBlank mark) = true := rfl
  exact skipBlanks_cons (by simpa using List.all_eq_true.mp hall mark h) t

theorem StartsItem.skipBlanks (h : StartsItem s) (t : Bytes) : skipBlanks (s ++ t) = s ++ t := by
  obtain ⟨b, s, rfl, hb, -⟩ := h
  exact skipBlanks_cons hb (s ++ t)

theorem skipBlanks_append (h : IsBlank before) (t : Bytes) :
    skipBlanks (before ++ t) = skipBlanks t :=
  List.dropWhile_append_of_pos h

/-- Blanks around something do not matter. -/
theorem padded_append (hbefore : IsBlank before) (hs : StartsItem s) (hafter : IsBlank after)
    (hrest : skipBlanks rest = rest)
    (h : read (s ++ (after ++ rest)) = some (a, after ++ rest)) :
    padded read (before ++ (s ++ (after ++ rest))) = some (a, rest) := by
  rw [padded, skipBlanks_append hbefore, hs.skipBlanks, h, Option.map_some]
  dsimp only
  rw [skipBlanks_append hafter, hrest]

theorem isBlank_lineBreak (depth : Nat) : IsBlank (lineBreak depth) := by
  intro b hb
  rcases List.mem_cons.mp hb with rfl | hb
  · rfl
  · rw [List.eq_of_mem_replicate hb]
    rfl

end Blanks

/-! ## Items -/

section Items

variable {α : Type} {item : Bytes → Option (α × Bytes)} {write : α → Bytes} {close : UInt8}

/-- Whether an item is taken off a longer text, together with the blanks around it, up to the mark behind
it. -/
def TakesItem (item : Bytes → Option (α × Bytes)) (s : Bytes) (a : α) : Prop :=
  ∀ before after : Bytes, IsBlank before → IsBlank after →
    ∀ mark ∈ Ascii.comma :: closings, ∀ rest : Bytes,
      item (before ++ (s ++ (after ++ mark :: rest))) = some (a, mark :: rest)

theorem itemsWithin_close {count : Nat} {s rest : Bytes} {a : α}
    (h : item s = some (a, close :: rest)) :
    itemsWithin item close (count + 1) s = some ([a], rest) := by
  simp [itemsWithin, h]

theorem itemsWithin_comma {count : Nat} {s t rest : Bytes} {a : α} {as : List α}
    (hclose : close ∈ closings) (h : item s = some (a, Ascii.comma :: t))
    (hmore : itemsWithin item close count t = some (as, rest)) :
    itemsWithin item close (count + 1) s = some (a :: as, rest) := by
  have hcomma : Ascii.comma ≠ close := by
    rintro rfl
    exact absurd hclose (by decide)
  simp [itemsWithin, h, hcomma, hmore]

/-- Items with commas and blanks between them are all taken, up to the closing mark. -/
theorem itemsWithin_join {before gap after rest : Bytes} {a : α} {as : List α} {count : Nat}
    (hcount : as.length < count) (hclose : close ∈ closings)
    (hbefore : IsBlank before) (hgap : IsBlank gap) (hafter : IsBlank after)
    (h : ∀ a' ∈ a :: as, TakesItem item (write a') a') :
    itemsWithin item close count
      (before ++ (Bytes.join (Ascii.comma :: gap) ((a :: as).map write) ++ (after ++ close :: rest))) =
        some (a :: as, rest) := by
  -- The blanks in front of the items are those of the opening mark first, and those of a comma then.
  induction as generalizing before a count with
  | nil =>
    obtain ⟨ha, -⟩ := List.forall_mem_cons.mp h
    obtain ⟨count, rfl⟩ := Nat.exists_eq_add_of_lt hcount
    rw [List.map_singleton, Bytes.join, List.intercalate_singleton]
    exact itemsWithin_close (ha before after hbefore hafter close (List.mem_cons_of_mem _ hclose) rest)
  | cons next as ih =>
    obtain ⟨ha, has⟩ := List.forall_mem_cons.mp h
    obtain ⟨count, rfl⟩ := Nat.exists_eq_add_of_lt hcount
    rw [List.map_cons, List.map_cons, Bytes.join_cons_cons, ← List.map_cons, List.append_assoc,
      List.append_assoc, List.cons_append]
    refine itemsWithin_comma hclose ?_ (ih ?_ hgap has)
    · exact ha before [] hbefore .nil Ascii.comma List.mem_cons_self _
    · simp only [List.length_cons]
      omega

theorem length_le_length_join (sep : UInt8) (gap : Bytes) (pieces : List Bytes) :
    pieces.length ≤ (Bytes.join (sep :: gap) pieces).length + 1 := by
  induction pieces with
  | nil => exact Nat.zero_le _
  | cons piece pieces ih =>
    cases pieces with
    | nil => simp
    | cons next pieces =>
      rw [Bytes.join_cons_cons]
      simp only [List.length_append, List.length_cons] at ih ⊢
      omega

theorem StartsItem.join {sep piece : Bytes} (h : StartsItem piece) (pieces : List Bytes) :
    StartsItem (Bytes.join sep (piece :: pieces)) := by
  obtain ⟨b, t, rfl, hb⟩ := h
  cases pieces with
  | nil => exact ⟨b, t, by rw [Bytes.join, List.intercalate_singleton], hb⟩
  | cons next pieces =>
    exact ⟨b, t ++ sep ++ Bytes.join sep (next :: pieces), by rw [Bytes.join_cons_cons]; rfl, hb⟩

theorem items?_nil (hclose : close ∈ closings) (rest : Bytes) :
    items? item close (close :: rest) = some ([], rest) := by
  rw [items?, skipBlanks_mark (List.mem_cons_of_mem _ hclose)]
  exact if_pos rfl

theorem StartsItem.items? {before s : Bytes} (hs : StartsItem s) (hclose : close ∈ closings)
    (hbefore : IsBlank before) (t : Bytes) :
    items? item close (before ++ (s ++ t)) = itemsWithin item close (s ++ t).length (s ++ t) := by
  rw [JsonValue.items?, skipBlanks_append hbefore, hs.skipBlanks]
  obtain ⟨b, s, rfl, -, hb⟩ := hs
  have hne : b ≠ close := by
    rintro rfl
    exact hb hclose
  exact if_neg hne

/-- Items are read back from the text between the marks around them. -/
theorem items?_join {before gap after : Bytes} {a : α} {as : List α} (hclose : close ∈ closings)
    (hbefore : IsBlank before) (hgap : IsBlank gap) (hafter : IsBlank after)
    (hstart : StartsItem (write a))
    (h : ∀ a' ∈ a :: as, TakesItem item (write a') a') (rest : Bytes) :
    items? item close
      (before ++ (Bytes.join (Ascii.comma :: gap) ((a :: as).map write) ++ (after ++ close :: rest))) =
        some (a :: as, rest) := by
  have hjoin : StartsItem (Bytes.join (Ascii.comma :: gap) ((a :: as).map write)) :=
    hstart.join (as.map write)
  have hcount : as.length < (Bytes.join (Ascii.comma :: gap) ((a :: as).map write)
      ++ (after ++ close :: rest)).length := by
    have hle := length_le_length_join Ascii.comma gap ((a :: as).map write)
    simp only [List.length_map, List.length_append, List.length_cons] at hle ⊢
    omega
  rw [hjoin.items? hclose hbefore]
  exact itemsWithin_join hcount hclose .nil hgap hafter h

theorem items?_enclose (opening : UInt8) {as : List α} (hclose : close ∈ closings)
    (hstart : ∀ a ∈ as, StartsItem (write a)) (h : ∀ a ∈ as, TakesItem item (write a) a)
    (depth : Nat) (rest : Bytes) :
    ∃ t, enclose opening close depth (as.map write) ++ rest = opening :: t ∧
      items? item close t = some (as, rest) := by
  cases as with
  | nil => exact ⟨close :: rest, rfl, items?_nil hclose rest⟩
  | cons a as =>
    have hread := items?_join hclose (isBlank_lineBreak (depth + 1))
      (isBlank_lineBreak (depth + 1)) (isBlank_lineBreak depth)
      (hstart a List.mem_cons_self) h rest
    refine ⟨_, ?_, hread⟩
    simp [enclose]

end Items

/-! ## Values without values inside -/

section Scalars

variable {v : JsonValue} {s : Bytes}

/-- The bytes that values without values inside start with. -/
def opensScalar (b : UInt8) : Bool :=
  Ascii.isDigit b || b ∈ [Ascii.minus, Ascii.doubleQuote, 0x6e, 0x74, 0x66]

/-- Whether a text starts like a value without values inside. -/
def StartsScalar (s : Bytes) : Prop := ∃ b t, s = b :: t ∧ opensScalar b = true

theorem StartsScalar.startsItem (h : StartsScalar s) : StartsItem s := by
  obtain ⟨b, t, heq, hb⟩ := h
  have hall := Ascii.forall_byte (p := fun b => opensScalar b = true →
    Ascii.isBlank b = false ∧ b ∉ closings) (by decide +kernel)
  exact ⟨b, t, heq, hall b hb⟩

theorem StartsScalar.value? (h : StartsScalar s) (n : Nat) (rest : Bytes) :
    value? n (s ++ rest) = scalar? (s ++ rest) := by
  obtain ⟨b, t, rfl, hb⟩ := h
  have hbracket : b ≠ Ascii.leftBracket := by
    rintro rfl
    cases hb
  have hbrace : b ≠ Ascii.leftBrace := by
    rintro rfl
    cases hb
  cases n with
  | zero => rfl
  | succ n => rw [List.cons_append, JsonValue.value?, if_neg hbracket, if_neg hbrace]

theorem forall_mem_words {p : Bytes × JsonValue → Prop} (hnull : p (text "null", .null))
    (htrue : p (text "true", .bool true)) (hfalse : p (text "false", .bool false)) :
    ∀ w ∈ words, p w :=
  List.forall_mem_cons.mpr ⟨hnull, List.forall_mem_cons.mpr ⟨htrue, List.forall_mem_singleton.mpr hfalse⟩⟩

theorem word?_append (rest : Bytes) : ∀ w ∈ words, word? (w.1 ++ rest) = some (w.2, rest) :=
  forall_mem_words rfl rfl rfl

theorem word?_eq_none {b : UInt8} (t : Bytes) (h : b ∉ ([0x6e, 0x74, 0x66] : List UInt8)) :
    word? (b :: t) = none := by
  simp only [List.mem_cons, List.not_mem_nil, or_false, not_or] at h
  obtain ⟨hnull, htrue, hfalse⟩ := h
  have hnone (c : UInt8) (w : Bytes) (hc : b ≠ c) : Bytes.dropHead? (c :: w) (b :: t) = none := by
    simp [Bytes.dropHead?, hc.symm]
  rw [word?, List.findSome?_eq_none_iff]
  refine forall_mem_words ?_ ?_ ?_
  · exact congrArg (Option.map _) (hnone 0x6e (text "ull") hnull)
  · exact congrArg (Option.map _) (hnone 0x74 (text "rue") htrue)
  · exact congrArg (Option.map _) (hnone 0x66 (text "alse") hfalse)

theorem startsScalar_word : ∀ w ∈ words, StartsScalar w.1 :=
  forall_mem_words ⟨0x6e, _, rfl, rfl⟩ ⟨0x74, _, rfl, rfl⟩ ⟨0x66, _, rfl, rfl⟩

theorem startsScalar_literal (s : Bytes) : StartsScalar (literal s) :=
  ⟨Ascii.doubleQuote, _, rfl, rfl⟩

theorem scalar?_word (rest : Bytes) : ∀ w ∈ words, scalar? (w.1 ++ rest) = some (w.2, rest) := by
  intro w hw
  rw [scalar?, word?_append rest w hw]
  rfl

theorem scalar?_literal (h : Utf8.isValid s = true) (rest : Bytes) :
    scalar? (literal s ++ rest) = some (.string s, rest) := by
  have hword : word? (literal s ++ rest) = none := word?_eq_none _ (by decide)
  rw [scalar?, hword, string?_literal h]
  rfl

theorem scalar?_ofInt (i : Int) {rest : Bytes} (hrest : EndsNumber rest) :
    scalar? (Bytes.ofInt i ++ rest) = some (.number (Bytes.ofInt i), rest) := by
  have hnumber := hrest.number? i
  obtain ⟨b, t, heq, hb⟩ := Bytes.exists_ofInt_eq_cons i
  have hother (c : UInt8) (hc : c ≠ Ascii.minus) (hc' : Ascii.isDigit c = false) : b ≠ c := by
    rintro rfl
    rcases hb with hb | hb
    · exact hc hb
    · rw [hb] at hc'
      cases hc'
  rw [heq, List.cons_append] at hnumber ⊢
  have hword : word? (b :: (t ++ rest)) = none := by
    refine word?_eq_none _ ?_
    simp only [List.mem_cons, List.not_mem_nil, or_false, not_or]
    exact ⟨hother _ (by decide) rfl, hother _ (by decide) rfl, hother _ (by decide) rfl⟩
  have hstring : string? (b :: (t ++ rest)) = none := if_neg (hother _ (by decide) rfl)
  rw [scalar?, hword, hstring, hnumber]
  rfl

theorem startsScalar_ofInt (i : Int) : StartsScalar (Bytes.ofInt i) := by
  obtain ⟨b, t, heq, hb⟩ := Bytes.exists_ofInt_eq_cons i
  refine ⟨b, t, heq, ?_⟩
  rcases hb with rfl | hb
  · rfl
  · rw [opensScalar, hb, Bool.true_or]

end Scalars

/-! ## Values -/

section Values

/-- The values that are read back: numbers are integers, texts are valid, and arrays and objects nest at
most `n` deep. -/
inductive WellFormed : Nat → JsonValue → Prop
  | null (n : Nat) : WellFormed n .null
  | bool (n : Nat) (b : Bool) : WellFormed n (.bool b)
  | number (n : Nat) (i : Int) : WellFormed n (.number (Bytes.ofInt i))
  | string (n : Nat) {s : Bytes} (hs : Utf8.isValid s = true) : WellFormed n (.string s)
  | array {n : Nat} {items : List JsonValue} (hitems : ∀ v ∈ items, WellFormed n v) :
      WellFormed (n + 1) (.array items)
  | object {n : Nat} {members : List (Bytes × JsonValue)}
      (hkeys : ∀ m ∈ members, Utf8.isValid m.1 = true)
      (hmembers : ∀ m ∈ members, WellFormed n m.2) : WellFormed (n + 1) (.object members)

theorem renderItems_eq (depth : Nat) (items : List JsonValue) :
    renderItems depth items = items.map (renderAt depth) := by
  induction items with
  | nil => rw [renderItems, List.map_nil]
  | cons v items ih => rw [renderItems, ih, List.map_cons]

/-- The text of a member at a depth. -/
def renderMember (depth : Nat) (m : Bytes × JsonValue) : Bytes :=
  literal m.1 ++ text ": " ++ renderAt depth m.2

theorem renderMembers_eq (depth : Nat) (members : List (Bytes × JsonValue)) :
    renderMembers depth members = members.map (renderMember depth) := by
  induction members with
  | nil => rw [renderMembers, List.map_nil]
  | cons m members ih =>
    rw [renderMembers, ih, List.map_cons]
    rfl

variable {n : Nat} {v : JsonValue} {m : Bytes × JsonValue} {s : Bytes}

theorem startsItem_renderMember (depth : Nat) (m : Bytes × JsonValue) :
    StartsItem (renderMember depth m) := by
  obtain ⟨b, t, heq, hb⟩ := (startsScalar_literal m.1).startsItem
  exact ⟨b, t ++ text ": " ++ renderAt depth m.2, by rw [renderMember, heq]; rfl, hb⟩

theorem startsItem_enclose {opening : UInt8} (closing : UInt8) (depth : Nat) (items : List Bytes)
    (hblank : Ascii.isBlank opening = false) (hclosing : opening ∉ closings) :
    StartsItem (enclose opening closing depth items) := by
  unfold enclose
  split
  · exact ⟨opening, [closing], rfl, hblank, hclosing⟩
  · exact ⟨opening, _, rfl, hblank, hclosing⟩

/-- The text of a truth value is a word. -/
theorem bool_mem_words (b : Bool) (depth : Nat) : (renderAt depth (.bool b), .bool b) ∈ words := by
  rw [renderAt]
  cases b with
  | false => exact List.mem_cons_of_mem _ (List.mem_cons_of_mem _ List.mem_cons_self)
  | true => exact List.mem_cons_of_mem _ List.mem_cons_self

theorem null_mem_words (depth : Nat) : (renderAt depth .null, .null) ∈ words := by
  rw [renderAt]
  exact List.mem_cons_self

theorem WellFormed.startsItem (h : WellFormed n v) (depth : Nat) : StartsItem (renderAt depth v) := by
  cases h with
  | null n => exact (startsScalar_word _ (null_mem_words depth)).startsItem
  | bool n b => exact (startsScalar_word _ (bool_mem_words b depth)).startsItem
  | number n i =>
    rw [renderAt]
    exact (startsScalar_ofInt i).startsItem
  | string n hs =>
    rw [renderAt]
    exact (startsScalar_literal _).startsItem
  | array hitems =>
    rw [renderAt]
    exact startsItem_enclose _ depth _ rfl (by decide)
  | object hkeys hmembers =>
    rw [renderAt]
    exact startsItem_enclose _ depth _ rfl (by decide)

/-- A number ends at blanks and at the mark behind an item. -/
theorem endsNumber_append {after : Bytes} {mark : UInt8} (hafter : IsBlank after)
    (hmark : mark ∈ Ascii.comma :: closings) (rest : Bytes) : EndsNumber (after ++ mark :: rest) := by
  have hall := Ascii.forall_byte (p := fun b =>
    Ascii.isBlank b = true ∨ b ∈ Ascii.comma :: closings →
      Ascii.isDigit b = false ∧ b ≠ Ascii.period ∧ Ascii.toLower b ≠ 0x65) (by decide +kernel)
  intro b hb
  refine hall b ?_
  cases after with
  | nil =>
    cases hb
    exact .inr hmark
  | cons c after =>
    cases hb
    exact .inl (hafter b List.mem_cons_self)

/-- A value that is read back is taken off as an item. -/
theorem takesItem_padded {α : Type} {read : Bytes → Option (α × Bytes)} {a : α} (hs : StartsItem s)
    (h : ∀ rest, EndsNumber rest → read (s ++ rest) = some (a, rest)) :
    TakesItem (padded read) s a := by
  intro before after hbefore hafter mark hmark rest
  exact padded_append hbefore hs hafter (skipBlanks_mark hmark rest)
    (h _ (endsNumber_append hafter hmark rest))

theorem member?_eq {value : Bytes → Option (JsonValue × Bytes)} {key t rest : Bytes}
    (hkey : padded string? s = some (key, Ascii.colon :: t))
    (hvalue : padded value t = some (v, rest)) : member? value s = some ((key, v), rest) := by
  simp [member?, hkey, hvalue]

/-- A member is taken off if its value is. -/
theorem takesItem_renderMember {value : Bytes → Option (JsonValue × Bytes)} {depth : Nat}
    (hkey : Utf8.isValid m.1 = true) (h : TakesItem (padded value) (renderAt depth m.2) m.2) :
    TakesItem (member? value) (renderMember depth m) m := by
  intro before after hbefore hafter mark hmark rest
  have hpad : padded string? (before ++ (literal m.1 ++ ([] ++ Ascii.colon :: Ascii.space ::
      (renderAt depth m.2 ++ (after ++ mark :: rest))))) = some (m.1, _) :=
    padded_append hbefore (startsScalar_literal m.1).startsItem .nil (skipBlanks_cons rfl _)
      (string?_literal hkey _)
  have hvalue := h [Ascii.space] after (List.forall_mem_singleton.mpr rfl) hafter mark hmark rest
  have hread := member?_eq hpad hvalue
  rw [renderMember, List.append_assoc, List.append_assoc]
  exact hread

theorem value?_array {items : List JsonValue} {t rest : Bytes}
    (h : items? (padded (value? n)) Ascii.rightBracket t = some (items, rest)) :
    value? (n + 1) (Ascii.leftBracket :: t) = some (.array items, rest) := by
  rw [value?, if_pos rfl, h]
  rfl

theorem value?_object {members : List (Bytes × JsonValue)} {t rest : Bytes}
    (h : items? (member? (value? n)) Ascii.rightBrace t = some (members, rest)) :
    value? (n + 1) (Ascii.leftBrace :: t) = some (.object members, rest) := by
  rw [value?, if_neg (by decide), if_pos rfl, h]
  rfl

/-- A value is read back from its text, whatever stands behind it. -/
theorem WellFormed.value?_renderAt (h : WellFormed n v) (depth : Nat) {rest : Bytes}
    (hrest : EndsNumber rest) : value? n (renderAt depth v ++ rest) = some (v, rest) := by
  -- How deep the text stands has nothing to do with how deep values may still nest.
  induction h generalizing depth rest with
  | null n =>
    have hword := null_mem_words depth
    exact ((startsScalar_word _ hword).value? n rest).trans (scalar?_word rest _ hword)
  | bool n b =>
    have hword := bool_mem_words b depth
    exact ((startsScalar_word _ hword).value? n rest).trans (scalar?_word rest _ hword)
  | number n i => rw [renderAt, (startsScalar_ofInt i).value?, scalar?_ofInt i hrest]
  | string n hs => rw [renderAt, (startsScalar_literal _).value?, scalar?_literal hs]
  | @array n items hitems ih =>
    have hclose : Ascii.rightBracket ∈ closings := by decide
    have hstart : ∀ v ∈ items, StartsItem (renderAt (depth + 1) v) := fun v hv =>
      (hitems v hv).startsItem (depth + 1)
    have htakes : ∀ v ∈ items, TakesItem (padded (value? n)) (renderAt (depth + 1) v) v := fun v hv =>
      takesItem_padded (hstart v hv) fun rest hrest => ih v hv (depth + 1) hrest
    obtain ⟨t, htext, hread⟩ := items?_enclose Ascii.leftBracket hclose hstart htakes depth rest
    rw [renderAt, renderItems_eq, htext]
    exact value?_array hread
  | @object n members hkeys hmembers ih =>
    have hclose : Ascii.rightBrace ∈ closings := by decide
    have hstart : ∀ m ∈ members, StartsItem (renderMember (depth + 1) m) := fun m _ =>
      startsItem_renderMember (depth + 1) m
    have htakes : ∀ m ∈ members, TakesItem (member? (value? n)) (renderMember (depth + 1) m) m :=
      fun m hm => takesItem_renderMember (hkeys m hm) (takesItem_padded
        ((hmembers m hm).startsItem (depth + 1)) fun rest hrest => ih m hm (depth + 1) hrest)
    obtain ⟨t, htext, hread⟩ := items?_enclose Ascii.leftBrace hclose hstart htakes depth rest
    rw [renderAt, renderMembers_eq, htext]
    exact value?_object hread

end Values

/-! ## Texts -/

section Texts

variable {n : Nat} {v : JsonValue}

theorem isValid_lineBreak (depth : Nat) : Utf8.isValid (lineBreak depth) = true := by
  refine Utf8.isValid_of_isAscii (Utf8.isAscii_iff.mpr fun b hb => ?_)
  rcases List.mem_cons.mp hb with rfl | hb
  · decide
  · rw [List.eq_of_mem_replicate hb]
    decide

theorem isValid_join {sep : Bytes} {pieces : List Bytes} (hsep : Utf8.isValid sep = true)
    (h : ∀ piece ∈ pieces, Utf8.isValid piece = true) : Utf8.isValid (Bytes.join sep pieces) = true := by
  induction pieces with
  | nil => exact Utf8.isValid_of_isAscii rfl
  | cons piece pieces ih =>
    obtain ⟨hpiece, hpieces⟩ := List.forall_mem_cons.mp h
    cases pieces with
    | nil => rwa [Bytes.join, List.intercalate_singleton]
    | cons next pieces =>
      rw [Bytes.join_cons_cons]
      exact Utf8.isValid_append (Utf8.isValid_append hpiece hsep) (ih hpieces)

theorem isValid_enclose {opening closing : UInt8} (depth : Nat) {items : List Bytes}
    (hmarks : opening < 0x80 ∧ closing < 0x80) (h : ∀ s ∈ items, Utf8.isValid s = true) :
    Utf8.isValid (enclose opening closing depth items) = true := by
  have hsingle (b : UInt8) (hb : b < 0x80) : Utf8.isValid [b] = true :=
    Utf8.isValid_of_isAscii (Utf8.isAscii_iff.mpr (List.forall_mem_singleton.mpr hb))
  have hsep : Utf8.isValid (Ascii.comma :: lineBreak (depth + 1)) = true :=
    Utf8.isValid_append (hsingle Ascii.comma (by decide)) (isValid_lineBreak (depth + 1))
  have hopen : Utf8.isValid (opening :: lineBreak (depth + 1)) = true :=
    Utf8.isValid_append (hsingle opening hmarks.1) (isValid_lineBreak (depth + 1))
  unfold enclose
  split
  · exact Utf8.isValid_append (hsingle opening hmarks.1) (hsingle closing hmarks.2)
  · exact Utf8.isValid_append (Utf8.isValid_append (Utf8.isValid_append hopen (isValid_join hsep h))
      (isValid_lineBreak depth)) (hsingle closing hmarks.2)

theorem isValid_ofInt (i : Int) : Utf8.isValid (Bytes.ofInt i) = true := by
  have hdigit (b : UInt8) (hb : Ascii.isDigit b = true) : b < 0x80 := by
    simp only [Ascii.isDigit, Bool.and_eq_true, decide_eq_true_eq] at hb
    exact UInt8.lt_of_le_of_lt hb.2 (by decide)
  have hnat (n : Nat) : ∀ b ∈ Bytes.ofNat n, b < 0x80 := fun b hb =>
    hdigit b (Bytes.isDigit_of_mem_ofNat n b hb)
  cases i with
  | ofNat n => exact Utf8.isValid_of_isAscii (Utf8.isAscii_iff.mpr (hnat n))
  | negSucc n =>
    refine Utf8.isValid_of_isAscii (Utf8.isAscii_iff.mpr ?_)
    exact List.forall_mem_cons.mpr ⟨by decide, hnat (n + 1)⟩

theorem isValid_word : ∀ w ∈ words, Utf8.isValid w.1 = true :=
  forall_mem_words (Utf8.isValid_of_isAscii (by decide)) (Utf8.isValid_of_isAscii (by decide))
    (Utf8.isValid_of_isAscii (by decide))

theorem WellFormed.isValid_renderAt (h : WellFormed n v) (depth : Nat) :
    Utf8.isValid (renderAt depth v) = true := by
  induction h generalizing depth with
  | null n => exact isValid_word _ (null_mem_words depth)
  | bool n b => exact isValid_word _ (bool_mem_words b depth)
  | number n i =>
    rw [renderAt]
    exact isValid_ofInt i
  | string n hs =>
    rw [renderAt]
    exact isValid_literal hs
  | array hitems ih =>
    rw [renderAt, renderItems_eq]
    refine isValid_enclose depth (by decide) fun s hs => ?_
    obtain ⟨v, hv, rfl⟩ := List.mem_map.mp hs
    exact ih v hv (depth + 1)
  | object hkeys hmembers ih =>
    rw [renderAt, renderMembers_eq]
    refine isValid_enclose depth (by decide) fun s hs => ?_
    obtain ⟨m, hm, rfl⟩ := List.mem_map.mp hs
    have hcolon : Utf8.isValid (text ": ") = true := Utf8.isValid_of_isAscii (by decide)
    exact Utf8.isValid_append (Utf8.isValid_append (isValid_literal (hkeys m hm)) hcolon)
      (ih m hm (depth + 1))

/-- A value is read back from its text. -/
theorem ofText?_render (h : WellFormed nestingLimit v) : ofText? v.render = some v := by
  have hread : padded (value? nestingLimit) ([] ++ (renderAt 0 v ++ ([] ++ []))) = some (v, []) :=
    padded_append .nil (h.startsItem 0) .nil rfl
      (h.value?_renderAt 0 EndsNumber.nil)
  rw [List.nil_append, List.append_nil, List.append_nil] at hread
  rw [ofText?, render, Utf8.scrub_of_isValid (h.isValid_renderAt 0), hread]

end Texts

end OnePass.JsonValue
