import OnePass.Config
import OnePass.Proofs.JsonValue.RoundTrip
set_option autoImplicit false

/-!
# Saved settings

What is read from saved settings is what checking them gives (`ofRead_render`): the text names every
setting, so none keeps its default, and names are matched as they are written.  So settings that the
check leaves as they are come back unchanged (`ofRead_render_eq_self`).
-/

namespace OnePass.Config

variable {c : Config}

/-! ## Names of settings -/

/-- The names of the settings. -/
def names : List Bytes :=
  [text "verbose", text "debug", text "out_dir", text "llvm_version", text "jobs", text "color"]

/-- A name without capital letters is matched as it is written. -/
theorem foldName_eq_self {s : Bytes} (hascii : s.isAscii = true)
    (hupper : s.any Ascii.isUpper = false) : foldName s = s := by
  obtain ⟨hscalar, hcodes⟩ := Utf8.codes_of_isAscii hascii
  have hall := Ascii.forall_byte (p := fun b => b < 0x80 → Ascii.isUpper b = false →
    foldCode b.toNat = b.toNat) (by decide +kernel)
  have hfold : (s.map UInt8.toNat).map foldCode = s.map UInt8.toNat := by
    rw [List.map_map]
    refine List.map_congr_left fun b hb => hall b (Utf8.isAscii_iff.mp hascii b hb) ?_
    simpa using List.any_eq_false.mp hupper b hb
  have hpieces : Utf8.pieces s = (s.map UInt8.toNat).map .point := by
    have hread := Utf8.pieces_flatMap_encode hscalar
    rwa [← hcodes] at hread
  calc foldName s
      = (s.map UInt8.toNat).flatMap fun code => Utf8.encode (foldCode code) := by
        rw [foldName, hpieces, List.flatMap_map]
        rfl
    _ = ((s.map UInt8.toNat).map foldCode).flatMap Utf8.encode := by
        rw [List.flatMap_map (l := (s.map UInt8.toNat))]
    _ = s := by rw [hfold, ← hcodes]

theorem isAscii_of_mem_names {name : Bytes} (h : name ∈ names) : name.isAscii = true := by
  have hall : names.all Bytes.isAscii = true := by decide
  exact List.all_eq_true.mp hall name h

theorem foldName_of_mem_names {name : Bytes} (h : name ∈ names) : foldName name = name := by
  have hall : names.all (fun name => !name.any Ascii.isUpper) = true := by decide
  refine foldName_eq_self (isAscii_of_mem_names h) ?_
  exact Bool.not_eq_true' _ ▸ List.all_eq_true.mp hall name h

theorem isValid_of_mem_names {name : Bytes} (h : name ∈ names) : Utf8.isValid name = true :=
  Utf8.isValid_of_isAscii (isAscii_of_mem_names h)

/-! ## Changing settings -/

theorem set?_verbose (c : Config) (b : Bool) :
    c.set? (text "verbose", .bool b) = some { c with verbose := b } := by
  rw [set?, foldName_of_mem_names (by decide)]
  rfl

theorem set?_debug (c : Config) (b : Bool) :
    c.set? (text "debug", .bool b) = some { c with debug := b } := by
  rw [set?, foldName_of_mem_names (by decide)]
  rfl

theorem set?_outDir (c : Config) (s : Bytes) :
    c.set? (text "out_dir", .string s) = some { c with outDir := s } := by
  rw [set?, foldName_of_mem_names (by decide)]
  rfl

theorem set?_llvmVersion (c : Config) (s : Bytes) :
    c.set? (text "llvm_version", .string s) = some { c with llvmVersion := s } := by
  rw [set?, foldName_of_mem_names (by decide)]
  rfl

theorem set?_jobs (c : Config) {n : Int} (hlow : -0x8000000000000000 ≤ n)
    (hhigh : n < 0x8000000000000000) :
    c.set? (text "jobs", .number (Bytes.ofInt n)) = some { c with jobs := n } := by
  have hint : int? c.jobs (.number (Bytes.ofInt n)) = some n := by
    rw [int?, Numeral.readInt_ofInt hlow hhigh]
    rfl
  rw [set?, foldName_of_mem_names (by decide)]
  exact congrArg (Option.map _) hint

theorem set?_color (c : Config) (s : Bytes) :
    c.set? (text "color", .string s) = some { c with color := s } := by
  rw [set?, foldName_of_mem_names (by decide)]
  rfl

/-- Every setting is changed to what was written, whatever it was. -/
theorem update?_toJson (old : Config) (hlow : -0x8000000000000000 ≤ c.jobs)
    (hhigh : c.jobs < 0x8000000000000000) : old.update? c.toJson = some c := by
  simp [update?, toJson, set?_verbose, set?_debug, set?_outDir, set?_llvmVersion,
    set?_jobs _ hlow hhigh, set?_color]

/-! ## Reading what was saved -/

/-- The texts of settings can be read back. -/
theorem wellFormed_toJson (hout : Utf8.isValid c.outDir = true)
    (hversion : Utf8.isValid c.llvmVersion = true) (hcolor : Utf8.isValid c.color = true) (n : Nat) :
    JsonValue.WellFormed (n + 1) c.toJson := by
  refine .object ?_ ?_
  · intro m hm
    exact isValid_of_mem_names (List.mem_map_of_mem (f := Prod.fst) hm)
  · simp only [List.forall_mem_cons]
    exact ⟨.bool n _, .bool n _, .string n hout, .string n hversion, .number n _, .string n hcolor,
      List.forall_mem_nil _⟩

/-- What is read from saved settings is what checking them gives. -/
theorem ofRead_render (hout : Utf8.isValid c.outDir = true)
    (hversion : Utf8.isValid c.llvmVersion = true) (hcolor : Utf8.isValid c.color = true)
    (hlow : -0x8000000000000000 ≤ c.jobs) (hhigh : c.jobs < 0x8000000000000000) :
    ofRead (.ok c.render) = c.validate := by
  have hread : JsonValue.ofText? c.render = some c.toJson :=
    JsonValue.ofText?_render (wellFormed_toJson hout hversion hcolor 9999)
  rw [ofRead, ofText, hread, Option.bind_some, update?_toJson standard hlow hhigh]

/-- The settings that the check leaves as they are. -/
theorem validate_eq_self_iff : c.validate = .ok c ↔
    c.outDir ≠ [] ∧ 1 ≤ c.jobs ∧ c.color ∈ [colorAuto, colorAlways, colorNever] := by
  constructor
  · intro h
    unfold validate at h
    dsimp only at h
    generalize hout : (if c.outDir = [] then text "." else c.outDir) = out at h
    generalize hnumber : (if c.jobs = 0 then 1 else c.jobs) = number at h
    generalize hmode : (if c.color = [] then colorAuto else c.color) = mode at h
    split at h
    · cases h
    · next hjobs =>
      split at h
      · next hcolor =>
        have heq := Except.ok.inj h
        obtain rfl : out = c.outDir := congrArg outDir heq
        obtain rfl : number = c.jobs := congrArg jobs heq
        obtain rfl : mode = c.color := congrArg color heq
        refine ⟨?_, ?_, hcolor⟩
        · intro hempty
          rw [if_pos hempty, hempty] at hout
          exact absurd hout (by decide)
        · have hne : c.jobs ≠ 0 := by
            intro hzero
            rw [if_pos hzero, hzero] at hnumber
            cases hnumber
          omega
      · cases h
  · rintro ⟨hout, hjobs, hcolor⟩
    have hne : c.jobs ≠ 0 := by omega
    have hmode : c.color ≠ [] := by
      intro hempty
      rw [hempty] at hcolor
      exact absurd hcolor (by decide)
    have hpositive : ¬c.jobs < 0 := by omega
    simp only [validate, if_neg hout, if_neg hne, if_neg hmode, if_neg hpositive, if_pos hcolor]

/-- Settings that the check leaves as they are come back unchanged from their text. -/
theorem ofRead_render_eq_self (c : Config) (hvalid : c.validate = .ok c)
    (hout : Utf8.isValid c.outDir = true) (hversion : Utf8.isValid c.llvmVersion = true)
    (hjobs : c.jobs < 0x8000000000000000) : ofRead (.ok c.render) = .ok c := by
  obtain ⟨-, hpositive, hcolor⟩ := validate_eq_self_iff.mp hvalid
  have hall : [colorAuto, colorAlways, colorNever].all Bytes.isAscii = true := by decide
  have hmode : Utf8.isValid c.color = true :=
    Utf8.isValid_of_isAscii (List.all_eq_true.mp hall c.color hcolor)
  rw [ofRead_render hout hversion hmode (by omega) hjobs, hvalid]

/-- Settings with every kind of character that is written in a way of its own. -/
def escapedSettings : Config :=
  { verbose := true, outDir := text "<a> & \"b\" \\ \n\t\x01 ü \u2028 \u2029 €😀",
    llvmVersion := text "\x7f\x08", jobs := 0x7fffffffffffffff, color := colorNever }

theorem escapedSettings_saved : escapedSettings.validate = .ok escapedSettings ∧
    ofRead (.ok escapedSettings.render) = .ok escapedSettings := by
  have hvalid : escapedSettings.validate = .ok escapedSettings :=
    validate_eq_self_iff.mpr (by decide)
  refine ⟨hvalid, ofRead_render_eq_self escapedSettings hvalid ?_ ?_ (by decide)⟩
  · refine Utf8.isValid_iff.mpr ⟨[0x3c, 0x61, 0x3e, 0x20, 0x26, 0x20, 0x22, 0x62, 0x22, 0x20, 0x5c,
      0x20, 0x0a, 0x09, 0x01, 0x20, 0xfc, 0x20, 0x2028, 0x20, 0x2029, 0x20, 0x20ac, 0x1f600], ?_, ?_⟩
    · simp [Utf8.IsScalar]
    · decide
  · exact Utf8.isValid_of_isAscii (by decide)

end OnePass.Config
