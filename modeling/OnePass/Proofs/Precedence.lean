import Mathlib.Data.List.Lex
import Mathlib.Data.Prod.Lex
import Mathlib.Data.Sum.Order
import Mathlib.Order.WithBot
import OnePass.Proofs.ArrayLength
import OnePass.Proofs.Pieces
set_option autoImplicit false

/-!
# The order of versions and the spelling of pointers

Versions are ordered by their numbers, and the pre-releases of a release stand before it (`Version.rank`,
`Version.rank_le_iff`).  What a text spells is said without a reader (`Version.Spells`), and so is what is
asked of a library for versions (`VersionLibrary.IsSemantic`): it reads what is spelled, a lower bound
allows the releases from there on, and a bound that is a release allows no pre-release.

With every such library pointers are untyped in the releases from 15.0.0 on and in no pre-release
(`pointers_eq_untyped_iff`).  So the spelling of pointers does not go back from a release to a later one,
but it does go back to every pre-release in between (`pointers_of_rank_le`).
-/

namespace OnePass

namespace Version

/-! ## Precedence -/

/-- The place of an identifier among those of pre-releases: numbers by their value, and behind them words
by their bytes. -/
def identifierRank (part : Bytes) : ℕ ⊕ₗ List ℕ :=
  if part.all Ascii.isDigit then toLex (.inl (Tree.digitsFrom 0 part))
  else toLex (.inr (part.map UInt8.toNat))

/-- The place of a version among those with the same numbers.  A pre-release is a list of identifiers,
and stands before those that it is the beginning of; the release stands behind all of them. -/
def prereleaseRank (v : Version) : WithTop (List (ℕ ⊕ₗ List ℕ)) :=
  if v.isRelease then ⊤ else .some ((List.splitOn Ascii.period v.prerelease).map identifierRank)

/-- The place of a version in the order of precedence; build data do not matter. -/
def rank (v : Version) : ℕ ×ₗ ℕ ×ₗ ℕ ×ₗ WithTop (List (ℕ ⊕ₗ List ℕ)) :=
  toLex (v.major, toLex (v.minor, toLex (v.patch, v.prereleaseRank)))

section Rank

variable {v w : Version}

/-- Precedence is decided by the first number that differs, and by the pre-releases if none does. -/
theorem rank_le_iff : v.rank ≤ w.rank ↔
    v.major < w.major ∨ v.major = w.major ∧
      (v.minor < w.minor ∨ v.minor = w.minor ∧
        (v.patch < w.patch ∨ v.patch = w.patch ∧ v.prereleaseRank ≤ w.prereleaseRank)) := by
  unfold rank
  rw [Prod.Lex.toLex_le_toLex, Prod.Lex.toLex_le_toLex, Prod.Lex.toLex_le_toLex]

/-- A release does not precede another version if its numbers are at least as large. -/
theorem reaches_iff (h : w.isRelease = true) : w.reaches v = true ↔ v.rank ≤ w.rank := by
  have htop : v.prereleaseRank ≤ w.prereleaseRank := by
    unfold prereleaseRank
    rw [if_pos h]
    exact le_top
  rw [rank_le_iff]
  simp only [reaches, Bool.or_eq_true, Bool.and_eq_true, decide_eq_true_eq, htop, and_true,
    Nat.le_iff_lt_or_eq]

end Rank

/-! ## Texts of versions -/

/-- How a version is spelled: with or without a `v`, one to three numbers, and a pre-release and build
data, which may be left out. -/
structure Spelling extends Parts where
  led : Bool
  numbers_ne : numbers ≠ []
  numbers_le : numbers.length ≤ 3
  digits : ∀ n ∈ numbers, Lexeme.IsDigits n
  prerelease_dotted : prerelease.all isDotted = true
  build_dotted : build.all isDotted = true

/-- The version that is spelled; numbers that are left out are zero. -/
def Parts.version (p : Parts) : Version :=
  let value (i : Nat) := Tree.digitsFrom 0 (p.numbers.getD i [])
  ⟨value 0, value 1, value 2, p.prerelease.getD [], p.build.getD []⟩

/-- The text that is spelled. -/
def Spelling.written (p : Spelling) : Bytes :=
  (if p.led then text "v" else []) ++ (Bytes.join (text ".") p.numbers
    ++ p.prerelease.elim [] (Ascii.minus :: ·) ++ p.build.elim [] (Ascii.plus :: ·))

/-- What version a text stands for. -/
def Spells (s : Bytes) (v : Version) : Prop := ∃ p : Spelling, p.written = s ∧ p.version = v

section Spelling

variable {s : Bytes} {v w : Version} {p : Spelling} {q : Parts}

theorem notMem_of_isDotted {b : UInt8} (h : isDotted s = true) (hb : isIdentifierByte b = false)
    (hperiod : b ≠ Ascii.period) : b ∉ s := by
  intro hmem
  rcases Bytes.mem_splitOn Ascii.period hmem with rfl | ⟨part, hpart, hin⟩
  · exact hperiod rfl
  · have hall := (Bool.and_eq_true_iff.mp (List.all_eq_true.mp h part hpart)).2
    rw [List.all_eq_true.mp hall b hin] at hb
    cases hb

/-- The numbers of a version are digits and periods. -/
theorem Spelling.notMem_numbers (p : Spelling) {b : UInt8} (hb : Ascii.isDigit b = false)
    (hperiod : b ≠ Ascii.period) : b ∉ Bytes.join (text ".") p.numbers := by
  intro hmem
  rcases Bytes.mem_join hmem with hsep | ⟨n, hn, hin⟩
  · exact hperiod (List.mem_singleton.mp hsep)
  · rw [List.all_eq_true.mp (p.digits n hn).2 b hin] at hb
    cases hb

theorem cut_append {sep : UInt8} (hs : sep ∉ s) (part : Option Bytes) :
    Bytes.cut sep (s ++ part.elim [] (sep :: ·)) = (s, part) := by
  induction s with
  | nil =>
    cases part with
    | none => rfl
    | some part => rw [List.nil_append, Option.elim_some, Bytes.cut, if_pos rfl]
  | cons b s ih =>
    obtain ⟨hne, hs⟩ := not_or.mp (List.mem_cons.not.mp hs)
    rw [List.cons_append, Bytes.cut, if_neg (Ne.symm hne), ih hs]

theorem append_cut (sep : UInt8) (s : Bytes) :
    (Bytes.cut sep s).1 ++ (Bytes.cut sep s).2.elim [] (sep :: ·) = s := by
  induction s with
  | nil => rfl
  | cons b s ih =>
    rw [Bytes.cut]
    split
    · next hb => rw [hb]; rfl
    · exact congrArg (b :: ·) ih

/-- The `v` in front is dropped, and nothing else. -/
theorem Spelling.dropHead?_written (p : Spelling) : (Bytes.dropHead? (text "v") p.written).getD p.written =
    Bytes.join (text ".") p.numbers ++ p.prerelease.elim [] (Ascii.minus :: ·)
      ++ p.build.elim [] (Ascii.plus :: ·) := by
  unfold written
  cases p.led with
  | true => rfl
  | false =>
    have hnone (rest : Bytes) :
        Bytes.dropHead? (text "v") (Bytes.join (text ".") p.numbers ++ rest) = none := by
      have hv := p.notMem_numbers (b := 0x76) rfl (by decide)
      obtain ⟨n, numbers, hnumbers⟩ := List.exists_cons_of_ne_nil p.numbers_ne
      obtain ⟨b, digits, hn⟩ := List.exists_cons_of_ne_nil (p.digits n (by rw [hnumbers]; simp)).1
      obtain ⟨tail, htail⟩ : ∃ tail, Bytes.join (text ".") p.numbers = b :: tail := by
        rw [hnumbers, hn]
        cases numbers with
        | nil => exact ⟨digits, by simp [Bytes.join]⟩
        | cons next numbers => exact ⟨_, Bytes.join_cons_cons _ _ _ _⟩
      rw [htail] at hv ⊢
      have hb : (0x76 : UInt8) ≠ b := fun heq => hv (heq ▸ List.mem_cons_self)
      simp [Bytes.dropHead?, show text "v" = [0x76] from rfl, hb]
    rw [if_neg Bool.false_ne_true, List.nil_append, List.append_assoc, hnone]
    rfl

/-- What is spelled is cut into the parts that it is spelled with. -/
theorem Spelling.parts?_written (p : Spelling) : parts? p.written = some p.toParts := by
  have hplus : Ascii.plus ∉ Bytes.join (text ".") p.numbers ++ p.prerelease.elim [] (Ascii.minus :: ·) := by
    have hdotted := p.prerelease_dotted
    rw [List.mem_append, not_or]
    refine ⟨p.notMem_numbers rfl (by decide), ?_⟩
    cases hpart : p.prerelease with
    | none => exact List.not_mem_nil
    | some part =>
      rw [hpart] at hdotted
      exact List.not_mem_cons_of_ne_of_not_mem (by decide) (notMem_of_isDotted hdotted rfl (by decide))
  have hminus := p.notMem_numbers (b := Ascii.minus) rfl (by decide)
  have hsplit : List.splitOn Ascii.period (Bytes.join (text ".") p.numbers) = p.numbers := by
    refine List.splitOn_intercalate _ (fun n hn hperiod => ?_) p.numbers_ne
    have hdigit := List.all_eq_true.mp (p.digits n hn).2 _ hperiod
    cases hdigit
  have hdigits : p.numbers.all (fun n => !n.isEmpty && n.all Ascii.isDigit) = true := by
    rw [List.all_eq_true]
    intro n hn
    obtain ⟨hne, hall⟩ := p.digits n hn
    rw [hall, Bool.and_true, Bool.not_eq_true', List.isEmpty_eq_false_iff]
    exact hne
  unfold parts?
  dsimp only
  rw [p.dropHead?_written, cut_append hplus]
  dsimp only
  rw [cut_append hminus]
  dsimp only
  rw [hsplit, hdigits, p.prerelease_dotted, p.build_dotted, decide_eq_true p.numbers_le]
  rfl

/-- What is cut into parts is spelled with them. -/
theorem exists_spelling_of_parts? (h : parts? s = some q) :
    ∃ p : Spelling, p.written = s ∧ p.toParts = q := by
  unfold parts? at h
  obtain ⟨led, hled⟩ : ∃ led : Bool,
      s = (if led then text "v" else []) ++ (Bytes.dropHead? (text "v") s).getD s := by
    unfold Bytes.dropHead?
    split
    · next hv => exact ⟨true, (List.prefix_iff_eq_append.mp (List.isPrefixOf_iff_prefix.mp hv)).symm⟩
    · exact ⟨false, rfl⟩
  generalize (Bytes.dropHead? (text "v") s).getD s = rest at h hled
  dsimp only at h
  split at h
  · next hparts =>
    simp only [Bool.and_eq_true, decide_eq_true_eq] at hparts
    obtain ⟨⟨⟨hlength, hdigits⟩, hprerelease⟩, hbuild⟩ := hparts
    cases h
    refine ⟨⟨_, led, List.splitOn_ne_nil _ _, hlength, ?_, hprerelease, hbuild⟩, ?_, rfl⟩
    · intro n hn
      have hn := List.all_eq_true.mp hdigits n hn
      rw [Bool.and_eq_true, Bool.not_eq_true', List.isEmpty_eq_false_iff] at hn
      exact hn
    · rw [hled]
      unfold Spelling.written
      dsimp only
      have hjoin (core : Bytes) : Bytes.join (text ".") (List.splitOn Ascii.period core) = core :=
        List.intercalate_splitOn Ascii.period
      rw [hjoin, append_cut, append_cut]
  · cases h

/-- A text stands for one version. -/
theorem Spells.unique (hv : Spells s v) (hw : Spells s w) : v = w := by
  obtain ⟨p, rfl, rfl⟩ := hv
  obtain ⟨q, hq, rfl⟩ := hw
  have hparts := q.parts?_written
  rw [hq, p.parts?_written] at hparts
  exact congrArg Parts.version (Option.some.inj hparts)

theorem number_eq {numbers : List Bytes} {i n : Nat} (h : number numbers i = .ok n) :
    n = Tree.digitsFrom 0 (numbers.getD i []) := by
  unfold number at h
  rw [List.getD_eq_getElem?_getD]
  split at h
  · next hnone =>
    cases h
    rw [hnone]
    rfl
  · next digits hsome =>
    rw [hsome]
    cases hread : Numeral.readUnsigned digits with
    | error e => rw [hread] at h; cases h
    | ok value =>
      rw [hread] at h
      cases h
      exact (Numeral.isDigits_of_readUnsigned hread).2

/-- What is read is spelled. -/
theorem spells_of_parse (h : parse s = .ok v) : Spells s v := by
  unfold parse at h
  split at h
  · cases h
  · next q hq =>
    obtain ⟨p, hp, rfl⟩ := exists_spelling_of_parts? hq
    refine ⟨p, hp, ?_⟩
    cases hmajor : number p.numbers 0 with
    | error e => rw [hmajor] at h; cases h
    | ok major =>
      cases hminor : number p.numbers 1 with
      | error e => rw [hmajor, hminor] at h; cases h
      | ok minor =>
        cases hpatch : number p.numbers 2 with
        | error e => rw [hmajor, hminor, hpatch] at h; cases h
        | ok patch =>
          rw [hmajor, hminor, hpatch] at h
          simp only [bind, Except.bind] at h
          split at h
          · cases h
          · cases h
            unfold Parts.version
            rw [number_eq hmajor, number_eq hminor, number_eq hpatch]

end Spelling

end Version

/-! ## Pointers -/

open Version

/-- What the programs rely on in a library for versions. -/
structure VersionLibrary.IsSemantic (l : VersionLibrary) : Prop where
  /-- a version is read as it is spelled -/
  spelled {s : Bytes} {v : Version} : l.read s = .ok v → Spells s v
  /-- a lower bound allows the releases that do not precede it -/
  bounds {s : Bytes} {bound v : Version} {allows : Version → Bool} : Spells s bound →
    bound.isRelease = true → l.constraint (text ">= " ++ s) = .ok allows → v.isRelease = true →
    (allows v = true ↔ bound.rank ≤ v.rank)
  /-- a lower bound that is a release allows no pre-release -/
  refuses {s : Bytes} {bound v : Version} {allows : Version → Bool} : Spells s bound →
    bound.isRelease = true → l.constraint (text ">= " ++ s) = .ok allows → v.isRelease = false →
    allows v = false

theorem Version.constraint_allows {s : Bytes} {bound v : Version} {allows : Version → Bool}
    (hs : Spells s bound) (h : Version.constraint (text ">= " ++ s) = .ok allows) :
    allows v = (v.isRelease && v.reaches bound) := by
  have hdrop : Bytes.dropHead? (text ">= ") (text ">= " ++ s) = some s := rfl
  unfold Version.constraint at h
  rw [hdrop] at h
  split at h
  · next read hread =>
    obtain rfl := (spells_of_parse (Option.some.inj hread)).unique hs
    split at h
    · cases h
      rfl
    · cases h
  · cases h

/-- Programs are run with such a library. -/
theorem VersionLibrary.semantic_isSemantic : VersionLibrary.semantic.IsSemantic where
  spelled := spells_of_parse
  bounds hs _ h hv := by
    rw [constraint_allows hs h, hv, Bool.true_and, reaches_iff hv]
  refuses hs _ h hv := by
    rw [constraint_allows hs h, hv, Bool.false_and]

namespace Target

variable {l : VersionLibrary} {version : Bytes} {t : Target} {v w : Version}

/-- The first release with untyped pointers. -/
def firstUntyped : Version := ⟨15, 0, 0, [], []⟩

theorem spells_firstUntyped : Spells (text "15.0.0") firstUntyped :=
  spells_of_parse (by decide)

/-- Pointers are untyped in the releases from 15.0.0 on. -/
theorem pointers_eq_untyped_iff (hl : l.IsSemantic) (h : parseWith l version = .ok t)
    (hv : Spells (requested version) v) :
    t.pointers = .untyped ↔ firstUntyped.rank ≤ v.rank ∧ v.isRelease = true := by
  unfold parseWith at h
  split at h
  · cases h
  · next read hread =>
    obtain rfl := (hl.spelled hread).unique hv
    split at h
    · cases h
    · next allows hallows =>
      cases h
      dsimp only
      cases hrelease : read.isRelease with
      | false => simp [hl.refuses spells_firstUntyped rfl hallows hrelease]
      | true =>
        rw [← hl.bounds spells_firstUntyped rfl hallows hrelease]
        cases allows read <;> simp

/-- If pointers are untyped for a version, they are untyped for the releases that do not precede it and
for no pre-release. -/
theorem pointers_of_rank_le {first second : Bytes} {a b : Target} (hl : l.IsSemantic)
    (hfirst : parseWith l first = .ok a) (hsecond : parseWith l second = .ok b)
    (hv : Spells (requested first) v) (hw : Spells (requested second) w) (hle : v.rank ≤ w.rank)
    (huntyped : a.pointers = .untyped) : b.pointers = .untyped ↔ w.isRelease = true := by
  rw [pointers_eq_untyped_iff hl hfirst hv] at huntyped
  rw [pointers_eq_untyped_iff hl hsecond hw]
  exact and_iff_right (huntyped.1.trans hle)

/-- A version under a short name, and a later release with build data. -/
theorem laterRelease_untyped : ∃ t, parse (text "v16.2+x") = .ok t ∧ t.pointers = .untyped := by
  have hfirst : parse (text "15") = .ok ⟨some firstUntyped, .untyped⟩ := by decide
  have hsecond : ∃ t, parse (text "v16.2+x") = .ok t := ⟨_, rfl⟩
  have hv : Spells (requested (text "15")) firstUntyped := spells_of_parse (by decide)
  have hw : Spells (requested (text "v16.2+x")) ⟨16, 2, 0, [], text "x"⟩ :=
    spells_of_parse (by decide)
  have hle : firstUntyped.rank ≤ (⟨16, 2, 0, [], text "x"⟩ : Version).rank :=
    rank_le_iff.mpr (.inl (by decide))
  obtain ⟨t, ht⟩ := hsecond
  exact ⟨t, ht, (pointers_of_rank_le VersionLibrary.semantic_isSemantic hfirst ht hv hw hle rfl).mpr rfl⟩

/-- A pre-release behind a release with untyped pointers has typed ones. -/
theorem candidate_typed :
    parse (text "15.0.0") = .ok ⟨some ⟨15, 0, 0, [], []⟩, .untyped⟩ ∧
    parse (text "16.0.0-rc1") = .ok ⟨some ⟨16, 0, 0, text "rc1", []⟩, .typed⟩ ∧
    (⟨15, 0, 0, [], []⟩ : Version).rank ≤ (⟨16, 0, 0, text "rc1", []⟩ : Version).rank := by
  refine ⟨by decide, by decide, ?_⟩
  exact rank_le_iff.mpr (.inl (by decide))

end Target

end OnePass
