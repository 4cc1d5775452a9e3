import OnePass.Proofs.Lexical
import OnePass.Proofs.Pieces
import OnePass.Symbol.Table
set_option autoImplicit false

/-!
# Scope keys

A key is the key of its scope and a name, with a period between them.  As names hold no period, the
key of the scope can be read off again (`ScopeKey.parent_child`), so that entering the scope of a
name and leaving it are inverse.
-/

namespace OnePass

namespace ScopeKey

/-- The scope of a name in a scope is that scope. -/
theorem parent_child (key : ScopeKey) {name : Bytes} (h : Ascii.period ∉ name) :
    (key.child name).parent = key := by
  rw [child, parent, Bytes.splitOn_append_cons h, List.dropLast_concat, Bytes.join,
    List.intercalate_splitOn]

/-- The key of a name in a scope tells both. -/
theorem child_inj {key key' : ScopeKey} {name name' : Bytes} (hname : Ascii.period ∉ name)
    (hname' : Ascii.period ∉ name') (h : key.child name = key'.child name') :
    key = key' ∧ name = name' := by
  have hkey : key = key' := by
    rw [← parent_child key hname, h, parent_child key' hname']
  subst hkey
  exact ⟨rfl, (List.cons.inj (List.append_cancel_left h)).2⟩

theorem child_ne_nil (key : ScopeKey) (name : Bytes) : key.child name ≠ [] := by
  simp [child]

theorem ne_child {key : ScopeKey} (h : Ascii.period ∉ key) (root : ScopeKey) (name : Bytes) :
    key ≠ root.child name := by
  rintro rfl
  simp [child] at h

theorem irName_child (key : ScopeKey) {name : Bytes} (h : Ascii.period ∉ name) :
    (key.child name).irName = key.irName ++ Ascii.underscore :: name := by
  have hname : name.map (fun b => if b = Ascii.period then Ascii.underscore else b) = name := by
    refine Eq.trans (List.map_congr_left ?_) (List.map_id name)
    intro b hb
    refine if_neg ?_
    rintro rfl
    exact h hb
  rw [irName, child, Bytes.replaceByte, List.map_append, List.map_cons, hname]
  rfl

/-- A key that stands in a scope is that of a name in the scope. -/
theorem exists_eq_child {key : ScopeKey} (h : key.parent ≠ []) :
    ∃ name, Ascii.period ∉ name ∧ key = key.parent.child name := by
  obtain ⟨pieces, hpieces⟩ : ∃ pieces, List.splitOn Ascii.period key = pieces := ⟨_, rfl⟩
  have hkey : Bytes.join [Ascii.period] pieces = key := by
    rw [← hpieces, Bytes.join, List.intercalate_splitOn]
  have hnotMem : ∀ piece ∈ pieces, Ascii.period ∉ piece := by
    intro piece hpiece
    rw [← hpieces] at hpiece
    exact Bytes.notMem_of_mem_splitOn hpiece
  rw [parent, hpieces] at h ⊢
  -- The last piece is the name; there are others, since the scope is not empty.
  rcases List.eq_nil_or_concat pieces with rfl | ⟨front, name, rfl⟩
  · exact absurd rfl h
  · rw [List.concat_eq_append] at h hkey hnotMem ⊢
    rw [List.dropLast_concat] at h ⊢
    rw [List.forall_mem_append, List.forall_mem_singleton] at hnotMem
    have hfront : front ≠ [] := by
      rintro rfl
      exact h rfl
    refine ⟨name, hnotMem.2, ?_⟩
    have hsplit := Bytes.splitOn_append_cons (s := Bytes.join [Ascii.period] front) hnotMem.2
    rw [Bytes.join, List.splitOn_intercalate _ hnotMem.1 hfront] at hsplit
    rw [child, ← hkey, ← hsplit, Bytes.join, List.intercalate_splitOn]
    rfl

end ScopeKey

/-- The keys bound with the built-in procedures. -/
theorem Table.mem_bindBuiltins {m : Bindings} {root key : ScopeKey} :
    key ∈ bindBuiltins m root ↔ key ∈ m ∨ ∃ b : Builtin, key = root.child b.word := by
  have hfold (bs : List Builtin) (m : Bindings) :
      key ∈ bs.foldl (fun m b => m.insert (root.child b.word) (.ofBuiltin b)) m ↔
        key ∈ m ∨ ∃ b ∈ bs, key = root.child b.word := by
    induction bs generalizing m with
    | nil => simp
    | cons b bs ih =>
      rw [List.foldl_cons, ih]
      simp only [Std.ExtTreeMap.mem_insert, Std.compare_eq_iff_eq, List.mem_cons, exists_eq_or_imp]
      constructor
      · rintro ((rfl | h) | h)
        · exact .inr (.inl rfl)
        · exact .inl h
        · exact .inr (.inr h)
      · rintro (h | rfl | h)
        · exact .inl (.inr h)
        · exact .inl (.inl rfl)
        · exact .inr h
  have h := hfold Builtin.all m
  simpa [bindBuiltins, Builtin.mem_all] using h

/-- There is a global key behind the first scope that is entered. -/
theorem Table.global_enter_ne_nil (t : Table) {name : Bytes} (h : name.lower ≠ []) :
    (t.enter name).global ≠ [] := by
  unfold enter
  dsimp only
  split
  · exact h
  · split <;> assumption

theorem Table.scope_enter_ne_nil (t : Table) {name : Bytes} (h : name.lower ≠ []) :
    (t.enter name).scope ≠ [] := by
  unfold enter
  dsimp only
  split
  · exact h
  · split
    · exact h
    · exact ScopeKey.child_ne_nil _ _

end OnePass
