import OnePass.Text.Bytes
set_option autoImplicit false

/-!
# Texts in pieces

What the pieces of a text have to do with its bytes: a piece holds no separator
(`notMem_of_mem_splitOn`), and what is joined of pieces holds their bytes and those of the separator
(`mem_join`).
-/

namespace OnePass.Bytes

variable {sep : UInt8} {s t : Bytes}

/-- A text without separators behind another one is one more piece. -/
theorem splitOn_append_cons (h : sep ∉ t) :
    List.splitOn sep (s ++ sep :: t) = List.splitOn sep s ++ [t] := by
  rw [List.splitOn_append_cons_self, List.splitOn_eq_singleton h]

theorem notMem_of_mem_splitOn {piece : Bytes} (h : piece ∈ List.splitOn sep s) : sep ∉ piece := by
  induction s generalizing piece with
  | nil =>
    rw [List.splitOn_nil, List.mem_singleton] at h
    rw [h]
    exact List.not_mem_nil
  | cons b s ih =>
    rw [List.splitOn_cons_eq_if_modifyHead] at h
    split at h
    · rcases List.mem_cons.mp h with rfl | h
      · exact List.not_mem_nil
      · exact ih h
    · next hb =>
      cases hs : List.splitOn sep s with
      | nil => exact absurd hs (List.splitOn_ne_nil sep s)
      | cons first pieces =>
        rw [hs] at h ih
        rcases List.mem_cons.mp h with rfl | h
        · refine List.not_mem_cons_of_ne_of_not_mem (fun heq => hb ?_) (ih List.mem_cons_self)
          rw [heq, BEq.rfl]
        · exact ih (List.mem_cons_of_mem _ h)

theorem join_cons_cons (sep piece next : Bytes) (pieces : List Bytes) :
    join sep (piece :: next :: pieces) = piece ++ sep ++ join sep (next :: pieces) := by
  rw [join, List.intercalate_cons_cons]
  rfl

/-- A byte of joined pieces is one of the separator or of a piece. -/
theorem mem_join {sep : Bytes} {b : UInt8} {pieces : List Bytes} (h : b ∈ join sep pieces) :
    b ∈ sep ∨ ∃ piece ∈ pieces, b ∈ piece := by
  induction pieces with
  | nil => cases h
  | cons piece pieces ih =>
    cases pieces with
    | nil => exact .inr ⟨piece, by simp, by simpa [join] using h⟩
    | cons next pieces =>
      rw [join, List.intercalate_cons_cons, List.mem_append, List.mem_append] at h
      rcases h with (h | h) | h
      · exact .inr ⟨piece, by simp, h⟩
      · exact .inl h
      · rcases ih h with h | ⟨other, hother, h⟩
        · exact .inl h
        · exact .inr ⟨other, List.mem_cons_of_mem piece hother, h⟩

/-- A byte of a text is the separator or one of a piece. -/
theorem mem_splitOn (sep : UInt8) {b : UInt8} (h : b ∈ s) :
    b = sep ∨ ∃ piece ∈ List.splitOn sep s, b ∈ piece := by
  rw [← @List.intercalate_splitOn _ s _ _ sep] at h
  exact (mem_join h).imp_left List.mem_singleton.mp

end OnePass.Bytes
