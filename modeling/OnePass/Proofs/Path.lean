import OnePass.Path
import OnePass.Proofs.Pieces
set_option autoImplicit false

/-!
# What is left of a path

A clean path is made of its root and of the components that are left of it when those that say nothing
are left out and those that lead back are taken back (`clean_eq`).  What is left is such that nothing
more can be left out or taken back (`IsStack`), so a clean path is clean for good (`clean_clean`).  The
path that a clean path is in has one component less (`dir_ofStack`), and a path behind another one has
one more (`join_eq`).
-/

namespace OnePass

namespace Path

/-! ## Components -/

/-- Whether a path starts at the root. -/
def isRooted (p : Bytes) : Bool := p.head? = some Ascii.slash

/-- What is left of the components of a path, from the last one on. -/
def stack (p : Bytes) : List Bytes := (List.splitOn Ascii.slash p).foldl (push (isRooted p)) []

/-- Components one inside the other, from the last one on. -/
def body (kept : List Bytes) : Bytes := Bytes.join [Ascii.slash] kept.reverse

/-- The clean path of a root and of components, from the last one on. -/
def ofStack (rooted : Bool) (kept : List Bytes) : Bytes :=
  if rooted then Ascii.slash :: body kept else if kept.isEmpty then text "." else body kept

theorem ofStack_false {kept : List Bytes} (h : kept ≠ []) : ofStack false kept = body kept := by
  rw [ofStack, if_neg Bool.false_ne_true, if_neg (by simpa using h)]

theorem clean_eq (p : Bytes) : clean p = ofStack (isRooted p) (stack p) := by
  unfold clean ofStack stack body isRooted
  dsimp only
  by_cases h : p.head? = some Ascii.slash
  · rw [decide_eq_true h, if_pos h, if_pos rfl]
    rfl
  · rw [decide_eq_false h, if_neg h, if_neg Bool.false_ne_true, List.isEmpty_reverse]
    rfl

/-- A component that says something, and may be one that leads back. -/
structure IsComponent (c : Bytes) : Prop where
  ne_nil : c ≠ []
  ne_dot : c ≠ text "."
  slash_notMem : Ascii.slash ∉ c

/-- Whether nothing can be left out of components, from the last one on: those that lead back stand
first, and there are none behind a root. -/
inductive IsStack (rooted : Bool) : List Bytes → Prop where
  | nil : IsStack rooted []
  | name {c : Bytes} {kept : List Bytes} (component : IsComponent c) (ahead : c ≠ text "..")
      (rest : IsStack rooted kept) : IsStack rooted (c :: kept)
  | back {kept : List Bytes} (relative : rooted = false) (rest : ∀ d ∈ kept, d = text "..") :
      IsStack rooted (text ".." :: kept)

section Stacks

variable {rooted : Bool} {c : Bytes} {kept : List Bytes}

theorem isComponent_back : IsComponent (text "..") := by
  constructor <;> decide

theorem isStack_backs (h : ∀ d ∈ kept, d = text "..") : IsStack false kept := by
  cases kept with
  | nil => exact .nil
  | cons d kept =>
    obtain ⟨rfl, hkept⟩ := List.forall_mem_cons.mp h
    exact .back rfl hkept

theorem IsStack.tail (h : IsStack rooted (c :: kept)) : IsStack rooted kept := by
  cases h with
  | name component ahead rest => exact rest
  | back relative rest =>
    rw [relative]
    exact isStack_backs rest

theorem IsStack.isComponent (h : IsStack rooted kept) (hc : c ∈ kept) : IsComponent c := by
  induction kept with
  | nil => cases hc
  | cons d kept ih =>
    rcases List.mem_cons.mp hc with rfl | hc
    · cases h with
      | name component ahead rest => exact component
      | back relative rest => exact isComponent_back
    · exact ih h.tail hc

theorem IsStack.of_append {more : List Bytes} (h : IsStack rooted (more ++ kept)) :
    IsStack rooted kept := by
  induction more with
  | nil => exact h
  | cons c more ih => exact ih h.tail

/-- A rooted path without its root. -/
theorem IsStack.relative (h : IsStack rooted kept) : IsStack false kept := by
  induction h with
  | nil => exact .nil
  | name component ahead rest ih => exact .name component ahead ih
  | back relative rest => exact .back rfl rest

theorem isStack_push (h : IsStack rooted kept) (hc : Ascii.slash ∉ c) :
    IsStack rooted (push rooted kept c) := by
  unfold push
  by_cases hempty : c = [] ∨ c = text "."
  · rw [if_pos (by simpa using hempty)]
    exact h
  rw [if_neg (by simpa using hempty)]
  obtain ⟨hnil, hdot⟩ := not_or.mp hempty
  by_cases hback : c = text ".."
  · rw [if_pos hback]
    cases h with
    | nil =>
      cases rooted with
      | true => exact .nil
      | false =>
        rw [hback]
        exact .back rfl (fun d hd => absurd hd List.not_mem_nil)
    | name component ahead rest =>
      dsimp only
      rw [if_neg ahead]
      exact rest
    | back relative rest =>
      dsimp only
      rw [if_pos rfl, hback]
      exact .back relative (List.forall_mem_cons.mpr ⟨rfl, rest⟩)
  · rw [if_neg hback]
    exact .name ⟨hnil, hdot, hc⟩ hback h

/-- A component that fits on a stack is pushed on it. -/
theorem push_of_isStack (h : IsStack rooted (c :: kept)) : push rooted kept c = c :: kept := by
  have hcomponent := h.isComponent List.mem_cons_self
  have hsays : ¬(c = [] ∨ c = text ".") := not_or.mpr ⟨hcomponent.ne_nil, hcomponent.ne_dot⟩
  unfold push
  rw [if_neg (by simpa using hsays)]
  cases h with
  | name component ahead rest => rw [if_neg ahead]
  | back relative rest =>
    rw [if_pos rfl]
    cases kept with
    | nil =>
      dsimp only
      rw [relative, if_neg Bool.false_ne_true]
    | cons d kept =>
      dsimp only
      rw [if_pos (rest d List.mem_cons_self)]

theorem foldl_push (h : IsStack rooted kept) : kept.reverse.foldl (push rooted) [] = kept := by
  induction kept with
  | nil => rfl
  | cons c kept ih =>
    rw [List.reverse_cons, List.foldl_append, ih h.tail]
    exact push_of_isStack h

theorem isStack_foldl {components : List Bytes} (h : ∀ c ∈ components, Ascii.slash ∉ c)
    (hkept : IsStack rooted kept) : IsStack rooted (components.foldl (push rooted) kept) := by
  induction components generalizing kept with
  | nil => exact hkept
  | cons c components ih =>
    obtain ⟨hc, hcomponents⟩ := List.forall_mem_cons.mp h
    exact ih hcomponents (isStack_push hkept hc)

theorem isStack_stack (p : Bytes) : IsStack (isRooted p) (stack p) :=
  isStack_foldl (fun _ => Bytes.notMem_of_mem_splitOn) .nil

/-- An empty component and a dot say nothing. -/
theorem push_silent (hc : c = [] ∨ c = text ".") : push rooted kept c = kept := by
  unfold push
  rw [if_pos (by simpa using hc)]

end Stacks

/-! ## Clean paths -/

section Clean

variable {rooted : Bool} {c : Bytes} {kept : List Bytes}

theorem IsStack.slash_notMem_reverse (h : IsStack rooted kept) :
    ∀ c ∈ kept.reverse, Ascii.slash ∉ c := by
  intro c hc
  exact (h.isComponent (List.mem_reverse.mp hc)).slash_notMem

theorem split_body (h : IsStack rooted kept) (hne : kept ≠ []) :
    List.splitOn Ascii.slash (body kept) = kept.reverse := by
  refine List.splitOn_intercalate _ h.slash_notMem_reverse ?_
  simpa using hne

/-- Components are known from the path that is made of them. -/
theorem body_injective {rooted' : Bool} {kept' : List Bytes} (h : IsStack rooted kept)
    (h' : IsStack rooted' kept') (hne : kept ≠ []) (hne' : kept' ≠ []) (hbody : body kept = body kept') :
    kept = kept' := by
  have hsplit := split_body h hne
  rw [hbody, split_body h' hne'] at hsplit
  exact (List.reverse_inj.mp hsplit).symm

/-- Components that are joined start at no root, unless the first one is empty. -/
theorem isRooted_join (pieces : List Bytes) (h : ∀ p ∈ pieces, IsComponent p) (hne : pieces ≠ [])
    (t : Bytes) : isRooted (Bytes.join [Ascii.slash] pieces ++ t) = false := by
  cases pieces with
  | nil => exact absurd rfl hne
  | cons piece pieces =>
    have hpiece := h piece List.mem_cons_self
    obtain ⟨b, more, rfl⟩ := List.exists_cons_of_ne_nil hpiece.ne_nil
    have hb : b ≠ Ascii.slash := by
      rintro rfl
      exact hpiece.slash_notMem List.mem_cons_self
    cases pieces with
    | nil => simp [isRooted, Bytes.join, hb]
    | cons next pieces => simp [isRooted, Bytes.join_cons_cons, hb]

theorem isRooted_body (h : IsStack rooted kept) : isRooted (body kept) = false := by
  cases kept with
  | nil => rfl
  | cons c kept =>
    have hjoin := isRooted_join (c :: kept).reverse
      (fun d hd => h.isComponent (List.mem_reverse.mp hd)) (by simp) []
    rw [List.append_nil] at hjoin
    exact hjoin

theorem stack_body (h : IsStack rooted kept) : stack (body kept) = kept := by
  by_cases hne : kept = []
  · subst hne
    rfl
  · rw [stack, isRooted_body h, split_body h hne]
    exact foldl_push h.relative

theorem isRooted_ofStack (h : IsStack rooted kept) : isRooted (ofStack rooted kept) = rooted := by
  cases rooted with
  | true => rfl
  | false =>
    cases kept with
    | nil => decide
    | cons c kept => exact isRooted_body h

theorem stack_ofStack (h : IsStack rooted kept) : stack (ofStack rooted kept) = kept := by
  cases rooted with
  | false =>
    cases kept with
    | nil => decide
    | cons c kept => exact stack_body h
  | true =>
    have hsplit : List.splitOn Ascii.slash (Ascii.slash :: body kept) =
        [] :: List.splitOn Ascii.slash (body kept) := by
      rw [List.splitOn_cons_eq_if_modifyHead, if_pos BEq.rfl]
    change (List.splitOn Ascii.slash (Ascii.slash :: body kept)).foldl (push true) [] = kept
    rw [hsplit, List.foldl_cons, push_silent (.inl rfl)]
    by_cases hne : kept = []
    · subst hne
      rfl
    · rw [split_body h hne]
      exact foldl_push h

/-- The clean path of components that nothing can be left out of is clean. -/
theorem clean_ofStack (h : IsStack rooted kept) : clean (ofStack rooted kept) = ofStack rooted kept := by
  rw [clean_eq, isRooted_ofStack h, stack_ofStack h]

theorem clean_clean (p : Bytes) : clean (clean p) = clean p := by
  rw [clean_eq p]
  exact clean_ofStack (isStack_stack p)

/-- A component behind a path is pushed on what is left of the path. -/
theorem join_eq (p : Bytes) (hc : IsComponent c) :
    join p c = ofStack (isRooted p) (push (isRooted p) (stack p) c) := by
  have hsplit := List.splitOn_eq_singleton hc.slash_notMem
  have hempty : c.isEmpty = false := by
    simpa using hc.ne_nil
  unfold join
  cases p with
  | nil =>
    have hrooted : isRooted c = false := by
      have := isRooted_join [c] (by simpa using hc) (by simp) []
      simpa [Bytes.join] using this
    rw [List.isEmpty_nil, if_pos rfl, hempty, if_neg Bool.false_ne_true, clean_eq, stack, hrooted, hsplit]
    rfl
  | cons b p =>
    rw [List.isEmpty_cons, if_neg Bool.false_ne_true, hempty, if_neg Bool.false_ne_true, clean_eq]
    have hrooted : isRooted (b :: p ++ Ascii.slash :: c) = isRooted (b :: p) := rfl
    rw [stack, hrooted, List.splitOn_append_cons_self, hsplit, List.foldl_append]
    rfl

/-- A component behind components that it fits on. -/
theorem join_body (h : IsStack false (c :: kept)) : join (body kept) c = body (c :: kept) := by
  rw [join_eq _ (h.isComponent List.mem_cons_self), isRooted_body h.tail, stack_body h.tail,
    push_of_isStack h]
  rfl

/-- Joined components with a slash behind them. -/
theorem clean_join_slash {pieces : List Bytes} (hne : pieces ≠ []) (h : ∀ p ∈ pieces, Ascii.slash ∉ p)
    (hrooted : isRooted (Bytes.join [Ascii.slash] pieces ++ [Ascii.slash]) = rooted)
    (hkept : pieces.foldl (push rooted) [] = kept) :
    clean (Bytes.join [Ascii.slash] pieces ++ [Ascii.slash]) = ofStack rooted kept := by
  have hsplit : List.splitOn Ascii.slash (Bytes.join [Ascii.slash] pieces) = pieces :=
    List.splitOn_intercalate _ h hne
  rw [clean_eq, stack, hrooted, List.splitOn_append_cons_self, hsplit, List.foldl_append, hkept,
    List.splitOn_nil, List.foldl_cons, push_silent (.inl rfl)]
  rfl

theorem dir_eq (p : Bytes) : dir p =
    if (List.splitOn Ascii.slash p).dropLast = [] then text "."
    else clean (Bytes.join [Ascii.slash] (List.splitOn Ascii.slash p).dropLast ++ [Ascii.slash]) := by
  unfold dir
  split
  · next hnil => rw [if_pos hnil]
  · next hne =>
    rw [if_neg hne]
    rfl

/-- The path that a clean path is in has one component less. -/
theorem dir_ofStack (h : IsStack rooted (c :: kept)) :
    dir (ofStack rooted (c :: kept)) = ofStack rooted kept := by
  have hsplit := split_body h (List.cons_ne_nil c kept)
  have hslashes := h.tail.slash_notMem_reverse
  rw [List.reverse_cons] at hsplit
  rw [dir_eq]
  cases rooted with
  | false =>
    have hdrop : (List.splitOn Ascii.slash (ofStack false (c :: kept))).dropLast = kept.reverse := by
      change (List.splitOn Ascii.slash (body (c :: kept))).dropLast = _
      rw [hsplit, List.dropLast_concat]
    rw [hdrop]
    by_cases hnil : kept = []
    · subst hnil
      rfl
    · have hne : kept.reverse ≠ [] := by
        simpa using hnil
      rw [if_neg hne]
      apply clean_join_slash hne hslashes
      · exact isRooted_join _ (fun d hd => h.tail.isComponent (List.mem_reverse.mp hd)) hne _
      · exact foldl_push h.tail
  | true =>
    -- Behind a root the first piece is empty, so something is left to join even without components.
    have hdrop : (List.splitOn Ascii.slash (ofStack true (c :: kept))).dropLast = [] :: kept.reverse := by
      change (List.splitOn Ascii.slash (Ascii.slash :: body (c :: kept))).dropLast = _
      rw [List.splitOn_cons_eq_if_modifyHead, if_pos BEq.rfl, hsplit, ← List.cons_append, List.dropLast_concat]
    rw [hdrop, if_neg (List.cons_ne_nil _ _)]
    apply clean_join_slash (List.cons_ne_nil _ _)
    · exact List.forall_mem_cons.mpr ⟨List.not_mem_nil, hslashes⟩
    · cases kept.reverse with
      | nil => rfl
      | cons d more =>
        rw [Bytes.join_cons_cons]
        rfl
    · rw [List.foldl_cons, push_silent (.inl rfl)]
      exact foldl_push h.tail

end Clean

end Path

end OnePass
