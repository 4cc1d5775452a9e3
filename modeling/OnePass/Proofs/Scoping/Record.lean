import OnePass.Symbol.Table
set_option autoImplicit false

/-!
# Symbols in memory

A symbol lies in memory as a record.  Its parameters are four sequences of equal length, to which a new
parameter is added at once, and the bounds of a parameter lie in a cell of memory.  What is written into a
cell is seen through every record that holds the cell.

A record is a value: a copy of it has sequences and bounds of its own, but it holds the same cells.  Whoever
has a record can edit it.  An edit uses a new cell for the bounds of a parameter that it brings, and writes
into no cell but those that the record holds (`Edited`).
-/

namespace OnePass

/-- The bounds of parameters, by their cells. -/
abbrev Memory : Type := List Bounds

namespace Memory

/-- The memory with bounds in a new cell. -/
def add (m : Memory) (b : Option Bounds) : Memory := m ++ b.toList

/-- The cell that bounds are added in. -/
def newCell (m : Memory) (b : Option Bounds) : Option Nat := b.map fun _ => m.length

/-- The bounds in a cell. -/
def read (m : Memory) (cell : Option Nat) : Option Bounds := cell.bind (m[·]?)

/-- The memory with other bounds in a cell. -/
def write (m : Memory) (cell : Option Nat) (b : Bounds) : Memory := cell.elim m (m.set · b)

theorem le_length_add (m : Memory) (b : Option Bounds) : m.length ≤ (m.add b).length := by
  simp [add]

theorem read_newCell (m : Memory) (b : Option Bounds) : (m.add b).read (m.newCell b) = b := by
  cases b with
  | none => rfl
  | some b => simp [add, newCell, read]

theorem length_write (m : Memory) (cell : Option Nat) (b : Bounds) :
    (m.write cell b).length = m.length := by
  cases cell with
  | none => rfl
  | some cell => exact List.length_set

theorem newCell_eq_some {m : Memory} {b : Option Bounds} {c : Nat} (h : m.newCell b = some c) :
    c = m.length ∧ c < (m.add b).length := by
  cases b with
  | none => cases h
  | some b =>
    cases h
    exact ⟨rfl, by simp [add]⟩

end Memory

/-! ## Records -/

/-- A symbol as it lies in memory. -/
structure Record where
  kind : Kind := .invalid
  direction : Option Direction := none
  line : Int := 0
  global : Bool := false
  bounds : Option Bounds := none
  names : List Bytes := []
  kinds : List Kind := []
  directions : List (Option Direction) := []
  /-- the cells of the parameters' bounds -/
  cells : List (Option Nat) := []
  deriving DecidableEq

namespace Record

/-- Whether the four sequences of a record are of equal length. -/
def IsAligned (r : Record) : Prop :=
  r.kinds.length = r.names.length ∧ r.directions.length = r.names.length ∧
    r.cells.length = r.names.length

/-- What the four sequences hold of each parameter. -/
def rows (r : Record) : List (Bytes × Kind × Option Direction × Option Nat) :=
  r.names.zip (r.kinds.zip (r.directions.zip r.cells))

/-- The parameters of a record. -/
def parameters (r : Record) (m : Memory) : List Parameter :=
  r.rows.map fun row => ⟨row.1, row.2.1, row.2.2.1, m.read row.2.2.2⟩

/-- The symbol that a record stands for. -/
def symbol (r : Record) (m : Memory) : Symbol :=
  ⟨r.kind, r.direction, r.line, r.global, r.bounds, r.parameters m⟩

/-- The record with one parameter more in each of its sequences. -/
def addParameter (r : Record) (m : Memory) (p : Parameter) : Record :=
  { r with
    names := r.names ++ [p.name]
    kinds := r.kinds ++ [p.kind]
    directions := r.directions ++ [p.direction]
    cells := r.cells ++ [m.newCell p.bounds] }

/-- A record whose sequences are in step and whose cells are in memory. -/
structure Fits (r : Record) (m : Memory) : Prop where
  aligned : r.IsAligned
  below {c : Nat} : some c ∈ r.cells → c < m.length

section Symbols

variable {r : Record} {m m' : Memory}

theorem IsAligned.map_rows (h : r.IsAligned) : r.rows.map (·.2.2.2) = r.cells := by
  obtain ⟨hkinds, hdirections, hcells⟩ := h
  have hmap : r.rows.map (·.2.2.2) = ((r.rows.map Prod.snd).map Prod.snd).map Prod.snd := by
    simp only [List.map_map]
    rfl
  rw [hmap, rows, List.map_snd_zip, List.map_snd_zip, List.map_snd_zip]
  all_goals simp [hkinds, hdirections, hcells]

/-- A record stands for the same symbol as long as there are the same bounds in its cells. -/
theorem symbol_eq_iff (hr : r.IsAligned) :
    r.symbol m' = r.symbol m ↔ ∀ c, some c ∈ r.cells → m'[c]? = m[c]? := by
  have hsymbol : r.symbol m' = r.symbol m ↔ r.parameters m' = r.parameters m :=
    ⟨congrArg Symbol.parameters, congrArg _⟩
  rw [hsymbol, parameters, parameters, List.map_inj_left, ← hr.map_rows]
  constructor
  · intro h c hc
    obtain ⟨row, hrow, hcell⟩ := List.mem_map.mp hc
    have hbounds := congrArg Parameter.bounds (h row hrow)
    rwa [hcell] at hbounds
  · intro h row hrow
    cases hcell : row.2.2.2 with
    | none => rfl
    | some c => exact congrArg _ (h c (List.mem_map.mpr ⟨row, hrow, hcell⟩))

theorem Fits.mono (h : r.Fits m) (hle : m.length ≤ m'.length) : r.Fits m' :=
  ⟨h.aligned, fun hc => Nat.lt_of_lt_of_le (h.below hc) hle⟩

theorem Fits.symbol_add (h : r.Fits m) (b : Option Bounds) : r.symbol (m.add b) = r.symbol m :=
  (symbol_eq_iff h.aligned).mpr fun _ hc => List.getElem?_append_left (h.below hc)

theorem Fits.symbol_addParameter (h : r.Fits m) (p : Parameter) :
    (r.addParameter m p).symbol (m.add p.bounds) =
      { r.symbol m with parameters := (r.symbol m).parameters ++ [p] } := by
  obtain ⟨hkinds, hdirections, hcells⟩ := h.aligned
  have hrows : (r.addParameter m p).rows =
      r.rows ++ [(p.name, p.kind, p.direction, m.newCell p.bounds)] := by
    unfold rows addParameter
    rw [List.zip_append (by omega), List.zip_append, List.zip_append]
    · rfl
    all_goals simp [hkinds, hdirections, hcells]
  have hparameters : (r.addParameter m p).parameters (m.add p.bounds) =
      r.parameters (m.add p.bounds) ++ [p] := by
    unfold parameters
    rw [hrows, List.map_append, List.map_singleton, Memory.read_newCell]
  rw [← h.symbol_add p.bounds]
  exact congrArg _ hparameters

end Symbols

end Record

/-! ## Edits -/

/-- What can be done to a record by whoever has it. -/
inductive Edit where
  /-- assigns all fields but the parameters -/
  | fields (sym : Symbol)
  | addParameter (p : Parameter)
  /-- assigns the name, the kind and the direction of a parameter -/
  | parameter (index : Nat) (p : Parameter)
  /-- assigns the bounds of a parameter -/
  | parameterBounds (index : Nat) (b : Option Bounds)
  /-- writes into the bounds of a parameter, if it has any -/
  | writeBounds (index : Nat) (b : Bounds)

/-- The memory and the record after an edit. -/
def Edit.apply (x : Memory × Record) : Edit → Memory × Record
  | .fields sym => (x.1, { x.2 with
      kind := sym.kind, direction := sym.direction, line := sym.line, global := sym.global
      bounds := sym.bounds })
  | .addParameter p => (x.1.add p.bounds, x.2.addParameter x.1 p)
  | .parameter index p => (x.1, { x.2 with
      names := x.2.names.set index p.name
      kinds := x.2.kinds.set index p.kind
      directions := x.2.directions.set index p.direction })
  | .parameterBounds index b =>
    (x.1.add b, { x.2 with cells := x.2.cells.set index (x.1.newCell b) })
  | .writeBounds index b => (x.1.write (x.2.cells.getD index none) b, x.2)

/-- Whether an edit writes other bounds into a cell. -/
def Edit.Overwrites (e : Edit) (x : Memory × Record) (c : Nat) : Prop :=
  ∃ index b, e = .writeBounds index b ∧ x.2.cells[index]? = some (some c) ∧ x.1[c]? ≠ some b

/-- The edits that make a symbol of a new record. -/
def Edit.all (sym : Symbol) : List Edit := .fields sym :: sym.parameters.map .addParameter

/-- A new record with the fields and the parameters of a symbol. -/
def Record.build (m : Memory) (sym : Symbol) : Memory × Record := (Edit.all sym).foldl Edit.apply (m, {})

/-- What an edit leaves alone: the record gets no cells but new ones, and no cell is written to that the
record does not hold. -/
structure Edited (x y : Memory × Record) : Prop where
  length : x.1.length ≤ y.1.length
  cells {c : Nat} : some c ∈ y.2.cells → some c ∈ x.2.cells ∨ x.1.length ≤ c
  kept {c : Nat} : c < x.1.length → some c ∉ x.2.cells → y.1[c]? = x.1[c]?
  fits : x.2.Fits x.1 → y.2.Fits y.1

section Edits

variable {x y z : Memory × Record}

/-- No other edit changes what is in memory. -/
theorem Edit.overwrites_iff (e : Edit) {c : Nat} (hc : c < x.1.length) :
    e.Overwrites x c ↔ (e.apply x).1[c]? ≠ x.1[c]? := by
  have hsame {m : Memory} (hm : m[c]? = x.1[c]?) (hother : ∀ index b, e ≠ .writeBounds index b) :
      e.Overwrites x c ↔ m[c]? ≠ x.1[c]? := by
    refine iff_of_false ?_ fun hne => hne hm
    rintro ⟨index, b, rfl, -⟩
    exact hother index b rfl
  cases e with
  | fields sym => exact hsame rfl (by simp)
  | addParameter p => exact hsame (List.getElem?_append_left hc) (by simp)
  | parameter index p => exact hsame rfl (by simp)
  | parameterBounds index b => exact hsame (List.getElem?_append_left hc) (by simp)
  | writeBounds index b =>
    have hwrites : Overwrites (.writeBounds index b) x c ↔
        x.2.cells[index]? = some (some c) ∧ x.1[c]? ≠ some b := by
      constructor
      · rintro ⟨index, b, heq, h⟩
        cases heq
        exact h
      · exact fun h => ⟨index, b, rfl, h⟩
    rw [hwrites, apply, List.getD_eq_getElem?_getD]
    cases x.2.cells[index]? with
    | none => simp [Memory.write]
    | some cell =>
      cases cell with
      | none => simp [Memory.write]
      | some cell =>
        dsimp only [Memory.write, Option.getD_some, Option.elim_some]
        rw [List.getElem?_set]
        split
        · next heq => simp [heq, hc, eq_comm]
        · next hne => simp [hne]

theorem Edited.trans (h : Edited x y) (h' : Edited y z) : Edited x z where
  length := Nat.le_trans h.length h'.length
  cells hc := (h'.cells hc).elim h.cells fun hle => .inr (Nat.le_trans h.length hle)
  kept hlt hc := by
    have hnot := fun hy => (h.cells hy).elim hc (Nat.not_le.mpr hlt)
    exact (h'.kept (Nat.lt_of_lt_of_le hlt h.length) hnot).trans (h.kept hlt hc)
  fits hx := h'.fits (h.fits hx)

/-- A record that has got a new cell at most. -/
theorem edited_add {r : Record} (b : Option Bounds)
    (hcells : ∀ c, some c ∈ r.cells → some c ∈ x.2.cells ∨ x.1.newCell b = some c)
    (haligned : x.2.IsAligned → r.IsAligned) : Edited x (x.1.add b, r) := by
  have hlength := Memory.le_length_add x.1 b
  refine ⟨hlength, fun hc => ?_, fun hlt _ => List.getElem?_append_left hlt, fun h => ?_⟩
  · exact (hcells _ hc).imp_right fun hc => Nat.le_of_eq (Memory.newCell_eq_some hc).1.symm
  · refine ⟨haligned h.aligned, fun hc => ?_⟩
    rcases hcells _ hc with hc | hc
    · exact (h.mono hlength).below hc
    · exact (Memory.newCell_eq_some hc).2

theorem edited_apply (x : Memory × Record) (e : Edit) : Edited x (e.apply x) := by
  have hkept {c : Nat} (hc : c < x.1.length) (hnot : some c ∉ x.2.cells) :
      (e.apply x).1[c]? = x.1[c]? := by
    refine Decidable.not_not.mp fun hne => ?_
    obtain ⟨index, b, -, hcell, -⟩ := (e.overwrites_iff hc).mpr hne
    exact hnot (List.mem_of_getElem? hcell)
  cases e with
  | fields sym => exact ⟨Nat.le_refl _, .inl, hkept, fun h => ⟨h.aligned, h.below⟩⟩
  | addParameter p =>
    refine edited_add p.bounds (fun c hc => ?_) fun h => ?_
    · rw [Record.addParameter, List.mem_append, List.mem_singleton] at hc
      exact hc.imp_right Eq.symm
    · simpa [Record.IsAligned, Record.addParameter] using h
  | parameter index p =>
    refine ⟨Nat.le_refl _, .inl, hkept, fun h => ⟨?_, h.below⟩⟩
    simpa [Record.IsAligned, Edit.apply] using h.aligned
  | parameterBounds index b =>
    refine edited_add b (fun c hc => (List.mem_or_eq_of_mem_set hc).imp_right Eq.symm) fun h => ?_
    simpa [Record.IsAligned] using h
  | writeBounds index b =>
    have hlength := Nat.le_of_eq (x.1.length_write (x.2.cells.getD index none) b).symm
    exact ⟨hlength, .inl, hkept, fun h => h.mono hlength⟩

theorem edited_foldl (edits : List Edit) (x : Memory × Record) : Edited x (edits.foldl Edit.apply x) := by
  induction edits generalizing x with
  | nil => exact ⟨Nat.le_refl _, .inl, fun _ _ => rfl, id⟩
  | cons e edits ih => exact (edited_apply x e).trans (ih _)

/-- A record that holds none of the cells of an edited one stands for the same symbol as before. -/
theorem Edited.symbol_eq {r : Record} (h : Edited x y) (hr : r.Fits x.1)
    (hdisjoint : ∀ c, some c ∈ x.2.cells → some c ∉ r.cells) : r.symbol y.1 = r.symbol x.1 :=
  (Record.symbol_eq_iff hr.aligned).mpr fun c hc =>
    h.kept (hr.below hc) fun hx => hdisjoint c hx hc

/-- A new record stands for the symbol that it is made of. -/
theorem Record.symbol_build (m : Memory) (sym : Symbol) :
    (build m sym).2.symbol (build m sym).1 = sym ∧ (build m sym).2.Fits (build m sym).1 := by
  have hadd (ps : List Parameter) (x : Memory × Record) (hx : x.2.Fits x.1) :
      let y := (ps.map Edit.addParameter).foldl Edit.apply x
      y.2.symbol y.1 = { x.2.symbol x.1 with parameters := (x.2.symbol x.1).parameters ++ ps } ∧
        y.2.Fits y.1 := by
    induction ps generalizing x with
    | nil => exact ⟨by rw [List.append_nil]; rfl, hx⟩
    | cons p ps ih =>
      have hstep := ih _ ((edited_apply x (.addParameter p)).fits hx)
      refine ⟨hstep.1.trans ?_, hstep.2⟩
      dsimp only [Edit.apply]
      rw [hx.symbol_addParameter p, List.append_assoc]
      rfl
  exact hadd sym.parameters _ ⟨⟨rfl, rfl, rfl⟩, fun hc => absurd hc List.not_mem_nil⟩

end Edits

end OnePass
