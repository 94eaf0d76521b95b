import Labyrinth.Proofs.Walks
import Mathlib.Data.List.Range

/-!
# Grids made of cells

A grid is made of a side length and its cells in row-major order. The description is accepted
exactly if there are as many cells as the square has, and one start and one exit among them.
Positions in the description and coordinates in the square determine each other.

## Main results

* `Grid.ofKinds_eq_ok_iff`, `Grid.exists_ofKinds_iff`: which descriptions are accepted.
* `Grid.entries_eq`: the cells of a grid, row by row.
* `Grid.represents_ofKinds`: what a grid tells about the description it was made of.
-/

namespace Labyrinth

/-- Numbers in a square are counted row by row. -/
theorem range_mul_eq_flatMap (m n : ℕ) :
    List.range (m * n) =
      (List.range m).flatMap fun row => (List.range n).map fun column => row * n + column := by
  induction m with
  | zero => simp
  | succ m ih =>
    rw [Nat.succ_mul, List.range_add, ih, List.range_succ, List.flatMap_append,
      List.flatMap_singleton]

/-- The positions at which a value stands are as many as there are occurrences of it. -/
theorem length_filter_range_getElem? {α : Type} [DecidableEq α] (a : α) (xs : List α) :
    ((List.range xs.length).filter fun i => xs[i]? == some a).length = xs.count a := by
  induction xs with
  | nil => rfl
  | cons x xs ih =>
    rw [List.length_cons, List.range_succ_eq_map, List.filter_cons, List.filter_map,
      List.count_cons,
      ← ih]
    split <;> simp_all [Function.comp_def]

namespace Grid

/-! ### Descriptions of grids -/

theorem length_locate (side : ℕ) (cells : Array Kind) (kind : Kind) :
    (locate side cells kind).length = cells.count kind := by
  rw [locate, List.length_map, ← Array.count_toList, ← length_filter_range_getElem?]
  simp

/-- The cells of a grid pass the check that makes a grid of cells. -/
theorem ofKinds_cells (g : Grid) : ofKinds g.size g.cells = .ok g := by
  obtain ⟨size, cells, start, exit, hsize, hstart, hexit⟩ := g
  unfold ofKinds
  rw [dif_pos hsize]
  split
  · rename_i a ha
    obtain rfl : start = a := by simpa using hstart.symm.trans ha
    split
    · rename_i b hb
      obtain rfl : exit = b := by simpa using hexit.symm.trans hb
      rfl
    · rename_i hne
      exact absurd hexit (hne exit)
  · rename_i hne
    exact absurd hstart (hne start)

/-- A grid is accepted as the grid of its own side length and cells. -/
theorem ofKinds_eq_ok_iff {size : UInt32} {cells : Array Kind} {g : Grid} :
    ofKinds size cells = .ok g ↔ g.size = size ∧ g.cells = cells := by
  constructor
  · intro h
    unfold ofKinds at h
    split at h
    · split at h
      · split at h
        · cases h
          exact ⟨rfl, rfl⟩
        · cases h
      · cases h
    · cases h
  · rintro ⟨rfl, rfl⟩
    exact g.ofKinds_cells

/-- There are as many cells as the square has, with one start and one exit among them. -/
theorem exists_ofKinds_iff {size : UInt32} {cells : Array Kind} :
    (∃ g, ofKinds size cells = .ok g) ↔
      cells.size = size.toNat * size.toNat ∧ cells.count .start = 1 ∧ cells.count .exit = 1 := by
  rw [← length_locate size.toNat, ← length_locate size.toNat]
  constructor
  · rintro ⟨g, hg⟩
    obtain ⟨rfl, rfl⟩ := ofKinds_eq_ok_iff.1 hg
    rw [g.locate_start, g.locate_exit]
    exact ⟨g.size_cells, rfl, rfl⟩
  · rintro ⟨hsize, hstart, hexit⟩
    obtain ⟨start, hstart⟩ := List.length_eq_one_iff.1 hstart
    obtain ⟨exit, hexit⟩ := List.length_eq_one_iff.1 hexit
    exact ⟨⟨size, cells, start, exit, hsize, hstart, hexit⟩, ofKinds_eq_ok_iff.2 ⟨rfl, rfl⟩⟩

/-! ### Cells -/

variable {g : Grid} {c : Coord}

theorem index_lt (h : g.Contains c) :
    c.row.toNat * g.size.toNat + c.column.toNat < g.cells.size := by
  have hcolumn := UInt32.lt_iff_toNat_lt.1 h.1
  have hrow := UInt32.lt_iff_toNat_lt.1 h.2
  rw [g.size_cells]
  calc c.row.toNat * g.size.toNat + c.column.toNat
      < c.row.toNat * g.size.toNat + g.size.toNat := Nat.add_lt_add_left hcolumn _
    _ = (c.row.toNat + 1) * g.size.toNat := (Nat.succ_mul _ _).symm
    _ ≤ g.size.toNat * g.size.toNat := Nat.mul_le_mul_right _ hrow

theorem kind?_eq_getElem? (h : g.Contains c) :
    g.kind? c = g.cells[c.row.toNat * g.size.toNat + c.column.toNat]? := if_pos h

theorem kind?_eq_some (h : g.Contains c) :
    g.kind? c = some (g.cells[c.row.toNat * g.size.toNat + c.column.toNat]?.getD .wall) := by
  rw [kind?_eq_getElem? h, Array.getElem?_eq_getElem (index_lt h)]
  rfl

theorem kind?_eq_none_iff : g.kind? c = none ↔ ¬g.Contains c := by
  constructor
  · intro hnone hin
    rw [kind?_eq_some hin] at hnone
    cases hnone
  · exact fun hout => if_neg hout

theorem isWall_iff : g.isWall c = true ↔ g.kind? c = some .wall ∨ ¬g.Contains c := by
  rw [← kind?_eq_none_iff, isWall]
  cases hkind : g.kind? c with
  | none => simp
  | some kind => cases kind <;> simp [Kind.isOpen]

/-! ### Row by row -/

/-- The cell in a row and a column. -/
def cellAt (g : Grid) (row column : ℕ) : Coord × Kind :=
  (⟨.ofNat column, .ofNat row⟩, g.cells[row * g.size.toNat + column]?.getD .wall)

theorem entries_eq_map_range (g : Grid) :
    g.entries = (List.range (g.size.toNat * g.size.toNat)).map fun i =>
      (coordAt g.size.toNat i, g.cells[i]?.getD .wall) := by
  refine List.ext_getElem ?_ fun i hi hi' => ?_
  · simp [entries, g.size_cells]
  · have hcell : i < g.cells.size := by simpa [entries] using hi
    simp [entries, hcell]

/-- The cells of a grid, row by row. -/
theorem entries_eq (g : Grid) :
    g.entries = (List.range g.size.toNat).flatMap fun row =>
      (List.range g.size.toNat).map (g.cellAt row) := by
  rw [entries_eq_map_range, range_mul_eq_flatMap, List.map_flatMap]
  refine List.flatMap_congr fun row _ => ?_
  rw [List.map_map]
  refine List.map_congr_left fun column hcolumn => ?_
  rw [Function.comp_apply, coordAt_mul_add (List.mem_range.1 hcolumn), cellAt]

/-- A cell **precedes** another one in row-major order. -/
def Precedes (a b : Coord) : Prop := a.row < b.row ∨ a.row = b.row ∧ a.column < b.column

theorem toNat_ofNat_of_lt_size {n : ℕ} (h : n < g.size.toNat) : (UInt32.ofNat n).toNat = n :=
  UInt32.toNat_ofNat_of_lt' (h.trans g.size.toNat_lt)

/-- A cell is listed with its kind, and only cells of the square are. -/
theorem mem_entries_iff {kind : Kind} : (c, kind) ∈ g.entries ↔ g.kind? c = some kind := by
  rw [entries_eq]
  simp only [List.mem_flatMap, List.mem_map, List.mem_range]
  constructor
  · rintro ⟨row, hrow, column, hcolumn, hcell⟩
    have hrow' := toNat_ofNat_of_lt_size hrow
    have hcolumn' := toNat_ofNat_of_lt_size hcolumn
    rw [cellAt, Prod.mk.injEq] at hcell
    obtain ⟨rfl, rfl⟩ := hcell
    have hin : g.Contains ⟨.ofNat column, .ofNat row⟩ := by
      rw [Contains, UInt32.lt_iff_toNat_lt, UInt32.lt_iff_toNat_lt, hrow', hcolumn']
      exact ⟨hcolumn, hrow⟩
    rw [kind?_eq_some hin]
    dsimp only
    rw [hrow', hcolumn']
  · intro hkind
    have hin := contains_of_kind? hkind
    rw [kind?_eq_some hin, Option.some.injEq] at hkind
    refine ⟨c.row.toNat, UInt32.lt_iff_toNat_lt.1 hin.2, c.column.toNat,
      UInt32.lt_iff_toNat_lt.1 hin.1, ?_⟩
    rw [cellAt, hkind, UInt32.ofNat_toNat, UInt32.ofNat_toNat]

theorem mem_coords_entries_iff : c ∈ g.entries.map Prod.fst ↔ g.Contains c := by
  rw [List.mem_map]
  constructor
  · rintro ⟨⟨c', kind⟩, hmem, rfl⟩
    exact contains_of_kind? (mem_entries_iff.1 hmem)
  · intro hin
    exact ⟨_, mem_entries_iff.2 (kind?_eq_some hin), rfl⟩

/-- The cells are listed in row-major order. -/
theorem pairwise_entries (g : Grid) : (g.entries.map Prod.fst).Pairwise Precedes := by
  have hlt {m n : ℕ} (hmn : m < n) (hn : n < g.size.toNat) : UInt32.ofNat m < UInt32.ofNat n := by
    rw [UInt32.lt_iff_toNat_lt, toNat_ofNat_of_lt_size hn, toNat_ofNat_of_lt_size (hmn.trans hn)]
    exact hmn
  rw [entries_eq, List.map_flatMap, List.pairwise_flatMap]
  constructor
  · intro row _
    rw [List.map_map, List.pairwise_map]
    refine List.pairwise_lt_range.imp_of_mem fun _ hb hab => .inr ⟨rfl, ?_⟩
    exact hlt hab (List.mem_range.1 hb)
  · refine List.pairwise_lt_range.imp_of_mem fun _ hb hab a ha b hb' => .inl ?_
    simp only [List.map_map, List.mem_map, Function.comp_apply, cellAt] at ha hb'
    obtain ⟨_, -, rfl⟩ := ha
    obtain ⟨_, -, rfl⟩ := hb'
    exact hlt hab (List.mem_range.1 hb)

/-- What a grid tells about the side length and the cells of which it was made. -/
structure Represents (g : Grid) (size : UInt32) (cells : Array Kind) : Prop where
  size_eq : g.size = size
  inside : ∀ c : Coord, c.column < size ∧ c.row < size →
    ∃ kind, cells[c.row.toNat * size.toNat + c.column.toNat]? = some kind ∧ g.kind? c = some kind
  outside : ∀ c : Coord, ¬(c.column < size ∧ c.row < size) → g.kind? c = none
  start_iff : ∀ c, g.kind? c = some .start ↔ c = g.start
  exit_iff : ∀ c, g.kind? c = some .exit ↔ c = g.exit
  isWall_iff : ∀ c, g.isWall c = true ↔
    g.kind? c = some .wall ∨ ¬(c.column < size ∧ c.row < size)
  entries_iff : ∀ c kind, (c, kind) ∈ g.entries ↔ g.kind? c = some kind
  entries_coords : ∀ c, c ∈ g.entries.map Prod.fst ↔ c.column < size ∧ c.row < size
  entries_order : (g.entries.map Prod.fst).Pairwise Precedes

theorem represents_ofKinds {size : UInt32} {cells : Array Kind} (h : ofKinds size cells = .ok g) :
    g.Represents size cells := by
  obtain ⟨rfl, rfl⟩ := ofKinds_eq_ok_iff.1 h
  exact {
    size_eq := rfl
    inside := fun c hc =>
      ⟨_, (kind?_eq_getElem? hc).symm.trans (kind?_eq_some hc), kind?_eq_some hc⟩
    outside := fun c hc => kind?_eq_none_iff.2 hc
    start_iff := fun _ => kind?_eq_start_iff
    exit_iff := fun _ => kind?_eq_exit_iff
    isWall_iff := fun _ => isWall_iff
    entries_iff := fun _ _ => mem_entries_iff
    entries_coords := fun _ => mem_coords_entries_iff
    entries_order := g.pairwise_entries }

end Grid

end Labyrinth
