import Labyrinth.Grid

/-!
# Layouts

A **layout** is a square of cells that are dug out one at a time: everything is solid at first.
The cells with two odd coordinates form a **lattice**; a **door** leads from a lattice cell
through the cell between to a lattice cell two steps away. Carving is a depth-first walk over
the lattice that always goes on from the cell entered last, through a door picked by a
**chooser**, and turns back where no door leads to solid rock.

The chooser is any function that picks one of the open possibilities and keeps a state of its
own, so that what is said about carving holds for every way of choosing.

## Main results

* `Layout.solid_dig_lt`: digging out a solid cell leaves fewer solid cells; this is why carving
  comes to an end.
* `Layout.grid`: a layout with its two corners marked is a grid, whatever has been dug.
-/

namespace Labyrinth

/-- Picks one of `n + 1` possibilities, given a state. -/
abbrev Chooser (σ : Type) := (n : Nat) → σ → Fin (n + 1) × σ

/-- A column and a row. -/
abbrev Site := Nat × Nat

/-- A way from a lattice cell to another one. -/
structure Door where
  /-- The cell that separates the two lattice cells. -/
  between : Site
  /-- The lattice cell behind the door. -/
  target : Site
  deriving DecidableEq, Repr

/-- A square of cells, each dug out or solid. -/
structure Layout where
  /-- The number of columns, which is also the number of rows. -/
  size : UInt32
  /-- For every cell in row-major order, whether it has been dug out. -/
  dug : Array Bool
  five_le_size : 5 ≤ size.toNat
  size_dug : dug.size = size.toNat * size.toNat

namespace Layout

/-- The side length as a number. -/
def side (l : Layout) : Nat := l.size.toNat

/-- Whether a site lies in the square. -/
def contains (l : Layout) (p : Site) : Bool := p.1 < l.side && p.2 < l.side

/-- The position of a site in row-major order. -/
def index (l : Layout) (p : Site) : Nat := p.2 * l.side + p.1

/-- Whether a site has been dug out. -/
def isDug (l : Layout) (p : Site) : Bool := l.contains p && l.dug.getD (l.index p) false

/-- How many cells are solid. -/
def solid (l : Layout) : Nat := l.dug.count false

/-- The square of the given side length in which every cell is solid. -/
def ofSize (size : UInt32) (h : 5 ≤ size.toNat) : Layout :=
  ⟨size, Array.replicate (size.toNat * size.toNat) false, h, by simp⟩

/-- Digs out a site; outside the square there is nothing to dig. -/
def dig (l : Layout) (p : Site) : Layout :=
  if l.contains p then
    { l with
      dug := l.dug.setIfInBounds (l.index p) true
      size_dug := by simpa using l.size_dug }
  else
    l

theorem index_lt {l : Layout} {p : Site} (h : l.contains p = true) :
    l.index p < l.dug.size := by
  simp only [contains, Bool.and_eq_true, decide_eq_true_eq] at h
  have hs : l.dug.size = l.side * l.side := l.size_dug
  have hm : (p.2 + 1) * l.side ≤ l.side * l.side := Nat.mul_le_mul_right _ h.2
  rw [Nat.add_mul, Nat.one_mul] at hm
  simp only [index, hs]
  omega

theorem size_dig (l : Layout) (p : Site) : (l.dig p).size = l.size := by
  unfold dig; split <;> rfl

theorem solid_dig {l : Layout} {p : Site} (h : l.contains p = true) :
    (l.dig p).solid = if l.isDug p then l.solid else l.solid - 1 := by
  have hi := index_lt h
  have hdug : l.isDug p = l.dug[l.index p] := by simp [isDug, h, hi]
  have hdig : (l.dig p).dug = l.dug.set (l.index p) true hi := by
    simp [dig, h, Array.setIfInBounds_def, hi]
  rw [solid, hdig, Array.count_set, hdug, solid]
  cases l.dug[l.index p] <;> simp

theorem solid_dig_le (l : Layout) (p : Site) : (l.dig p).solid ≤ l.solid := by
  by_cases h : l.contains p = true
  · rw [solid_dig h]; split <;> omega
  · simp [dig, h]

theorem solid_dig_lt {l : Layout} {p : Site} (hin : l.contains p = true)
    (hsolid : l.isDug p = false) : (l.dig p).solid < l.solid := by
  have hi := index_lt hin
  have hfalse : l.dug[l.index p] = false := by
    simpa [isDug, hin, hi] using hsolid
  have hpos : 0 < l.solid := Array.count_pos_iff.2 (hfalse ▸ Array.getElem_mem hi)
  rw [solid_dig hin, hsolid]
  simp only [Bool.false_eq_true, if_false]
  omega

/-! ### The lattice -/

/-- Whether a site keeps away from the outermost cells. -/
def isInterior (l : Layout) (p : Site) : Bool :=
  1 ≤ p.1 && 1 ≤ p.2 && p.1 ≤ l.side - 2 && p.2 ≤ l.side - 2

/-- Whether a site belongs to the lattice. -/
def onLattice (l : Layout) (p : Site) : Bool :=
  p.1 % 2 == 1 && p.2 % 2 == 1 && l.isInterior p

theorem contains_of_onLattice {l : Layout} {p : Site} (h : l.onLattice p = true) :
    l.contains p = true := by
  have h5 : 5 ≤ l.side := l.five_le_size
  simp only [onLattice, isInterior, Bool.and_eq_true, decide_eq_true_eq] at h
  simp only [contains, Bool.and_eq_true, decide_eq_true_eq]
  omega

/-- The doors around a lattice cell: upwards, to the right, downwards and to the left. -/
def doors (p : Site) : List Door :=
  [⟨(p.1, p.2 - 1), (p.1, p.2 - 2)⟩, ⟨(p.1 + 1, p.2), (p.1 + 2, p.2)⟩,
    ⟨(p.1, p.2 + 1), (p.1, p.2 + 2)⟩, ⟨(p.1 - 1, p.2), (p.1 - 2, p.2)⟩]

/-- The doors around a lattice cell that lead to a solid lattice cell. -/
def frontier (l : Layout) (p : Site) : List Door :=
  (doors p).filter fun d => l.onLattice d.target && !l.isDug d.target

/-- Digs out a door and the lattice cell behind it. -/
def pass (l : Layout) (d : Door) : Layout := (l.dig d.target).dig d.between

theorem solid_pass_lt {l : Layout} {p : Site} {d : Door} (h : d ∈ l.frontier p) :
    (l.pass d).solid < l.solid := by
  simp only [frontier, List.mem_filter, Bool.and_eq_true, Bool.not_eq_true'] at h
  exact Nat.lt_of_le_of_lt (solid_dig_le _ _)
    (solid_dig_lt (contains_of_onLattice h.2.1) h.2.2)

/-- Carves on from the last site of a path, the head of the list, until the whole path has been
traced back. -/
def carve {σ : Type} (choose : Chooser σ) (l : Layout) (path : List Site) (s : σ) :
    Layout × σ :=
  match path with
  | [] => (l, s)
  | p :: before =>
    match _h : l.frontier p with
    | [] => carve choose l before s
    | d :: ds =>
      let pick := choose ds.length s
      let door := (d :: ds).get pick.1
      carve choose (l.pass door) (door.target :: p :: before) pick.2
termination_by (l.solid, path.length)
decreasing_by
  · exact Prod.Lex.right _ (Nat.lt_succ_self _)
  · refine Prod.Lex.left _ _ (solid_pass_lt (p := p) ?_)
    rw [_h]
    exact List.get_mem _ _

/-! ### Marking the corners -/

/-- Where every run begins. -/
def startSite : Site := (1, 1)

/-- Where every run is to end. -/
def exitSite (l : Layout) : Site := (l.side - 2, l.side - 2)

/-- The four sites next to a site. -/
def adjacent (p : Site) : List Site :=
  [(p.1, p.2 - 1), (p.1 + 1, p.2), (p.1, p.2 + 1), (p.1 - 1, p.2)]

/-- Digs out the exit. Where the exit is no lattice cell and so touches nothing that has been
dug, the cell to its left is dug out too, which lies below a lattice cell. -/
def linkExit (l : Layout) : Layout :=
  let l := l.dig l.exitSite
  if (adjacent l.exitSite).any l.isDug then l else l.dig (l.side - 3, l.side - 2)

/-- The kind of the `i`-th cell. -/
def kindAt (l : Layout) (i : Nat) : Kind :=
  if i = l.index startSite then .start
  else if i = l.index l.exitSite then .exit
  else if l.dug.getD i false then .empty
  else .wall

/-- The cells of the layout in row-major order. -/
def kinds (l : Layout) : Array Kind :=
  Array.ofFn fun i : Fin (l.side * l.side) => l.kindAt i

theorem filter_range_eq {n k : Nat} {p : Nat → Bool} (hk : k < n)
    (hp : ∀ i, i < n → (p i = true ↔ i = k)) : (List.range n).filter p = [k] := by
  induction n with
  | zero => omega
  | succ n ih =>
    rw [List.range_succ, List.filter_append]
    by_cases hkn : k = n
    · have hnone : (List.range n).filter p = [] := by
        simp only [List.filter_eq_nil_iff, List.mem_range]
        intro i hi hpi
        have := (hp i (by omega)).1 hpi
        omega
      simp [hnone, (hp n (by omega)).2 hkn.symm, hkn]
    · have hn : p n = false := by
        have := hp n (by omega)
        cases hpn : p n
        · rfl
        · exact absurd (this.1 hpn).symm hkn
      rw [ih (by omega) fun i hi => hp i (by omega)]
      simp [hn]

theorem index_start_lt (l : Layout) : l.index startSite < l.side * l.side := by
  have h5 : 5 ≤ l.side := l.five_le_size
  have hm : 2 * l.side ≤ l.side * l.side := Nat.mul_le_mul_right _ (by omega)
  simp only [index, startSite]
  omega

theorem index_exit_lt (l : Layout) : l.index l.exitSite < l.side * l.side := by
  have h5 : 5 ≤ l.side := l.five_le_size
  have hm : (l.side - 2 + 1) * l.side ≤ l.side * l.side :=
    Nat.mul_le_mul_right _ (by omega)
  rw [Nat.add_mul, Nat.one_mul] at hm
  simp only [index, exitSite]
  omega

theorem index_exit_ne_start (l : Layout) : l.index l.exitSite ≠ l.index startSite := by
  have h5 : 5 ≤ l.side := l.five_le_size
  have hm : 3 * l.side ≤ (l.side - 2) * l.side := Nat.mul_le_mul_right _ (by omega)
  simp only [index, exitSite, startSite]
  omega

theorem locate_kinds {l : Layout} {kind : Kind} {k : Nat} (hk : k < l.side * l.side)
    (h : ∀ i, l.kindAt i = kind ↔ i = k) :
    Grid.locate l.side l.kinds kind = [Grid.coordAt l.side k] := by
  unfold Grid.locate
  rw [filter_range_eq (k := k) (by simpa [kinds] using hk)]
  · rfl
  · intro i hi
    have hi' : i < l.side * l.side := by simpa [kinds] using hi
    simp [kinds, hi', h]

/-- The grid of the layout, with the two corner cells marked. -/
def grid (l : Layout) : Grid where
  size := l.size
  cells := l.kinds
  start := Grid.coordAt l.side (l.index startSite)
  exit := Grid.coordAt l.side (l.index l.exitSite)
  size_cells := by simp [kinds, side]
  locate_start := locate_kinds l.index_start_lt fun i => by
    simp only [kindAt]
    repeat' split
    all_goals simp_all
  locate_exit := locate_kinds l.index_exit_lt fun i => by
    have hne := l.index_exit_ne_start
    simp only [kindAt]
    repeat' split
    all_goals simp_all
    exact fun h => hne h.symm

end Layout

/-- The side length of a maze that is asked for with some size: at least five. -/
def mazeSize (size : UInt32) : UInt32 := if size < 5 then 5 else size

theorem five_le_mazeSize (size : UInt32) : 5 ≤ (mazeSize size).toNat := by
  unfold mazeSize
  split
  · decide
  · rename_i h
    simpa [UInt32.lt_iff_toNat_lt] using h

/-- The layout carved with a chooser, and the state in which the chooser is left. -/
def carveMaze {σ : Type} (choose : Chooser σ) (size : UInt32) (s : σ) : Layout × σ :=
  let solid := Layout.ofSize (mazeSize size) (five_le_mazeSize size)
  let carved := (solid.dig Layout.startSite).carve choose [Layout.startSite] s
  (carved.1.linkExit, carved.2)

/-- The maze carved with a chooser, and the state in which the chooser is left. -/
def generateMaze {σ : Type} (choose : Chooser σ) (size : UInt32) (s : σ) : Grid × σ :=
  let carved := carveMaze choose size s
  (carved.1.grid, carved.2)

end Labyrinth
