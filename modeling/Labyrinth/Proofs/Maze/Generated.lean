import Labyrinth.Proofs.Grids
import Labyrinth.Proofs.Maze.Carving

/-!
# Generated mazes

However the doors are chosen, the open cells of a generated maze form a tree that reaches from the
start to the exit: between any two of them there is exactly one way. The number of open cells
depends on the side length alone.

## Main results

* `Layout.perfect_linkExit`: linking the exit makes a perfect maze of what has been carved.
* `Layout.perfect_carveMaze`: the layout of every generated maze is perfect.
* `isMaze_generateMaze`: corners, perimeter and connectedness of every generated maze.
* `tree_generateMaze`: the open cells of every generated maze are a tree of a known size.
-/

namespace Labyrinth

/-! ### Linking the exit -/

/-- What is dug out in the end: a tree off the outermost cells that reaches from the start to the
exit, and of a size that depends on the side length alone. -/
structure Perfect (n : Nat) (D : Set Site) : Prop where
  grown : Grown plane Layout.startSite D
  interior : ∀ p ∈ D, 1 ≤ p.1 ∧ 1 ≤ p.2 ∧ p.1 + 2 ≤ n ∧ p.2 + 2 ≤ n
  exit : (n - 2, n - 2) ∈ D
  ncard : D.ncard = if n % 2 = 1 then 2 * ((n - 1) / 2 * ((n - 1) / 2)) - 1
    else 2 * ((n - 1) / 2 * ((n - 1) / 2)) + 1

/-- Where the exit is no lattice cell, no doorway touches it. -/
theorem IsDoorway.not_beside_exit {n : Nat} {D : Set Site} {b : Site} (h : IsDoorway n D b)
    (heven : n % 2 = 0) : ¬Beside b (n - 2, n - 2) := by
  obtain ⟨p, q, -, hp, -, hq, hbetween⟩ := h
  simp only [mem_lattice] at hp hq
  simp only [Between] at hbetween
  simp only [Beside]
  omega

namespace Carved

variable {n : Nat} {D : Set Site} (h : Carved n D [])
include h

theorem perfect_of_odd (h5 : 5 ≤ n) (hodd : n % 2 = 1) : Perfect n D where
  grown := h.grown
  interior _ := h.interior
  exit := by
    refine h.lattice_subset ?_
    simp only [mem_lattice]
    omega
  ncard := by
    rw [if_pos hodd]
    have := h.ncard_add_one
    omega

section Even

variable (h5 : 5 ≤ n) (heven : n % 2 = 0)
include heven

theorem not_beside_exit {p : Site} (hp : p ∈ D) : ¬Beside p (n - 2, n - 2) := by
  rcases h.parts p hp with hlattice | hdoorway
  · simp only [mem_lattice] at hlattice
    simp only [Beside]
    omega
  · exact hdoorway.not_beside_exit heven

include h5

/-- The cell to the left of the exit touches the lattice cell above it, and nothing else. -/
theorem beside_link {p : Site} (hp : p ∈ D) (hbeside : Beside p (n - 3, n - 2)) :
    p = (n - 3, n - 3) := by
  rcases h.parts p hp with hlattice | hdoorway
  · simp only [mem_lattice] at hlattice
    simp only [Beside] at hbeside
    rw [Prod.ext_iff]
    dsimp only at hbeside ⊢
    omega
  · have := parity_of_beside hbeside
    have := hdoorway.parity
    dsimp only at *
    omega

theorem link_notMem : (n - 3, n - 2) ∉ D := by
  intro hmem
  refine h.not_beside_exit heven hmem (.inr ⟨rfl, .inl ?_⟩)
  dsimp only
  omega

theorem exit_notMem : (n - 2, n - 2) ∉ D := by
  intro hmem
  rcases h.parts _ hmem with hlattice | hdoorway
  · simp only [mem_lattice] at hlattice
    omega
  · have := hdoorway.parity
    dsimp only at this
    omega

/-- The exit and the cell to its left are two more leaves, one behind the other. -/
theorem perfect_of_even : Perfect n (insert (n - 2, n - 2) (insert (n - 3, n - 2) D)) := by
  have hcorner : (n - 3, n - 3) ∈ D := by
    refine h.lattice_subset ?_
    simp only [mem_lattice]
    omega
  have hlink := h.link_notMem h5 heven
  have hexit : (n - 2, n - 2) ∉ insert (n - 3, n - 2) D := by
    rintro (heq | hmem)
    · rw [Prod.mk.injEq] at heq
      omega
    · exact h.exit_notMem h5 heven hmem
  refine ⟨?_, ?_, .inl rfl, ?_⟩
  · refine .sprout (.sprout h.grown hlink hcorner ?_ fun p => h.beside_link h5 heven) hexit
      (.inl rfl) ?_ ?_
    · refine .inl ⟨rfl, .inl ?_⟩
      dsimp only
      omega
    · refine .inr ⟨rfl, .inl ?_⟩
      dsimp only
      omega
    · rintro p (rfl | hp) hbeside
      · rfl
      · exact absurd hbeside (h.not_beside_exit heven hp)
  · rintro p (rfl | rfl | hp)
    · dsimp only
      omega
    · dsimp only
      omega
    · exact h.interior hp
  · have hfinite := h.grown.finite
    rw [Set.ncard_insert_of_notMem hexit (hfinite.insert _),
      Set.ncard_insert_of_notMem hlink hfinite,
      if_neg (by omega), h.ncard_add_one]

end Even

end Carved

namespace Layout

theorem mem_adjacent {p q : Site} (hcolumn : 1 ≤ p.1) (hrow : 1 ≤ p.2) :
    q ∈ adjacent p ↔ Beside q p := by
  simp only [adjacent, List.mem_cons, List.not_mem_nil, or_false, Beside, Prod.ext_iff]
  omega

theorem exitSite_dig (l : Layout) (p : Site) : (l.dig p).exitSite = l.exitSite := by
  rw [exitSite, exitSite, side_dig]

theorem contains_exitSite (l : Layout) : l.contains l.exitSite = true := by
  have h5 : 5 ≤ l.side := l.five_le_size
  rw [contains_iff]
  simp only [exitSite]
  omega

/-- Whether the exit touches anything that has been dug. -/
theorem any_adjacent_exitSite (l : Layout) :
    (adjacent (l.dig l.exitSite).exitSite).any (l.dig l.exitSite).isDug = true ↔
      ∃ p ∈ l.dugSites, Beside p l.exitSite := by
  have h5 : 5 ≤ l.side := l.five_le_size
  have hmem (q : Site) : q ∈ adjacent l.exitSite ↔ Beside q l.exitSite :=
    mem_adjacent (by simp only [exitSite]; omega) (by simp only [exitSite]; omega)
  rw [exitSite_dig, List.any_eq_true]
  constructor
  · rintro ⟨p, hp, hdug⟩
    have hbeside := (hmem p).1 hp
    rcases (isDug_dig l.contains_exitSite p).1 hdug with rfl | hdug
    · exact absurd rfl (plane.ne_of_adj hbeside)
    · exact ⟨p, hdug, hbeside⟩
  · rintro ⟨p, hdug, hbeside⟩
    exact ⟨p, (hmem p).2 hbeside, (isDug_dig l.contains_exitSite p).2 (.inr hdug)⟩

theorem side_linkExit (l : Layout) : l.linkExit.side = l.side := by
  unfold linkExit
  dsimp only
  split
  · exact side_dig l _
  · rw [side_dig, side_dig]

/-- Linking the exit makes a perfect maze of what has been carved. -/
theorem perfect_linkExit {l : Layout} (h : Carved l.side l.dugSites []) :
    Perfect l.side l.linkExit.dugSites := by
  have h5 : 5 ≤ l.side := l.five_le_size
  have hdig := dugSites_dig l.contains_exitSite
  unfold linkExit
  dsimp only
  rcases Nat.mod_two_eq_zero_or_one l.side with heven | hodd
  · have htouch : ¬∃ p ∈ l.dugSites, Beside p l.exitSite := by
      rintro ⟨p, hp, hbeside⟩
      exact h.not_beside_exit heven hp hbeside
    have hlink : (l.dig l.exitSite).contains (l.side - 3, l.side - 2) = true := by
      rw [contains_iff, side_dig]
      dsimp only
      omega
    rw [if_neg (l.any_adjacent_exitSite.not.2 htouch), side_dig, dugSites_dig hlink, hdig,
      Set.insert_comm]
    exact h.perfect_of_even h5 heven
  · have hperfect := h.perfect_of_odd h5 hodd
    have hne : l.exitSite ≠ startSite := fun heq => l.index_exit_ne_start (congrArg l.index heq)
    have hexit : l.exitSite ∈ l.dugSites := hperfect.exit
    have htouch := h.grown.exists_adj hexit hne
    rw [if_pos (l.any_adjacent_exitSite.2 htouch), hdig, Set.insert_eq_of_mem hexit]
    exact hperfect

end Layout

/-- However the doors are chosen, what has been dug out in the end is a perfect maze. -/
theorem Layout.perfect_carveMaze {σ : Type} (choose : Chooser σ) (size : UInt32) (s : σ) :
    Perfect (carveMaze choose size s).1.side (carveMaze choose size s).1.dugSites := by
  have hend := carved_carve choose (carved_start _ (five_le_mazeSize size)) s
  rw [← side_carve choose _ [startSite] s] at hend
  simp only [carveMaze]
  rw [side_linkExit]
  exact perfect_linkExit hend

/-! ### From sites to cells -/

namespace Coord

/-- The site of a cell. -/
def site (c : Coord) : Site := (c.column.toNat, c.row.toNat)

/-- The cell at a site. -/
def ofSite (p : Site) : Coord := ⟨UInt32.ofNat p.1, UInt32.ofNat p.2⟩

theorem ofSite_site (c : Coord) : ofSite c.site = c := by simp [ofSite, site]

theorem site_ofSite {p : Site} (hcolumn : p.1 < 2 ^ 32) (hrow : p.2 < 2 ^ 32) :
    (ofSite p).site = p := by
  simp only [ofSite, site, UInt32.toNat_ofNat_of_lt' hcolumn, UInt32.toNat_ofNat_of_lt' hrow]

theorem adjacent_iff_beside {a b : Coord} : a.Adjacent b ↔ Beside a.site b.site := by
  simp only [Adjacent, Beside, site, UInt32.toNat_inj]

/-- The **plane** of cells, with edges between those side by side. -/
def plane : SimpleGraph Coord where
  Adj := Adjacent
  symm := ⟨fun _ _ h => h.symm⟩
  loopless := ⟨fun _ h => h.ne rfl⟩

end Coord

namespace Grid

/-- The **open cells** of a grid. -/
def openCells (g : Grid) : Set Coord := {c | g.IsOpen c}

/-- The **corridors** of a grid: its open cells, with edges between those side by side. -/
def corridors (g : Grid) : SimpleGraph Coord := within Coord.plane g.openCells

/-- Where corridors lead there is a walk. -/
theorem joined_of_reachable {g : Grid} {a b : Coord} (ha : g.IsOpen a)
    (h : g.corridors.Reachable a b) : g.Joined a b := by
  rw [SimpleGraph.reachable_iff_reflTransGen] at h
  induction h with
  | refl => exact ⟨[a], isWalk_singleton ha⟩
  | tail _ hadj ih =>
    obtain ⟨cells, hwalk⟩ := ih
    exact ⟨_, hwalk.concat hadj.2.2 hadj.2.1⟩

end Grid

namespace Layout

variable {l : Layout}

theorem coordAt_index {p : Site} (h : l.contains p = true) :
    Grid.coordAt l.side (l.index p) = Coord.ofSite p :=
  Grid.coordAt_mul_add (contains_iff.1 h).1

theorem contains_startSite (l : Layout) : l.contains startSite = true := by
  have h5 : 5 ≤ l.side := l.five_le_size
  rw [contains_iff]
  simp only [startSite]
  omega

theorem start_grid (l : Layout) : l.grid.start = Coord.ofSite startSite :=
  coordAt_index l.contains_startSite

theorem exit_grid (l : Layout) : l.grid.exit = Coord.ofSite l.exitSite :=
  coordAt_index l.contains_exitSite

theorem kinds_getElem? {i : Nat} (h : i < l.side * l.side) : l.kinds[i]? = some (l.kindAt i) := by
  simp [kinds, h]

theorem kind?_grid {c : Coord} (h : l.contains c.site = true) :
    l.grid.kind? c = some (l.kindAt (l.index c.site)) := by
  have hin : c.column < l.grid.size ∧ c.row < l.grid.size := contains_iff.1 h
  have hindex : l.index c.site < l.side * l.side := l.size_dug ▸ index_lt h
  rw [Grid.kind?, if_pos hin]
  exact kinds_getElem? hindex

theorem kindAt_eq_wall_iff {p : Site} (h : l.contains p = true) :
    l.kindAt (l.index p) = .wall ↔
      p ≠ startSite ∧ p ≠ l.exitSite ∧ p ∉ l.dugSites := by
  have hstart : l.index p = l.index startSite ↔ p = startSite :=
    ⟨index_inj h l.contains_startSite, congrArg l.index⟩
  have hexit : l.index p = l.index l.exitSite ↔ p = l.exitSite :=
    ⟨index_inj h l.contains_exitSite, congrArg l.index⟩
  have hdug : p ∈ l.dugSites ↔ l.dug.getD (l.index p) false = true := by
    rw [dugSites, Set.mem_ofPred_eq, isDug, h, Bool.true_and]
  rw [kindAt, hdug, Ne, Ne, ← hstart, ← hexit]
  split_ifs <;> simp_all

/-! ### The grid of a perfect maze -/

section Perfect

variable (h : Perfect l.side l.dugSites)
include h

theorem contains_of_mem_dugSites {p : Site} (hp : p ∈ l.dugSites) : l.contains p = true := by
  have := h.interior p hp
  rw [contains_iff]
  omega

/-- The open cells are those that have been dug out. -/
theorem isOpen_grid_iff {c : Coord} : l.grid.IsOpen c ↔ c.site ∈ l.dugSites := by
  constructor
  · intro hopen
    have hin : l.contains c.site = true := contains_iff.2 hopen.1
    by_contra hsolid
    have hwall : l.kindAt (l.index c.site) = .wall := by
      refine (kindAt_eq_wall_iff hin).2 ⟨?_, ?_, hsolid⟩
      · rintro hstart
        exact hsolid (hstart ▸ h.grown.root_mem)
      · rintro hexit
        exact hsolid (hexit ▸ h.exit)
    have hisWall := hopen.2
    rw [Grid.isWall, kind?_grid hin, hwall] at hisWall
    cases hisWall
  · intro hdug
    have hin := contains_of_mem_dugSites h hdug
    refine Grid.isOpen_of_kind? (kind?_grid hin) ?_
    cases hkind : l.kindAt (l.index c.site) with
    | wall => exact absurd hdug ((kindAt_eq_wall_iff hin).1 hkind).2.2
    | empty | start | exit => rfl

theorem site_ofSite_of_mem {p : Site} (hp : p ∈ l.dugSites) : (Coord.ofSite p).site = p := by
  have hlt := l.size.toNat_lt
  have hside : l.side = l.size.toNat := rfl
  have := h.interior p hp
  exact Coord.site_ofSite (by omega) (by omega)

theorem openCells_grid : l.grid.openCells = Coord.ofSite '' l.dugSites := by
  ext c
  constructor
  · intro hopen
    exact ⟨c.site, (isOpen_grid_iff h).1 hopen, c.ofSite_site⟩
  · rintro ⟨p, hp, rfl⟩
    refine (isOpen_grid_iff h).2 ?_
    rwa [site_ofSite_of_mem h hp]

theorem injOn_ofSite : Set.InjOn Coord.ofSite l.dugSites := by
  intro p hp q hq heq
  rw [← site_ofSite_of_mem h hp, heq, site_ofSite_of_mem h hq]

/-- The open cells have grown from the start. -/
theorem grown_openCells : Grown Coord.plane l.grid.start l.grid.openCells := by
  rw [openCells_grid h, start_grid]
  refine h.grown.image (injOn_ofSite h) fun p hp q hq => ?_
  have hiff : (Coord.ofSite p).Adjacent (Coord.ofSite q) ↔ _ := Coord.adjacent_iff_beside
  rwa [site_ofSite_of_mem h hp, site_ofSite_of_mem h hq] at hiff

theorem ncard_openCells : l.grid.openCells.ncard = l.dugSites.ncard := by
  rw [openCells_grid h, (injOn_ofSite h).ncard_image]

/-- The outermost cells are walls. -/
theorem kind?_perimeter {c : Coord} (hin : l.grid.Contains c)
    (houter : c.column.toNat = 0 ∨ c.row.toNat = 0 ∨ c.column.toNat = l.side - 1 ∨
      c.row.toNat = l.side - 1) : l.grid.kind? c = some .wall := by
  have hcontains : l.contains c.site = true := contains_iff.2 hin
  have hsolid : c.site ∉ l.dugSites := by
    intro hdug
    have := h.interior _ hdug
    simp only [Coord.site] at this
    omega
  rw [kind?_grid hcontains, (kindAt_eq_wall_iff hcontains).2 ⟨?_, ?_, hsolid⟩]
  · intro hstart
    exact hsolid (hstart ▸ h.grown.root_mem)
  · intro hexit
    exact hsolid (hexit ▸ h.exit)

end Perfect

end Layout

/-! ### Generated mazes -/

theorem toNat_mazeSize (size : UInt32) : (mazeSize size).toNat = max size.toNat 5 := by
  unfold mazeSize
  split
  · rename_i hlt
    rw [UInt32.lt_iff_toNat_lt] at hlt
    exact (Nat.max_eq_right hlt.le).symm
  · rename_i hge
    rw [UInt32.lt_iff_toNat_lt] at hge
    exact (Nat.max_eq_left (Nat.le_of_not_lt hge)).symm

theorem side_carveMaze {σ : Type} (choose : Chooser σ) (size : UInt32) (s : σ) :
    (carveMaze choose size s).1.side = max size.toNat 5 := by
  simp only [carveMaze]
  rw [Layout.side_linkExit, Layout.side_carve, Layout.side_dig, ← toNat_mazeSize]
  rfl

/-- What may be relied upon in a maze with side length `n`. -/
structure Grid.IsMaze (g : Grid) (n : Nat) : Prop where
  side : g.size.toNat = n
  start : g.start = ⟨1, 1⟩
  exit : g.exit.column.toNat = n - 2 ∧ g.exit.row.toNat = n - 2
  start_only : ∀ c, g.kind? c = some .start ↔ c = g.start
  exit_only : ∀ c, g.kind? c = some .exit ↔ c = g.exit
  /-- The outermost cells are walls. -/
  perimeter : ∀ c, g.Contains c →
    c.column.toNat = 0 ∨ c.row.toNat = 0 ∨ c.column.toNat = n - 1 ∨ c.row.toNat = n - 1 →
      g.kind? c = some .wall
  /-- The exit is an open cell, too. -/
  isOpen_exit : g.IsOpen g.exit
  /-- From the start there is a walk to every open cell. -/
  joined : ∀ c, g.IsOpen c → g.Joined g.start c

theorem Layout.isMaze_grid {l : Layout} (h : Perfect l.side l.dugSites) : l.grid.IsMaze l.side where
  side := rfl
  start := l.start_grid
  exit := by
    rw [l.exit_grid]
    exact Prod.ext_iff.1 (site_ofSite_of_mem h h.exit)
  start_only _ := Grid.kind?_eq_start_iff
  exit_only _ := Grid.kind?_eq_exit_iff
  perimeter _ hin houter := kind?_perimeter h hin houter
  isOpen_exit := l.grid.isOpen_exit
  joined _ hopen :=
    Grid.joined_of_reachable l.grid.isOpen_start ((grown_openCells h).reachable hopen)

/-- However the doors are chosen, the cells that have been carved are accepted as a grid, with its
corners in place, walls all around and a walk from the start to every open cell. -/
theorem isMaze_generateMaze {σ : Type} (choose : Chooser σ) (size : UInt32) (s : σ) :
    let l := (carveMaze choose size s).1
    let g := (generateMaze choose size s).1
    Grid.ofKinds l.size l.kinds = .ok g ∧ g.IsMaze (max size.toNat 5) := by
  intro l g
  have hmaze : g.IsMaze l.side := Layout.isMaze_grid (Layout.perfect_carveMaze choose size s)
  rw [side_carveMaze] at hmaze
  exact ⟨g.ofKinds_cells, hmaze⟩

/-- However the doors are chosen, the open cells of a generated maze are a tree, whose size depends
on the side length alone. -/
theorem tree_generateMaze {σ : Type} (choose : Chooser σ) (size : UInt32) (s : σ) :
    let g := (generateMaze choose size s).1
    let n := max size.toNat 5
    let k := (n - 1) / 2
    g.openCells.ncard = (if n % 2 = 1 then 2 * (k * k) - 1 else 2 * (k * k) + 1) ∧
      g.corridors.edgeSet.ncard = g.openCells.ncard - 1 ∧
      ∀ a b, g.IsOpen a → g.IsOpen b → ∃! walk : g.corridors.Walk a b, walk.IsPath := by
  intro g n k
  have hperfect := Layout.perfect_carveMaze choose size s
  have hgrown : Grown Coord.plane g.start g.openCells := Layout.grown_openCells hperfect
  have hedges : g.corridors.edgeSet.ncard + 1 = g.openCells.ncard := hgrown.ncard_edgeSet
  refine ⟨?_, by omega, fun a b ha hb => hgrown.existsUnique_path ha hb⟩
  have hcount := Layout.ncard_openCells hperfect
  rw [hperfect.ncard, side_carveMaze] at hcount
  exact hcount

end Labyrinth
