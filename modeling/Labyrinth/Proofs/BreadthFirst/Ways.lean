import Labyrinth.Proofs.Walks
import Mathlib.Data.List.Induction
import Mathlib.Data.List.Nodup
import Mathlib.Data.List.Perm.Subperm

/-!
# Breadth-first search

A search for a shortest way through a grid, told without any program: ways from the start are
prolonged in the order in which they have been found, and cells to which a way is known already are
left out.

The ways that have been found are sorted by their lengths, and those that wait to be prolonged
differ by one step at most. So the first one that is found to end on the exit is a shortest one.

## Main results

* `Grid.exists_destination?_of_isWalk`: a walk through the grid is told by its steps.
* `Search.Ready.expand`: what the prolongation of one way preserves.
* `Search.Ready.isShortest`: a way to the exit that is to be prolonged next is a shortest one.
* `Search.Ready.destination?_ne_exit`: where no way waits, the exit cannot be reached.
* `Search.Ready.isRoute_route`: the search leads to a shortest way.
-/

namespace Labyrinth

namespace Grid

/-! ### Steps through a grid -/

/-- The open cell next to a cell in a direction, if there is one. -/
def opening? (g : Grid) (c : Coord) (d : Direction) : Option Coord :=
  (c.neighbor? d).filter fun c' => !g.isWall c'

theorem opening?_eq_some_iff {g : Grid} {c c' : Coord} {d : Direction} :
    g.opening? c d = some c' ↔ c.neighbor? d = some c' ∧ g.isWall c' = false := by
  simp [opening?, Option.filter_eq_some_iff]

theorem isOpen_of_opening? {g : Grid} {c c' : Coord} {d : Direction}
    (h : g.opening? c d = some c') : g.IsOpen c' :=
  isOpen_iff.2 (opening?_eq_some_iff.1 h).2

/-- The cell to which steps lead from a cell, if all of them are possible. -/
def destination? (g : Grid) (c : Coord) (steps : List Direction) : Option Coord :=
  steps.foldlM g.opening? c

theorem destination?_cons (g : Grid) (c : Coord) (d : Direction) (steps : List Direction) :
    g.destination? c (d :: steps) = (g.opening? c d).bind (g.destination? · steps) := rfl

theorem destination?_concat (g : Grid) (c : Coord) (steps : List Direction) (d : Direction) :
    g.destination? c (steps ++ [d]) = (g.destination? c steps).bind (g.opening? · d) := by
  simp [destination?, List.foldlM_append]

/-- A walk from the start is told by its steps. -/
theorem exists_destination?_of_isWalk {g : Grid} {c : Coord} {cells : List Coord}
    (h : g.IsWalk g.start c cells) :
    ∃ steps, g.destination? g.start steps = some c ∧ steps.length + 1 = cells.length := by
  induction cells using List.reverseRecOn generalizing c with
  | nil => cases h.head
  | append_singleton cells last ih =>
    obtain rfl : last = c := by simpa using h.last
    rcases List.eq_nil_or_concat cells with rfl | ⟨front, b, rfl⟩
    · obtain rfl : last = g.start := by simpa using h.head
      exact ⟨[], rfl, rfl⟩
    · rw [List.concat_eq_append] at h ih ⊢
      obtain ⟨hchain, -, hlast⟩ := List.isChain_append.1 h.adjacent
      have hopen := h.isOpen
      have hwalk : g.IsWalk g.start b (front ++ [b]) :=
        ⟨by simpa using h.head, by simp, hchain, fun x hx => hopen x (List.mem_append_left _ hx)⟩
      obtain ⟨steps, hsteps, hlength⟩ := ih hwalk
      obtain ⟨d, hd⟩ := Coord.adjacent_iff.1 (hlast b (by simp) last (by simp))
      refine ⟨steps ++ [d], ?_, by simp_all⟩
      rw [destination?_concat, hsteps, Option.bind_some, opening?_eq_some_iff]
      exact ⟨hd, (hopen last (by simp)).2⟩

/-- Steps lead from the start to the exit, and no fewer steps do. -/
def IsShortest (g : Grid) (steps : List Direction) : Prop :=
  g.destination? g.start steps = some g.exit ∧
    ∀ others, g.destination? g.start others = some g.exit → steps.length ≤ others.length

/-- Steps are a route: a shortest way to the exit, or none at all where it cannot be reached. -/
def IsRoute (g : Grid) (steps : List Direction) : Prop :=
  g.IsShortest steps ∨ steps = [] ∧ ∀ others, g.destination? g.start others ≠ some g.exit

/-- The steps from a cell into open cells in some directions, and those cells. -/
def openingsIn (g : Grid) (c : Coord) (dirs : List Direction) : List (Direction × Coord) :=
  dirs.filterMap fun d => (g.opening? c d).map (d, ·)

/-- The steps from a cell into open cells, and those cells, in the order of the directions. -/
def openings (g : Grid) (c : Coord) : List (Direction × Coord) := g.openingsIn c Direction.all

theorem mem_openings {g : Grid} {c : Coord} {o : Direction × Coord} :
    o ∈ g.openings c ↔ g.opening? c o.1 = some o.2 := by
  simp only [openings, openingsIn, List.mem_filterMap, Option.map_eq_some_iff]
  constructor
  · rintro ⟨d, -, c', hc', rfl⟩
    exact hc'
  · intro h
    exact ⟨o.1, o.1.mem_all, o.2, h, rfl⟩

/-- A grid has no more open cells than cells. -/
theorem length_le_of_nodup {g : Grid} {cs : List Coord} (hnodup : cs.Nodup)
    (hopen : ∀ c ∈ cs, g.IsOpen c) : cs.length ≤ g.cells.size := by
  let index (c : Coord) : Nat := c.row.toNat * g.size.toNat + c.column.toNat
  have hindex : (cs.map index).Nodup := by
    refine List.Nodup.map_on (fun a ha b hb hab => ?_) hnodup
    rw [← coordAt_index (hopen a ha).1, ← coordAt_index (hopen b hb).1]
    exact congrArg (coordAt g.size.toNat) hab
  have hsubset : cs.map index ⊆ List.range g.cells.size := by
    intro i hi
    obtain ⟨c, hc, rfl⟩ := List.mem_map.1 hi
    obtain ⟨hcolumn, hrow⟩ := (hopen c hc).1
    rw [UInt32.lt_iff_toNat_lt] at hcolumn hrow
    rw [List.mem_range, g.size_cells]
    calc c.row.toNat * g.size.toNat + c.column.toNat
        < c.row.toNat * g.size.toNat + g.size.toNat := Nat.add_lt_add_left hcolumn _
      _ = (c.row.toNat + 1) * g.size.toNat := (Nat.succ_mul _ _).symm
      _ ≤ g.size.toNat * g.size.toNat := Nat.mul_le_mul_right _ hrow
  simpa using (List.subperm_of_subset hindex hsubset).length_le

end Grid

/-! ### Searches -/

/-- A **way** from the start of a grid: the cell that it leads to, and its steps. -/
structure Way where
  cell : Coord
  steps : List Direction
  deriving DecidableEq, Repr

/-- What a **search** has found: the ways that have been prolonged, and those that wait for it, in
the order in which they have been found. -/
structure Search where
  prolonged : List Way
  waiting : List Way

namespace Search

/-- All ways that have been found. -/
def found (s : Search) : List Way := s.prolonged ++ s.waiting

/-- The cells to which a way is known. -/
def cells (s : Search) : List Coord := s.found.map Way.cell

/-- The search before its first step knows the way that stays on the start. -/
def start (g : Grid) : Search := ⟨[], [⟨g.start, []⟩]⟩

/-- Prolongs a way by a step into an open cell, unless a way to this cell is known. -/
def prolong (way : Way) (s : Search) (o : Direction × Coord) : Search :=
  if o.2 ∈ s.cells then s else ⟨s.prolonged, s.waiting ++ [⟨o.2, way.steps ++ [o.1]⟩]⟩

/-- Prolongs a way by a step into every open cell around its end. -/
def expand (g : Grid) (way : Way) (s : Search) : Search :=
  (g.openings way.cell).foldl (prolong way) s

/-! ### Invariants -/

variable {g : Grid} {s : Search} {way : Way} {prolonged waiting : List Way}

/-- What holds of a search in every moment. -/
structure Sound (g : Grid) (s : Search) : Prop where
  leads : ∀ a ∈ s.found, g.destination? g.start a.steps = some a.cell
  nodup : s.cells.Nodup
  sorted : s.found.Pairwise fun a b => a.steps.length ≤ b.steps.length
  start_mem : (⟨g.start, []⟩ : Way) ∈ s.found
  /-- Every round makes the ways longer by one step at most. -/
  length_le : ∀ a ∈ s.found, a.steps.length ≤ s.prolonged.length
  /-- The search ends as soon as it comes to the exit. -/
  ne_exit : ∀ a ∈ s.prolonged, a.cell ≠ g.exit

/-- A search in which a way is being prolonged. -/
structure Prolonging (g : Grid) (way : Way) (s : Search) : Prop extends Sound g s where
  mem : way ∈ s.prolonged
  lt : way.steps.length < s.prolonged.length
  /-- The way is a shortest one of those that have been waiting. -/
  le_waiting : ∀ a ∈ s.waiting, way.steps.length ≤ a.steps.length
  found_le : ∀ a ∈ s.found, a.steps.length ≤ way.steps.length + 1

/-- A search that is ready to prolong the next way. -/
structure Ready (g : Grid) (s : Search) : Prop extends Sound g s where
  /-- Whatever is next to the end of a way that has been prolonged is found. -/
  closed : ∀ a ∈ s.prolonged, ∀ o ∈ g.openings a.cell,
    ∃ b ∈ s.found, b.cell = o.2 ∧ b.steps.length ≤ a.steps.length + 1
  found_le : ∀ a ∈ s.waiting, ∀ b ∈ s.found, b.steps.length ≤ a.steps.length + 1

theorem Sound.isOpen (h : s.Sound g) {a : Way} (ha : a ∈ s.found) : g.IsOpen a.cell := by
  have hleads := h.leads a ha
  rcases List.eq_nil_or_concat a.steps with hnil | ⟨steps, d, hconcat⟩
  · rw [hnil] at hleads
    exact Option.some.inj hleads ▸ g.isOpen_start
  · rw [hconcat, List.concat_eq_append, Grid.destination?_concat] at hleads
    obtain ⟨c, -, hc⟩ := Option.bind_eq_some_iff.1 hleads
    exact Grid.isOpen_of_opening? hc

/-- There are no more ways than cells. -/
theorem Sound.length_found_le (h : s.Sound g) : s.found.length ≤ g.cells.size := by
  have hle := Grid.length_le_of_nodup h.nodup fun c hc => by
    obtain ⟨a, ha, rfl⟩ := List.mem_map.1 hc
    exact h.isOpen ha
  rwa [cells, List.length_map] at hle

theorem ready_start (g : Grid) : (start g).Ready g where
  leads := by simp [start, found, Grid.destination?]
  nodup := by simp [start, cells, found]
  sorted := by simp [start, found]
  start_mem := by simp [start, found]
  length_le := by simp [start, found]
  ne_exit := by simp [start]
  closed := by simp [start]
  found_le := by simp [start, found]

/-! ### The prolongation of one way -/

theorem prolonged_prolong (way : Way) (s : Search) (o : Direction × Coord) :
    (prolong way s o).prolonged = s.prolonged := by
  unfold prolong
  split <;> rfl

theorem found_prolong (way : Way) (s : Search) (o : Direction × Coord) :
    (prolong way s o).found =
      if o.2 ∈ s.cells then s.found else s.found ++ [⟨o.2, way.steps ++ [o.1]⟩] := by
  unfold prolong
  split
  · rfl
  · simp [found]

theorem found_subset_prolong (way : Way) (s : Search) (o : Direction × Coord) :
    s.found ⊆ (prolong way s o).found := by
  rw [found_prolong]
  split
  · exact List.Subset.refl _
  · exact List.subset_append_left _ _

theorem mem_cells_prolong (way : Way) (s : Search) (o : Direction × Coord) :
    o.2 ∈ (prolong way s o).cells := by
  rw [cells, found_prolong]
  split
  · assumption
  · simp

/-- One step more in one direction preserves what holds of the search. -/
theorem Prolonging.prolong (h : s.Prolonging g way) {o : Direction × Coord}
    (ho : o ∈ g.openings way.cell) : (s.prolong way o).Prolonging g way := by
  unfold Search.prolong
  split
  · exact h
  next hnew =>
  have hway : way ∈ s.found := List.mem_append_left _ h.mem
  have hfound : Search.found ⟨s.prolonged, s.waiting ++ [⟨o.2, way.steps ++ [o.1]⟩]⟩ =
      s.found ++ [⟨o.2, way.steps ++ [o.1]⟩] := (List.append_assoc ..).symm
  constructor
  · constructor
    · rw [hfound]
      refine List.forall_mem_append.2 ⟨h.leads, List.forall_mem_singleton.2 ?_⟩
      rw [Grid.destination?_concat, h.leads way hway]
      exact Grid.mem_openings.1 ho
    · rw [cells, hfound, List.map_append]
      exact h.nodup.append (List.nodup_singleton _) (by simpa using hnew)
    · rw [hfound]
      refine List.pairwise_append.2 ⟨h.sorted, List.pairwise_singleton _ _, fun a ha b hb => ?_⟩
      rw [List.mem_singleton.1 hb, List.length_append]
      exact h.found_le a ha
    · rw [hfound]
      exact List.mem_append_left _ h.start_mem
    · rw [hfound]
      refine List.forall_mem_append.2 ⟨h.length_le, List.forall_mem_singleton.2 ?_⟩
      rw [List.length_append]
      exact h.lt
    · exact h.ne_exit
  · exact h.mem
  · exact h.lt
  · refine List.forall_mem_append.2 ⟨h.le_waiting, List.forall_mem_singleton.2 ?_⟩
    simp
  · rw [hfound]
    refine List.forall_mem_append.2 ⟨h.found_le, List.forall_mem_singleton.2 ?_⟩
    simp

/-- Steps in several directions preserve what holds of the search; no way is lost, and all cells are
found. -/
theorem Prolonging.foldl (h : s.Prolonging g way) {os : List (Direction × Coord)}
    (hos : os ⊆ g.openings way.cell) :
    (os.foldl (Search.prolong way) s).Prolonging g way ∧
      (os.foldl (Search.prolong way) s).prolonged = s.prolonged ∧
      s.found ⊆ (os.foldl (Search.prolong way) s).found ∧
      ∀ o ∈ os, o.2 ∈ (os.foldl (Search.prolong way) s).cells := by
  induction os generalizing s with
  | nil => exact ⟨h, rfl, List.Subset.refl _, nofun⟩
  | cons o os ih =>
    obtain ⟨ho, hos⟩ := List.cons_subset.1 hos
    obtain ⟨hlast, hprolonged, hfound, hcells⟩ := ih (h.prolong ho) hos
    refine ⟨hlast, hprolonged.trans (prolonged_prolong way s o),
      List.Subset.trans (found_subset_prolong way s o) hfound, ?_⟩
    refine List.forall_mem_cons.2 ⟨?_, hcells⟩
    exact List.map_subset Way.cell hfound (mem_cells_prolong way s o)

/-- A way that is taken has been found before. -/
theorem found_take (prolonged : List Way) (way : Way) (waiting : List Way) :
    found ⟨prolonged ++ [way], waiting⟩ = found ⟨prolonged, way :: waiting⟩ :=
  List.append_assoc prolonged [way] waiting

/-- The next way is taken. -/
theorem Ready.prolonging (h : (Search.mk prolonged (way :: waiting)).Ready g)
    (hexit : way.cell ≠ g.exit) :
    (Search.mk (prolonged ++ [way]) waiting).Prolonging g way := by
  have hfound := found_take prolonged way waiting
  have hway : way ∈ Search.found ⟨prolonged, way :: waiting⟩ := by simp [found]
  have hlength := h.length_le
  have hsorted := (List.pairwise_append.1 h.sorted).2.1
  constructor
  · constructor
    · exact hfound ▸ h.leads
    · rw [cells, hfound]
      exact h.nodup
    · exact hfound ▸ h.sorted
    · exact hfound ▸ h.start_mem
    · intro a ha
      rw [List.length_append]
      exact Nat.le_succ_of_le (hlength a (hfound ▸ ha))
    · exact List.forall_mem_append.2 ⟨h.ne_exit, List.forall_mem_singleton.2 hexit⟩
  · simp
  · rw [List.length_append]
    exact Nat.lt_succ_of_le (hlength way hway)
  · exact (List.pairwise_cons.1 hsorted).1
  · rw [hfound]
    exact h.found_le way (by simp)

/-- What the prolongation of the next way preserves. -/
theorem Ready.expand (h : (Search.mk prolonged (way :: waiting)).Ready g)
    (hexit : way.cell ≠ g.exit) :
    (Search.expand g way ⟨prolonged ++ [way], waiting⟩).Ready g ∧
      (Search.expand g way ⟨prolonged ++ [way], waiting⟩).prolonged = prolonged ++ [way] := by
  obtain ⟨hlast, hprolonged, hfound, hcells⟩ :=
    (h.prolonging hexit).foldl (List.Subset.refl _)
  have hold : Search.found ⟨prolonged, way :: waiting⟩ ⊆
      (Search.expand g way ⟨prolonged ++ [way], waiting⟩).found := by
    refine List.Subset.trans (fun a ha => ?_) hfound
    simpa [found] using ha
  refine ⟨⟨hlast.toSound, ?_, ?_⟩, hprolonged⟩
  · intro a ha o ho
    rw [Search.expand, hprolonged] at ha
    rcases List.mem_append.1 ha with ha | ha
    · obtain ⟨b, hb, hcell, hlength⟩ := h.closed a ha o ho
      exact ⟨b, hold hb, hcell, hlength⟩
    · rw [List.mem_singleton.1 ha] at ho ⊢
      obtain ⟨b, hb, hcell⟩ := List.mem_map.1 (hcells o ho)
      exact ⟨b, hb, hcell, hlast.found_le b hb⟩
  · intro a ha b hb
    exact (hlast.found_le b hb).trans (Nat.add_le_add_right (hlast.le_waiting a ha) 1)

/-! ### What the search finds -/

/-- Whoever takes steps from the start has followed a way that has been prolonged, or has come
across the end of one that waits. -/
theorem Ready.exists_le (h : s.Ready g) {steps : List Direction} {c : Coord}
    (hc : g.destination? g.start steps = some c) :
    (∃ a ∈ s.prolonged, a.cell = c ∧ a.steps.length ≤ steps.length) ∨
      ∃ a ∈ s.waiting, a.steps.length ≤ steps.length := by
  have hmem {b : Way} {n : Nat} (hb : b ∈ s.found) (hlength : b.steps.length ≤ n) :
      (∃ a ∈ s.prolonged, a.cell = b.cell ∧ a.steps.length ≤ n) ∨
        ∃ a ∈ s.waiting, a.steps.length ≤ n :=
    (List.mem_append.1 hb).imp (fun hb => ⟨b, hb, rfl, hlength⟩) fun hb => ⟨b, hb, hlength⟩
  -- The steps but the last lead to a cell next to `c`. If a way to it has been prolonged, `c` has
  -- been found from there.
  induction steps using List.reverseRecOn generalizing c with
  | nil =>
    cases hc
    exact hmem h.start_mem (Nat.le_refl 0)
  | append_singleton steps d ih =>
    rw [Grid.destination?_concat] at hc
    obtain ⟨b, hb, hstep⟩ := Option.bind_eq_some_iff.1 hc
    rw [List.length_append]
    rcases ih hb with ⟨a, ha, rfl, hlength⟩ | ⟨a, ha, hlength⟩
    · obtain ⟨b, hb, rfl, hb'⟩ := h.closed a ha (d, c) (Grid.mem_openings.2 hstep)
      exact hmem hb (hb'.trans (Nat.add_le_add_right hlength 1))
    · exact .inr ⟨a, ha, Nat.le_succ_of_le hlength⟩

/-- A way to the exit that is to be prolonged next is a shortest one. -/
theorem Ready.isShortest (h : (Search.mk prolonged (way :: waiting)).Ready g)
    (hexit : way.cell = g.exit) : g.IsShortest way.steps := by
  refine ⟨hexit ▸ h.leads way (by simp [found]), fun steps hsteps => ?_⟩
  rcases h.exists_le hsteps with ⟨a, ha, hexit, -⟩ | ⟨a, ha, hlength⟩
  · exact absurd hexit (h.ne_exit a ha)
  · rcases List.mem_cons.1 ha with rfl | ha
    · exact hlength
    · have hsorted := (List.pairwise_append.1 h.sorted).2.1
      exact ((List.pairwise_cons.1 hsorted).1 a ha).trans hlength

/-- Where no way waits, the exit cannot be reached. -/
theorem Ready.destination?_ne_exit (h : (Search.mk prolonged []).Ready g)
    (steps : List Direction) : g.destination? g.start steps ≠ some g.exit := by
  intro hsteps
  rcases h.exists_le hsteps with ⟨a, ha, hexit, -⟩ | ⟨a, ha, -⟩
  · exact h.ne_exit a ha hexit
  · cases ha

/-! ### The whole search -/

/-- Whether the search goes on. The ways that wait are counted by signed integers of 64 bits. -/
def goesOn (s : Search) : Bool := (compare (Int64.ofNat s.waiting.length) 0).isGT

/-- The steps to which the search leads within so many rounds; none if it does not come to the
exit. -/
def route (g : Grid) : (rounds : Nat) → Search → List Direction
  | 0, _ => []
  | _ + 1, ⟨_, []⟩ => []
  | rounds + 1, ⟨prolonged, way :: waiting⟩ =>
    if goesOn ⟨prolonged, way :: waiting⟩ then
      if way.cell = g.exit then way.steps
      else route g rounds (expand g way ⟨prolonged ++ [way], waiting⟩)
    else []

/-- A search goes on as long as ways wait, if they can be counted. -/
theorem goesOn_iff (h : s.waiting.length < 9223372036854775808) :
    s.goesOn = decide (0 < s.waiting.length) := by
  rw [goesOn, Bool.eq_iff_iff, Ordering.isGT_iff_eq_gt, Std.compare_eq_gt, decide_eq_true_iff,
    Int64.lt_iff_toInt_lt, Int64.toInt_ofNat_of_lt h, Int64.toInt_zero]
  exact Int.natCast_pos

/-- The search leads to a route, since every round prolongs a way that no other one has. -/
theorem Ready.isRoute_route (h : s.Ready g) (hcells : g.cells.size < 9223372036854775808)
    {rounds : Nat} (hrounds : g.cells.size < s.prolonged.length + rounds) :
    g.IsRoute (route g rounds s) := by
  induction rounds generalizing s with
  | zero =>
    have hle := h.length_found_le
    rw [found, List.length_append] at hle
    omega
  | succ rounds ih =>
    obtain ⟨prolonged, _ | ⟨way, waiting⟩⟩ := s
    · exact .inr ⟨rfl, h.destination?_ne_exit⟩
    · have hle := h.length_found_le
      rw [found, List.length_append] at hle
      have hgoesOn : goesOn ⟨prolonged, way :: waiting⟩ = true := by
        rw [goesOn_iff (Nat.lt_of_le_of_lt (Nat.le_of_add_left_le hle) hcells)]
        simp
      rw [route, if_pos hgoesOn]
      split
      · next hexit => exact .inl (h.isShortest hexit)
      · next hexit =>
        obtain ⟨hready, hprolonged⟩ := h.expand hexit
        refine ih hready ?_
        rw [hprolonged, List.length_append, List.length_singleton]
        simp only at hrounds
        omega

end Search

end Labyrinth
