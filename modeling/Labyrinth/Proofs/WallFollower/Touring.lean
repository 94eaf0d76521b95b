import Labyrinth.Proofs.BreadthFirst.Ways
import Labyrinth.Proofs.Maze.Generated
import Labyrinth.Proofs.WallFollower.Rotations

/-!
# Keeping the wall on the right

Whoever keeps a wall on the right goes to the right wherever that is possible, else straight on,
else to the left, else back. The open cells around a cell are a circle for him: he takes the one
that is next to the one from which he comes. So where the open cells form a tree he is on a tour of
it, and comes to every cell.

## Main results

* `Grid.rotation`: the circles of the open cells around every cell.
* `Grid.exists_follow?_exit`: the exit is found in time.
* `isTree_generateMaze`: the open cells of every generated maze form a tree.
-/

namespace Labyrinth

/-! ### Turning -/

namespace Direction

/-- The direction to the right of someone who looks in a direction. -/
def clockwise : Direction → Direction
  | up => right
  | right => down
  | down => left
  | left => up

/-- The directions in which someone tries to go on who keeps a wall on the right. -/
def tried (d : Direction) : List Direction := [d.clockwise, d, d.clockwise.opposite, d.opposite]

@[simp]
theorem opposite_opposite (d : Direction) : d.opposite.opposite = d := by cases d <;> rfl

theorem mem_tried (d d' : Direction) : d' ∈ d.tried := by
  cases d <;> cases d' <;> decide

/-- Different ways to come from are followed by different ways to go on. -/
theorem eq_of_find?_tried {p : Direction → Bool} {a b c : Direction} (ha : p a = true)
    (hb : p b = true) (hac : a.opposite.tried.find? p = some c)
    (hbc : b.opposite.tried.find? p = some c) : a = b := by
  cases a <;> cases b <;> simp [tried, clockwise, opposite, List.find?_cons] at * <;> grind

/-- Whoever comes from where he would have gone goes through all the ways there are. -/
theorem forall_of_find?_tried {p : Direction → Bool} {q : Direction → Prop} {a : Direction}
    (ha : q a) (hq : ∀ d, q d → p d = true)
    (hstep : ∀ d d', q d → d.opposite.tried.find? p = some d' → q d') {b : Direction}
    (hb : p b = true) : q b := by
  have h := fun d => hstep d
  cases a <;> cases b <;> simp [tried, clockwise, opposite, List.find?_cons] at * <;> grind

end Direction

/-! ### Openings -/

namespace Coord

variable {a b : Coord} {d d' : Direction}

/-- There is only one direction from a cell to another one. -/
theorem direction_unique (h : a.neighbor? d = some b) (h' : a.neighbor? d' = some b) : d = d' := by
  obtain ⟨hcolumn, hrow⟩ := eq_of_ofInt? h
  obtain ⟨hcolumn', hrow'⟩ := eq_of_ofInt? h'
  cases d <;> cases d' <;> first | rfl | (simp only [Direction.offset] at *; omega)

end Coord

/-- Someone who walks through a maze: the cell on which he stands, and the direction in which he
looks. -/
structure Walker where
  cell : Coord
  heading : Direction
  deriving DecidableEq, Repr

namespace Grid

variable (g : Grid)

/-- How a walker goes on who keeps a wall on his right. -/
def onward? (s : Walker) : Option Walker := do
  let d ← s.heading.tried.find? fun d => (g.opening? s.cell d).isSome
  return ⟨← g.opening? s.cell d, d⟩

/-- Where a walker has come after so many steps. -/
def follow? : (n : Nat) → Walker → Option Walker
  | 0, s => some s
  | n + 1, s => do follow? n (← g.onward? s)

variable {g} {s s' : Walker}

theorem onward?_eq_some_iff : g.onward? s = some s' ↔
    s.heading.tried.find? (fun d => (g.opening? s.cell d).isSome) = some s'.heading ∧
      g.opening? s.cell s'.heading = some s'.cell := by
  obtain ⟨c, d⟩ := s'
  simp only [onward?, Option.bind_eq_bind, Option.bind_eq_some_iff, Option.pure_def,
    Option.some.injEq, Walker.mk.injEq]
  constructor
  · rintro ⟨d', hfind, c', hc', rfl, rfl⟩
    exact ⟨hfind, hc'⟩
  · rintro ⟨hfind, hc⟩
    exact ⟨d, hfind, c, hc, rfl, rfl⟩

/-- A walker can go on where there is an opening. -/
theorem exists_onward? {d : Direction} (h : (g.opening? s.cell d).isSome = true) :
    ∃ s', g.onward? s = some s' := by
  cases hfind : s.heading.tried.find? (fun d => (g.opening? s.cell d).isSome) with
  | none => exact absurd h (List.find?_eq_none.1 hfind d (Direction.mem_tried _ d))
  | some d' =>
    have hsome := List.find?_some (p := fun d => (g.opening? s.cell d).isSome) hfind
    obtain ⟨c, hc⟩ := Option.isSome_iff_exists.1 hsome
    exact ⟨⟨c, d'⟩, onward?_eq_some_iff.2 ⟨hfind, hc⟩⟩

/-! ### The tree of the open cells -/

variable (g)

/-- The graph of the open cells, with edges between those side by side. -/
def openGraph : SimpleGraph g.openCells := Coord.plane.induce g.openCells

/-- A grid is a **tree** if its open cells form a tree. -/
def IsTree : Prop := g.openGraph.IsTree

instance finite_openCells : Finite g.openCells := by
  have hsubset : g.openCells ⊆ coordAt g.size.toNat '' {i | i < g.size.toNat * g.size.toNat} := by
    intro c hc
    obtain ⟨hcolumn, hrow⟩ := hc.1
    rw [UInt32.lt_iff_toNat_lt] at hcolumn hrow
    refine ⟨_, ?_, coordAt_index hc.1⟩
    calc c.row.toNat * g.size.toNat + c.column.toNat
        < c.row.toNat * g.size.toNat + g.size.toNat := Nat.add_lt_add_left hcolumn _
      _ = (c.row.toNat + 1) * g.size.toNat := (Nat.succ_mul _ _).symm
      _ ≤ g.size.toNat * g.size.toNat := Nat.mul_le_mul_right _ hrow
  exact ((Set.finite_lt_nat _).image _).subset hsubset

variable {g} {d e : g.openGraph.Dart}

theorem exists_opening (d : g.openGraph.Dart) : ∃ dir, g.opening? d.fst.1 dir = some d.snd.1 := by
  obtain ⟨dir, hdir⟩ := Coord.adjacent_iff.1 d.adj
  exact ⟨dir, opening?_eq_some_iff.2 ⟨hdir, d.snd.2.2⟩⟩

/-- The direction of a dart. -/
noncomputable def heading (d : g.openGraph.Dart) : Direction := (exists_opening d).choose

theorem opening?_heading (d : g.openGraph.Dart) : g.opening? d.fst.1 (heading d) = some d.snd.1 :=
  (exists_opening d).choose_spec

theorem heading_eq {dir : Direction} (h : g.opening? d.fst.1 dir = some d.snd.1) :
    heading d = dir :=
  Coord.direction_unique (opening?_eq_some_iff.1 (opening?_heading d)).1
    (opening?_eq_some_iff.1 h).1

theorem heading_symm (d : g.openGraph.Dart) : heading d.symm = (heading d).opposite :=
  heading_eq (opening?_eq_some_iff.2
    ⟨Coord.neighbor?_opposite (opening?_eq_some_iff.1 (opening?_heading d)).1, d.fst.2.2⟩)

/-- A dart is known by its first vertex and its direction. -/
theorem dart_ext (hfst : d.fst = e.fst) (hheading : heading d = heading e) : d = e := by
  have hd := opening?_heading d
  rw [hfst, hheading, opening?_heading e, Option.some.injEq] at hd
  exact SimpleGraph.Dart.ext _ _ (Prod.ext hfst (Subtype.ext hd.symm))

/-- A walker who goes on takes a dart. -/
theorem exists_dart {c : g.openCells} {dir : Direction} {s : Walker}
    (h : g.onward? ⟨c, dir⟩ = some s) :
    ∃ d : g.openGraph.Dart, d.fst = c ∧ s = ⟨d.snd, heading d⟩ := by
  have hopening := (onward?_eq_some_iff.1 h).2
  have hadj : c.1.Adjacent s.cell :=
    Coord.adjacent_iff.2 ⟨s.heading, (opening?_eq_some_iff.1 hopening).1⟩
  have hheading : heading (g := g) ⟨(c, ⟨s.cell, isOpen_of_opening? hopening⟩), hadj⟩ = s.heading :=
    heading_eq hopening
  exact ⟨_, rfl, by rw [hheading]⟩

/-! ### The rotation -/

/-- A walker who comes back from the end of a dart can go on. -/
theorem exists_turn (d : g.openGraph.Dart) : ∃ e : g.openGraph.Dart, e.fst = d.fst ∧
    g.onward? ⟨d.fst, (heading d).opposite⟩ = some ⟨e.snd, heading e⟩ := by
  obtain ⟨s, hs⟩ := exists_onward? (s := ⟨d.fst, (heading d).opposite⟩) (d := heading d)
    (by rw [opening?_heading]; rfl)
  obtain ⟨e, hfst, rfl⟩ := exists_dart hs
  exact ⟨e, hfst, hs⟩

/-- The dart that a walker takes who comes back from the end of a dart. -/
noncomputable def turn (d : g.openGraph.Dart) : g.openGraph.Dart := (exists_turn d).choose

theorem fst_turn (d : g.openGraph.Dart) : (turn d).fst = d.fst := (exists_turn d).choose_spec.1

theorem onward?_turn (d : g.openGraph.Dart) :
    g.onward? ⟨d.fst, (heading d).opposite⟩ = some ⟨(turn d).snd, heading (turn d)⟩ :=
  (exists_turn d).choose_spec.2

theorem find?_turn (d : g.openGraph.Dart) :
    (heading d).opposite.tried.find? (fun dir => (g.opening? d.fst dir).isSome) =
      some (heading (turn d)) :=
  (onward?_eq_some_iff.1 (onward?_turn d)).1

theorem isSome_opening?_heading (d : g.openGraph.Dart) :
    (g.opening? d.fst.1 (heading d)).isSome = true := by
  rw [opening?_heading]
  rfl

theorem fst_iterate_turn (n : Nat) (d : g.openGraph.Dart) : (turn^[n] d).fst = d.fst := by
  induction n with
  | zero => rfl
  | succ n ih => rw [Function.iterate_succ_apply', fst_turn, ih]

variable (g) in
/-- The openings around every cell, in the order in which a walker tries them. -/
noncomputable def rotation : Rotation g.openGraph where
  turn := turn
  fst_turn := fst_turn
  injective_turn d e h := by
    have hfst : d.fst = e.fst := by rw [← fst_turn d, h, fst_turn]
    refine dart_ext hfst (Direction.eq_of_find?_tried
      (p := fun dir => (g.opening? d.fst dir).isSome) ?_ ?_ (find?_turn d) ?_)
    · exact isSome_opening?_heading d
    · rw [hfst]
      exact isSome_opening?_heading e
    · rw [hfst, h]
      exact find?_turn e
  exists_iterate_turn d e h := by
    have hall : ∃ n, heading (turn^[n] d) = heading e := by
      refine Direction.forall_of_find?_tried (p := fun dir => (g.opening? d.fst dir).isSome)
        (q := fun dir => ∃ n, heading (turn^[n] d) = dir) ⟨0, rfl⟩ ?_ ?_ ?_
      · rintro _ ⟨n, rfl⟩
        rw [← fst_iterate_turn n d]
        exact isSome_opening?_heading _
      · rintro _ dir ⟨n, rfl⟩ hdir
        refine ⟨n + 1, ?_⟩
        have hturn := find?_turn (turn^[n] d)
        rw [fst_iterate_turn, hdir, Option.some.injEq] at hturn
        rw [Function.iterate_succ_apply', hturn]
      · rw [h]
        exact isSome_opening?_heading e
    obtain ⟨n, hn⟩ := hall
    exact ⟨n, dart_ext ((fst_iterate_turn n d).trans h) hn⟩

/-- A walker who has taken a dart is on a tour. -/
theorem follow?_dart (n : Nat) (d : g.openGraph.Dart) :
    g.follow? n ⟨d.snd, heading d⟩ =
      some ⟨((rotation g).next^[n] d).snd, heading ((rotation g).next^[n] d)⟩ := by
  induction n generalizing d with
  | zero => rfl
  | succ n ih =>
    have hnext : g.onward? ⟨d.snd, heading d⟩ =
        some ⟨((rotation g).next d).snd, heading ((rotation g).next d)⟩ := by
      have hturn := onward?_turn d.symm
      rwa [heading_symm, Direction.opposite_opposite] at hturn
    rw [follow?, hnext, Option.bind_eq_bind, Option.bind_some, ih, Function.iterate_succ_apply]

theorem start_ne_exit (g : Grid) : g.start ≠ g.exit := by
  intro h
  have hkind := kind?_eq_start_iff.2 h.symm
  rw [kind?_eq_exit_iff.2 rfl] at hkind
  cases hkind

/-- Where the open cells form a tree, a walker who keeps a wall on his right comes from the start to
the exit, whichever way he looks at first, after two steps at most for every cell but one. -/
theorem exists_follow?_exit (h : g.IsTree) (dir : Direction) :
    ∃ n ≤ 2 * (g.openCells.ncard - 1), ∃ s, g.follow? n ⟨g.start, dir⟩ = some s ∧
      s.cell = g.exit := by
  let start : g.openCells := ⟨g.start, g.isOpen_start⟩
  let exit : g.openCells := ⟨g.exit, g.isOpen_exit⟩
  have hne : start ≠ exit := fun h => g.start_ne_exit (congrArg Subtype.val h)
  have : Nontrivial g.openCells := ⟨start, exit, hne⟩
  obtain ⟨c, hc⟩ := h.connected.preconnected.exists_adj_of_nontrivial start
  obtain ⟨c', hc'⟩ := h.connected.preconnected.exists_adj_of_nontrivial exit
  -- The first step takes a dart, from where the tour leads to a dart that ends on the exit.
  obtain ⟨s, hs⟩ := exists_onward? (s := ⟨start, dir⟩) (isSome_opening?_heading ⟨(start, c), hc⟩)
  obtain ⟨d, -, rfl⟩ := exists_dart hs
  obtain ⟨n, hn, hend⟩ := (rotation g).exists_iterate_lt h d ⟨(c', exit), hc'.symm⟩
  rw [Nat.card_coe_set_eq] at hn
  have hfirst : g.onward? ⟨g.start, dir⟩ = some ⟨d.snd, heading d⟩ := hs
  have hfollow : g.follow? (n + 1) ⟨g.start, dir⟩ =
      some ⟨((rotation g).next^[n] d).snd, heading ((rotation g).next^[n] d)⟩ := by
    rw [follow?, hfirst, Option.bind_eq_bind, Option.bind_some, follow?_dart]
  exact ⟨n + 1, hn, _, hfollow, congrArg (fun e : g.openGraph.Dart => e.snd.1) hend⟩

end Grid

/-- However the doors are chosen, a generated maze is a tree. -/
theorem isTree_generateMaze {σ : Type} (choose : Chooser σ) (size : UInt32) (s : σ) :
    (generateMaze choose size s).1.IsTree :=
  (Layout.grown_openCells (Layout.perfect_carveMaze choose size s)).isTree_induce

end Labyrinth
