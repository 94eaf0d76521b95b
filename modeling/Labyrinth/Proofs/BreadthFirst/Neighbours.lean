import Labyrinth.Proofs.BreadthFirst.Cells
import Labyrinth.Proofs.BreadthFirst.Text
import Labyrinth.Proofs.Machine.Ensures

/-!
# Looking around

The function `neighbours` of the template lists the open cells around a cell, together with the
names of the directions in which they lie.

## Main results

* `BreadthFirst.ensures_lookAround`: one round of its loop.
* `BreadthFirst.ensures_neighbours`: what the function returns.
-/

namespace Labyrinth

open Labyrinth.Eval

namespace BreadthFirst

attribute [local simp] Stmt.execAll Stmt.exec Arms.exec Expr.evalOrNull Expr.eval Expr.evalAll
  Pattern.bind

variable {d : Dialect} {definitions : List Definition} {maxCalls fuel depth : Nat}
  {scene : Scene} {live : List Nat} {c : Coord} {f : Nat}

/-- The elements of a list that stands for a direction. -/
def offsetItems (dir : Direction) : Array Value :=
  #[.int (Int64.ofInt dir.offset.1), .int (Int64.ofInt dir.offset.2), .str dir.name]

/-- The elements of a list that stands for an opening. -/
def openingItems (o : Direction × Coord) : Array Value :=
  #[.int o.2.x, .int o.2.y, .str o.1.name]

/-- Several values are lists with given elements, none of which is live. -/
def AreLists (h : Heap) (live : List Nat) (items : List (Array Value)) (values : List Value) :
    Prop := List.Forall₂ (fun i v => h.IsList live v i) items values

theorem AreLists.keeps {h h' : Heap} {items : List (Array Value)} {values : List Value}
    (hl : AreLists h live items values) (hk : h.Keeps live h') : AreLists h' live items values :=
  hl.imp fun _ _ hv => hv.keeps hk

/-- The directions are listed. -/
theorem ensures_offsets {setting : Setting} (hlive : scene.heap.Has live) (depth : Nat)
    (dirs : List Direction) :
    (Expr.evalAll setting (dirs.map offset)).Ensures scene fun values scene' =>
      AreLists scene'.heap live (dirs.map offsetItems) values ∧ scene.Keeps [] scene' ∧
        ∀ x, scene'.value? depth x = scene.value? depth x := by
  induction dirs generalizing scene with
  | nil => exact ensures_pure.2 ⟨.nil, .refl [] scene, fun _ => rfl⟩
  | cons dir dirs ih =>
    have hfirst : ((offset dir).eval setting).Ensures scene fun v scene' =>
        scene'.heap.IsList live v (offsetItems dir) ∧ scene.Keeps [] scene' ∧
          ∀ x, scene'.value? depth x = scene.value? depth x := by
      simp only [offset, Expr.eval, Expr.evalAll, ensures_bind, ensures_pure, ensures_compute]
      exact ⟨_, _, rfl, Heap.isList_allocList hlive _, ⟨rfl, rfl, rfl, Heap.keeps_allocList ..⟩,
        fun _ => rfl⟩
    rw [List.map_cons, Expr.evalAll, ensures_bind]
    refine hfirst.imp ?_
    rintro v scene' ⟨hv, hkeeps, hnames⟩
    rw [ensures_bind]
    refine (ih (hlive.keeps hkeeps.lists)).imp ?_
    rintro values scene'' ⟨hvalues, hkeeps', hnames'⟩
    exact ensures_pure.2 ⟨.cons (hv.keeps (hkeeps'.lists.of_nil live)) hvalues,
      hkeeps.trans hkeeps', fun x => (hnames' x).trans (hnames x)⟩

/-- A round of the loop appends the cell in one direction to the list, if it is open. -/
theorem ensures_lookAround (dir : Direction)
    (hx : scene.value? (depth + 1) "x" = some (.int c.x))
    (hy : scene.value? (depth + 1) "y" = some (.int c.y))
    (hdx : scene.value? (depth + 1) "dx" = some (.int (Int64.ofInt dir.offset.1)))
    (hdy : scene.value? (depth + 1) "dy" = some (.int (Int64.ofInt dir.offset.2)))
    (hname : scene.value? (depth + 1) "name" = some (.str dir.name))
    (hfound : scene.value? (depth + 1) "found" = some (.list f)) :
    (Stmt.execAll (settingAt definitions maxCalls fuel (depth + 1)) (lookAround d)).Ensures scene
      fun flow scene' => flow = .next ∧ scene'.stage = scene.stage ∧
        scene'.globals = scene.globals ∧
        (∀ x, x ≠ "nx" → x ≠ "ny" →
          scene'.value? (depth + 1) x = scene.value? (depth + 1) x) ∧
        scene'.heap = match scene.stage.world.grid.opening? c dir with
          | none => scene.heap
          | some c' => (scene.heap.allocList (openingItems (dir, c'))).2.modifyList f
              (·.push (.list scene.heap.lists.size)) := by
  have hnx := Heap.binary_add_int (c.checked_add_x dir)
  have hny := Heap.binary_add_int (c.checked_add_y dir)
  cases hopening : scene.stage.world.grid.opening? c dir with
  | none =>
    have hwall := World.isWall_xTo_yTo (w := scene.stage.world) (c := c) dir
    simp [lookAround, BreadthFirst.bind, hx, hy, hdx, hdy, hnx, hny, hwall, hopening]
    exact fun x hx hy => by simp [hx, hy]
  | some c' =>
    obtain ⟨hx', hy'⟩ := Coord.xTo_yTo_of_neighbor? (Grid.opening?_eq_some_iff.1 hopening).1
    have hwall : scene.stage.world.isWall c'.x.toInt c'.y.toInt = false := by
      rw [← hx', ← hy', World.isWall_xTo_yTo, hopening, Option.isNone_some]
    simp [lookAround, BreadthFirst.bind, hx, hy, hdx, hdy, hnx, hny, hwall, hname, hfound, hx',
      hy', openingItems]
    exact fun x hx hy => by simp [hx, hy]

/-- What holds of the loop over the directions that have still to be looked in. The cells that have
been found are in the list `f`, which has been made after the scene `before`. -/
structure Looking (depth : Nat) (c : Coord) (f : Nat) (live : List Nat) (before : Scene)
    (values : List Value) (scene : Scene) : Prop where
  x : scene.value? depth "x" = some (.int c.x)
  y : scene.value? depth "y" = some (.int c.y)
  found : scene.value? depth "found" = some (.list f)
  has : scene.heap.Has (f :: live)
  keeps : before.Keeps [f] scene
  openings : ∃ dirs os, AreLists scene.heap (f :: live) (dirs.map offsetItems) values ∧
    AreLists scene.heap (f :: live) (os.map openingItems) (scene.heap.list f).toList ∧
    os ++ before.stage.world.grid.openingsIn c dirs = before.stage.world.grid.openings c

/-- What a round of the loop preserves. -/
theorem Looking.round {before : Scene} {v : Value} {values : List Value}
    (h : Looking (depth + 1) c f live before (v :: values) scene) :
    ((do
      (Pattern.tuple ["dx", "dy", "name"]).bind (depth + 1) false v
      Stmt.execAll (settingAt definitions maxCalls fuel (depth + 1)) (lookAround d) :
        Eval Flow)).Ensures scene
      fun flow scene => flow = .next ∧ Looking (depth + 1) c f live before values scene := by
  obtain ⟨_ | ⟨dir, dirs⟩, os, hvalues, hos, hall⟩ := h.openings
  · cases hvalues
  obtain ⟨⟨a, rfl, -, -, ha⟩, hdirs⟩ := List.forall₂_cons.1 hvalues
  rw [ensures_bind, ensures_bind_triple ha]
  refine (ensures_lookAround (c := c) (f := f) dir ?_ ?_ ?_ ?_ ?_ ?_).imp ?_
  · simpa using h.x
  · simpa using h.y
  · simp
  · simp
  · simp
  · simpa using h.found
  rintro flow scene' ⟨rfl, hstage, hglobals, hnames, hheap⟩
  simp only [Scene.stage_bind, Scene.heap_bind, Scene.value?_bind, Scene.globals_bind]
    at hstage hglobals hnames hheap
  have hx : scene'.value? (depth + 1) "x" = some (.int c.x) := by simp [hnames, h.x]
  have hy : scene'.value? (depth + 1) "y" = some (.int c.y) := by simp [hnames, h.y]
  have hfound : scene'.value? (depth + 1) "found" = some (.list f) := by simp [hnames, h.found]
  rw [h.keeps.stage] at hheap
  -- A wall leaves the list as it is, an opening is appended to it.
  cases hopening : before.stage.world.grid.opening? c dir with
  | none =>
    rw [hopening] at hheap
    simp only at hheap
    refine ⟨rfl, hx, hy, hfound, hheap ▸ h.has, ?_, dirs, os, ?_, ?_, ?_⟩
    · exact h.keeps.trans ⟨hstage, hglobals, by rw [hheap], hheap ▸ .refl ..⟩
    · exact hheap ▸ hdirs
    · exact hheap ▸ hos
    · rw [← hall, Grid.openingsIn, Grid.openingsIn, List.filterMap_cons_none]
      rw [hopening]
      rfl
  | some c' =>
    rw [hopening] at hheap
    simp only at hheap
    have hkeeps : scene.heap.Keeps [f] scene'.heap := by
      rw [hheap]
      exact (Heap.keeps_allocList ..).trans (Heap.keeps_modifyList List.mem_cons_self ..)
    have hkept := hkeeps.mono (List.cons_subset_cons f (List.nil_subset live))
    have hnew : scene'.heap.IsList (f :: live) (.list scene.heap.lists.size)
        (openingItems (dir, c')) := by
      rw [hheap]
      exact (Heap.isList_allocList h.has _).keeps (Heap.keeps_modifyList List.mem_cons_self ..)
    have hlist : scene'.heap.list f = (scene.heap.list f).push (.list scene.heap.lists.size) := by
      have hlt := h.has f List.mem_cons_self
      rw [hheap, Heap.list_modifyList, Heap.list_allocList_of_lt hlt]
      rw [Heap.size_allocList]
      exact Nat.lt_succ_of_lt hlt
    refine ⟨rfl, hx, hy, hfound, h.has.keeps hkeeps, ?_, dirs, os ++ [(dir, c')], ?_, ?_, ?_⟩
    · exact h.keeps.trans ⟨hstage, hglobals, by rw [hheap]; rfl, hkeeps⟩
    · exact AreLists.keeps hdirs hkept
    · rw [hlist, Array.toList_push, List.map_append]
      exact List.rel_append (hos.keeps hkept) (.cons hnew .nil)
    · rw [← hall, Grid.openingsIn, Grid.openingsIn, List.filterMap_cons_some, List.append_assoc]
      · rfl
      · rw [hopening]
        rfl

/-- The function returns a list of the openings around a cell. -/
theorem ensures_neighbours (hdepth : depth < maxCalls) (hlive : scene.heap.Has live) (c : Coord) :
    (callAt definitions maxCalls (fuel + 1) depth (neighbours d) [.int c.x, .int c.y]).Ensures scene
      fun v scene' => scene.Keeps [] scene' ∧ scene'.locals = scene.locals ∧ ∃ f, v = .list f ∧
        AreLists scene'.heap live ((scene.stage.world.grid.openings c).map openingItems)
          (scene'.heap.list f).toList := by
  obtain ⟨f, hf⟩ : ∃ f, f = scene.heap.lists.size := ⟨_, rfl⟩
  have hhas := hf ▸ hlive.cons_allocList #[]
  rw [ensures_callAt rfl hdepth]
  simp [neighbours, BreadthFirst.bind]
  refine (ensures_offsets hhas (depth + 1) _).imp ?_
  rintro offsets scene₁ ⟨hoffsets, hkeeps, hnames⟩
  have hnew := Heap.keeps_allocList [] scene₁.heap offsets.toArray
  have hlists := hkeeps.lists.trans hnew
  have hempty : (scene₁.heap.allocList offsets.toArray).2.list f = #[] := by
    rw [hlists.list_eq f (hhas f List.mem_cons_self) List.not_mem_nil, hf]
    exact Heap.list_allocList_size ..
  have hbegin : Looking (depth + 1) c f live scene offsets
      (scene₁.setHeap (scene₁.heap.allocList offsets.toArray).2) := by
    refine ⟨?_, ?_, ?_, hhas.keeps hlists, ?_, Direction.all, [], ?_, ?_, List.nil_append _⟩
    · simp [hnames]
    · simp [hnames]
    · simp [hnames, hf]
    · exact ⟨hkeeps.stage, hkeeps.globals, hkeeps.maps,
        ((Heap.keeps_allocList ..).trans hlists).of_nil _⟩
    · exact hoffsets.keeps (hnew.of_nil _)
    · rw [Scene.heap_setHeap, hempty]
      exact .nil
  refine (ensures_forEach (fun _ _ _ h => h.round) hbegin).imp ?_
  rintro flow scene₂ ⟨rfl, hend⟩
  obtain ⟨dirs, os, hdirs, hos, hall⟩ := hend.openings
  obtain rfl : dirs = [] := by simpa [AreLists] using hdirs
  rw [Grid.openingsIn, List.filterMap_nil, List.append_nil] at hall
  rw [hall] at hos
  simp [hend.found]
  have hkept : scene.Keeps [] scene₂ :=
    ⟨hend.keeps.stage, hend.keeps.globals, hend.keeps.maps,
      hend.keeps.lists.of_cons (Nat.le_of_eq hf.symm)⟩
  refine ⟨⟨hkept.stage, hkept.globals, hkept.maps, hkept.lists⟩, f, rfl, ?_⟩
  exact hos.imp fun _ _ hv => hv.of_cons

end BreadthFirst

end Labyrinth
