import Labyrinth.Proofs.BreadthFirst.Searching
import Labyrinth.Proofs.Machine.Judgements
import Labyrinth.Proofs.Trails

/-!
# The template finds a shortest way

In every maze the run of the breadth-first template is won on a shortest way, without a blocked
step; where the exit cannot be reached, no step is tried.

## Main results

* `Stage.walked_of_destination?`: steps that are possible are made.
* `BreadthFirst.evaluate_tree_route`: what the tree of the template means.
* `BreadthFirst.solves_run`: how the run of the template is judged.
-/

namespace Labyrinth

open Labyrinth.Eval

/-! ### Steps that are possible -/

/-- Whether a deed is a step that has not been blocked. -/
def Deed.isMove : Deed → Bool
  | .tried (.moved ..) => true
  | _ => false

namespace Stage

/-- One stage comes from another one by so many moves, after which the cursor stands on a cell. -/
structure Walked (g : Stage) (c : Coord) (n : Nat) (g' : Stage) : Prop where
  grid : g'.world.grid = g.world.grid
  cursor : g'.world.cursor = c
  honest : g'.world.Honest
  counted : g'.world.Counted
  size_trail : g'.world.trail.size = g.world.trail.size + n
  deeds : ∃ deeds, g'.deeds = g.deeds ++ deeds ∧ deeds.length = n ∧
    ∀ deed ∈ deeds, deed.isMove = true

/-- A step into an opening is made. -/
theorem walked_move {g : Stage} {c : Coord} {dir : Direction}
    (h : g.world.grid.opening? g.world.cursor dir = some c) (hhonest : g.world.Honest)
    (hcounted : g.world.Counted) : Walked g c 1 (g.apply (.move dir)) := by
  obtain ⟨hneighbor, hwall⟩ := Grid.opening?_eq_some_iff.1 h
  have hstep : g.world.step dir = (.moved g.world.cursor c, g.world.enter c) := by
    simp [World.step, hneighbor, hwall]
  have hworld : (g.apply (.move dir)).world = (g.world.step dir).2 := rfl
  refine ⟨?_, ?_, ?_, ?_, ?_, ?_⟩
  · exact g.world.grid_step dir
  · rw [hworld, hstep]
    rfl
  · exact World.honest_step hhonest dir
  · exact World.counted_step hcounted hhonest dir
  · rw [hworld, hstep]
    exact Array.size_push _
  · refine ⟨[.tried (.moved g.world.cursor c dir)], ?_, rfl, by simp [Deed.isMove]⟩
    simp [apply, hstep, Step.ofMove]

theorem Walked.trans {g g' g'' : Stage} {c c' : Coord} {m n : Nat} (h : Walked g c m g')
    (h' : Walked g' c' n g'') : Walked g c' (m + n) g'' := by
  obtain ⟨deeds, hdeeds, hlength, hmoves⟩ := h.deeds
  obtain ⟨deeds', hdeeds', hlength', hmoves'⟩ := h'.deeds
  refine ⟨h'.grid.trans h.grid, h'.cursor, h'.honest, h'.counted, ?_, deeds ++ deeds', ?_, ?_, ?_⟩
  · rw [h'.size_trail, h.size_trail, Nat.add_assoc]
  · rw [hdeeds', hdeeds, List.append_assoc]
  · rw [List.length_append, hlength, hlength']
  · exact List.forall_mem_append.2 ⟨hmoves, hmoves'⟩

/-- Steps that are possible are made, one after the other. -/
theorem walked_of_destination? {g : Stage} {c : Coord} {steps : List Direction}
    (h : g.world.grid.destination? g.world.cursor steps = some c) (hhonest : g.world.Honest)
    (hcounted : g.world.Counted) : Walked g c steps.length (g.walk steps) := by
  induction steps generalizing g with
  | nil => exact ⟨rfl, Option.some.inj h, hhonest, hcounted, rfl, [], by simp [walk]⟩
  | cons dir steps ih =>
    rw [Grid.destination?_cons] at h
    obtain ⟨c', hc', hrest⟩ := Option.bind_eq_some_iff.1 h
    have hfirst := walked_move hc' hhonest hcounted
    rw [← hfirst.grid, ← hfirst.cursor] at hrest
    rw [List.length_cons, Nat.add_comm]
    exact hfirst.trans (ih hrest hfirst.honest hfirst.counted)

end Stage

/-! ### The program -/

namespace BreadthFirst

variable {d : Dialect} {maxCalls : Nat} {w : World}

/-- The last statement of the program makes the steps to which the search leads. -/
theorem ensures_tree {fuel : Nat} (hcalls : 2 ≤ maxCalls) (hposition : w.position = w.grid.start)
    (hfuel : w.grid.cells.size ≤ fuel) :
    (Stmt.execAll (settingAt (definitions d) maxCalls (fuel + 2) 0) (tree d)).Ensures (.init w)
      fun _ scene =>
        scene.stage = Stage.walk ⟨w, []⟩ (Search.route w.grid (fuel + 1) (.start w.grid)) := by
  have hinit : (Scene.init w).stage = ⟨w, []⟩ := rfl
  have hcall : ((Expr.call "follow" [.call (searchName d) []]).eval
      (settingAt (definitions d) maxCalls (fuel + 2) 0)).Ensures (.init w) fun _ scene =>
        scene.stage = Stage.walk ⟨w, []⟩ (Search.route w.grid (fuel + 1) (.start w.grid)) := by
    simp [Expr.eval, Expr.evalAll, find?_search, find?_follow]
    refine (ensures_search hcalls hinit hposition hfuel).imp ?_
    rintro v scene ⟨hstage, r, rfl, hnames⟩
    refine (ensures_follow (Nat.lt_of_succ_lt hcalls) hnames).imp fun v scene' h => ?_
    rw [h, hstage]
  cases d <;> simpa [tree, comments, definitions, Stmt.execAll, Stmt.exec] using hcall

/-- What the tree of the program means, whichever spelling it has been read from: the steps to which
the search leads. -/
theorem evaluate_tree_route (d : Dialect) {fuel : Nat} (hcalls : 2 ≤ maxCalls)
    (hposition : w.position = w.grid.start) (hfuel : w.grid.cells.size ≤ fuel) :
    evaluate (fuel + 2) maxCalls (tree d) w =
      (let g := Stage.walk ⟨w, []⟩ (Search.route w.grid (fuel + 1) (.start w.grid))
       some ⟨g.deeds, .finished, g.world⟩) := by
  obtain ⟨flow, scene, hdone, hstage⟩ := ensures_tree (d := d) hcalls hposition hfuel
  simp only [evaluate, allDefinitions_tree, hdone, hstage]

/-- Those are the steps of a route. -/
theorem evaluate_tree (d : Dialect) (hcalls : 2 ≤ maxCalls) (hposition : w.position = w.grid.start)
    (hcells : w.grid.cells.size < 9223372036854775808) :
    ∃ steps, w.grid.IsRoute steps ∧
      evaluate (w.grid.cells.size + 2) maxCalls (tree d) w =
        some ⟨(Stage.walk ⟨w, []⟩ steps).deeds, .finished, (Stage.walk ⟨w, []⟩ steps).world⟩ := by
  refine ⟨_, ?_, evaluate_tree_route d hcalls hposition (Nat.le_refl _)⟩
  exact (Search.ready_start _).isRoute_route hcells (by simp [Search.start])

/-- A run **solves** a maze if it is won on a shortest way, without a blocked step, wherever the
exit can be reached, and tries no step where it cannot. -/
structure Solves (w : World) (result : RunResult) (final : World) (deeds : List Deed) : Prop where
  result_of_joined : w.grid.Joined w.grid.start w.grid.exit → result = .win
  /-- The way that has been taken leads to the exit. -/
  walk : w.grid.Joined w.grid.start w.grid.exit →
    w.grid.IsWalk w.grid.start w.grid.exit final.trail.toList
  /-- There is no shorter one. -/
  shortest : ∀ cells, w.grid.IsWalk w.grid.start w.grid.exit cells →
    final.trail.size ≤ cells.length
  /-- Nothing is done but the moves, and none of them is blocked. -/
  moves : ∀ deed ∈ deeds, deed.isMove = true
  /-- There are as many moves as the way is long. -/
  length_deeds : deeds.length + 1 = final.trail.size
  /-- The moves are counted, up to the largest count. -/
  counted : final.moves.toNat = min (final.trail.size - 1) 4294967295
  result_of_not_joined : ¬w.grid.Joined w.grid.start w.grid.exit → result = .missed
  /-- Where the exit cannot be reached, nothing has happened. -/
  reset_of_not_joined : ¬w.grid.Joined w.grid.start w.grid.exit → deeds = [] ∧ final = w.reset

/-- Whoever takes the steps of a route solves the maze. -/
theorem solves_of_isRoute {steps : List Direction} (h : w.grid.IsRoute steps) :
    Solves w (Stage.walk ⟨w.reset, []⟩ steps).world.verdict
      (Stage.walk ⟨w.reset, []⟩ steps).world (Stage.walk ⟨w.reset, []⟩ steps).deeds := by
  rcases h with ⟨hexit, hmin⟩ | ⟨rfl, hnone⟩
  · have hwalked : Stage.Walked ⟨w.reset, []⟩ w.grid.exit steps.length
        (Stage.walk ⟨w.reset, []⟩ steps) :=
      Stage.walked_of_destination? hexit w.honest_reset (World.counted_new w.grid)
    -- From here on it does not matter how the steps are made.
    generalize Stage.walk ⟨w.reset, []⟩ steps = g at hwalked ⊢
    have hgrid : g.world.grid = w.grid := hwalked.grid
    have hwalk : w.grid.IsWalk w.grid.start w.grid.exit g.world.trail.toList := by
      have hhonest := hwalked.honest
      rwa [World.Honest, hgrid, hwalked.cursor] at hhonest
    have hjoined : w.grid.Joined w.grid.start w.grid.exit := ⟨_, hwalk⟩
    have hsize : g.world.trail.size = 1 + steps.length := hwalked.size_trail
    obtain ⟨deeds, hdeeds, hlength, hmoves⟩ := hwalked.deeds
    rw [List.nil_append] at hdeeds
    refine ⟨fun _ => ?_, fun _ => hwalk, fun cells hcells => ?_, hdeeds ▸ hmoves, ?_,
      hwalked.counted, fun hnot => absurd hjoined hnot, fun hnot => absurd hjoined hnot⟩
    · simp [World.verdict, World.atExit, hgrid, hwalked.cursor]
    · obtain ⟨others, hothers, hcount⟩ := Grid.exists_destination?_of_isWalk hcells
      have hle := hmin others hothers
      omega
    · rw [hdeeds, hlength, hsize, Nat.add_comm]
  · have hnot : ¬w.grid.Joined w.grid.start w.grid.exit := by
      rintro ⟨cells, hcells⟩
      obtain ⟨others, hothers, -⟩ := Grid.exists_destination?_of_isWalk hcells
      exact hnone others hothers
    have hverdict : (Stage.walk ⟨w.reset, []⟩ []).world.verdict = .missed := by
      have hne : w.grid.start ≠ w.grid.exit := fun h => hnone [] (congrArg some h)
      exact if_neg (by simpa [Stage.walk, World.atExit, World.reset, World.new] using hne)
    refine ⟨fun h => absurd h hnot, fun h => absurd h hnot,
      fun cells hcells => absurd ⟨cells, hcells⟩ hnot, by simp [Stage.walk], rfl,
      World.counted_new w.grid, fun _ => hverdict, fun _ => ⟨rfl, rfl⟩⟩

/-- The run of the template solves every maze, whichever dialect it is written in. A call must be
allowed within another one, and the budget must not be used up, for which it only has to be large.
The bound on the cells is that of the lengths of lists, which are signed integers of 64 bits; no
array that fits into a memory exceeds it. -/
theorem solves_run (d : Dialect) {maxCalls : Nat} (hcalls : 2 ≤ maxCalls) {w : World}
    (hcells : w.grid.cells.size < 9223372036854775808) :
    (∃ n, ∀ budget : UInt64, n < budget.toNat → ∀ executed,
        ((Template.breadthFirst.program d).run ⟨budget, maxCalls⟩ w).1.result ≠
          .budgetExhausted executed) ∧
      ∃ code, (Template.breadthFirst.program d).code = .ok code ∧ ∀ budget : UInt64,
        (∀ executed, ((Template.breadthFirst.program d).run ⟨budget, maxCalls⟩ w).1.result ≠
          .budgetExhausted executed) →
        Solves w ((Template.breadthFirst.program d).run ⟨budget, maxCalls⟩ w).1.result
          ((Template.breadthFirst.program d).run ⟨budget, maxCalls⟩ w).2
          ((Machine.start code ⟨budget, maxCalls⟩).play ⟨w.reset, []⟩).deeds := by
  obtain ⟨steps, hroute, hevaluate⟩ := evaluate_tree (w := w.reset) d hcalls rfl hcells
  have hsolves := solves_of_isRoute (w := w) hroute
  obtain ⟨n, hn⟩ := Program.run_of_evaluate (read_program d) hevaluate
  refine ⟨⟨n, fun budget hbudget executed hresult => ?_⟩, lower (tree d), ?_,
    fun budget hbudget => ?_⟩
  · rcases hn budget with ⟨hle, -⟩ | ⟨-, ⟨_, hjudged⟩, -⟩
    · exact absurd hbudget (Nat.not_lt_of_le hle)
    · rw [hjudged, Ending.result, World.verdict] at hresult
      split at hresult <;> cases hresult
  · rw [Program.code, read_program]
    rfl
  · rcases hn budget with ⟨-, executed, hexhausted⟩ | ⟨hplayed, ⟨_, hjudged⟩, hfinal⟩
    · exact absurd hexhausted (hbudget executed)
    · rw [hjudged, hfinal, hplayed]
      exact hsolves

theorem solves_run_corridor :
    (2 ≤ 2 ∧ World.corridor.grid.cells.size < 9223372036854775808) ∧
      (∀ executed, ((Template.breadthFirst.program .braced).run ⟨1000, 2⟩ .corridor).1.result ≠
        .budgetExhausted executed) ∧
      ∃ code, (Template.breadthFirst.program .braced).code = .ok code ∧
        Solves .corridor ((Template.breadthFirst.program .braced).run ⟨1000, 2⟩ .corridor).1.result
          ((Template.breadthFirst.program .braced).run ⟨1000, 2⟩ .corridor).2
          ((Machine.start code ⟨1000, 2⟩).play ⟨World.corridor.reset, []⟩).deeds := by
  have hcode : (Template.breadthFirst.program .braced).code = .ok (lower (tree .braced)) := by
    rw [Program.code, read_program]
    rfl
  have hended : (playOut (lower (tree .braced)) 2 1000 .init
      ⟨World.corridor.reset, []⟩).ending ≠ .exhausted := by decide +kernel
  have hbudget (executed : UInt64) :
      ((Template.breadthFirst.program .braced).run ⟨1000, 2⟩ .corridor).1.result ≠
        .budgetExhausted executed := by
    intro h
    refine hended ?_
    rw [← Machine.play_eq_playOut _ ⟨1000, 2⟩]
    exact (Program.budgetExhausted_iff hcode ⟨1000, 2⟩ .corridor).1 ⟨executed, h⟩
  have hcells : World.corridor.grid.cells.size < 9223372036854775808 := by decide
  obtain ⟨-, code, hcode, hsolves⟩ := solves_run .braced (Nat.le_refl 2) hcells
  exact ⟨⟨Nat.le_refl 2, hcells⟩, hbudget, code, hcode, hsolves 1000 hbudget⟩

end BreadthFirst

end Labyrinth
