import Labyrinth.Proofs.BreadthFirst.Solving
import Labyrinth.Proofs.Machine.Agreement
import Labyrinth.Proofs.Machine.Normalization
import Labyrinth.Proofs.Machine.Raising
import Labyrinth.Proofs.WallFollower.Walking

/-!
# The spellings of a template

Whichever spelling of a template is run, and also if the indented one is normalized before, the run
has the same result, prints the same lines and leaves the same world, unless a budget is used up.
This holds under all limits: where calls are refused, both spellings fail at the first call that is.

## Main results

* `WallFollower.evaluate_tree_zero`, `BreadthFirst.evaluate_tree_of_lt_two`: what the templates do
  where their calls are refused.
* `Template.exists_evaluate_eq`: both spellings of a template mean the same.
* `Template.parse_normalized`: what a template is normalized to is read again.
* `Template.run_program_eq`: all spellings of a template have the same runs.
-/

namespace Labyrinth

open Labyrinth.Eval

/-! ### Calls that are refused -/

/-- No run begins on the exit. -/
theorem World.not_atExit_reset (w : World) : w.reset.atExit = false := by
  simpa [World.atExit, World.reset, World.new] using w.grid.start_ne_exit

namespace WallFollower

open BreadthFirst (coordinate ensures_coordinate)

variable {d : Dialect} {fuel : Nat} {scene : Scene} {dir : Direction} {g : Stage} {w : World}

/-- Where no call is allowed, it cannot be told whether there is an opening. -/
theorem Stands.raises_tryTurn (h : Stands g dir scene) {n : Int64} {dir' : Direction}
    (hn : LeadsTo dir n dir') :
    ((do
      (Pattern.single "turn").bind 0 false (.int n)
      Stmt.execAll (settingAt (definitions d) 0 (fuel + 1) 0) (tryTurn d) :
        Eval Flow)).Raises scene .recursionDepth g := by
  have hturned := h.ensures_candidate (d := d) (settingAt (definitions d) 0 (fuel + 1) 0) rfl hn
  refine raises_bind (hturned.imp fun _ _ hcandidate => raises_bind (hcandidate.imp ?_))
  rintro _ scene' ⟨rfl, hstands, hvalue⟩
  obtain ⟨p, hp, hx, hy⟩ := hstands.position
  have hcall :
      ((Expr.call (openName d) [coordinate d "x", coordinate d "y", .name "candidate"]).eval
        (settingAt (definitions d) 0 (fuel + 1) 0)).Raises scene' .recursionDepth g := by
    simp only [Expr.eval, settingAt_definitions, find?_openTowards]
    refine raises_bind ?_
    simp [Expr.eval, Expr.evalAll, ensures_coordinate (value?_of_globals hp) hx,
      ensures_coordinate (value?_of_globals hp) hy, hvalue]
    exact hstands.stage ▸ raises_callAt_of_le rfl (Nat.le_refl 0)
  exact Raises.execAll (hcall.bind _) []

/-- Where no call is allowed, the first round fails. -/
theorem Stands.raises_round (h : Stands g dir scene) :
    (Stmt.execAll (settingAt (definitions d) 0 (fuel + 1) 0) (round d)).Raises scene
      .recursionDepth g := by
  have hkeeps := h.keeps (Heap.keeps_allocList [] scene.heap (turns.map Value.int).toArray) rfl
  cases hleads : leadsTo_turns dir with
  | cons hn _ =>
    refine Raises.execAll ?_ _
    rw [Stmt.exec, ← bind_assoc]
    refine raises_bind (ensures_bind.2 (ensures_turns.2 ?_))
    exact (hkeeps.raises_tryTurn hn).forEach _

/-- What the tree of the program means where no call is allowed. -/
theorem evaluate_tree_zero (d : Dialect) (fuel : Nat) (hexit : w.atExit = false) :
    evaluate (fuel + 1) 0 (tree d) w = some ⟨[], .faulted .recursionDepth, w⟩ := by
  obtain ⟨_, scene, hstart, rfl, hstands⟩ :=
    ensures_start (d := d) (w := w) (settingAt (definitions d) 0 (fuel + 1) 0) rfl
  have hloop : ((loop d).exec (settingAt (definitions d) 0 (fuel + 1) 0)).Raises scene
      .recursionDepth ⟨w, []⟩ := by
    refine Raises.repeatWhile ((hstands.ensures_goesOn (d := d) 0 (fuel + 1)).imp ?_) fuel
    rintro _ scene' ⟨rfl, rfl⟩
    exact ⟨by rw [hexit]; rfl, hstands.raises_round⟩
  refine evaluate_of_raises ?_
  rw [allDefinitions_tree]
  exact Raises.append hstart (hloop.execAll [])

end WallFollower

namespace BreadthFirst

variable {d : Dialect} {maxCalls fuel q m : Nat} {scene : Scene} {g : Stage} {w : World}

/-- Where no call is allowed within another one, the cells around the start cannot be found. -/
theorem Mirrors.raises_round (h : Mirrors d 1 q m g (Search.start g.world.grid) scene) :
    (Stmt.execAll (settingAt (definitions d) 1 (fuel + 1) 1) (BreadthFirst.round d)).Raises scene
      .recursionDepth g := by
  rw [BreadthFirst.round, Stmt.execAll]
  refine raises_bind (h.ensures_take.imp ?_)
  rintro _ begin ⟨rfl, hprolongs⟩
  obtain ⟨a, hvalue, b, hb, hlt, -, ha⟩ := hprolongs.current
  obtain rfl : a = b := by simpa using hb
  rw [Stmt.execAll]
  refine raises_bind ?_
  have hexit :
      begin.stage.world.isExit g.world.grid.start.x.toInt g.world.grid.start.y.toInt = false := by
    rw [World.isExit_x_y, hprolongs.stage]
    exact beq_false_of_ne (Grid.start_ne_exit _)
  simp [Stmt.exec, Arms.exec, Expr.eval, Expr.evalAll, ensures_column hvalue ha,
    ensures_row hvalue ha, hexit]
  refine Raises.execAll ?_ []
  rw [Stmt.exec]
  refine Raises.bind ?_ _
  simp only [Expr.eval, settingAt_definitions, find?_neighbours]
  refine raises_bind ?_
  simp [Expr.evalAll, ensures_column hvalue ha, ensures_row hvalue ha]
  exact hprolongs.stage ▸ raises_callAt_of_le rfl (Nat.le_refl 1)

/-- What the tree of the program means where no call is allowed within another one. -/
theorem evaluate_tree_of_lt_two (d : Dialect) (fuel : Nat) (hcalls : maxCalls < 2)
    (hposition : w.position = w.grid.start) :
    evaluate (fuel + 2) maxCalls (tree d) w = some ⟨[], .faulted .recursionDepth, w⟩ := by
  have hsearch : (callAt (definitions d) maxCalls (fuel + 2) 0 (search d) []).Raises (.init w)
      .recursionDepth ⟨w, []⟩ := by
    obtain rfl | rfl : maxCalls = 0 ∨ maxCalls = 1 := by omega
    · exact raises_callAt_of_le rfl (Nat.le_refl 0)
    · have hprepared : (Stmt.execAll (settingAt (definitions d) 1 (fuel + 1) 1)
          (preparations d)).Ensures ((Scene.init w).setLocals []) _ :=
        ensures_preparations rfl hposition
      obtain ⟨_, begin, hprepared, rfl, q, m, hmirrors⟩ := hprepared
      refine Raises.callAt rfl Nat.zero_lt_one ?_
      rw [body_search]
      refine Raises.append hprepared (Raises.execAll ?_ _)
      rw [Stmt.exec]
      refine Raises.repeatWhile ?_ fuel
      rw [ensures_isWaiting hmirrors.queue, hmirrors.size_queue]
      exact ⟨rfl, hmirrors.raises_round⟩
  have hlast : ((Stmt.expr (.call "follow" [.call (searchName d) []])).exec
      (settingAt (definitions d) maxCalls (fuel + 2) 0)).Raises (.init w) .recursionDepth
        ⟨w, []⟩ := by
    have hcall : ((Expr.call (searchName d) []).eval
        (settingAt (definitions d) maxCalls (fuel + 2) 0)).Raises (.init w) .recursionDepth
          ⟨w, []⟩ := by
      simp only [Expr.eval, settingAt_definitions, find?_search]
      exact raises_bind (ensures_pure.2 hsearch)
    simp only [Stmt.exec, Expr.eval, settingAt_definitions, find?_follow]
    exact ((hcall.bind _).bind _).bind _
  refine evaluate_of_raises ?_
  rw [allDefinitions_tree]
  refine Raises.append ?_ (hlast.execAll [])
  cases d <;> rfl

end BreadthFirst

/-! ### Both spellings -/

namespace Template

/-- The tree into which a spelling of the template is read. -/
def tree : Template → Dialect → List Stmt
  | breadthFirst => BreadthFirst.tree
  | wallFollower => WallFollower.tree

theorem read_program (t : Template) (d : Dialect) : (t.program d).read = .ok (t.tree d) :=
  match t with
  | breadthFirst => BreadthFirst.read_program d
  | wallFollower => WallFollower.read_program d

/-- Both spellings of a template mean the same, with as much fuel as one likes. -/
theorem exists_evaluate_eq (t : Template) (d d' : Dialect) (maxCalls : Nat) (w : World) (n : Nat) :
    ∃ fuel ≥ n, evaluate fuel maxCalls (t.tree d) w.reset =
      evaluate fuel maxCalls (t.tree d') w.reset := by
  cases t with
  | breadthFirst =>
    have hposition : w.reset.position = w.reset.grid.start := rfl
    have hn := Nat.le_max_left n w.grid.cells.size
    have hcells := Nat.le_max_right n w.grid.cells.size
    refine ⟨max n w.grid.cells.size + 2, Nat.le_add_right_of_le hn, ?_⟩
    rcases Nat.lt_or_ge maxCalls 2 with hcalls | hcalls
    · exact (BreadthFirst.evaluate_tree_of_lt_two d _ hcalls hposition).trans
        (BreadthFirst.evaluate_tree_of_lt_two d' _ hcalls hposition).symm
    · exact (BreadthFirst.evaluate_tree_route d hcalls hposition hcells).trans
        (BreadthFirst.evaluate_tree_route d' hcalls hposition hcells).symm
  | wallFollower =>
    refine ⟨n + 1, Nat.le_succ n, ?_⟩
    rcases Nat.eq_zero_or_pos maxCalls with rfl | hcalls
    · exact (WallFollower.evaluate_tree_zero d n w.not_atExit_reset).trans
        (WallFollower.evaluate_tree_zero d' n w.not_atExit_reset).symm
    · exact (WallFollower.evaluate_tree d hcalls _ _).trans
        (WallFollower.evaluate_tree d' hcalls _ _).symm

set_option maxRecDepth 100000 in
/-- What a template is normalized to is read again, without the comments. -/
theorem parse_normalized (t : Template) :
    Braced.parse (Braced.print (t.tree .indented)) =
      .ok (Stmt.allUncommented (Stmt.reboundAll [] (t.tree .indented))) :=
  match t with
  | breadthFirst => Braced.parse_unlines 3000 (by decide +kernel)
  | wallFollower => Braced.parse_unlines 3000 (by decide +kernel)

/-- Unless the budget is used up, both spellings of a template have the same runs, and so has what
the indented one is normalized to: the result, the lines that are printed and the world that is left
are the same under all limits and on every grid. -/
theorem run_program_eq (t : Template) {limits : Limits} {w : World}
    (hindented : ∀ executed,
      ((t.program .indented).run limits w).1.result ≠ .budgetExhausted executed)
    (hbraced : ∀ executed,
      ((t.program .braced).run limits w).1.result ≠ .budgetExhausted executed) :
    (t.program .braced).run limits w = (t.program .indented).run limits w ∧
      ∃ text, Braced.normalize (t.program .indented).source = .ok text ∧
        Program.run ⟨.braced, text⟩ limits w = (t.program .indented).run limits w := by
  have hread := t.read_program .indented
  refine ⟨?_, Braced.print (t.tree .indented), ?_, ?_⟩
  · exact Program.run_eq_of_evaluate (t.read_program .braced) hread
      (t.exists_evaluate_eq .braced .indented limits.maxCalls w) hbraced hindented
  · rw [Braced.normalize]
    exact congrArg _ hread
  · obtain ⟨hwf, -⟩ := Program.wellFormed_of_read hread
    exact Program.run_print hread (Stmt.reassignsAll_of_indented hwf) t.parse_normalized limits w

theorem run_program_eq_corridor :
    (∀ executed, ((wallFollower.program .indented).run ⟨1000, 1⟩ .corridor).1.result ≠
        .budgetExhausted executed) ∧
      (∀ executed, ((wallFollower.program .braced).run ⟨1000, 1⟩ .corridor).1.result ≠
        .budgetExhausted executed) ∧
      (wallFollower.program .braced).run ⟨1000, 1⟩ .corridor =
        (wallFollower.program .indented).run ⟨1000, 1⟩ .corridor ∧
      ∃ text, Braced.normalize (wallFollower.program .indented).source = .ok text ∧
        Program.run ⟨.braced, text⟩ ⟨1000, 1⟩ .corridor =
          (wallFollower.program .indented).run ⟨1000, 1⟩ .corridor := by
  have hended (d : Dialect) (executed : UInt64) :
      ((wallFollower.program d).run ⟨1000, 1⟩ .corridor).1.result ≠ .budgetExhausted executed := by
    refine Program.not_budgetExhausted (WallFollower.read_program d) ?_ executed
    cases d <;> decide +kernel
  exact ⟨hended .indented, hended .braced,
    run_program_eq wallFollower (hended .indented) (hended .braced)⟩

end Template

end Labyrinth
