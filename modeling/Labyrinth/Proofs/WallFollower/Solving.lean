import Labyrinth.Proofs.BreadthFirst.Solving
import Labyrinth.Proofs.WallFollower.Walking

/-!
# The wall follower comes to the exit

In every maze whose open cells form a tree, as those of all generated mazes do, the run of the wall
follower is won, after two moves at most for every open cell but one, and without a blocked step.

## Main results

* `Stage.exists_tour`: a walker who finds the exit makes as many moves as it takes him.
* `WallFollower.escapes_run`: how the run of the template is judged.
-/

namespace Labyrinth

namespace Stage

variable {g : Stage} {dir : Direction} {s : Walker} {n rounds : Nat}

theorem onward_of_onward? (h : g.world.grid.onward? ⟨g.world.cursor, dir⟩ = some s) :
    g.onward dir = (g.apply (.move s.heading), s.heading) := by
  have hfind := (Grid.onward?_eq_some_iff.1 h).1
  rw [onward, hfind]

/-- Where nothing is done, no move is made. -/
theorem Walked.refl (hhonest : g.world.Honest) (hcounted : g.world.Counted) :
    Walked g g.world.cursor 0 g :=
  ⟨rfl, rfl, hhonest, hcounted, rfl, [], by simp⟩

/-- A walker who finds the exit makes a move in every round before. -/
theorem exists_tour (h : g.world.grid.follow? n ⟨g.world.cursor, dir⟩ = some s)
    (hexit : s.cell = g.world.grid.exit) (hhonest : g.world.Honest) (hcounted : g.world.Counted)
    (hrounds : n < rounds) :
    ∃ g', g.tour rounds dir = some g' ∧ ∃ m ≤ n, Walked g g.world.grid.exit m g' := by
  induction n generalizing g dir rounds with
  | zero =>
    obtain ⟨rounds, rfl⟩ := Nat.exists_eq_succ_of_ne_zero (Nat.ne_zero_of_lt hrounds)
    obtain rfl := Option.some.inj h
    have hat : g.world.atExit = true := beq_iff_eq.2 hexit
    exact ⟨g, if_pos hat, 0, Nat.le_refl 0, hexit ▸ .refl hhonest hcounted⟩
  | succ n ih =>
    obtain ⟨rounds, rfl⟩ := Nat.exists_eq_succ_of_ne_zero (Nat.ne_zero_of_lt hrounds)
    obtain ⟨s', hs', hrest⟩ := Option.bind_eq_some_iff.1 h
    by_cases hat : g.world.atExit = true
    · exact ⟨g, if_pos hat, 0, Nat.zero_le _, beq_iff_eq.1 hat ▸ .refl hhonest hcounted⟩
    · have hfirst := walked_move (Grid.onward?_eq_some_iff.1 hs').2 hhonest hcounted
      have hgrid := hfirst.grid
      have hwalker : s' = ⟨(g.apply (.move s'.heading)).world.cursor, s'.heading⟩ := by
        rw [hfirst.cursor]
      rw [hwalker, ← hgrid] at hrest
      obtain ⟨g', hg', m, hm, hwalked⟩ := ih hrest (hgrid ▸ hexit) hfirst.honest hfirst.counted
        (Nat.lt_of_succ_lt_succ hrounds)
      refine ⟨g', ?_, 1 + m, by omega, hfirst.trans (hgrid ▸ hwalked)⟩
      rw [tour, if_neg hat, onward_of_onward? hs']
      exact hg'

end Stage

namespace WallFollower

/-- A run **escapes** from a maze if it is won with few moves, none of which is blocked. -/
structure Escapes (w : World) (result : RunResult) (final : World) (deeds : List Deed) : Prop where
  result : result = .win
  /-- Nothing is done but the moves, and none of them is blocked. -/
  moves : ∀ deed ∈ deeds, deed.isMove = true
  /-- No passage between two cells is taken more than once in each direction. -/
  length_le : deeds.length ≤ 2 * (w.grid.openCells.ncard - 1)
  /-- The way that has been taken leads to the exit. -/
  walk : w.grid.IsWalk w.grid.start w.grid.exit final.trail.toList
  /-- There are as many moves as the way is long. -/
  length_deeds : deeds.length + 1 = final.trail.size
  /-- The moves are counted, up to the largest count. -/
  counted : final.moves.toNat = min (final.trail.size - 1) 4294967295

/-- Whoever has walked to the exit in time escapes. -/
theorem escapes_of_walked {w : World} {g : Stage} {n : Nat}
    (h : Stage.Walked ⟨w.reset, []⟩ w.grid.exit n g)
    (hn : n ≤ 2 * (w.grid.openCells.ncard - 1)) : Escapes w g.world.verdict g.world g.deeds := by
  have hgrid : g.world.grid = w.grid := h.grid
  have hsize : g.world.trail.size = 1 + n := h.size_trail
  obtain ⟨deeds, hdeeds, hlength, hmoves⟩ := h.deeds
  rw [List.nil_append] at hdeeds
  subst hdeeds
  have hhonest := h.honest
  rw [World.Honest, hgrid, h.cursor] at hhonest
  refine ⟨?_, hmoves, hlength.trans_le hn, hhonest, ?_, h.counted⟩
  · simp [World.verdict, World.atExit, hgrid, h.cursor]
  · rw [hlength, hsize, Nat.add_comm]

/-- The run of the template escapes from every maze whose open cells form a tree, whichever dialect
it is written in. A call must be allowed, and the budget must not be used up, for which it only has
to be large. -/
theorem escapes_run (d : Dialect) {maxCalls : Nat} (hcalls : 1 ≤ maxCalls) {w : World}
    (htree : w.grid.IsTree) :
    (∃ n, ∀ budget : UInt64, n < budget.toNat → ∀ executed,
        ((Template.wallFollower.program d).run ⟨budget, maxCalls⟩ w).1.result ≠
          .budgetExhausted executed) ∧
      ∃ code, (Template.wallFollower.program d).code = .ok code ∧ ∀ budget : UInt64,
        (∀ executed, ((Template.wallFollower.program d).run ⟨budget, maxCalls⟩ w).1.result ≠
          .budgetExhausted executed) →
        Escapes w ((Template.wallFollower.program d).run ⟨budget, maxCalls⟩ w).1.result
          ((Template.wallFollower.program d).run ⟨budget, maxCalls⟩ w).2
          ((Machine.start code ⟨budget, maxCalls⟩).play ⟨w.reset, []⟩).deeds := by
  obtain ⟨n, hn, s, hs, hexit⟩ := Grid.exists_follow?_exit htree .right
  obtain ⟨g, htour, m, hm, hwalked⟩ := Stage.exists_tour (g := ⟨w.reset, []⟩) hs hexit
    w.honest_reset (World.counted_new w.grid) (Nat.lt_succ_self n)
  have hevaluate := evaluate_tree d hcalls (n + 1) w.reset
  rw [htour, Option.map_some] at hevaluate
  obtain ⟨hbudget, code, hcode, hruns⟩ := Program.run_of_finished (read_program d) hevaluate
  refine ⟨hbudget, code, hcode, fun budget hended => ?_⟩
  obtain ⟨hresult, hfinal, hdeeds⟩ := hruns budget hended
  rw [hresult, hfinal, hdeeds]
  exact escapes_of_walked hwalked (hm.trans hn)

/-- The two open cells of the corridor form a tree. -/
theorem isTree_corridor : World.corridor.grid.IsTree := by
  have hopen : World.corridor.grid.openCells = {⟨1, 0⟩, ⟨0, 0⟩} := by
    ext c
    constructor
    · intro hc
      obtain ⟨column, row⟩ := c
      have htwo {n : UInt32} (hn : n < 2) : n = 0 ∨ n = 1 := by
        rw [UInt32.lt_iff_toNat_lt] at hn
        rw [← UInt32.toNat_inj, ← UInt32.toNat_inj]
        exact Nat.le_one_iff_eq_zero_or_eq_one.1 (Nat.le_of_lt_succ hn)
      rcases htwo hc.1.1 with rfl | rfl <;> rcases htwo hc.1.2 with rfl | rfl
      · exact .inr rfl
      · exact absurd hc.2 (by decide)
      · exact .inl rfl
      · exact absurd hc.2 (by decide)
    · rintro (rfl | rfl) <;> exact ⟨by constructor <;> decide, by decide⟩
  have hgrown : Grown Coord.plane ⟨0, 0⟩ World.corridor.grid.openCells := by
    rw [hopen]
    refine .sprout .root (by decide) rfl (.inr ⟨rfl, .inl rfl⟩) ?_
    rintro r rfl -
    rfl
  exact hgrown.isTree_induce

theorem escapes_run_corridor :
    (1 ≤ 1 ∧ World.corridor.grid.IsTree) ∧
      (∀ executed, ((Template.wallFollower.program .indented).run ⟨1000, 1⟩ .corridor).1.result ≠
        .budgetExhausted executed) ∧
      ∃ code, (Template.wallFollower.program .indented).code = .ok code ∧
        Escapes .corridor ((Template.wallFollower.program .indented).run ⟨1000, 1⟩
          .corridor).1.result
          ((Template.wallFollower.program .indented).run ⟨1000, 1⟩ .corridor).2
          ((Machine.start code ⟨1000, 1⟩).play ⟨World.corridor.reset, []⟩).deeds := by
  have hbudget : ∀ executed,
      ((Template.wallFollower.program .indented).run ⟨1000, 1⟩ .corridor).1.result ≠
        .budgetExhausted executed :=
    Program.not_budgetExhausted (read_program .indented) (by decide +kernel)
  obtain ⟨-, code, hcode, hescapes⟩ := escapes_run .indented (Nat.le_refl 1) isTree_corridor
  exact ⟨⟨Nat.le_refl 1, isTree_corridor⟩, hbudget, code, hcode, hescapes 1000 hbudget⟩

end WallFollower

end Labyrinth
