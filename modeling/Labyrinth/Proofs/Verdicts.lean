import Labyrinth.Proofs.Machine.Runs
import Labyrinth.Proofs.Walks

/-!
# Verdicts

However a program is written, it can win only by walking from the start to the exit: all that a
machine can do to a world is to make a step, and it is judged in the world that its steps have
led to.

## Main results

* `Machine.honest_after`: whatever a machine runs, the trail stays a walk from the start.
* `Machine.Stops.unique`: a machine stops with one ending and in one world.
* `Engine.stops_drive`: a run is judged by the ending with which its machine stops.
* `Program.fairlyJudged_run`: the judgement of every run.
-/

namespace Labyrinth

namespace Machine

/-! ### What a machine does to the world -/

/-- A machine that is resumed makes one step and reports its outcome, or it ends and leaves the
world as it is. -/
theorem step_or_ended (m : Machine) (w : World) :
    (∃ d, (m.resume w).1 = .ofMove d (w.step d).1 ∧ (m.resume w).2.2 = (w.step d).2) ∨
      ∃ ending, (m.resume w).1 = .ended ending ∧ (m.resume w).2.2 = w := by
  obtain ⟨code, limits, phase, left, output⟩ := m
  cases phase with
  | ended ending => exact .inr ⟨ending, rfl, rfl⟩
  | running s =>
    unfold resume
    dsimp only
    split
    · rename_i ending _ _ _
      exact .inr ⟨ending, rfl, rfl⟩
    · rename_i d _ _ _ _
      exact .inl ⟨d, rfl, rfl⟩

/-- All that a machine can do to a world is to make a step. -/
theorem world_resume (m : Machine) (w : World) :
    (m.resume w).2.2 = w ∨ ∃ d, (m.resume w).2.2 = (w.step d).2 := by
  obtain ⟨d, -, hworld⟩ | ⟨ending, -, hworld⟩ := m.step_or_ended w
  · exact .inr ⟨d, hworld⟩
  · exact .inl hworld

theorem grid_resume (m : Machine) (w : World) : (m.resume w).2.2.grid = w.grid := by
  obtain heq | ⟨d, heq⟩ := m.world_resume w
  · rw [heq]
  · rw [heq, World.grid_step]

theorem honest_resume {w : World} (h : w.Honest) (m : Machine) :
    (m.resume w).2.2.Honest ∧ (m.resume w).2.2.grid = w.grid := by
  refine ⟨?_, m.grid_resume w⟩
  obtain heq | ⟨d, heq⟩ := m.world_resume w
  · rwa [heq]
  · rw [heq]
    exact World.honest_step h d

/-- Whatever a machine runs, the trail stays a walk from the start. -/
theorem honest_after {w : World} (h : w.Honest) (m : Machine) (n : Nat) :
    (m.after w n).2.Honest ∧ (m.after w n).2.grid = w.grid := by
  induction n with
  | zero => exact ⟨h, rfl⟩
  | succ n ih =>
    obtain ⟨hhonest, hgrid⟩ := honest_resume ih.1 (m.after w n).1
    exact ⟨hhonest, hgrid.trans ih.2⟩

/-! ### Where a machine stops -/

/-- A machine **stops** with an ending in a world if it reports the ending there after it has been
resumed a number of times. -/
def Stops (m : Machine) (w : World) (ending : Ending) (final : World) : Prop :=
  ∃ n m', (m.after w n).1.resume (m.after w n).2 = (.ended ending, m', final)

theorem resume_of_ended {m m' : Machine} {w w' : World} {ending : Ending}
    (h : m.resume w = (.ended ending, m', w')) : m'.resume w' = (.ended ending, m', w') := by
  refine resume_ended ?_ w'
  obtain ⟨code, limits, phase, left, output⟩ := m
  cases phase with
  | ended e =>
    cases h
    rfl
  | running s =>
    unfold resume at h
    dsimp only at h
    split at h
    · cases h
      rfl
    · rename_i d s' _ _ _
      generalize w.step d = r at h
      obtain ⟨move, w''⟩ := r
      cases move with
      | moved => cases h
      | blocked => cases h

/-- A machine that has stopped reports the same ever after. -/
theorem resume_after_of_le {m m' : Machine} {w final : World} {ending : Ending} {n k : Nat}
    (h : (m.after w n).1.resume (m.after w n).2 = (.ended ending, m', final)) (hle : n ≤ k) :
    ∃ m'', (m.after w k).1.resume (m.after w k).2 = (.ended ending, m'', final) := by
  induction k, hle using Nat.le_induction with
  | base => exact ⟨m', h⟩
  | succ k _ ih =>
    obtain ⟨m'', hk⟩ := ih
    refine ⟨m'', ?_⟩
    rw [after, hk]
    exact resume_of_ended hk

/-- A machine stops with one ending and in one world. -/
theorem Stops.unique {m : Machine} {w final final' : World} {ending ending' : Ending}
    (h : m.Stops w ending final) (h' : m.Stops w ending' final') :
    ending = ending' ∧ final = final' := by
  obtain ⟨n, _, hn⟩ := h
  obtain ⟨k, _, hk⟩ := h'
  obtain ⟨_, hn⟩ := resume_after_of_le hn (Nat.le_max_left n k)
  obtain ⟨_, hk⟩ := resume_after_of_le hk (Nat.le_max_right n k)
  rw [hn] at hk
  cases hk
  exact ⟨rfl, rfl⟩

theorem Stops.honest {m : Machine} {w final : World} {ending : Ending} (hw : w.Honest)
    (h : m.Stops w ending final) : final.Honest ∧ final.grid = w.grid := by
  obtain ⟨n, m', hn⟩ := h
  have hafter := honest_after hw m (n + 1)
  rwa [after, hn] at hafter

/-! ### What has been printed does not matter -/

/-- The machine with other lines that have not been taken yet. -/
def withOutput (m : Machine) (output : Array String) : Machine := { m with output := output }

theorem advance_output (code : Code) (maxCalls : Nat) (w : World) (left : Nat)
    (output output' : Array String) (s : State) :
    ∃ lines, advance code maxCalls w left output' s =
      ((advance code maxCalls w left output s).1, (advance code maxCalls w left output s).2.1,
        lines) := by
  fun_induction advance code maxCalls w left output s generalizing output' with
  | case1 => exact ⟨output', rfl⟩
  | case2 _ _ _ _ hnext ih =>
    rw [advance, hnext]
    exact ih output'
  | case3 _ _ _ line _ hnext ih =>
    rw [advance, hnext]
    exact ih (output'.push line)
  | case4 _ _ _ _ _ hnext =>
    rw [advance, hnext]
    exact ⟨output', rfl⟩
  | case5 _ _ _ _ hnext =>
    rw [advance, hnext]
    exact ⟨output', rfl⟩
  | case6 _ _ _ _ hnext =>
    rw [advance, hnext]
    exact ⟨output', rfl⟩

theorem resume_withOutput (m : Machine) (output : Array String) (w : World) :
    ∃ output', (m.withOutput output).resume w =
      ((m.resume w).1, (m.resume w).2.1.withOutput output', (m.resume w).2.2) := by
  obtain ⟨code, limits, phase, left, output₀⟩ := m
  cases phase with
  | ended ending => exact ⟨output, rfl⟩
  | running s =>
    obtain ⟨lines, hadvance⟩ := advance_output code limits.maxCalls w left output₀ output s
    refine ⟨lines, ?_⟩
    simp only [withOutput, resume, hadvance]
    generalize advance code limits.maxCalls w left output₀ s = r
    obtain ⟨pause, rest⟩ := r
    cases pause with
    | ended ending => rfl
    | move d s' => rfl

theorem after_withOutput (m : Machine) (output : Array String) (w : World) (n : Nat) :
    ∃ output', (m.withOutput output).after w n =
      ((m.after w n).1.withOutput output', (m.after w n).2) := by
  induction n with
  | zero => exact ⟨output, rfl⟩
  | succ n ih =>
    obtain ⟨output₁, h₁⟩ := ih
    obtain ⟨output₂, h₂⟩ := resume_withOutput (m.after w n).1 output₁ (m.after w n).2
    exact ⟨output₂, by rw [after, h₁, h₂]; rfl⟩

theorem stops_of_withOutput {m : Machine} {output : Array String} {w final : World}
    {ending : Ending} (h : (m.withOutput output).Stops w ending final) :
    m.Stops w ending final := by
  obtain ⟨n, m', hn⟩ := h
  obtain ⟨output₁, h₁⟩ := after_withOutput m output w n
  obtain ⟨output₂, h₂⟩ := resume_withOutput (m.after w n).1 output₁ (m.after w n).2
  rw [h₁, h₂] at hn
  simp only [Prod.mk.injEq] at hn
  exact ⟨n, (resume (m.after w n).1 (m.after w n).2).2.1, Prod.ext hn.1 (Prod.ext rfl hn.2.2)⟩

theorem after_succ' (m : Machine) (w : World) (n : Nat) :
    m.after w (n + 1) = (m.resume w).2.1.after (m.resume w).2.2 n := by
  induction n with
  | zero => rfl
  | succ n ih => rw [after, ih]; rfl

/-- A machine that goes on stops where it stops after it has been resumed. -/
theorem stops_of_resume {m : Machine} {w final : World} {ending : Ending}
    (h : (m.resume w).2.1.Stops (m.resume w).2.2 ending final) : m.Stops w ending final := by
  obtain ⟨n, m', hn⟩ := h
  exact ⟨n + 1, m', by rw [after_succ', hn]⟩

end Machine

/-! ### Judgements -/

/-- Only who stands on the exit wins. -/
theorem Ending.atExit_of_win {ending : Ending} {executed : Nat} {w : World}
    (h : ending.result executed w = .win) : w.atExit = true := by
  cases ending with
  | finished =>
    by_contra hexit
    rw [result, World.verdict, if_neg hexit] at h
    cases h
  | faulted | exhausted => cases h

theorem Step.exists_ending {step : Step} (h : step.isEnding = true) :
    ∃ ending, step = .ended ending := by
  cases step with
  | ended ending => exact ⟨ending, rfl⟩
  | moved | blocked => cases h

namespace Engine

variable {m m' : Machine} {w w' : World} (limits : Limits) (output : Array String)

theorem resume_of_ended {ending : Ending} (h : m.resume w = (.ended ending, m', w')) :
    (Engine.mk limits (some m) output).resume w =
      (.finished (ending.result m'.executed w'), ⟨limits, none, output ++ m'.output⟩, w') := by
  simp only [resume, h, Machine.takeOutput]
  rfl

theorem resume_of_step {step : Step} (hstep : step.isEnding = false)
    (h : m.resume w = (step, m', w')) :
    ∃ progress : Progress, progress.goesOn = true ∧
      (Engine.mk limits (some m) output).resume w =
        (progress, ⟨limits, some (m'.withOutput #[]), output ++ m'.output⟩, w') := by
  cases step with
  | ended ending => cases hstep
  | moved origin target d =>
    refine ⟨.moved origin target w'.moves, rfl, ?_⟩
    simp only [resume, h, Machine.takeOutput]
    rfl
  | blocked cell d =>
    refine ⟨.blocked cell d, rfl, ?_⟩
    simp only [resume, h, Machine.takeOutput]
    rfl

theorem drive_of_finished {e : Engine} {result : RunResult}
    (h : (e.resume w).1 = .finished result) : e.drive w = (result, (e.resume w).2) := by
  rw [drive]
  split
  · next heq =>
    rw [heq] at h
    cases h
  · next heq =>
    rw [heq] at h
    cases h
  · next heq =>
    rw [heq] at h ⊢
    cases h
    rfl
  · next hfinished heq =>
    rw [heq] at h
    exact absurd h (hfinished result)

theorem drive_of_goesOn {e : Engine} (h : (e.resume w).1.goesOn = true) :
    e.drive w = (e.resume w).2.1.drive (e.resume w).2.2 := by
  rw [drive]
  split
  · next heq => simp only [heq]
  · next heq => simp only [heq]
  · next heq =>
    rw [heq] at h
    cases h
  · next progress _ _ hmoved hblocked _ heq =>
    rw [heq] at h
    cases progress with
    | moved => exact absurd rfl (hmoved _ _ _)
    | blocked => exact absurd rfl (hblocked _ _)
    | idle | started | finished => cases h

theorem drive_of_ended {ending : Ending} (h : m.resume w = (.ended ending, m', w')) :
    (Engine.mk limits (some m) output).drive w =
      (ending.result m'.executed w', ⟨limits, none, output ++ m'.output⟩, w') := by
  have hresume := resume_of_ended limits output h
  rw [drive_of_finished (congrArg Prod.fst hresume), hresume]

theorem drive_of_step {step : Step} (hstep : step.isEnding = false)
    (h : m.resume w = (step, m', w')) :
    (Engine.mk limits (some m) output).drive w =
      (Engine.mk limits (some (m'.withOutput #[])) (output ++ m'.output)).drive w' := by
  obtain ⟨progress, hgoes, hresume⟩ := resume_of_step limits output hstep h
  rw [drive_of_goesOn (by rw [hresume]; exact hgoes), hresume]

/-- A run is judged by the ending with which its machine stops, in the world in which it stops. -/
theorem stops_drive (limits : Limits) (m : Machine) (output : Array String) (w : World) :
    ∃ ending executed, m.Stops w ending ((Engine.mk limits (some m) output).drive w).2.2 ∧
      ((Engine.mk limits (some m) output).drive w).1 =
        ending.result executed ((Engine.mk limits (some m) output).drive w).2.2 := by
  induction hleft : m.left using Nat.strong_induction_on generalizing m output w with
  | _ left ih =>
    have hlt := m.left_resume_lt w
    cases hresume : m.resume w with
    | mk step rest =>
      obtain ⟨m', w'⟩ := rest
      rw [hresume] at hlt
      cases hstep : step.isEnding with
      | true =>
        obtain ⟨ending, rfl⟩ := Step.exists_ending hstep
        rw [drive_of_ended limits output hresume]
        exact ⟨ending, m'.executed, ⟨0, m', hresume⟩, rfl⟩
      | false =>
        rw [drive_of_step limits output hstep hresume]
        obtain ⟨ending, executed, hstops, hresult⟩ :=
          ih m'.left (hleft ▸ hlt hstep) (m'.withOutput #[]) (output ++ m'.output) w' rfl
        refine ⟨ending, executed, Machine.stops_of_resume ?_, hresult⟩
        rw [hresume]
        exact Machine.stops_of_withOutput hstops

end Engine

/-- Runs a code from its first instruction in a world that is reset, and judges the run. -/
def Code.judge (code : Code) (limits : Limits) (w : World) : RunResult × World :=
  let (result, _, final) := Engine.drive ⟨limits, some (.start code limits), #[]⟩ w.reset
  (result, final)

/-- The result of a run through a grid and its final world are **fair** if they are those that the
run deserves by the ending with which it stops, and by the world in which it does so. -/
structure FairlyJudged (g : Grid) (stops : Ending → World → Prop) (result : RunResult)
    (final : World) : Prop where
  /-- Whoever wins has walked from the start to the exit. -/
  walk : result = .win → g.IsWalk g.start g.exit final.trail.toList
  /-- Nobody wins where there is no walk to the exit. -/
  joined : ¬g.Joined g.start g.exit → result ≠ .win
  win_iff : result = .win ↔ stops .finished final ∧ final.cursor = g.exit
  failed_iff : (∃ reason, result = .failed reason) ↔ stops .finished final ∧ final.cursor ≠ g.exit
  /-- A run that has not come to the end of its program is neither won nor failed. -/
  unfinished : ∀ ending final', stops ending final' → ending ≠ .finished →
    result ≠ .win ∧ ∀ reason, result ≠ .failed reason

theorem fairlyJudged_result {g : Grid} {stops : Ending → World → Prop} {ending : Ending}
    (executed : Nat) {final : World} (hstops : stops ending final)
    (hunique : ∀ ending' final', stops ending' final' → ending' = ending)
    (hhonest : final.Honest) (hgrid : final.grid = g) :
    FairlyJudged g stops (ending.result executed final) final := by
  subst hgrid
  have hwin : ending.result executed final = .win ↔
      stops .finished final ∧ final.cursor = final.grid.exit := by
    cases ending with
    | finished =>
      by_cases hexit : final.cursor = final.grid.exit <;>
        simp [Ending.result, World.verdict, World.atExit, RunResult.missed, hexit, hstops]
    | faulted | exhausted =>
      refine iff_of_false nofun fun h => ?_
      cases hunique _ _ h.1
  have hwalk (h : ending.result executed final = .win) :
      final.grid.IsWalk final.grid.start final.grid.exit final.trail.toList :=
    (hwin.1 h).2 ▸ hhonest
  refine ⟨hwalk, fun hjoined h => hjoined ⟨_, hwalk h⟩, hwin, ?_, ?_⟩
  · cases ending with
    | finished =>
      by_cases hexit : final.cursor = final.grid.exit <;>
        simp [Ending.result, World.verdict, World.atExit, RunResult.missed, hexit, hstops]
    | faulted | exhausted =>
      refine iff_of_false (by simp [Ending.result]) fun h => ?_
      cases hunique _ _ h.1
  · intro ending' final' h hne
    rw [hunique _ _ h] at hne
    cases ending with
    | finished => exact absurd rfl hne
    | faulted | exhausted => simp [Ending.result]

theorem Code.fairlyJudged_judge (code : Code) (limits : Limits) (w : World) :
    FairlyJudged w.grid ((Machine.start code limits).Stops w.reset) (code.judge limits w).1
      (code.judge limits w).2 := by
  obtain ⟨ending, executed, hstops, hresult⟩ :=
    Engine.stops_drive limits (.start code limits) #[] w.reset
  obtain ⟨hhonest, hgrid⟩ := hstops.honest w.honest_reset
  have hfair := fairlyJudged_result executed hstops
    (fun _ _ h => (h.unique hstops).1) hhonest hgrid
  rwa [← hresult] at hfair

/-- A program that can be read is run by an engine of its own. -/
theorem Program.run_eq_drive {p : Program} {code : Code} (h : p.code = .ok code) (limits : Limits)
    (w : World) :
    let run := Engine.drive ⟨limits, some (.start code limits), #[]⟩ w.reset
    p.run limits w = (⟨run.1, run.2.1.output⟩, run.2.2) := by
  rw [Program.run, Engine.start, h]
  rfl

theorem Program.run_of_error {p : Program} {err : SyntaxError} (h : p.code = .error err)
    (limits : Limits) (w : World) : p.run limits w = (⟨.errored err.message, #[]⟩, w.reset) := by
  rw [Program.run, Engine.start, h]
  rfl

/-- No program can cheat. Whatever code is run, and whatever program is read, the run is won exactly
if it comes to its end on the exit, and failed exactly if it comes to its end elsewhere; and whoever
wins has walked from the start to the exit. -/
theorem Program.fairlyJudged_run (limits : Limits) (w : World) :
    (∀ code : Code, FairlyJudged w.grid ((Machine.start code limits).Stops w.reset)
        (code.judge limits w).1 (code.judge limits w).2) ∧
      ∀ p : Program, FairlyJudged w.grid
        (fun ending final => ∃ code, p.code = .ok code ∧
          (Machine.start code limits).Stops w.reset ending final)
        (p.run limits w).1.result (p.run limits w).2 := by
  refine ⟨fun code => code.fairlyJudged_judge limits w, fun p => ?_⟩
  cases hcode : p.code with
  | error err =>
    rw [Program.run_of_error hcode]
    exact ⟨nofun, fun _ => nofun, by simp, by simp, by simp⟩
  | ok code =>
    rw [Program.run_eq_drive hcode]
    simpa [Code.judge] using code.fairlyJudged_judge limits w

end Labyrinth
