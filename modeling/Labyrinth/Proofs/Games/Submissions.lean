import Labyrinth.Proofs.Games.Ticks

/-!
# Programs that are submitted

A program can be run at once, or it can be submitted to a game, where its run goes on with time.
Both come to the same: whatever has happened in the game before, and in whatever portions time
passes, the game tells of the same lines and of the same result, and leaves the cursor in the same
world.

## Main results

* `Program.exists_runsIn`: how often an engine is resumed when a program is run at once.
* `Game.told_apply`: between two commands, no line is left to be told of.
* `Game.applyAll_submit_eq_run`: a program that is submitted to a game.
* `Game.run_applyAll_new`: the same for every game that is played.
-/

namespace Labyrinth

/-! ### Lines and results that are told -/

/-- The line that has been printed. -/
def Event.line? : Event → Option String
  | printed line => some line
  | _ => none

/-- The result of a run that is over. -/
def Event.result? : Event → Option RunResult
  | runFinished result => some result
  | _ => none

theorem Report.filterMap_line?_events (report : Report) :
    report.events.filterMap Event.line? = report.lines := by
  have hprogress : (Game.progressEvents report.progress).filterMap Event.line? = #[] := by
    cases report.progress with
    | idle | started | moved | blocked | finished => rfl
  have hline : Event.line? ∘ Event.printed = some := rfl
  rw [events, Array.filterMap_append Array.size_append, hprogress, Array.filterMap_map, hline,
    Array.filterMap_some, Array.append_empty]

theorem Report.filterMap_result?_events (report : Report) :
    report.events.filterMap Event.result? = report.progress.result?.toArray := by
  have hline : Event.result? ∘ Event.printed = fun _ => none := rfl
  have hprogress : (Game.progressEvents report.progress).filterMap Event.result? =
      report.progress.result?.toArray := by
    cases report.progress with
    | idle | started | moved | blocked | finished => rfl
  rw [events, Array.filterMap_append Array.size_append, hprogress, Array.filterMap_map, hline]
  simp

theorem Report.filterMap_line?_allEvents (reports : List Report) :
    (allEvents reports).filterMap Event.line? = allLines reports := by
  induction reports with
  | nil => rfl
  | cons report reports ih =>
    rw [allEvents, Array.filterMap_append Array.size_append, filterMap_line?_events, ih, allLines]

theorem Report.filterMap_result?_allEvents (reports : List Report) :
    (allEvents reports).filterMap Event.result? = (results reports).toArray := by
  induction reports with
  | nil => rfl
  | cons report reports ih =>
    rw [allEvents, Array.filterMap_append Array.size_append, filterMap_result?_events, ih]
    cases hresult : report.progress.result? with
    | none => simp [results, hresult]
    | some result => simp [results, hresult]

/-- The beginning of a run is neither a line nor a result. -/
theorem Report.filterMap_runStarted (d : Dialect) (report : Report) :
    (#[Event.runStarted d] ++ report.events).filterMap Event.line? = report.lines ∧
      (#[Event.runStarted d] ++ report.events).filterMap Event.result? =
        report.progress.result?.toArray := by
  rw [Array.filterMap_append Array.size_append, Array.filterMap_append Array.size_append,
    filterMap_line?_events, filterMap_result?_events]
  exact ⟨Array.empty_append, Array.empty_append⟩

/-! ### Runs at once -/

/-- The run of a program **takes** `n` resumptions: the engine that begins it is resumed so often,
the run is over then but not before, and this is all that the run of the program does. -/
structure Program.RunsIn (p : Program) (limits : Limits) (w : World) (n : Nat) : Prop where
  ends : ((Engine.new limits).start p w).2.1.EndsAfter ((Engine.new limits).start p w).2.2 n
  result :
    let begun := (Engine.new limits).start p w
    (begun.1 :: (begun.2.1.resumed begun.2.2 n).1).filterMap Progress.result? =
      [(p.run limits w).1.result]
  output :
    let begun := (Engine.new limits).start p w
    (p.run limits w).1.output = (begun.2.1.resumed begun.2.2 n).2.1.output
  world :
    let begun := (Engine.new limits).start p w
    (p.run limits w).2 = (begun.2.1.resumed begun.2.2 n).2.2

/-- Every run takes at most one resumption more than its budget has instructions. -/
theorem Program.exists_runsIn (p : Program) (limits : Limits) (w : World) :
    ∃ n ≤ limits.budget.toNat + 1, p.RunsIn limits w n := by
  cases hcode : p.code with
  | error err =>
    have hstart : (Engine.new limits).start p w =
        (.finished (.errored err.message), .new limits, w.reset) := by
      rw [Engine.start, hcode]
      rfl
    refine ⟨0, Nat.zero_le _, ?_, ?_, ?_, ?_⟩ <;> simp only [hstart, run_of_error hcode]
    · exact Engine.endsAfter_zero rfl _
    all_goals rfl
  | ok code =>
    have hstart : (Engine.new limits).start p w =
        (.started, ⟨limits, some (.start code limits), #[]⟩, w.reset) := by
      rw [Engine.start, hcode]
      rfl
    obtain ⟨n, hle, hends⟩ :=
      Engine.exists_endsAfter ⟨limits, some (.start code limits), #[]⟩ w.reset
    obtain ⟨hdrive, hresult⟩ := Engine.drive_eq_resumed rfl hends
    refine ⟨n, hle, ?_, ?_, ?_, ?_⟩ <;> simp only [hstart, run_eq_drive hcode]
    · exact hends
    · exact hresult
    · rw [hdrive]
    · rw [hdrive]

namespace Game

/-! ### What is left to be told -/

/-- The engine of a game runs under the given limits, and all lines that it has printed have been
**told** of. -/
structure Told (limits : Limits) (g : Game) : Prop where
  limits_eq : g.engine.limits = limits
  output_eq : g.engine.output = #[]

theorem told_resumeTimes {limits : Limits} {g : Game} (h : g.Told limits) (n : Nat) :
    (g.resumeTimes n).2.Told limits :=
  ⟨(g.engine.limits_reports g.world n).trans h.limits_eq, Engine.output_reports h.output_eq _ _⟩

/-- Every command tells of the lines that are printed when it is carried out. -/
theorem told_apply {limits : Limits} {g : Game} (h : g.Told limits) (c : Command) :
    (g.apply c).2.Told limits := by
  cases c with
  | regenerate => exact ⟨h.limits_eq, h.output_eq⟩
  | reset => exact ⟨h.limits_eq, h.output_eq⟩
  | advance =>
    by_cases hwon : g.lastResult = some .win
    · rw [apply_advance_of_won hwon]
      exact ⟨h.limits_eq, h.output_eq⟩
    · rw [apply_advance_of_not_won hwon]
      exact h
  | submit p =>
    cases hcode : p.code with
    | ok code =>
      rw [apply_submit_of_code hcode]
      exact ⟨h.limits_eq, rfl⟩
    | error err =>
      rw [apply_submit_of_error hcode]
      exact ⟨h.limits_eq, rfl⟩
  | tick nanoseconds =>
    obtain ⟨r, -, hends⟩ := g.engine.exists_endsAfter g.world
    obtain ⟨n, -, time, htick, -⟩ := exists_tick_eq hends nanoseconds
    rw [apply, htick]
    obtain ⟨hlimits, houtput⟩ := told_resumeTimes h n
    exact ⟨hlimits, houtput⟩

theorem told_applyAll {limits : Limits} {g : Game} (h : g.Told limits) (commands : List Command) :
    (g.applyAll commands).2.Told limits :=
  applyAll_induction (P := fun _ g => g.Told limits) (fun _ _ c hg => told_apply hg c) h commands

theorem told_new (config : GameConfig) (saved : Option UInt32) :
    (new config saved).Told config.limits := ⟨rfl, rfl⟩

/-! ### Runs in a game -/

/-- When the run of a program that has been submitted is over, the game has told of the lines and of
the result of a run at once, and its world is that of a run at once. -/
theorem applyAll_submit_eq_run {limits : Limits} {g : Game} (h : g.Told limits) (p : Program)
    (ticks : List Nat) {w : World} (hgrid : w.grid = g.world.grid)
    (hover : (g.applyAll (.submit p :: ticks.map .tick)).2.engine.isRunning = false) :
    (g.applyAll (.submit p :: ticks.map .tick)).1.filterMap Event.line? =
        (p.run limits w).1.output ∧
      (g.applyAll (.submit p :: ticks.map .tick)).1.filterMap Event.result? =
          #[(p.run limits w).1.result] ∧
        (g.applyAll (.submit p :: ticks.map .tick)).2.world = (p.run limits w).2 := by
  have hreset : g.world.reset = w.reset := congrArg World.new hgrid.symm
  obtain ⟨r, -, hends⟩ :=
    (g.apply (.submit p)).2.engine.exists_endsAfter (g.apply (.submit p)).2.world
  obtain ⟨n, hle, time, hticks, -⟩ := exists_applyAll_tick hends ticks
  simp only [applyAll, hticks] at hover ⊢
  -- The run is over, so it has been resumed as often as it takes.
  have hends' := (hends.reports hle).eq_zero_iff.2 hover
  obtain rfl : n = r := Nat.le_antisymm hle (Nat.le_of_sub_eq_zero hends')
  rw [Array.filterMap_append Array.size_append, Array.filterMap_append Array.size_append,
    resumeTimes, Report.filterMap_line?_allEvents, Report.filterMap_result?_allEvents]
  cases hcode : p.code with
  | error err =>
    obtain ⟨hlines, hresults⟩ :=
      Report.filterMap_runStarted p.dialect ⟨g.engine.output, .finished (.errored err.message)⟩
    rw [apply_submit_of_error hcode] at hends ⊢
    obtain rfl : n = 0 := hends.eq_zero_iff.2 rfl
    rw [Program.run_of_error hcode]
    refine ⟨?_, ?_, hreset⟩
    · exact (congrArg₂ _ (hlines.trans h.output_eq) rfl).trans Array.append_empty
    · exact (congrArg₂ _ hresults rfl).trans Array.append_empty
  | ok code =>
    obtain ⟨hlines, hresults⟩ :=
      Report.filterMap_runStarted p.dialect ⟨g.engine.output, .started⟩
    rw [apply_submit_of_code hcode] at hends ⊢
    obtain ⟨hresult, houtput, hworld⟩ := Engine.drive_eq_reports rfl rfl hends
    dsimp only at hresult houtput hworld ⊢
    rw [h.limits_eq, hreset] at hresult houtput hworld ⊢
    rw [Program.run_eq_drive hcode, hresult]
    refine ⟨?_, ?_, hworld.symm⟩
    · rw [houtput]
      exact (congrArg₂ _ (hlines.trans h.output_eq) rfl).trans Array.empty_append
    · exact (congrArg₂ _ hresults rfl).trans Array.empty_append

/-- A run that is submitted has the budget of the game. -/
theorem left_apply_submit_le {limits : Limits} {g : Game} (h : g.Told limits) (p : Program) :
    (g.apply (.submit p)).2.engine.left ≤ limits.budget.toNat := by
  cases hcode : p.code with
  | error err =>
    rw [apply_submit_of_error hcode]
    exact Nat.zero_le _
  | ok code =>
    rw [apply_submit_of_code hcode, ← h.limits_eq]
    exact le_rfl

/-- The run of a program that has been submitted is over when the delay has passed once more than
its budget has instructions. -/
theorem over_applyAll_submit {limits : Limits} {g : Game} (h : g.Told limits) (p : Program)
    {ticks : List Nat} (hmax : g.delay ≤ maxTime) (hall : ∀ t ∈ ticks, g.delay ≤ t)
    (hlength : limits.budget.toNat < ticks.length) :
    (g.applyAll (.submit p :: ticks.map .tick)).2.engine.isRunning = false := by
  obtain ⟨r, hle, hends⟩ :=
    (g.apply (.submit p)).2.engine.exists_endsAfter (g.apply (.submit p)).2.world
  obtain ⟨n, hn, time, hticks, hmany⟩ := exists_applyAll_tick hends ticks
  rw [delay_apply] at hmany
  have hbudget := left_apply_submit_le h p
  have hover : r - n = 0 := by
    have hmin := hmany hmax hall
    omega
  simp only [applyAll, hticks]
  exact (hends.reports hn).eq_zero_iff.1 hover

/-- A program that is submitted to a game comes to the same lines, to the same result and to the
same world as one that is run at once, in whatever portions time passes until the run is over; and
it is over when the delay has passed often enough. To run a program at once takes at most one
resumption more than its budget has instructions. -/
theorem run_applyAll_new (config : GameConfig) (saved : Option UInt32) (commands : List Command)
    (p : Program) (ticks : List Nat) (w : World) :
    let g := ((new config saved).applyAll commands).2
    let played := g.applyAll (.submit p :: ticks.map .tick)
    let run := p.run config.limits w
    (w.grid = g.world.grid → played.2.engine.isRunning = false →
        played.1.filterMap Event.line? = run.1.output ∧
          played.1.filterMap Event.result? = #[run.1.result] ∧ played.2.world = run.2) ∧
      (config.delay ≤ maxTime → (∀ t ∈ ticks, config.delay ≤ t) →
        config.limits.budget.toNat < ticks.length → played.2.engine.isRunning = false) ∧
      ∃ n ≤ config.limits.budget.toNat + 1, p.RunsIn config.limits w n := by
  intro g played run
  have htold : g.Told config.limits := told_applyAll (told_new config saved) commands
  have hdelay : g.delay = config.delay := (savesLevel_applyAll _ commands).delay
  rw [← hdelay]
  exact ⟨applyAll_submit_eq_run htold p ticks, over_applyAll_submit htold p,
    p.exists_runsIn config.limits w⟩

/-- A program of one step is submitted when another run is dropped after its first step. The budget
ends with the instruction that comes behind the step, so the run is stopped then, in the game as
well as at once. -/
theorem run_applyAll_new_stepRight :
    let config : GameConfig := ⟨10, ⟨2, 5⟩, 7⟩
    let g := ((new config none).applyAll [.submit .stepRight, .tick 13]).2
    let played := g.applyAll (.submit .stepRight :: [10, 25, 10].map .tick)
    let run := Program.run .stepRight config.limits (.new g.world.grid)
    config.delay ≤ maxTime ∧ (∀ t ∈ [10, 25, 10], config.delay ≤ t) ∧
      config.limits.budget.toNat < [10, 25, 10].length ∧ played.2.engine.isRunning = false ∧
        played.1.filterMap Event.line? = run.1.output ∧
          played.1.filterMap Event.result? = #[run.1.result] ∧ played.2.world = run.2 := by
  intro config g played run
  have hmax : config.delay ≤ maxTime := by decide
  have hall : ∀ t ∈ [10, 25, 10], config.delay ≤ t := by decide
  have hlength : config.limits.budget.toNat < [10, 25, 10].length := by decide
  obtain ⟨hagree, hover, -⟩ := run_applyAll_new config none [.submit .stepRight, .tick 13]
    .stepRight [10, 25, 10] (.new g.world.grid)
  exact ⟨hmax, hall, hlength, hover hmax hall hlength, hagree rfl (hover hmax hall hlength)⟩

end Game

end Labyrinth
