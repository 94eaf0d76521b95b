import Labyrinth.Engine
import Labyrinth.Game.Level
import Labyrinth.Maze.Source

/-!
# Games

A **game** leads a player through the levels. It owns the world of the current maze, the engine
that runs the player's programs in it, and the level that has been saved last. All changes are
**commands**; what they bring about is told by **events**.

Programs move on with time: a run makes one step whenever the **delay** has passed. Times are
counted in nanoseconds.

## Main results

* `Game.apply_advance_of_not_won`: without a win, nobody advances.
-/

namespace Labyrinth

/-- The longest time that can be counted. -/
def maxTime : Nat := 18446744073709551615 * 1000000000 + 999999999

/-- What a player can ask for. -/
inductive Command
  /-- Another maze of the same level. -/
  | regenerate
  /-- The next level, which a win unlocks. -/
  | advance
  /-- The end of the run, with the cursor back on the start. -/
  | reset
  /-- The run of a program. -/
  | submit (p : Program)
  /-- The passing of time. -/
  | tick (nanoseconds : Nat)
  deriving DecidableEq, Repr

/-- What happens in a game. -/
inductive Event
  | mazeGenerated (level size : UInt32) (start exit : Coord)
  | runStarted (d : Dialect)
  | cursorMoved (origin target : Coord) (moves : UInt32)
  | moveBlocked (cell : Coord) (d : Direction)
  | printed (line : String)
  | runFinished (result : RunResult)
  | runReset
  | levelAdvanced (level size : UInt32)
  | advanceRejected
  deriving DecidableEq, Repr

/-- A game. -/
structure Game where
  level : Level
  world : World
  engine : Engine
  source : MazeSource
  /-- The number of the level that has been saved last. -/
  saved : Option UInt32
  /-- The time between two steps of a run. -/
  delay : Nat
  /-- The time that has passed since the last step. -/
  waited : Nat
  /-- The result of the last run, until something else is begun. -/
  lastResult : Option RunResult

/-- How a game is set up. -/
structure GameConfig where
  /-- The time between two steps of a run, in nanoseconds. -/
  delay : Nat
  limits : Limits
  /-- The seed of the mazes. -/
  seed : UInt64
  deriving DecidableEq, Repr

namespace Game

/-- A new game, which begins with the level that has been saved. -/
def new (config : GameConfig) (saved : Option UInt32) : Game :=
  let level := Level.ofNumber (saved.getD 1)
  let (grid, source) := (MazeSource.ofSeed config.seed).generate level.number level.size
  { level, world := .new grid, engine := .new config.limits, source, saved, delay := config.delay,
    waited := 0, lastResult := none }

/-- Drops the run and its result. -/
def clearRun (g : Game) : Game :=
  { g with engine := g.engine.cancel, waited := 0, lastResult := none }

/-- Puts another maze of the current level into place. -/
def regenerate (g : Game) : Array Event × Game :=
  let g := g.clearRun
  let (grid, source) := g.source.generate g.level.number g.level.size
  (#[.mazeGenerated g.level.number g.level.size grid.start grid.exit],
    { g with world := g.world.replace grid, source })

/-- The events of some progress, without the printed lines. -/
def progressEvents : Progress → Array Event
  | .idle => #[]
  | .started => #[]
  | .moved origin target moves => #[.cursorMoved origin target moves]
  | .blocked cell d => #[.moveBlocked cell d]
  | .finished result => #[.runFinished result]

/-- Takes note of what the engine has done: the lines it has printed, then its progress. -/
def record (progress : Progress) : Game → Array Event × Game
  | ⟨level, world, engine, source, saved, delay, waited, lastResult⟩ =>
    let (lines, engine) := engine.takeOutput
    let events := lines.map Event.printed ++ progressEvents progress
    match progress with
    | .finished result => (events, ⟨level, world, engine, source, saved, delay, 0, some result⟩)
    | _ => (events, ⟨level, world, engine, source, saved, delay, waited, lastResult⟩)

/-- Lets the run make one step. -/
def resume : Game → Array Event × Game
  | ⟨level, world, engine, source, saved, delay, waited, lastResult⟩ =>
    let (progress, engine, world) := engine.resume world
    record progress ⟨level, world, engine, source, saved, delay, waited, lastResult⟩

/-- Takes a step's time off the time that has passed. -/
def spend (g : Game) : Game := { g with waited := g.waited - g.delay }

theorem waited_record_le (progress : Progress) (g : Game) :
    (g.record progress).2.waited ≤ g.waited := by
  obtain ⟨level, world, engine, source, saved, delay, waited, lastResult⟩ := g
  cases progress <;> simp [record]

theorem waited_resume_spend_le (g : Game) : g.spend.resume.2.waited ≤ g.waited - g.delay :=
  waited_record_le _ _

/-- Lets the run make steps as long as enough time has passed. The events come behind the given
ones. -/
def steps (events : Array Event) (g : Game) : Array Event × Game :=
  if h : g.engine.isRunning ∧ 0 < g.delay ∧ g.delay ≤ g.waited then
    match hr : g.spend.resume with
    | (further, g') =>
      have : g'.waited < g.waited := by
        have hle : g'.waited ≤ g.waited - g.delay := by
          simpa [hr] using g.waited_resume_spend_le
        omega
      steps (events ++ further) g'
  else (events, g)
termination_by g.waited

/-- Lets time pass. Without a delay, every passing of time is good for one step. -/
def tick (nanoseconds : Nat) (g : Game) : Array Event × Game :=
  if g.engine.isRunning then
    if g.delay = 0 then g.resume
    else steps #[] { g with waited := min (g.waited + nanoseconds) maxTime }
  else (#[], { g with waited := 0 })

/-- Carries out a command. -/
def apply (g : Game) : Command → Array Event × Game
  | .regenerate => g.regenerate
  | .advance =>
    if g.lastResult.any RunResult.isWin then
      let level := g.level.next
      let (events, g) := regenerate { g with level, saved := some level.number }
      (#[.levelAdvanced level.number level.size] ++ events, g)
    else (#[.advanceRejected], g)
  | .reset =>
    let g := g.clearRun
    (#[.runReset], { g with world := g.world.reset })
  | .submit p =>
    let g := g.clearRun
    let (progress, engine, world) := g.engine.start p g.world
    let (events, g) := record progress { g with engine, world }
    (#[.runStarted p.dialect] ++ events, g)
  | .tick nanoseconds => g.tick nanoseconds

/-- Without a win, nobody advances. -/
theorem apply_advance_of_not_won {g : Game} (h : g.lastResult ≠ some .win) :
    g.apply .advance = (#[.advanceRejected], g) := by
  have hw : g.lastResult.any RunResult.isWin = false := by
    cases hl : g.lastResult with
    | none => rfl
    | some r => cases r <;> simp_all [RunResult.isWin]
  simp [apply, hw]

end Game

end Labyrinth
