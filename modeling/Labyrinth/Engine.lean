import Labyrinth.Language.Read
import Labyrinth.Machine
import Labyrinth.Machine.Lowering
import Labyrinth.RunResult

/-!
# Engines

An **engine** runs at most one program at a time in a world, and judges the run when it is over.
The lines that programs print are kept until they are taken, also when a run is dropped.

## Main results

* `Engine.left_resume_lt`: every step of a program uses up a part of its budget, which is why
  `Engine.drive` comes to an end.
-/

namespace Labyrinth

/-- The code of a program. -/
def Program.code (p : Program) : Except SyntaxError Code := lower <$> p.read

/-- The judgement of a program that has come to its end. -/
def World.verdict (w : World) : RunResult := if w.atExit then .win else .missed

/-- The judgement of a run by its ending. -/
def Ending.result (executed : Nat) (w : World) : Ending → RunResult
  | finished => w.verdict
  | faulted fault => .errored fault.message
  | exhausted => .budgetExhausted (UInt64.ofNat executed)

/-- An engine. -/
structure Engine where
  /-- The limits of its runs. -/
  limits : Limits
  /-- The run in progress. -/
  machine : Option Machine
  /-- The lines that have been printed and not been taken yet. -/
  output : Array String

/-- What an engine has done. -/
inductive Progress
  /-- There is no run. -/
  | idle
  /-- A run is ready to begin. -/
  | started
  /-- The cursor has moved, for the given number of times in this run. -/
  | moved (origin target : Coord) (moves : UInt32)
  /-- A wall has stopped the cursor. -/
  | blocked (cell : Coord) (d : Direction)
  /-- The run is over. -/
  | finished (result : RunResult)
  deriving DecidableEq, Repr

/-- Whether the run goes on after some progress. -/
def Progress.goesOn : Progress → Bool
  | moved .. => true
  | blocked .. => true
  | _ => false

namespace Engine

/-- An engine without a run. -/
def new (limits : Limits) : Engine := ⟨limits, none, #[]⟩

/-- Whether a run is in progress. -/
def isRunning (e : Engine) : Bool := e.machine.isSome

/-- Drops the run. -/
def cancel (e : Engine) : Engine := { e with machine := none }

/-- Takes the printed lines. -/
def takeOutput : Engine → Array String × Engine
  | ⟨limits, machine, output⟩ => (output, ⟨limits, machine, #[]⟩)

/-- Begins the run of a program in place of any other one, and resets the world. A program that
cannot be read is an error at once. -/
def start (e : Engine) (p : Program) (w : World) : Progress × Engine × World :=
  match p.code with
  | .ok code => (.started, { e with machine := some (.start code e.limits) }, w.reset)
  | .error err => (.finished (.errored err.message), e.cancel, w.reset)

/-- Resumes the run until its next step or its end. -/
def resume : Engine → World → Progress × Engine × World
  | ⟨limits, some m, output⟩, w =>
    let (step, m, w) := m.resume w
    let (lines, m) := m.takeOutput
    let output := output ++ lines
    match step with
    | .moved origin target _ => (.moved origin target w.moves, ⟨limits, some m, output⟩, w)
    | .blocked cell d => (.blocked cell d, ⟨limits, some m, output⟩, w)
    | .ended ending => (.finished (ending.result m.executed w), ⟨limits, none, output⟩, w)
  | ⟨limits, none, output⟩, w => (.idle, ⟨limits, none, output⟩, w)

/-- What is left of the budget of the run. -/
def left (e : Engine) : Nat := (e.machine.map Machine.left).getD 0

/-- Every step of a program uses up a part of its budget. -/
theorem left_resume_lt (e : Engine) (w : World) (h : (e.resume w).1.goesOn = true) :
    (e.resume w).2.1.left < e.left := by
  obtain ⟨limits, machine, output⟩ := e
  cases machine with
  | none => simp [resume, Progress.goesOn] at h
  | some m =>
    have hm := m.left_resume_lt w
    generalize hr : m.resume w = r at hm
    obtain ⟨step, m', w'⟩ := r
    cases step <;> simp_all [resume, Progress.goesOn, left, Step.isEnding, Machine.takeOutput]

/-- Resumes the run until its end and judges it. -/
def drive (e : Engine) (w : World) : RunResult × Engine × World :=
  match h : e.resume w with
  | (.moved origin target moves, e', w') =>
    have : e'.left < e.left := by
      simpa [h] using e.left_resume_lt w (by simp [h, Progress.goesOn])
    drive e' w'
  | (.blocked cell d, e', w') =>
    have : e'.left < e.left := by
      simpa [h] using e.left_resume_lt w (by simp [h, Progress.goesOn])
    drive e' w'
  | (.finished result, e, w) => (result, e, w)
  | (_, e, w) => (w.verdict, e, w)
termination_by e.left

end Engine

/-- A run and what it has printed. -/
structure RunOutcome where
  result : RunResult
  output : Array String
  deriving DecidableEq, Repr

/-- Runs a program from its beginning to its end in a world that has been reset. -/
def Program.run (p : Program) (limits : Limits) (w : World) : RunOutcome × World :=
  match (Engine.new limits).start p w with
  | (.finished result, e, w) => (⟨result, e.output⟩, w)
  | (_, e, w) =>
    let (result, e, w) := e.drive w
    (⟨result, e.output⟩, w)

end Labyrinth
