import Labyrinth.Machine.Execute

/-!
# The machine

A **machine** runs the code of a program until it wants to make a step, then pauses; it is
resumed for the rest. The **budget** of a run is the number of instructions that it may execute.
What is left of it decreases with every instruction, so every run ends or pauses.

## Main results

* `Machine.resume_ended`: a machine that has ended stays as it is.
* `Machine.left_resume_lt`: every step of a program uses up a part of its budget.
-/

namespace Labyrinth

/-- The limits of a run. -/
structure Limits where
  /-- How many instructions may be executed. -/
  budget : UInt64
  /-- How many calls may be in progress at once. -/
  maxCalls : Nat
  deriving DecidableEq, Repr

/-- The limits of runs for which none are given. -/
def Limits.default : Limits := ⟨5000000, 200⟩

/-- How a run has ended. -/
inductive Ending
  /-- The program has come to its end. -/
  | finished
  | faulted (fault : Fault)
  /-- The budget is used up. -/
  | exhausted
  deriving DecidableEq, Repr

/-- Why the machine has stopped executing instructions. -/
inductive Pause
  | ended (ending : Ending)
  /-- It wants to make a step and then to go on from a state. -/
  | move (d : Direction) (s : State)

/-- Executes instructions until the program pauses or ends, at most `left` of them. The result
also tells what is left of the budget, and what has been printed behind the given lines. -/
def advance (code : Code) (maxCalls : Nat) (w : World) :
    (left : Nat) → (output : Array String) → State → Pause × Nat × Array String
  | 0, output, _ => (.ended .exhausted, 0, output)
  | left + 1, output, s =>
    match s.next code maxCalls w with
    | .ok (.none, s) => advance code maxCalls w left output s
    | .ok (.print line, s) => advance code maxCalls w left (output.push line) s
    | .ok (.move d, s) => (.move d s, left, output)
    | .ok (.halt, _) => (.ended .finished, left, output)
    | .error fault => (.ended (.faulted fault), left, output)

theorem advance_left_le (code : Code) (maxCalls : Nat) (w : World) (left : Nat)
    (output : Array String) (s : State) :
    (advance code maxCalls w left output s).2.1 ≤ left := by
  fun_induction advance code maxCalls w left output s <;> grind

/-- A program that pauses has executed an instruction, namely the step. -/
theorem advance_left_lt {code : Code} {maxCalls : Nat} {w : World} {left left' : Nat}
    {output output' : Array String} {s s' : State} {d : Direction}
    (h : advance code maxCalls w left output s = (.move d s', left', output')) :
    left' < left := by
  fun_induction advance code maxCalls w left output s <;> grind

/-- Where a machine stands. -/
inductive Phase
  | running (s : State)
  | ended (ending : Ending)

/-- A program that is being run. -/
structure Machine where
  code : Code
  limits : Limits
  phase : Phase
  /-- What is left of the budget. -/
  left : Nat
  /-- The lines that have been printed and not been taken yet. -/
  output : Array String

/-- What a machine does when it is resumed. -/
inductive Step
  /-- The cursor went from one cell to the next. -/
  | moved (origin target : Coord) (d : Direction)
  /-- A wall stopped the cursor. -/
  | blocked (cell : Coord) (d : Direction)
  /-- The run has ended. -/
  | ended (ending : Ending)
  deriving DecidableEq, Repr

/-- The outcome of an attempt to step. -/
def Step.ofMove (d : Direction) : Move → Step
  | .moved origin target => .moved origin target d
  | .blocked cell => .blocked cell d

/-- Whether the run has ended. -/
def Step.isEnding : Step → Bool
  | ended _ => true
  | _ => false

namespace Machine

/-- A machine before its first instruction. -/
def start (code : Code) (limits : Limits) : Machine :=
  ⟨code, limits, .running .init, limits.budget.toNat, #[]⟩

/-- The number of instructions executed so far. -/
def executed (m : Machine) : Nat := m.limits.budget.toNat - m.left

/-- Takes the printed lines. -/
def takeOutput : Machine → Array String × Machine
  | ⟨code, limits, phase, left, output⟩ => (output, ⟨code, limits, phase, left, #[]⟩)

/-- Runs the program until it makes its next step or ends. -/
def resume : Machine → World → Step × Machine × World
  | ⟨code, limits, .running s, left, output⟩, w =>
    match advance code limits.maxCalls w left output s with
    | (.ended ending, left, output) =>
      (.ended ending, ⟨code, limits, .ended ending, left, output⟩, w)
    | (.move d s, left, output) =>
      let (move, w) := w.step d
      (.ofMove d move, ⟨code, limits, .running s, left, output⟩, w)
  | ⟨code, limits, .ended ending, left, output⟩, w =>
    (.ended ending, ⟨code, limits, .ended ending, left, output⟩, w)

/-- Every step of a program uses up a part of its budget. -/
theorem left_resume_lt (m : Machine) (w : World) (h : (m.resume w).1.isEnding = false) :
    (m.resume w).2.1.left < m.left := by
  obtain ⟨code, limits, phase, left, output⟩ := m
  cases phase with
  | ended ending => simp [resume, Step.isEnding] at h
  | running s =>
    simp only [resume] at h ⊢
    split at h
    · simp [Step.isEnding] at h
    · next hadvance => simpa [hadvance] using advance_left_lt hadvance

/-- A machine that has ended stays as it is. -/
theorem resume_ended {m : Machine} {ending : Ending} (h : m.phase = .ended ending) (w : World) :
    m.resume w = (.ended ending, m, w) := by
  obtain ⟨code, limits, phase, left, output⟩ := m
  cases h
  rfl

end Machine

end Labyrinth
