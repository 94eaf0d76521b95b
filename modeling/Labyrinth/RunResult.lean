/-!
# Results of runs

How a run is judged once it is over.

## Main results

* `RunResult.isWin_iff`: only one result is a win.
-/

namespace Labyrinth

/-- The judgement of a run. -/
inductive RunResult
  /-- The program ended on the exit. -/
  | win
  /-- The program ended elsewhere. -/
  | failed (reason : String)
  /-- The program could not be read, or raised an error. -/
  | errored (message : String)
  /-- The program was stopped after so many instructions. -/
  | budgetExhausted (executed : UInt64)
  deriving DecidableEq, Repr

namespace RunResult

/-- The reason given for every program that ends elsewhere. -/
def missedExit : String := "did not reach the exit"

/-- The result of a program that ended elsewhere. -/
def missed : RunResult := failed missedExit

/-- Whether the program ended on the exit. -/
def isWin : RunResult → Bool
  | win => true
  | _ => false

/-- The text of a result. -/
def text : RunResult → String
  | win => "win"
  | failed reason => s!"failed: {reason}"
  | errored message => s!"error: {message}"
  | budgetExhausted executed => s!"stopped after {executed} instructions without finishing"

theorem isWin_iff {r : RunResult} : r.isWin = true ↔ r = win := by
  cases r <;> simp [isWin]

end RunResult

end Labyrinth
