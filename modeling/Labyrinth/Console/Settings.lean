import Labyrinth.Game

/-!
# Settings

The **settings** that all requests share. Those that a settings file does not name keep their
defaults.

## Main results

* `Settings.error?_default`: the defaults are sound.
-/

namespace Labyrinth.Console

/-- The settings. -/
structure Settings where
  /-- The time between two steps of a run, in milliseconds. -/
  delay : UInt64
  limits : Limits
  /-- The seed of the mazes, where no other one is given. -/
  seed : Option UInt64
  /-- The file that keeps the level. -/
  levelFile : String
  deriving DecidableEq, Repr

/-- What is wrong with settings. -/
inductive SettingsError
  | zeroDelay
  | zeroBudget
  | zeroCalls
  | emptyLevelFile
  deriving DecidableEq, Repr

/-- The wording of an error. -/
def SettingsError.message : SettingsError → String
  | zeroDelay => "move_delay_ms must be > 0"
  | zeroBudget => "instruction_budget must be > 0"
  | zeroCalls => "max_call_depth must be > 0"
  | emptyLevelFile => "level_file must not be empty"

/-- What a settings file gives for a name. -/
inductive SettingValue
  | int (n : Int)
  | str (s : String)
  deriving DecidableEq, Repr

namespace Settings

/-- The settings without a settings file. -/
def default : Settings := ⟨100, .default, none, ".maze-lab-level"⟩

/-- The first error in settings. -/
def error? (s : Settings) : Option SettingsError :=
  if s.delay = 0 then some .zeroDelay
  else if s.limits.budget = 0 then some .zeroBudget
  else if s.limits.maxCalls = 0 then some .zeroCalls
  else if s.levelFile = "" then some .emptyLevelFile
  else none

theorem error?_default : default.error? = none := by decide

/-- A number that is not negative. -/
def word? (n : Int) : Option UInt64 := if 0 ≤ n then some (UInt64.ofNat n.toNat) else none

/-- Changes the setting with a given name, if there is one and if it takes such a value. -/
def set? (s : Settings) (name : String) (value : SettingValue) : Option Settings :=
  match name, value with
  | "move_delay_ms", .int n => (word? n).map fun delay => { s with delay }
  | "instruction_budget", .int n =>
    (word? n).map fun budget => { s with limits := { s.limits with budget } }
  | "max_call_depth", .int n =>
    if 0 ≤ n then some { s with limits := { s.limits with maxCalls := n.toNat } } else none
  | "seed", .int n => (word? n).map fun seed => { s with seed := some seed }
  | "level_file", .str levelFile => some { s with levelFile }
  | _, _ => none

/-- Changes several settings, of which none may be named twice. -/
def setAll? (s : Settings) (named : List String) : List (String × SettingValue) → Option Settings
  | [] => some s
  | (name, value) :: rest =>
    if name ∈ named then none
    else do (← s.set? name value).setAll? (name :: named) rest

/-- The setup of a game. The seed is drawn anew where none is set. -/
def game (s : Settings) (drawn : UInt64) : GameConfig :=
  ⟨s.delay.toNat * 1000000, s.limits, s.seed.getD drawn⟩

end Settings

end Labyrinth.Console
