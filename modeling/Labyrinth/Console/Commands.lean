import Labyrinth.Console.Arguments
import Labyrinth.Console.Host
import Labyrinth.Console.Path
import Labyrinth.Console.SettingsFile
import Labyrinth.Language.Braced.Printer
import Labyrinth.Text.Blank
import Std.Data.HashSet

/-!
# Commands

What the command line does, on any host. Every command ends with an exit code: zero for success,
one for a program that has not won and for files that cannot be used, two for misuse.

## Main results

* `perform`: carries out a command line.
-/

namespace Labyrinth.Console

variable {m : Type → Type} [Monad m]

/-- The text of an error with its cause, whose lines are indented. -/
def errorText (context cause : String) : String :=
  let indented := cause.toList.flatMap fun c => if c = '\n' then "\n    ".toList else [c]
  "Error: " ++ context ++ "\n\nCaused by:\n    " ++ String.ofList indented ++ "\n"

/-- Reports an error. -/
def fail (host : Host m) (context cause : String) : m Nat := do
  host.warn (errorText context cause)
  return 1

/-- The exit code of a result. -/
def exitCode (r : RunResult) : Nat := if r.isWin then 0 else 1

/-- The dialect of a program by the name of its file. -/
def inferDialect (file : String) : Dialect :=
  match extension file with
  | some "js" => .braced
  | some "mjs" => .braced
  | _ => .indented

/-- A maze, made of the first one of several seeds. -/
def freshGrid (size : UInt32) (seed : UInt64) : Grid := (MazeSource.ofSeed seed).maze 1 size

/-- The maze of a world with a mark on every empty cell that the cursor has stood on. -/
def trailText (w : World) : String :=
  let visited := Std.HashSet.ofList w.trail.toList
  Text.unlines <| w.grid.draw fun cell kind =>
    if kind = .empty ∧ cell ∈ visited then '*' else kind.glyph

/-- The report on a run in a maze. -/
def runReport (outcome : RunOutcome) (w : World) : String :=
  Text.unlines outcome.output.toList ++ trailText w ++ Text.unlines [
    "trail: " ++ " -> ".intercalate (w.trail.toList.map Coord.text),
    "moves: " ++ toString w.moves,
    "result: " ++ outcome.result.text]

/-- Prints a maze. -/
def generate (host : Host m) (size : UInt32) (seed : UInt64) : m Nat := do
  host.print (freshGrid size seed).text
  return 0

/-- Runs a program once and prints the report. -/
def run (host : Host m) (limits : Limits) (p : Program) (size : UInt32) (seed : UInt64) :
    m Nat := do
  let (outcome, w) := p.run limits (.new (freshGrid size seed))
  host.print (runReport outcome w)
  return exitCode outcome.result

/-- Prints a program of the indented dialect in the braced one. -/
def normalize (host : Host m) (file source : String) : m Nat := do
  match Braced.normalize source with
  | .ok text =>
    host.print text
    return 0
  | .error e => fail host ("normalize " ++ file) e.message

/-! ### Playing -/

/-- The level in the text of a level file. -/
def readLevel (text : String) : Option UInt32 :=
  (Text.unsigned? 4294967296 (Text.trim text.toList)).map UInt32.ofNat

/-- The text of a level file. -/
def levelText (level : UInt32) : String := toString level ++ "\n"

/-- A side length as a player reads it. -/
def sizeText (size : UInt32) : String := "(" ++ toString size ++ "x" ++ toString size ++ ")"

/-- What a player is told of an event. -/
def eventText : Event → String
  | .printed line => "  | " ++ line ++ "\n"
  | .levelAdvanced level size =>
    "advanced to level " ++ toString level ++ " " ++ sizeText size ++ "\n"
  | _ => ""

/-- The result of the run that is over, if one is. -/
def finished? (events : Array Event) : Option RunResult :=
  events.toList.reverse.findSome? fun
    | .runFinished r => some r
    | _ => none

/-- Tells a player several events. -/
def tell (host : Host m) (events : Array Event) : m Unit :=
  host.print (String.join (events.toList.map eventText))

/-- Lets a run go on until its end, for at most `ticks` times the delay. -/
def awaitResult (host : Host m) (realtime : Bool) :
    (ticks : Nat) → Array Event → Game → m (RunResult × Game)
  | 0, events, g => do
    tell host events
    return (g.world.verdict, g)
  | ticks + 1, events, g => do
    tell host events
    match finished? events with
    | some result => return (result, g)
    | none =>
      if realtime then host.wait g.delay
      let (events, g) := g.apply (.tick g.delay)
      awaitResult host realtime ticks events g

/-- Plays a level. Every step of the program uses up a part of its budget, so the number of ticks
that are granted is never used up. -/
def playLevel (host : Host m) (p : Program) (realtime : Bool) (g : Game) :
    m (RunResult × Game) := do
  host.print ("level " ++ toString g.level.number ++ " " ++ sizeText g.level.size ++ "\n")
  let (events, g) := g.apply (.submit p)
  let (result, g) ← awaitResult host realtime (g.engine.left + 2) events g
  host.print ("  moves: " ++ toString g.world.moves ++ "  result: " ++ result.text ++ "\n")
  return (result, g)

/-- Plays several levels, as long as they are won, and saves every level that is reached. -/
def playLevels (host : Host m) (p : Program) (realtime : Bool) (levelFile : String) :
    (levels : Nat) → Game → m Nat
  | 0, _ => return 0
  | levels + 1, g => do
    let (result, g) ← playLevel host p realtime g
    if result.isWin then
      let (events, g) := g.apply .advance
      host.write levelFile (levelText g.level.number)
      tell host events
      playLevels host p realtime levelFile levels g
    else return exitCode result

/-- Plays from the level that has been saved on. -/
def play (host : Host m) (settings : Settings) (drawn : UInt64) (p : Program) (levels : UInt32)
    (realtime : Bool) : m Nat := do
  let saved := match ← host.read settings.levelFile with
    | .ok text => readLevel text
    | .error _ => none
  playLevels host p realtime settings.levelFile levels.toNat (.new (settings.game drawn) saved)

/-! ### Command lines -/

/-- Goes on with the text of a source file. -/
def withSource (host : Host m) (file : String) (k : String → m Nat) : m Nat := do
  match ← host.read file with
  | .ok source => k source
  | .error e => fail host ("read " ++ file) e.message

/-- Goes on with the settings in a file. A missing file stands for the defaults. -/
def withSettings (host : Host m) (file : String) (k : Settings → m Nat) : m Nat := do
  match ← host.read file with
  | .error e => if e.isMissing then k .default else fail host ("read " ++ file) e.message
  | .ok text =>
    match Settings.ofFile? text with
    | none => fail host ("parse " ++ file) "a line is no known setting"
    | some settings =>
      match settings.error? with
      | some e => fail host ("validate " ++ file) e.message
      | none => k settings

/-- Carries out a request. A seed has been `drawn` for the case that none is given. -/
def carryOut (host : Host m) (settings : Settings) (drawn : UInt64) : Request → m Nat
  | .generate size seed => generate host size ((seed.or settings.seed).getD drawn)
  | .run file dialect size seed => withSource host file fun source =>
    run host settings.limits ⟨dialect.getD (inferDialect file), source⟩ size
      ((seed.or settings.seed).getD drawn)
  | .normalize file => withSource host file (normalize host file)
  | .play file dialect levels realtime => withSource host file fun source =>
    play host settings drawn ⟨dialect.getD (inferDialect file), source⟩ levels realtime

/-- The name of the program and its version. -/
def versionText : String := "maze-lab 0.1.0\n"

/-- How the program is used. -/
def usageText : String := Text.unlines [
  "Usage: maze-lab [--config FILE] COMMAND",
  "",
  "Commands:",
  "  generate [--size N] [--seed N]",
  "  run FILE [--syntax NAME] [--size N] [--seed N]",
  "  normalize FILE",
  "  play FILE [--syntax NAME] [--levels N] [--realtime]"]

/-- Carries out a command line. -/
def perform (host : Host m) (drawn : UInt64) (args : List String) : m Nat := do
  match read args with
  | .ok invocation =>
    withSettings host invocation.config fun settings =>
      carryOut host settings drawn invocation.request
  | .error .help =>
    host.print usageText
    return 0
  | .error .version =>
    host.print versionText
    return 0
  | .error .misuse =>
    host.warn usageText
    return 2

end Labyrinth.Console
