import Labyrinth.Game.Level
import Labyrinth.Language.Dialect
import Labyrinth.Text.Decimal

/-!
# Command-line arguments

A command line names one of four **requests**, with options before, between and behind the other
arguments. An option takes its value from the same argument, behind `=`, or from the next one,
which must not look like an option. Behind `--` nothing is an option any more, and no option may
be given twice. The settings file can be named before the request and, with precedence, in it.
-/

namespace Labyrinth.Console

/-- What the command line asks for. -/
inductive Request
  /-- A maze is printed. -/
  | generate (size : UInt32) (seed : Option UInt64)
  /-- A program is run once in a maze. -/
  | run (file : String) (dialect : Option Dialect) (size : UInt32) (seed : Option UInt64)
  /-- A program is printed in the braced dialect. -/
  | normalize (file : String)
  /-- A program is played through several levels. -/
  | play (file : String) (dialect : Option Dialect) (levels : UInt32) (realtime : Bool)
  deriving DecidableEq, Repr

/-- A request and the settings file for it. -/
structure Invocation where
  config : String
  request : Request
  deriving DecidableEq, Repr

/-- Why a command line holds no request. -/
inductive Refusal
  | help
  | version
  | misuse
  deriving DecidableEq, Repr

/-- An option. -/
structure Flag where
  name : String
  /-- Which values it takes, if it takes any. -/
  accepts? : Option (String → Bool)

/-- Arguments that have been sorted. -/
structure Given where
  /-- The options with their values, which are empty for options that take none. -/
  options : List (String × String)
  places : List String

namespace Given

/-- No arguments. -/
def empty : Given := ⟨[], []⟩

/-- The value of an option. -/
def value? (g : Given) (name : String) : Option String := g.options.lookup name

/-- Adds an option that has not been given yet. -/
def addOption (g : Given) (name value : String) : Except Refusal Given :=
  if (g.value? name).isSome then .error .misuse
  else .ok { g with options := (name, value) :: g.options }

/-- Adds an argument that is no option, where there is room for `places` of them. -/
def addPlace (g : Given) (places : Nat) (arg : String) : Except Refusal Given :=
  if g.places.length < places ∧ arg ≠ "" then .ok { g with places := g.places ++ [arg] }
  else .error .misuse

/-- Adds arguments none of which is an option. -/
def addPlaces (g : Given) (places : Nat) : List String → Except Refusal Given
  | [] => .ok g
  | arg :: args => do (← g.addPlace places arg).addPlaces places args

end Given

/-- Whether an argument cannot be the value of an option. -/
def looksLikeOption (arg : String) : Bool := arg.startsWith "-" && arg != "-"

/-- The name of a long option, and the value behind its equals sign. -/
def splitOption (arg : String) : String × Option String :=
  let body := arg.toList.drop 2
  let name := body.takeWhile (· != '=')
  match body.drop name.length with
  | [] => (String.ofList name, none)
  | _ :: value => (String.ofList name, some (String.ofList value))

/-- What a long option gives, given the arguments behind it: the arguments that are left, and the
option with its value. -/
def readOption (flags : List Flag) (arg : String) (rest : List String) :
    Except Refusal (List String × String × String) :=
  let (name, value?) := splitOption arg
  match flags.find? (·.name == name) with
  | none => .error .misuse
  | some flag =>
    match flag.accepts?, value?, rest with
    | none, none, _ => .ok (rest, name, "")
    | some accepts, some value, _ =>
      if accepts value then .ok (rest, name, value) else .error .misuse
    | some accepts, none, value :: rest =>
      if !looksLikeOption value && accepts value then .ok (rest, name, value) else .error .misuse
    | _, _, _ => .error .misuse

theorem length_of_readOption {flags : List Flag} {arg : String} {rest left : List String}
    {option : String × String} (h : readOption flags arg rest = .ok (left, option)) :
    left.length ≤ rest.length := by
  grind [readOption]

/-- Sorts the arguments of a request that has the given options and takes `places` others. -/
def sort (flags : List Flag) (places : Nat) (g : Given) : List String → Except Refusal Given
  | [] => .ok g
  | arg :: rest =>
    if arg = "--" then g.addPlaces places rest
    else if arg = "--help" ∨ arg.startsWith "-h" then .error .help
    else if arg.startsWith "--" then
      match h : readOption flags arg rest with
      | .error refusal => .error refusal
      | .ok (left, name, value) =>
        have := length_of_readOption h
        do sort flags places (← g.addOption name value) left
    else if looksLikeOption arg then .error .misuse
    else do sort flags places (← g.addPlace places arg) rest
termination_by args => args.length

/-! ### Values -/

/-- The settings file, unless another one is named. -/
def defaultConfig : String := "maze-lab.toml"

/-- The side length of a maze, unless another one is named. -/
def defaultSize : UInt32 := 11

/-- A side length. -/
def size? (s : String) : Option UInt32 :=
  (Text.unsigned? (maxSize.toNat + 1) s.toList).map UInt32.ofNat

/-- A seed. -/
def seed? (s : String) : Option UInt64 :=
  (Text.unsigned? 18446744073709551616 s.toList).map UInt64.ofNat

/-- A number of levels. -/
def levels? (s : String) : Option UInt32 :=
  let number := (Text.signed? s.toList).filter fun n => 0 ≤ n && n < 4294967296
  number.map fun n => UInt32.ofNat n.toNat

/-- The option for the settings file. -/
def configFlag : Flag := ⟨"config", some (· != "")⟩

/-- The option for the side length. -/
def sizeFlag : Flag := ⟨"size", some fun s => (size? s).isSome⟩

/-- The option for the seed. -/
def seedFlag : Flag := ⟨"seed", some fun s => (seed? s).isSome⟩

/-- The option for the dialect. -/
def dialectFlag : Flag := ⟨"syntax", some fun s => (Dialect.ofName? s).isSome⟩

/-- The option for the number of levels. -/
def levelsFlag : Flag := ⟨"levels", some fun s => (levels? s).isSome⟩

/-- The option for waiting between moves. -/
def realtimeFlag : Flag := ⟨"realtime", none⟩

namespace Given

/-- The side length. -/
def size (g : Given) : UInt32 := ((g.value? "size").bind size?).getD defaultSize

/-- The seed. -/
def seed (g : Given) : Option UInt64 := (g.value? "seed").bind seed?

/-- The dialect. -/
def dialect (g : Given) : Option Dialect := (g.value? "syntax").bind Dialect.ofName?

/-- The number of levels. -/
def levels (g : Given) : UInt32 := ((g.value? "levels").bind levels?).getD 1

end Given

/-! ### Requests -/

/-- The options of a request, and the number of its other arguments. -/
def shape? (name : String) : Option (List Flag × Nat) :=
  match name with
  | "generate" => some ([configFlag, sizeFlag, seedFlag], 0)
  | "run" => some ([configFlag, dialectFlag, sizeFlag, seedFlag], 1)
  | "normalize" => some ([configFlag], 1)
  | "play" => some ([configFlag, dialectFlag, levelsFlag, realtimeFlag], 1)
  | _ => none

/-- The request that the arguments amount to. -/
def request? (name : String) (g : Given) : Option Request :=
  match name, g.places with
  | "generate", [] => some (.generate g.size g.seed)
  | "run", [file] => some (.run file g.dialect g.size g.seed)
  | "normalize", [file] => some (.normalize file)
  | "play", [file] => some (.play file g.dialect g.levels (g.value? "realtime").isSome)
  | _, _ => none

/-- Reads the arguments behind the name of a request. -/
def readRequest (config : Option String) (name : String) (args : List String) :
    Except Refusal Invocation := do
  match shape? name with
  | none =>
    if name = "help" ∧ (args = [] ∨ args.length = 1 ∧ args.all fun a => (shape? a).isSome) then
      throw .help
    else throw .misuse
  | some (flags, places) =>
    let g ← sort flags places .empty args
    match request? name g with
    | some request =>
      return ⟨((g.value? "config").or config).getD defaultConfig, request⟩
    | none => throw .misuse

/-- Reads a command line, of which a settings file may have been named already. -/
def readFrom (config : Option String) : List String → Except Refusal Invocation
  | [] => .error .misuse
  | arg :: rest =>
    if arg = "--help" ∨ arg.startsWith "-h" then .error .help
    else if arg = "--version" ∨ arg.startsWith "-V" then .error .version
    else if arg.startsWith "--" then
      match h : readOption [configFlag] arg rest with
      | .error refusal => .error refusal
      | .ok (left, _, value) =>
        have := length_of_readOption h
        if config.isSome then .error .misuse else readFrom (some value) left
    else if looksLikeOption arg then .error .misuse
    else readRequest config arg rest
termination_by args => args.length

/-- Reads a command line. -/
def read (args : List String) : Except Refusal Invocation := readFrom none args

end Labyrinth.Console
