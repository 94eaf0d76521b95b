import Labyrinth.Console.Settings
import Labyrinth.Text.Decimal

/-!
# Settings files

A settings file holds one setting on a line: a name, an equals sign and a value, with comments
behind a hash sign. Values are integers of 64 bits in one of four bases, and strings in one of
four kinds of quotes, of which the threefold ones go over several lines. All else is refused.

## Main results

* `Settings.ofFile?`: the settings in the text of a file.
-/

namespace Labyrinth.Console.SettingsFile

/-- Reads the beginning of a text and yields what follows. -/
abbrev Reading := StateT (List Char) Option

/-- Drops characters as long as they pass a test, and yields them. -/
def span (p : Char → Bool) : Reading (List Char) := fun cs =>
  some (cs.takeWhile p, cs.dropWhile p)

/-- Reads a given text. -/
def exactly (text : List Char) : Reading Unit := fun cs =>
  if text.isPrefixOf cs then some ((), cs.drop text.length) else none

/-- Reads a given text if it is there, and tells whether it was. -/
def optionally (text : List Char) : Reading Bool := fun cs =>
  if text.isPrefixOf cs then some (true, cs.drop text.length) else some (false, cs)

/-- Reads one character. -/
def char : Reading Char
  | [] => none
  | c :: cs => some (c, cs)

/-- Whether a character may stand in a comment or a string. -/
def isPlain (c : Char) : Bool := c == '\t' || ('\x20' ≤ c && c != '\x7f')

/-- Whether a character is a blank within a line. -/
def isBlank (c : Char) : Bool := c == ' ' || c == '\t'

/-! ### Strings -/

/-- The value of hexadecimal digits as a character. -/
def scalar? (cs : List Char) : Option Char := do
  let n ← Text.digits? 16 cs
  if n.isValidChar then some (Char.ofNat n) else none

/-- The character that is meant behind a backslash, and what follows. -/
def escape? : List Char → Option (Char × List Char)
  | 'b' :: cs => some ('\x08', cs)
  | 't' :: cs => some ('\t', cs)
  | 'n' :: cs => some ('\n', cs)
  | 'f' :: cs => some ('\x0c', cs)
  | 'r' :: cs => some ('\r', cs)
  | '"' :: cs => some ('"', cs)
  | '\\' :: cs => some ('\\', cs)
  | 'u' :: cs => if cs.length < 4 then none else do return (← scalar? (cs.take 4), cs.drop 4)
  | 'U' :: cs => if cs.length < 8 then none else do return (← scalar? (cs.take 8), cs.drop 8)
  | _ => none

/-- The rest of a string on one line. Where escapes are allowed, a backslash begins one. -/
def lineString (quote : Char) (escapes : Bool) : (fuel : Nat) → List Char → Reading (List Char)
  | 0, _ => fun _ => none
  | fuel + 1, read => do
    let c ← char
    if c = quote then return read.reverse
    else if c = '\\' ∧ escapes then
      let c ← escape?
      lineString quote escapes fuel (c :: read)
    else if isPlain c then lineString quote escapes fuel (c :: read)
    else failure

/-- A line break, which is a line feed with or without a carriage return. -/
def lineBreak : Reading Bool := do
  if ← optionally ['\r', '\n'] then return true else optionally ['\n']

/-- Whether the rest of a line is blank, so that a backslash joins it to the next one. -/
def joinsLines : List Char → Bool
  | '\n' :: _ => true
  | '\r' :: '\n' :: _ => true
  | c :: cs => isBlank c && joinsLines cs
  | [] => false

/-- What follows the blanks and line breaks at the beginning of a text. -/
def dropBlankLines : List Char → List Char
  | '\n' :: cs => dropBlankLines cs
  | '\r' :: '\n' :: cs => dropBlankLines cs
  | c :: cs => if isBlank c then dropBlankLines cs else c :: cs
  | [] => []

/-- The rest of a string in threefold quotes. Up to two more quotes may stand before its end. -/
def blockString (quote : Char) (escapes : Bool) : (fuel : Nat) → List Char → Reading (List Char)
  | 0, _ => fun _ => none
  | fuel + 1, read => do
    if ← optionally [quote, quote, quote] then
      let more := ((← get).takeWhile (· == quote)).length
      let kept := min more 2
      exactly (List.replicate kept quote)
      return (List.replicate kept quote ++ read).reverse
    else if ← lineBreak then blockString quote escapes fuel ('\n' :: read)
    else
      let c ← char
      if c = '\\' ∧ escapes then
        if joinsLines (← get) then
          modify dropBlankLines
          blockString quote escapes fuel read
        else
          let c ← escape?
          blockString quote escapes fuel (c :: read)
      else if isPlain c then blockString quote escapes fuel (c :: read)
      else failure

/-- A string on one line. -/
def line (quote : Char) : Reading String := do
  exactly [quote]
  return String.ofList (← lineString quote (quote == '"') ((← get).length + 1) [])

/-- A string in threefold quotes. A line break at its beginning does not belong to it. -/
def block (quote : Char) : Reading String := do
  exactly [quote, quote, quote]
  let _ ← lineBreak
  return String.ofList (← blockString quote (quote == '"') ((← get).length + 1) [])

/-! ### Integers -/

/-- Digits in which single underscores may stand between two digits. -/
def grouped? : List Char → Option (List Char)
  | [] => none
  | [c] => if c = '_' then none else some [c]
  | c :: '_' :: cs => if c = '_' then none else (grouped? cs).map (c :: ·)
  | c :: cs => if c = '_' then none else (grouped? cs).map (c :: ·)

/-- A number in a base, in groups of digits. -/
def number? (base : Nat) (cs : List Char) : Option Nat := do Text.digits? base (← grouped? cs)

/-- A decimal number without superfluous zeros in front. -/
def decimal? : List Char → Option Nat
  | ['0'] => some 0
  | '0' :: _ => none
  | cs => number? 10 cs

/-- An integer of 64 bits. -/
def integer? (cs : List Char) : Option Int :=
  let value := match cs with
    | '0' :: 'x' :: cs => (number? 16 cs).map Int.ofNat
    | '0' :: 'o' :: cs => (number? 8 cs).map Int.ofNat
    | '0' :: 'b' :: cs => (number? 2 cs).map Int.ofNat
    | '+' :: cs => (decimal? cs).map Int.ofNat
    | '-' :: cs => (decimal? cs).map fun n => -(n : Int)
    | cs => (decimal? cs).map Int.ofNat
  value.filter fun n => -9223372036854775808 ≤ n && n < 9223372036854775808

/-! ### Lines -/

/-- Whether a character may stand in a name without quotes. -/
def isBare (c : Char) : Bool := c.isAlphanum || c == '_' || c == '-'

/-- The name of a setting. -/
def name : Reading String := do
  match ← get with
  | '"' :: _ => line '"'
  | '\'' :: _ => line '\''
  | _ =>
    let cs ← span isBare
    if cs.isEmpty then failure
    return String.ofList cs

/-- The value of a setting. -/
def value : Reading SettingValue := do
  match ← get with
  | '"' :: '"' :: '"' :: _ => return .str (← block '"')
  | '\'' :: '\'' :: '\'' :: _ => return .str (← block '\'')
  | '"' :: _ => return .str (← line '"')
  | '\'' :: _ => return .str (← line '\'')
  | _ => return .int (← integer? (← span fun c => isBare c || c == '+'))

/-- The end of a line: blanks, a comment, and a line break or the end of the text. -/
def lineEnd : Reading Unit := do
  let _ ← span isBlank
  if ← optionally ['#'] then let _ ← span isPlain
  if (← get).isEmpty then return
  if ← lineBreak then return
  failure

/-- A line with a setting, or without one. -/
def setting : Reading (Option (String × SettingValue)) := do
  let _ ← span isBlank
  match ← get with
  | [] => return none
  | '#' :: _ | '\n' :: _ | '\r' :: _ =>
    lineEnd
    return none
  | _ =>
    let n ← name
    let _ ← span isBlank
    exactly ['=']
    let _ ← span isBlank
    let v ← value
    lineEnd
    return some (n, v)

/-- All settings in a text, of at most `fuel` lines. -/
def settings : (fuel : Nat) → Reading (List (String × SettingValue))
  | 0 => return []
  | fuel + 1 => do
    if (← get).isEmpty then return []
    let first ← setting
    let rest ← settings fuel
    return first.toList ++ rest

/-- All settings in a text, behind an optional mark of its encoding. -/
def all : Reading (List (String × SettingValue)) := do
  let _ ← optionally ['\ufeff']
  settings ((← get).length + 1)

end SettingsFile

/-- The settings in the text of a file. -/
def Settings.ofFile? (text : String) : Option Settings := do
  let (named, _) ← SettingsFile.all.run text.toList
  Settings.default.setAll? [] named

end Labyrinth.Console
