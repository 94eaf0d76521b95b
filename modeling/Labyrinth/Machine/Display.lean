import Labyrinth.Machine.Value

/-!
# The text of values

A string is displayed as it is. Every other value is written **piece by piece**, with strings
quoted inside of collections, and its text is cut off before the first piece that does not fit
into 4096 bytes; then three dots follow. A value that lies too deep, as every cyclic one
somewhere does, is the single piece `...`.

## Main results

* `Display.put_eq_ok_iff`: a piece is written exactly if it fits.
* `Heap.display_str`: a string is its own text.
-/

namespace Labyrinth

namespace Display

/-- The number of bytes that the pieces of a value may have. -/
def maxBytes : Nat := 4096

/-- The deepest nesting of collections that is displayed. -/
def maxDepth : Nat := 16

/-- Writes a piece behind a text. The text is thrown if the piece does not fit. -/
def put (piece text : String) : Except String String :=
  if text.utf8ByteSize + piece.utf8ByteSize ≤ maxBytes then .ok (text ++ piece) else .error text

theorem put_eq_ok_iff {piece text result : String} :
    put piece text = .ok result ↔
      text.utf8ByteSize + piece.utf8ByteSize ≤ maxBytes ∧ result = text ++ piece := by
  unfold put
  split
  · simp_all [eq_comm]
  · next h => simp [h]

/-- The text of a string between its quotes. -/
def escape (s : String) : String :=
  String.ofList <| s.toList.flatMap fun
    | '\\' => ['\\', '\\']
    | '"' => ['\\', '"']
    | c => [c]

/-- Writes a string in quotes. -/
def quoted (s : String) (text : String) : Except String String := do
  put "\"" (← put (escape s) (← put "\"" text))

/-- Writes an integer. The sign is a piece of its own. -/
def integer (n : Int64) (text : String) : Except String String := do
  put (toString n.toInt.natAbs) (← if n < 0 then put "-" text else .ok text)

/-- Writes items behind the first one. -/
def more {α : Type} (write : α → String → Except String String) :
    List α → String → Except String String
  | [], text => .ok text
  | item :: items, text => do more write items (← write item (← put ", " text))

/-- Writes items between brackets. -/
def between {α : Type} (opening closing : String) (write : α → String → Except String String)
    (items : List α) (text : String) : Except String String := do
  let text ← put opening text
  match items with
  | [] => put closing text
  | item :: items => put closing (← more write items (← write item text))

/-- Writes an entry of a map. -/
def entry (writeKey : Key → String → Except String String)
    (writeValue : Value → String → Except String String) (e : Key × Value) (text : String) :
    Except String String := do
  writeValue e.2 (← put ": " (← writeKey e.1 text))

/-- Writes a key that is nested in at most `levels` levels. -/
def key : (levels : Nat) → Key → String → Except String String
  | 0, _, text => put "..." text
  | levels + 1, value, text =>
    match value with
    | .null => put "null" text
    | .bool b => put (if b then "true" else "false") text
    | .int n => integer n text
    | .str s => quoted s text
    | .list items => between "[" "]" (key levels) items text

/-- Writes a value that is nested in at most `levels` levels. -/
def value (h : Heap) : (levels : Nat) → Value → String → Except String String
  | 0, _, text => put "..." text
  | levels + 1, v, text =>
    match v with
    | .null => put "null" text
    | .bool b => put (if b then "true" else "false") text
    | .int n => integer n text
    | .str s => quoted s text
    | .list a => between "[" "]" (value h levels) (h.list a).toList text
    | .set a => between "\x7b" "\x7d" (key levels) (h.set a).toList text
    | .map a => between "\x7b" "\x7d" (entry (key levels) (value h levels)) (h.map a).toList text

end Display

/-- The text of a value. -/
def Heap.display (h : Heap) : Value → String
  | .str s => s
  | v =>
    match Display.value h (Display.maxDepth + 1) v "" with
    | .ok text => text
    | .error text => text ++ "..."

/-- A string is its own text. -/
theorem Heap.display_str (h : Heap) (s : String) : h.display (.str s) = s := rfl

end Labyrinth
