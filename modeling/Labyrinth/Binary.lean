import Labyrinth.Binary.LittleEndian
import Labyrinth.Grid
import Labyrinth.Language.Dialect
import Labyrinth.RunResult

/-!
# Binary form

Small messages have a **binary form**: words are little-endian, one of several possibilities is
written as its number in a word of four bytes, and a text follows the number of its bytes in a
word of eight. What stands behind a message is left alone.

## Main results

* `Format.Lawful`: what has been written is read back, whatever follows it.
* `lawful_word32`, `lawful_word64`: words have lawful formats.
-/

namespace Labyrinth.Binary

/-- How values of a type are written and read. Reading also yields the bytes that follow. -/
structure Format (α : Type) where
  encode : α → List UInt8
  decode : List UInt8 → Option (α × List UInt8)

/-- What has been written is read back, whatever follows it. -/
def Format.Lawful {α : Type} (f : Format α) : Prop :=
  ∀ (x : α) (rest : List UInt8), f.decode (f.encode x ++ rest) = some (x, rest)

/-- The first `count` bytes and the others, if there are so many. -/
def takeBytes (count : Nat) (bytes : List UInt8) : Option (List UInt8 × List UInt8) :=
  if count ≤ bytes.length then some (bytes.take count, bytes.drop count) else none

theorem takeBytes_append (bytes rest : List UInt8) :
    takeBytes bytes.length (bytes ++ rest) = some (bytes, rest) := by
  simp [takeBytes]

/-- A word of four bytes. -/
def word32 : Format UInt32 where
  encode n := littleEndian 4 n.toNat
  decode bytes := do
    let (word, rest) ← takeBytes 4 bytes
    return (UInt32.ofNat (ofLittleEndian word), rest)

/-- A word of eight bytes. -/
def word64 : Format UInt64 where
  encode n := littleEndian 8 n.toNat
  decode bytes := do
    let (word, rest) ← takeBytes 8 bytes
    return (UInt64.ofNat (ofLittleEndian word), rest)

theorem lawful_word32 : word32.Lawful := by
  intro n rest
  have h := takeBytes_append (littleEndian 4 n.toNat) rest
  rw [length_littleEndian] at h
  simp [word32, h, @ofLittleEndian_littleEndian 4 _ n.toNat_lt]

theorem lawful_word64 : word64.Lawful := by
  intro n rest
  have h := takeBytes_append (littleEndian 8 n.toNat) rest
  rw [length_littleEndian] at h
  simp [word64, h, @ofLittleEndian_littleEndian 8 _ n.toNat_lt]

/-- A text. -/
def text : Format String where
  encode s :=
    let bytes := s.toUTF8.data.toList
    word64.encode (UInt64.ofNat bytes.length) ++ bytes
  decode bytes := do
    let (count, rest) ← word64.decode bytes
    let (bytes, rest) ← takeBytes count.toNat rest
    let s ← String.fromUTF8? ⟨bytes.toArray⟩
    return (s, rest)

/-- One of several possibilities. -/
def choice {α : Type} [BEq α] (all : List α) : Format α where
  encode x := word32.encode (UInt32.ofNat (all.idxOf x))
  decode bytes := do
    let (i, rest) ← word32.decode bytes
    return (← all[i.toNat]?, rest)

/-- The kind of a cell. -/
def kind : Format Kind := choice [.wall, .empty, .start, .exit]

/-- A direction. -/
def direction : Format Direction := choice Direction.all

/-- A dialect. -/
def dialect : Format Dialect := choice [.indented, .braced]

/-- A coordinate: the column, then the row. -/
def coord : Format Coord where
  encode c := word32.encode c.column ++ word32.encode c.row
  decode bytes := do
    let (column, rest) ← word32.decode bytes
    let (row, rest) ← word32.decode rest
    return (⟨column, row⟩, rest)

/-- The result of a run. -/
def result : Format RunResult where
  encode
    | .win => word32.encode 0
    | .failed reason => word32.encode 1 ++ text.encode reason
    | .errored message => word32.encode 2 ++ text.encode message
    | .budgetExhausted executed => word32.encode 3 ++ word64.encode executed
  decode bytes := do
    let (i, rest) ← word32.decode bytes
    match i.toNat with
    | 0 => return (.win, rest)
    | 1 =>
      let (reason, rest) ← text.decode rest
      return (.failed reason, rest)
    | 2 =>
      let (message, rest) ← text.decode rest
      return (.errored message, rest)
    | 3 =>
      let (executed, rest) ← word64.decode rest
      return (.budgetExhausted executed, rest)
    | _ => none

end Labyrinth.Binary
