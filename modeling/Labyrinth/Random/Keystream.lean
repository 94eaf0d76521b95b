/-!
# The ChaCha8 keystream

A **keystream** is an endless sequence of 32-bit words determined by a key of eight words: the
concatenation of the ChaCha blocks with eight rounds, counted from zero, with a zero nonce. A
stream is a key together with the position of its next word, so drawing is a pure function.

A key can be grown from a 64-bit seed, and an index below `n + 1` can be drawn uniformly: a word
is multiplied by `n + 1`, and the high half of the product is the index unless the low half lies
in the part of its range that would favour some index.

## Main results

* `Keystream.size_block`: every block has sixteen words.
* `Keystream.draw` never leaves the range it is asked for; this is part of its type.
-/

namespace Labyrinth

/-- A key and the position of the next word to draw. -/
structure Keystream where
  /-- The eight words of the key. -/
  key : List UInt32
  /-- How many words have been drawn. -/
  position : Nat
  deriving DecidableEq, Repr

namespace Keystream

/-- Rotates a word to the left by `n` bits, where `0 < n < 32`. -/
def rotateLeft (x n : UInt32) : UInt32 := (x <<< n) ||| (x >>> (32 - n))

/-- Adds the `j`-th word to the `i`-th one and mixes the sum into the `k`-th one. -/
def mix (s : Array UInt32) (i j k : Nat) (bits : UInt32) : Array UInt32 :=
  let s := s.setIfInBounds i (s.getD i 0 + s.getD j 0)
  s.setIfInBounds k (rotateLeft (s.getD k 0 ^^^ s.getD i 0) bits)

/-- The quarter round on four words of the block. -/
def quarter (s : Array UInt32) (a b c d : Nat) : Array UInt32 :=
  mix (mix (mix (mix s a b d 16) c d b 12) a b d 8) c d b 7

/-- A round on the columns followed by a round on the diagonals. -/
def doubleRound (s : Array UInt32) : Array UInt32 :=
  let s := quarter s 0 4 8 12
  let s := quarter s 1 5 9 13
  let s := quarter s 2 6 10 14
  let s := quarter s 3 7 11 15
  let s := quarter s 0 5 10 15
  let s := quarter s 1 6 11 12
  let s := quarter s 2 7 8 13
  quarter s 3 4 9 14

/-- The words of a block before the rounds: constants, key, counter and a zero nonce. -/
def setup (key : List UInt32) (counter : Nat) : Array UInt32 :=
  let constants : List UInt32 := [0x61707865, 0x3320646e, 0x79622d32, 0x6b206574]
  (constants ++ (key ++ List.replicate 8 0).take 8 ++
    [UInt32.ofNat counter, UInt32.ofNat (counter / 4294967296), 0, 0]).toArray

/-- The block with the given counter. -/
def block (key : List UInt32) (counter : Nat) : Array UInt32 :=
  let s := setup key counter
  Array.zipWith (· + ·) s (doubleRound (doubleRound (doubleRound (doubleRound s))))

theorem size_mix (s : Array UInt32) (i j k : Nat) (bits : UInt32) :
    (mix s i j k bits).size = s.size := by
  simp [mix]

theorem size_quarter (s : Array UInt32) (a b c d : Nat) : (quarter s a b c d).size = s.size := by
  simp [quarter, size_mix]

theorem size_doubleRound (s : Array UInt32) : (doubleRound s).size = s.size := by
  simp [doubleRound, size_quarter]

theorem size_block (key : List UInt32) (counter : Nat) : (block key counter).size = 16 := by
  simp [block, size_doubleRound, setup]

/-- The word of the stream at a position. -/
def wordAt (key : List UInt32) (position : Nat) : UInt32 :=
  (block key (position / 16)).getD (position % 16) 0

/-- Draws the next word. -/
def next (s : Keystream) : UInt32 × Keystream :=
  (wordAt s.key s.position, { s with position := s.position + 1 })

/-! ### Keys from seeds -/

/-- The generator whose successive outputs make up a key. -/
def seedStep (state : UInt64) : UInt64 :=
  state * 6364136223846793005 + 11634580027462260723

/-- The output of the generator in a state. -/
def seedWord (state : UInt64) : UInt32 :=
  let x := (((state >>> 18) ^^^ state) >>> 27).toUInt32
  let bits := (state >>> 59).toUInt32
  (x >>> bits) ||| (x <<< ((32 - bits) % 32))

/-- The next `n` words grown from a state of the generator. -/
def seedWords : Nat → UInt64 → List UInt32
  | 0, _ => []
  | n + 1, state => seedWord (seedStep state) :: seedWords n (seedStep state)

/-- The stream whose key is grown from a seed. -/
def ofSeed (seed : UInt64) : Keystream := ⟨seedWords 8 seed, 0⟩

/-! ### Drawing an index -/

/-- The largest low half for which the high half is accepted as an index below `range`. -/
def zone (range : UInt32) : UInt32 :=
  (range <<< (31 - UInt32.ofNat range.toNat.log2)) - 1

/-- The candidate index that a word offers, if it is accepted. -/
def accept (n : Nat) (word : UInt32) : Option (Fin (n + 1)) :=
  let product := word.toNat * (n + 1)
  if product % 4294967296 ≤ (zone (UInt32.ofNat (n + 1))).toNat then
    some (Fin.ofNat (n + 1) (product / 4294967296))
  else
    none

/-- Draws words until one is accepted, and takes index zero after `fuel` refusals. -/
def drawWith (n : Nat) : Nat → Keystream → Fin (n + 1) × Keystream
  | 0, s => (0, s)
  | fuel + 1, s =>
    let (word, s) := s.next
    match accept n word with
    | some i => (i, s)
    | none => drawWith n fuel s

/-- Draws one of `n + 1` indices. Every word is accepted with a chance of one half at least, so
the limit on refusals is never met in practice. -/
def draw (n : Nat) (s : Keystream) : Fin (n + 1) × Keystream := drawWith n 256 s

end Keystream

end Labyrinth
