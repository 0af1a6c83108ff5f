import WaveletPrecision.Random.Source

/-
The seeded source: the ChaCha key stream with 12 rounds.

A 64-bit seed is expanded into the 256-bit key.  The key stream is the concatenation of
blocks of sixteen 32-bit words with the block numbers 0, 1, 2, …, and two successive words
of the stream, the first one the lower half, make up the word of one draw.
-/
namespace WaveletPrecision

namespace ChaCha

/-- The working words of a block. -/
abbrev Block := Array UInt32

/-- A word rotated to the left. -/
def rotateLeft (x n : UInt32) : UInt32 := (x <<< n) ||| (x >>> (32 - n))

/-- A word rotated to the right, by any amount. -/
def rotateRight (x n : UInt32) : UInt32 := rotateLeft x ((32 - n % 32) % 32)

/-- Add word `b` to word `a`, then mix the sum into word `d`, which is rotated. -/
def addRotate (s : Block) (a b d : Nat) (n : UInt32) : Block :=
  let sum := s.getD a 0 + s.getD b 0
  let mixed := rotateLeft (s.getD d 0 ^^^ sum) n
  (s.setIfInBounds a sum).setIfInBounds d mixed

/-- The quarter round on four words. -/
def quarterRound (s : Block) (a b c d : Nat) : Block :=
  let s := addRotate s a b d 16
  let s := addRotate s c d b 12
  let s := addRotate s a b d 8
  addRotate s c d b 7

/-- The words of the columns and of the diagonals of a block, in the order of the rounds. -/
def quarters : List (Nat × Nat × Nat × Nat) :=
  [(0, 4, 8, 12), (1, 5, 9, 13), (2, 6, 10, 14), (3, 7, 11, 15),
    (0, 5, 10, 15), (1, 6, 11, 12), (2, 7, 8, 13), (3, 4, 9, 14)]

/-- A round on the columns followed by a round on the diagonals. -/
def doubleRound (s : Block) : Block :=
  quarters.foldl (fun s (a, b, c, d) => quarterRound s a b c d) s

/-- The words every block starts with. -/
def constants : List UInt32 := [0x61707865, 0x3320646e, 0x79622d32, 0x6b206574]

/-- The block before the rounds: constants, key, block number, and a stream number of zero. -/
def initial (key : List UInt32) (number : UInt64) : Block :=
  (constants ++ key ++ [number.toUInt32, (number >>> 32).toUInt32, 0, 0]).toArray

/-- The number of double rounds. -/
def doubleRounds : Nat := 6

/-- A block of the key stream. -/
def block (key : List UInt32) (number : UInt64) : List UInt32 :=
  let start := initial key number
  let mixed := (List.range doubleRounds).foldl (fun s _ => doubleRound s) start
  (mixed.zipWith (· + ·) start).toList

/-- Successive pairs of words, the lower half first. -/
def pairUp : List UInt32 → List UInt64
  | low :: high :: rest => (low.toUInt64 ||| (high.toUInt64 <<< 32)) :: pairUp rest
  | _ => []

/-- So many words of the key, from the state of the seed expansion. -/
def expand : Nat → UInt64 → List UInt32
  | 0, _ => []
  | n + 1, state =>
    let state := state * 6364136223846793005 + 11634580027462260723
    let mixed := (((state >>> 18) ^^^ state) >>> 27).toUInt32
    rotateRight mixed (state >>> 59).toUInt32 :: expand n state

end ChaCha

/-- The key stream from some block on: what is left of the current block, and the number of
the next one. -/
structure ChaCha where
  key : List UInt32
  buffer : List UInt64
  nextBlock : UInt64

namespace ChaCha

/-- The key stream of a seed, at its start. -/
def ofSeed (seed : UInt64) : ChaCha := ⟨expand 8 seed, [], 0⟩

instance : RandomSource ChaCha where
  next s :=
    match s.buffer with
    | word :: rest => (word, { s with buffer := rest })
    | [] =>
      match pairUp (block s.key s.nextBlock) with
      | word :: rest => (word, { s with buffer := rest, nextBlock := s.nextBlock + 1 })
      | [] => (0, s)

end ChaCha

end WaveletPrecision
