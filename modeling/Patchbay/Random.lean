import Patchbay.Number.Power

/-
Pseudo-random numbers from a counter.

The words of the sequence are the blocks of the ChaCha cipher with twelve rounds,
keyed by the seed and numbered from zero.  A generator is its key and how many words
have been drawn, so each word is a function of the two.
-/

namespace Patchbay.Random

/-- The sixteen words that the cipher works on. -/
abbrev Block := Vector UInt32 16

def rotateLeft (w : UInt32) (n : UInt32) : UInt32 :=
  (w <<< n) ||| (w >>> (32 - n))

/-- Mix four words of a block. -/
def quarterRound (s : Block) (a b c d : Fin 16) : Block :=
  let s := s.set a (s[a] + s[b])
  let s := s.set d (rotateLeft (s[d] ^^^ s[a]) 16)
  let s := s.set c (s[c] + s[d])
  let s := s.set b (rotateLeft (s[b] ^^^ s[c]) 12)
  let s := s.set a (s[a] + s[b])
  let s := s.set d (rotateLeft (s[d] ^^^ s[a]) 8)
  let s := s.set c (s[c] + s[d])
  s.set b (rotateLeft (s[b] ^^^ s[c]) 7)

/-- A round on the columns and one on the diagonals. -/
def doubleRound (s : Block) : Block :=
  let s := quarterRound s 0 4 8 12
  let s := quarterRound s 1 5 9 13
  let s := quarterRound s 2 6 10 14
  let s := quarterRound s 3 7 11 15
  let s := quarterRound s 0 5 10 15
  let s := quarterRound s 1 6 11 12
  let s := quarterRound s 2 7 8 13
  quarterRound s 3 4 9 14

/-- The key words, eight of them. -/
abbrev Key := Vector UInt32 8

/-- Constants, key, and the block number over two words. -/
def startBlock (key : Key) (number : Nat) : Block :=
  #v[0x61707865, 0x3320646e, 0x79622d32, 0x6b206574,
     key[0], key[1], key[2], key[3], key[4], key[5], key[6], key[7],
     UInt32.ofNat number, UInt32.ofNat (number / twoTo 32), 0, 0]

/-- The words of one block of the sequence. -/
def block (key : Key) (number : Nat) : Block :=
  let start := startBlock key number
  let mixed := (List.range 6).foldl (fun s _ => doubleRound s) start
  Vector.ofFn fun i => start[i] + mixed[i]

/-- One step of the linear generator that spreads a seed over the key. -/
def spreadStep (state : UInt64) : UInt64 :=
  state * 6364136223846793005 + 11634580027462260723

/-- The word that a state of the linear generator gives: some of its bits, rotated by others. -/
def spreadWord (state : UInt64) : UInt32 :=
  let w := (((state >>> 18) ^^^ state) >>> 27).toUInt32
  let n := (state >>> 59).toUInt32
  (w >>> n) ||| (w <<< ((32 - n) &&& 31))

/-- The state after `n + 1` steps. -/
def spreadState (seed : UInt64) : Nat → UInt64
  | 0 => spreadStep seed
  | n + 1 => spreadStep (spreadState seed n)

def keyOf (seed : UInt64) : Key :=
  Vector.ofFn fun i => spreadWord (spreadState seed i)

/-- A sequence of words and how many of them have been drawn. -/
structure Generator where
  key : Key
  drawn : Nat

namespace Generator

def seeded (seed : UInt64) : Generator :=
  ⟨keyOf seed, 0⟩

/-- The next word of the sequence. -/
def nextWord (g : Generator) : UInt32 × Generator :=
  let words := block g.key (g.drawn / 16)
  (words.get ⟨g.drawn % 16, Nat.mod_lt _ (by decide)⟩, { g with drawn := g.drawn + 1 })

/-- The next number from zero up to, but not including, one: the upper twenty-four bits of a
word as a fraction. -/
def nextUnit (g : Generator) : Float32 × Generator :=
  let (word, g) := g.nextWord
  ((word >>> 8).toFloat32 * 5.9604644775390625e-8, g)

end Generator

end Patchbay.Random
