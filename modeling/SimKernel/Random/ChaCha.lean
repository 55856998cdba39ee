/-!
# A stream of random words

The output of the ChaCha permutation with eight rounds: words of 32 bits, sixteen to a block, where block `n` depends
only on the key and on `n`. A key is expanded from a seed of 64 bits by a congruential generator with a permuted output.
-/

namespace SimKernel.Random

/-- A secret of eight words that determines a stream. -/
abbrev Key := Vector UInt32 8

/-- The sixteen words on which the rounds work. -/
abbrev Block := Vector UInt32 16

/-- The word turned left by `n` bits. -/
def rotateLeft (x : UInt32) (n : UInt32) : UInt32 :=
  (x <<< n) ||| (x >>> (32 - n))

/-- The word turned right by `n` bits. -/
def rotateRight (x : UInt32) (n : UInt32) : UInt32 :=
  if n = 0 then x else (x >>> n) ||| (x <<< (32 - n))

/-- Mixes the four words at the given places. -/
def quarterRound (s : Block) (i j k l : Fin 16) : Block :=
  let a := s[i] + s[j]
  let d := rotateLeft (s[l] ^^^ a) 16
  let c := s[k] + d
  let b := rotateLeft (s[j] ^^^ c) 12
  let a := a + b
  let d := rotateLeft (d ^^^ a) 8
  let c := c + d
  let b := rotateLeft (b ^^^ c) 7
  (((s.set i a).set j b).set k c).set l d

/-- One round over the columns and one over the diagonals. -/
def doubleRound (s : Block) : Block :=
  let s := quarterRound s 0 4 8 12
  let s := quarterRound s 1 5 9 13
  let s := quarterRound s 2 6 10 14
  let s := quarterRound s 3 7 11 15
  let s := quarterRound s 0 5 10 15
  let s := quarterRound s 1 6 11 12
  let s := quarterRound s 2 7 8 13
  quarterRound s 3 4 9 14

/-- Block `n` of the stream of a key, before the rounds: constants, key and number. -/
def initialBlock (key : Key) (n : UInt64) : Block :=
  #v[0x61707865, 0x3320646e, 0x79622d32, 0x6b206574,
    key[0], key[1], key[2], key[3], key[4], key[5], key[6], key[7],
    n.toUInt32, (n >>> 32).toUInt32, 0, 0]

/-- Block `n` of the stream of a key. -/
def block (key : Key) (n : UInt64) : Block :=
  let start := initialBlock key n
  Vector.zipWith (· + ·) (doubleRound (doubleRound (doubleRound (doubleRound start)))) start

/-- The rest of a stream: the words left of the current block, and the number of the next one. -/
structure WordStream where
  key : Key
  words : List UInt32
  nextBlock : UInt64
deriving DecidableEq

namespace WordStream

/-- The stream of a key from its beginning. -/
def ofKey (key : Key) : WordStream := ⟨key, [], 0⟩

/-- The next word. -/
def next (s : WordStream) : UInt32 × WordStream :=
  match s.words with
  | w :: rest => (w, { s with words := rest })
  | [] =>
    let b := block s.key s.nextBlock
    (b[0], { s with words := b.toList.tail, nextBlock := s.nextBlock + 1 })

/-- The number made of the next `n` words, the least significant one first. -/
def draw : Nat → WordStream → Nat × WordStream
  | 0, s => (0, s)
  | n + 1, s =>
    let (low, s) := s.next
    let (high, s) := draw n s
    (low.toNat + high <<< 32, s)

end WordStream

/-! ## Keys from seeds -/

/-- The next state of the generator that expands a seed. -/
def advanceSeed (state : UInt64) : UInt64 :=
  state * 6364136223846793005 + 11634580027462260723

/-- The word that a state of that generator stands for. -/
def seedWord (state : UInt64) : UInt32 :=
  rotateRight (((state >>> 18) ^^^ state) >>> 27).toUInt32 (state >>> 59).toUInt32

/-- The key for a seed. -/
def keyOfSeed (seed : UInt64) : Key :=
  let s1 := advanceSeed seed
  let s2 := advanceSeed s1
  let s3 := advanceSeed s2
  let s4 := advanceSeed s3
  let s5 := advanceSeed s4
  let s6 := advanceSeed s5
  let s7 := advanceSeed s6
  let s8 := advanceSeed s7
  #v[seedWord s1, seedWord s2, seedWord s3, seedWord s4, seedWord s5, seedWord s6, seedWord s7, seedWord s8]

end SimKernel.Random
