/-! # A seeded byte stream

The stream cipher ChaCha with 12 rounds, keyed from a 64-bit seed. The stream is the sequence of its
blocks of 64 bytes from block 0 on; `Stream.slice` reads a part of it.
-/

namespace ChainScript.Stream
set_option autoImplicit false

/-! ## The key -/

/-- The step of the generator that spreads a seed over the key. -/
def advance (s : UInt64) : UInt64 :=
  s * 6364136223846793005 + 11634580027462260723

def rotateRight (w r : UInt32) : UInt32 :=
  (w >>> r) ||| (w <<< ((32 - r) % 32))

def rotateLeft (w r : UInt32) : UInt32 :=
  (w <<< r) ||| (w >>> ((32 - r) % 32))

/-- The key word of a state of the generator. -/
def keyWord (s : UInt64) : UInt32 :=
  rotateRight (((s >>> 18) ^^^ s) >>> 27).toUInt32 (s >>> 59).toUInt32

/-- The next `count` key words. -/
def keyWords : Nat → UInt64 → List UInt32
  | 0, _ => []
  | count + 1, s => keyWord (advance s) :: keyWords count (advance s)

/-! ## Blocks -/

def constants : List UInt32 := [0x61707865, 0x3320646e, 0x79622d32, 0x6b206574]

/-- The input of a block: the constants, the key, the 64-bit number of the block, and two zeros. -/
def inputWords (seed : UInt64) (block : Nat) : List UInt32 :=
  constants ++ keyWords 8 seed ++ [block.toUInt32, (block / UInt32.size).toUInt32, 0, 0]

/-- Mixes words `a`, `b`, `c` and `d`. -/
def quarterRound (a b c d : Nat) (s : Array UInt32) : Array UInt32 :=
  let wa := s.getD a 0
  let wb := s.getD b 0
  let wc := s.getD c 0
  let wd := s.getD d 0
  let wa := wa + wb
  let wd := rotateLeft (wd ^^^ wa) 16
  let wc := wc + wd
  let wb := rotateLeft (wb ^^^ wc) 12
  let wa := wa + wb
  let wd := rotateLeft (wd ^^^ wa) 8
  let wc := wc + wd
  let wb := rotateLeft (wb ^^^ wc) 7
  (((s.setIfInBounds a wa).setIfInBounds b wb).setIfInBounds c wc).setIfInBounds d wd

/-- A round over the columns and one over the diagonals. -/
def doubleRound (s : Array UInt32) : Array UInt32 :=
  let s := quarterRound 1 5 9 13 (quarterRound 0 4 8 12 s)
  let s := quarterRound 3 7 11 15 (quarterRound 2 6 10 14 s)
  let s := quarterRound 1 6 11 12 (quarterRound 0 5 10 15 s)
  quarterRound 3 4 9 14 (quarterRound 2 7 8 13 s)

def doubleRounds : Nat → Array UInt32 → Array UInt32
  | 0, s => s
  | count + 1, s => doubleRounds count (doubleRound s)

def bytesOfWord (w : UInt32) : List UInt8 :=
  [w.toUInt8, (w >>> 8).toUInt8, (w >>> 16).toUInt8, (w >>> 24).toUInt8]

/-- The 64 bytes of a block. -/
def block (seed : UInt64) (number : Nat) : List UInt8 :=
  let input := inputWords seed number
  let mixed := (doubleRounds 6 input.toArray).toList
  (List.zipWith (· + ·) mixed input).flatMap bytesOfWord

/-! ## The stream -/

def blockSize : Nat := 64

/-- Byte `i` of the stream of a seed. -/
def byte (seed : UInt64) (i : Nat) : UInt8 :=
  (block seed (i / blockSize)).getD (i % blockSize) 0

/-- The `count` bytes from `start` on, read from the blocks that hold them. -/
def slice (seed : UInt64) (start count : Nat) : List UInt8 :=
  let blocks := (List.range ((start % blockSize + count + blockSize - 1) / blockSize)).flatMap
    fun k => block seed (start / blockSize + k)
  (blocks.drop (start % blockSize)).take count

end ChainScript.Stream
