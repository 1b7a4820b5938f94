/-! # Keccak-256

The sponge over the 1600-bit permutation with a rate of 136 bytes, a first padding byte of 1 and a
digest of 32 bytes. A state is 25 lanes of 64 bits, lane `x + 5 * y` at column `x` and row `y`.
-/

namespace ChainScript.Keccak
set_option autoImplicit false

abbrev State := Array UInt64

def lane (s : State) (x y : Nat) : UInt64 :=
  s.getD (x % 5 + 5 * (y % 5)) 0

/-- A state from its lanes by column and row. -/
def ofLanes (f : Nat → Nat → UInt64) : State :=
  ((List.range 25).map fun i => f (i % 5) (i / 5)).toArray

def rotateLeft (w : UInt64) (n : Nat) : UInt64 :=
  if n = 0 then w else (w <<< n.toUInt64) ||| (w >>> (64 - n).toUInt64)

/-! ## The permutation -/

/-- The rotation of each lane, by column and row. -/
def rotations : List Nat :=
  [0, 1, 62, 28, 27, 36, 44, 6, 55, 20, 3, 10, 43, 25, 39, 41, 45, 15, 21, 8, 18, 2, 61, 56, 14]

def roundConstants : List UInt64 :=
  [0x0000000000000001, 0x0000000000008082, 0x800000000000808A, 0x8000000080008000,
   0x000000000000808B, 0x0000000080000001, 0x8000000080008081, 0x8000000000008009,
   0x000000000000008A, 0x0000000000000088, 0x0000000080008009, 0x000000008000000A,
   0x000000008000808B, 0x800000000000008B, 0x8000000000008089, 0x8000000000008003,
   0x8000000000008002, 0x8000000000000080, 0x000000000000800A, 0x800000008000000A,
   0x8000000080008081, 0x8000000000008080, 0x0000000080000001, 0x8000000080008008]

/-- Each lane takes up the parities of two neighbouring columns. -/
def theta (s : State) : State :=
  let parity : State := ((List.range 5).map fun x =>
    lane s x 0 ^^^ lane s x 1 ^^^ lane s x 2 ^^^ lane s x 3 ^^^ lane s x 4).toArray
  let effect : State := ((List.range 5).map fun x =>
    parity.getD ((x + 4) % 5) 0 ^^^ rotateLeft (parity.getD ((x + 1) % 5) 0) 1).toArray
  ofLanes fun x y => lane s x y ^^^ effect.getD x 0

/-- Each lane is rotated by its own amount and moved. -/
def rhoPi (s : State) : State :=
  ofLanes fun x y =>
    let column := (x + 3 * y) % 5
    rotateLeft (lane s column x) (rotations.getD (column + 5 * x) 0)

/-- Each lane is combined with the next two of its row. -/
def chi (s : State) : State :=
  ofLanes fun x y => lane s x y ^^^ (~~~(lane s (x + 1) y) &&& lane s (x + 2) y)

def iota (constant : UInt64) (s : State) : State :=
  s.modify 0 (· ^^^ constant)

def permute (s : State) : State :=
  roundConstants.foldl (fun s constant => iota constant (chi (rhoPi (theta s)))) s

/-! ## The sponge -/

/-- Bytes taken up between two permutations. -/
def rate : Nat := 136

/-- The padding of a message of this length: a 1, zeros, and the highest bit of the last byte. -/
def padding (length : Nat) : List UInt8 :=
  match rate - length % rate with
  | 0 | 1 => [0x81]
  | n + 2 => 0x01 :: List.replicate n 0 ++ [0x80]

/-- The word of at most eight bytes, lowest first. -/
def wordOfBytes : List UInt8 → UInt64
  | [] => 0
  | b :: bs => b.toUInt64 ||| (wordOfBytes bs <<< 8)

def bytesOfWord (w : UInt64) : List UInt8 :=
  (List.range 8).map fun i => (w >>> (8 * i).toUInt64).toUInt8

def absorbBlock (s : State) (block : List UInt8) : State :=
  permute (ofLanes fun x y =>
    lane s x y ^^^ wordOfBytes ((block.drop (8 * (x + 5 * y))).take 8))

def absorb : Nat → State → List UInt8 → State
  | 0, s, _ => s
  | blocks + 1, s, bytes => absorb blocks (absorbBlock s (bytes.take rate)) (bytes.drop rate)

/-- The 32 bytes of the digest of a message. -/
def digest (message : List UInt8) : List UInt8 :=
  let padded := message ++ padding message.length
  let s := absorb (padded.length / rate) (Array.replicate 25 0) padded
  (List.range 4).flatMap fun i => bytesOfWord (s.getD i 0)

end ChainScript.Keccak
