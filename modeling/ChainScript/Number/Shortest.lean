import ChainScript.Number.Decimal

/-! # Shortest decimals

The decimal with the fewest digits among those that read back as a given 64-bit float, and of these
the nearest to it. Digits are chosen by exact arithmetic: the numbers that read back as a float lie
between the midpoints to its neighbours, ends included when its mantissa is even, and on each grid
of decimals only the two neighbours of the float have to be looked at.
-/

namespace ChainScript.Shortest
set_option autoImplicit false

/-! ## Floats -/

/-- A positive float `mantissa * 2 ^ exponent`. Below a power of two the gap to the next float is
`narrow`: half of the gap above. -/
structure Binary where
  mantissa : Nat
  exponent : Int
  narrow : Bool
  deriving DecidableEq, Inhabited

namespace Binary

/-- The finite float with these bits, its sign aside. -/
def ofBits (bits : Nat) : Binary :=
  let fraction : Nat := bits % Nat.pow 2 52
  let place : Nat := bits / Nat.pow 2 52 % Nat.pow 2 11
  if place = 0 then ⟨fraction, -1074, false⟩
  else ⟨Nat.pow 2 52 + fraction, (place : Int) - 1075, fraction == 0 && 1 < place⟩

/-- A multiple of a quarter of the last place of a float. -/
def quarters (b : Binary) (count : Nat) : Rat :=
  let place := b.exponent - 2
  if 0 ≤ place then ((count * Nat.pow 2 place.toNat : Nat) : Rat)
  else mkRat count (Nat.pow 2 (-place).toNat)

def value (b : Binary) : Rat := b.quarters (4 * b.mantissa)

/-- The midpoint to the float below. -/
def low (b : Binary) : Rat := b.quarters (4 * b.mantissa - if b.narrow then 1 else 2)

/-- The midpoint to the float above. -/
def high (b : Binary) : Rat := b.quarters (4 * b.mantissa + 2)

/-- Whether a number reads back as this float. -/
def covers (b : Binary) (v : Rat) : Bool :=
  if b.mantissa % 2 = 0 then b.low ≤ v && v ≤ b.high else b.low < v && v < b.high

end Binary

/-! ## Digits -/

/-- The decimal `digits * 10 ^ exponent`. -/
structure Scientific where
  digits : Nat
  exponent : Int
  deriving DecidableEq, Inhabited

/-- Of the two neighbours of a float among the multiples of `10 ^ exponent`, the one that reads
back; of two, the nearer, and the even one when both are as near. -/
def onGrid (b : Binary) (exponent : Int) : Option Scientific :=
  let steps := Decimal.shift b.value (-exponent)
  let below := (Decimal.truncate steps).toNat
  let covers (n : Nat) : Bool := b.covers (Decimal.shift n exponent)
  let above := 2 * (steps - below)
  let chosen :=
    match covers below, covers (below + 1) with
    | true, true => some (if above < 1 ∨ above = 1 ∧ below % 2 = 0 then below else below + 1)
    | true, false => some below
    | false, true => some (below + 1)
    | false, false => none
  chosen.map (⟨·, exponent⟩)

/-- Every digit of a float. -/
def everyDigit (b : Binary) : Scientific :=
  if 0 ≤ b.exponent then ⟨b.mantissa * Nat.pow 2 b.exponent.toNat, 0⟩
  else ⟨b.mantissa * Nat.pow 5 (-b.exponent).toNat, b.exponent⟩

/-- The shortest decimal of a positive float: with 1, 2, up to 17 digits. -/
def ofBinary (b : Binary) : Scientific :=
  let leading := Decimal.exponent b.value
  ((List.range 17).findSome? fun (more : Nat) => onGrid b (leading - more)).getD (everyDigit b)

/-! ## Text -/

/-- Digits below this place are written without an exponent. -/
def plainBelow : Int := 16

/-- Digits whose leading place is below this one are written with an exponent. -/
def plainFrom : Int := -5

/-- The text of a decimal with a point: positional for moderate numbers, with an exponent otherwise.
A whole number ends in `.0`. -/
def layout (s : Scientific) : List Char :=
  let digits := Decimal.dropTrailingZeros (Nat.toDigits 10 s.digits)
  let leading : Int := (Nat.toDigits 10 s.digits).length + s.exponent - 1
  if leading < plainFrom ∨ plainBelow ≤ leading then
    let fraction := digits.drop 1
    digits.take 1 ++ (if fraction.isEmpty then [] else '.' :: fraction) ++
      'e' :: (toString leading).toList
  else if leading < 0 then '0' :: '.' :: (List.replicate (-leading - 1).toNat '0' ++ digits)
  else
    let size := leading.toNat + 1
    let padded := digits ++ List.replicate (size - digits.length) '0'
    let fraction := padded.drop size
    padded.take size ++ '.' :: if fraction.isEmpty then ['0'] else fraction

/-- The shortest text of a finite float that is not negative. -/
def text (f : Float) : String :=
  if f == 0 then "0.0" else String.ofList (layout (ofBinary (Binary.ofBits f.toBits.toNat)))

end ChainScript.Shortest
