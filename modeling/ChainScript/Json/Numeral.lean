import ChainScript.Number.Shortest

/-! # Numbers of a JSON text

An integer that fits into 64 bits, signed or not, stands for itself. Every other number stands for a
64-bit float: its leading digits, as far as they fit into 64 bits, are multiplied or divided by a
power of ten. A number too large for a float is none.
-/

namespace ChainScript.Json
set_option autoImplicit false

/-- A number taken apart as it is written. -/
structure Numeral where
  negative : Bool
  whole : List Char
  fraction : List Char
  exponent : Option Int
  deriving DecidableEq, Inhabited

namespace Numeral

/-- Digits appended to a number as long as it stays below `2 ^ 64`, and how many were appended. -/
def absorb (n : Nat) : List Char → Nat × Nat
  | [] => (n, 0)
  | c :: cs =>
    let next := 10 * n + Text.digitValue c
    if next < UInt64.size then
      match absorb next cs with
      | (m, count) => (m, count + 1)
    else (n, 0)

/-- The leading digits, and the power of ten by which they are multiplied. -/
def significand (n : Numeral) : Nat × Int :=
  let (leading, count) := absorb 0 n.whole
  let (all, places) := absorb leading n.fraction
  (all, (n.whole.length - count : Nat) - (places : Int) + n.exponent.getD 0)

/-- The largest power of ten below the largest float. -/
def maxPower : Nat := 308

/-- A float times a power of ten. Divisions by more than the largest power go in `steps`. -/
def scale : Nat → Float → Int → Option Float
  | steps, f, power =>
    let factor := Float.ofScientific 1 false (min power.natAbs maxPower)
    if power.natAbs ≤ maxPower then
      if 0 ≤ power then if (f * factor).isInf then none else some (f * factor)
      else some (f / factor)
    else if f == 0 then some f
    else if 0 ≤ power then none
    else
      match steps with
      | 0 => some 0
      | steps + 1 => scale steps (f / factor) (power + maxPower)

/-- The float that a number stands for, its sign aside. -/
def toFloat? (n : Numeral) : Option Float :=
  scale 3 n.significand.1.toUInt64.toFloat n.significand.2

/-- The integer that a number stands for, if it is written as one and fits into 64 bits. -/
def toInt? (n : Numeral) : Option Int :=
  let value := Text.digitsValue n.whole
  if !n.fraction.isEmpty || n.exponent.isSome then none
  else if n.negative then
    if 0 < value ∧ Int64.minValue.toInt ≤ -value then some (-value) else none
  else if value < UInt64.size then some value else none

/-- The text of the number that is meant. -/
def literal? (n : Numeral) : Option String :=
  match n.toInt? with
  | some i => some (toString i)
  | none => n.toFloat?.map fun f => (if n.negative then "-" else "") ++ Shortest.text f

end Numeral

end ChainScript.Json
