import ChainScript.Number.Decimal

/-! # Numbers

A number is an exact rational and the way it is shown: plainly, as a multiple of `10 ^ 18`, or as a
percentage of `10 ^ 18`. Arithmetic is exact and gives plain numbers. A precise number carries the
significant figures to which it is compared.
-/

namespace ChainScript
set_option autoImplicit false

inductive NumberFormat where
  | plain
  | exp
  | percent
  deriving DecidableEq, Inhabited

structure Number where
  value : Rat
  format : NumberFormat := .plain
  deriving DecidableEq, Inhabited

namespace Number

def ofInt (n : Int) : Number := ⟨n, .plain⟩

/-- Decimal places of the fixed-point unit. -/
def mantissaPlaces : Int := 18

/-- The number of units of `10 ^ 18` in `n`, shown as `n`. -/
def exp (n : Number) : Number :=
  ⟨Decimal.shift n.value mantissaPlaces, .exp⟩

/-- `n` percent of `10 ^ 18`, shown as `n%`. -/
def percent (n : Number) : Number :=
  ⟨Decimal.shift n.value (mantissaPlaces - 2), .percent⟩

def withFormat (n : Number) (format : NumberFormat) : Number :=
  { n with format := format }

/-! ## Arithmetic -/

def isZero (n : Number) : Bool := n.value == 0

def isInteger (n : Number) : Bool := n.value.den == 1

/-- Equality of the values, whatever the formats. -/
def sameValue (a b : Number) : Bool := a.value == b.value

def add (a b : Number) : Number := ⟨a.value + b.value, .plain⟩

def sub (a b : Number) : Number := ⟨a.value - b.value, .plain⟩

def mul (a b : Number) : Number := ⟨a.value * b.value, .plain⟩

/-- The exact quotient; there is none by zero. -/
def div? (a b : Number) : Option Number :=
  if b.value = 0 then none else some ⟨a.value / b.value, .plain⟩

/-- The number as an unsigned integer of 32 bits. -/
def toWord? (n : Number) : Option Nat :=
  if n.value.den = 1 ∧ 0 ≤ n.value.num ∧ n.value.num < UInt32.size then
    some n.value.num.toNat
  else none

/-! ## Text -/

/-- The decimal text of the value, whatever the format. -/
def plainText (n : Number) : String := Decimal.render n.value

/-- The text of a number in its format. -/
def display (n : Number) : String :=
  match n.format with
  | .plain => Decimal.render n.value
  | .exp => Decimal.render (Decimal.shift n.value (-mantissaPlaces))
  | .percent => Decimal.render (Decimal.shift n.value (2 - mantissaPlaces)) ++ "%"

end Number

/-! ## Precise numbers -/

/-- A number compared to so many significant figures. -/
structure Precise where
  number : Number
  precision : Nat
  deriving DecidableEq, Inhabited

namespace Precise

/-- Both sides agree when cut toward zero after the significant figures of `p`. -/
def agrees (p : Precise) (n : Number) : Bool :=
  Decimal.truncateSignificant p.number.value p.precision ==
    Decimal.truncateSignificant n.value p.precision

def display (p : Precise) : String :=
  p.number.display ++ " (precision " ++ toString p.precision ++ ")"

end Precise

end ChainScript
