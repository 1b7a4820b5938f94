import ChainScript.Number.Basic
import ChainScript.Text.Blank

/-! # Reading numbers

Blanks around the text are ignored. A number is an optional sign, digits with at most one point and
at least one digit, and optionally `e` or `E` with a signed integer. Neither that exponent nor the
exponent of the last digit may leave `-4096 .. 4096`.
-/

namespace ChainScript.Number
set_option autoImplicit false

/-- The largest exponent, in either direction. -/
def maxExponent : Int := 4096

def withinExponents (x : Int) : Bool := -maxExponent ≤ x && x ≤ maxExponent

/-- A sign, taken off the front: whether it is a minus, and the rest. -/
def splitSign : List Char → Bool × List Char
  | '-' :: rest => (true, rest)
  | '+' :: rest => (false, rest)
  | rest => (false, rest)

/-- A signed integer: an optional sign and at least one digit. -/
def readInteger? (cs : List Char) : Option Int :=
  let (negative, digits) := splitSign cs
  if digits.isEmpty || !digits.all Text.isDigit then none
  else if negative then some (-(Text.digitsValue digits : Int)) else some (Text.digitsValue digits)

def marksExponent (c : Char) : Bool := c == 'e' || c == 'E'

/-- The exponent behind the mantissa: 0 when nothing is left, else what follows the mark. -/
def readExponent? : List Char → Option Int
  | [] => some 0
  | _ :: rest =>
    match readInteger? rest with
    | some x => if withinExponents x then some x else none
    | none => none

/-- The number of a mantissa and an exponent. -/
def ofMantissa? (negative : Bool) (mantissa : List Char) (exponent : Int) : Option Number :=
  let whole := mantissa.takeWhile (· != '.')
  let fraction := (mantissa.dropWhile (· != '.')).tail
  let digits := whole ++ fraction
  let scale := exponent - fraction.length
  if digits.isEmpty || !digits.all Text.isDigit || !withinExponents scale then none
  else
    let n : Int := Text.digitsValue digits
    some ⟨Decimal.shift ((if negative then -n else n : Int) : Rat) scale, .plain⟩

/-- The number written by a text, if it is one. -/
def parse? (text : String) : Option Number :=
  let (negative, body) := splitSign (Text.trimChars text.toList)
  let mantissa := body.takeWhile fun c => !marksExponent c
  match readExponent? (body.dropWhile fun c => !marksExponent c) with
  | some exponent => ofMantissa? negative mantissa exponent
  | none => none

end ChainScript.Number
