import ChainScript.Toml.Basic
import ChainScript.Toml.Strings

/-! # Numbers of a settings document

Integers have 64 bits and may be written in base 16, 8 or 2. A float that is too large to be finite
is refused.
-/

namespace ChainScript.Toml
set_option autoImplicit false

/-! ## Digits -/

/-- The digits that follow a digit; an underscore may stand before each of them. -/
def moreDigits (isDigit : Char → Bool) : List Char → List Char × List Char
  | '_' :: c :: rest =>
    if isDigit c then
      let (digits, rest) := moreDigits isDigit rest
      (c :: digits, rest)
    else ([], '_' :: c :: rest)
  | c :: rest =>
    if isDigit c then
      let (digits, rest) := moreDigits isDigit rest
      (c :: digits, rest)
    else ([], c :: rest)
  | [] => ([], [])

/-- At least one digit. -/
def readDigits (isDigit : Char → Bool) : List Char → Option (List Char × List Char)
  | c :: rest =>
    if isDigit c then
      let (digits, rest) := moreDigits isDigit rest
      some (c :: digits, rest)
    else none
  | [] => none

/-- Decimal digits of an integer, with no zero in front of others. -/
def readDecimal : List Char → Option (List Char × List Char)
  | '0' :: rest => some (['0'], rest)
  | cs => readDigits Text.isDigit cs

def splitSign : List Char → Option Char × List Char
  | '+' :: rest => (some '+', rest)
  | '-' :: rest => (some '-', rest)
  | rest => (none, rest)

/-- The text that a reader has taken off the front of `cs` when it leaves `rest`. -/
def consumed (cs rest : List Char) : String :=
  String.ofList (cs.take (cs.length - rest.length))

/-! ## Integers and floats -/

/-- An integer of 64 bits. -/
def integer? (value : Int) : Option Toml :=
  if Int64.minValue.toInt ≤ value ∧ value ≤ Int64.maxValue.toInt then some (.integer value)
  else none

def readInBase (base : Nat) (isDigit : Char → Bool) (cs : List Char) : Option (Toml × List Char) :=
  match readDigits isDigit cs with
  | some (digits, rest) => (integer? (Address.valueInBase base digits)).map (·, rest)
  | none => none

def isHexDigit (c : Char) : Bool := (Address.hexValue? c).isSome

def isOctalDigit (c : Char) : Bool := '0' ≤ c && c ≤ '7'

def isBinaryDigit (c : Char) : Bool := c == '0' || c == '1'

/-- The least number that rounds to infinity in 64 bits. -/
def floatBound : Nat := Nat.pow 2 1024 - Nat.pow 2 970

/-- Whether digits times a power of ten are too large to be finite. -/
def isHuge (digits : List Char) (scale : Int) : Bool :=
  let significant := digits.dropWhile (· == '0')
  let order := significant.length + scale
  if significant.isEmpty || order < 309 then false
  else if 309 < order then true
  else
    let n := Address.valueInBase 10 significant
    if 0 ≤ scale then floatBound ≤ n * Nat.pow 10 scale.toNat
    else floatBound * Nat.pow 10 (-scale).toNat ≤ n

/-- The fraction of a float, if there is one. -/
def readFraction : List Char → Option (List Char × List Char)
  | '.' :: rest => readDigits Text.isDigit rest
  | cs => some ([], cs)

/-- The exponent of a float, if there is one. -/
def readExponent (cs : List Char) : Option (Int × List Char) :=
  match cs with
  | c :: rest =>
    if c = 'e' ∨ c = 'E' then
      let (sign, rest) := splitSign rest
      match readDigits Text.isDigit rest with
      | some (digits, rest) =>
        let n : Int := Address.valueInBase 10 digits
        some (if sign = some '-' then -n else n, rest)
      | none => none
    else some (0, cs)
  | [] => some (0, [])

/-- A decimal number: an integer, or a float when a fraction or an exponent follows. -/
def readDecimalNumber (cs : List Char) : Option (Toml × List Char) := do
  let (sign, unsigned) := splitSign cs
  let (whole, afterWhole) ← readDecimal unsigned
  let (fraction, afterFraction) ← readFraction afterWhole
  let (exponent, rest) ← readExponent afterFraction
  if rest.length = afterWhole.length then
    let n : Int := Address.valueInBase 10 whole
    return (← integer? (if sign = some '-' then -n else n), rest)
  else if sign ≠ some '-' ∧ isHuge (whole ++ fraction) (exponent - fraction.length) then none
  else return (.float (consumed cs rest), rest)

/-- Infinity or an undefined float, with or without a sign. -/
def readSpecialFloat (cs : List Char) : Option (Toml × List Char) :=
  let (_, word) := splitSign cs
  match word with
  | 'i' :: 'n' :: 'f' :: rest => some (.float (consumed cs rest), rest)
  | 'n' :: 'a' :: 'n' :: rest => some (.float (consumed cs rest), rest)
  | _ => none

/-- A number of any form. -/
def readNumber (cs : List Char) : Option (Toml × List Char) :=
  match cs with
  | '0' :: 'x' :: rest => readInBase 16 isHexDigit rest
  | '0' :: 'o' :: rest => readInBase 8 isOctalDigit rest
  | '0' :: 'b' :: rest => readInBase 2 isBinaryDigit rest
  | _ => (readSpecialFloat cs).or (readDecimalNumber cs)

end ChainScript.Toml
