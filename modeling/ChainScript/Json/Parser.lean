import ChainScript.Address
import ChainScript.Dict
import ChainScript.Json.Basic
import ChainScript.Json.Numeral

/-! # Reading JSON

A text is one value between blanks. Of several entries of an object under one key the last stands,
and arrays and objects nest at most `maxDepth` deep. A code point above U+FFFF may be escaped as a
pair of surrogates, but a surrogate alone is refused.
-/

namespace ChainScript.Json
set_option autoImplicit false

/-! ## Blanks and numbers -/

def isSpace (c : Char) : Bool := c == ' ' || c == '\n' || c == '\t' || c == '\r'

def skipSpaces (cs : List Char) : List Char := cs.dropWhile isSpace

/-- At least one digit. -/
def readDigits (cs : List Char) : Option (List Char × List Char) :=
  let digits := cs.takeWhile Text.isDigit
  if digits.isEmpty then none else some (digits, cs.dropWhile Text.isDigit)

/-- The digits before the point, with no zero in front of others. -/
def readWhole (cs : List Char) : Option (List Char × List Char) :=
  match readDigits cs with
  | some ('0' :: _ :: _, _) => none
  | other => other

/-- The digits behind the point, if there is one. -/
def readFraction : List Char → Option (List Char × List Char)
  | '.' :: rest => readDigits rest
  | cs => some ([], cs)

def splitSign : List Char → Bool × List Char
  | '-' :: rest => (true, rest)
  | '+' :: rest => (false, rest)
  | rest => (false, rest)

/-- The exponent, if there is one. -/
def readExponent (cs : List Char) : Option (Option Int × List Char) :=
  match cs with
  | c :: rest =>
    if c = 'e' ∨ c = 'E' then
      let (negative, rest) := splitSign rest
      (readDigits rest).map fun (digits, rest) =>
        let n : Int := Text.digitsValue digits
        (some (if negative then -n else n), rest)
    else some (none, cs)
  | [] => some (none, [])

def readNumeral (cs : List Char) : Option (Numeral × List Char) := do
  let (negative, unsigned) := match cs with
    | '-' :: rest => (true, rest)
    | _ => (false, cs)
  let (whole, rest) ← readWhole unsigned
  let (fraction, rest) ← readFraction rest
  let (exponent, rest) ← readExponent rest
  return (⟨negative, whole, fraction, exponent⟩, rest)

/-! ## Strings -/

/-- Where a string stands: plain, behind a backslash, in a 16-bit unit of which so many digits are
left, or behind a high surrogate and before the backslash or the `u` of the low one. -/
inductive Escape where
  | plain
  | started
  | unit (high : Option Nat) (left value : Nat)
  | pairing (high : Nat)
  | pairingStarted (high : Nat)

/-- The character that a letter behind a backslash stands for. -/
def escaped? : Char → Option Char
  | '"' => some '"'
  | '\\' => some '\\'
  | '/' => some '/'
  | 'b' => some (Char.ofNat 8)
  | 'f' => some (Char.ofNat 12)
  | 'n' => some '\n'
  | 'r' => some '\r'
  | 't' => some '\t'
  | _ => none

def isHighSurrogate (n : Nat) : Bool := 0xD800 ≤ n && n ≤ 0xDBFF

def isLowSurrogate (n : Nat) : Bool := 0xDC00 ≤ n && n ≤ 0xDFFF

/-- What a 16-bit unit comes to, behind a high surrogate or not. -/
def finishUnit (high : Option Nat) (n : Nat) : Option (Escape × List Char) :=
  match high with
  | some h =>
    if isLowSurrogate n then
      some (.plain, [Char.ofNat (0x10000 + (h - 0xD800) * 0x400 + (n - 0xDC00))])
    else none
  | none =>
    if isHighSurrogate n then some (.pairing n, [])
    else if isLowSurrogate n then none
    else some (.plain, [Char.ofNat n])

/-- What follows a digit of a 16-bit unit. -/
def unitDigit (high : Option Nat) (left value : Nat) (c : Char) : Option (Escape × List Char) :=
  match Address.hexValue? c with
  | none => none
  | some digit =>
    if left ≤ 1 then finishUnit high (16 * value + digit)
    else some (.unit high (left - 1) (16 * value + digit), [])

/-- One character inside a string: where the string stands behind it, and what it adds. -/
def stringStep (c : Char) : Escape → Option (Escape × List Char)
  | .plain =>
    if c = '\\' then some (.started, [])
    else if c.toNat < 0x20 then none
    else some (.plain, [c])
  | .started =>
    if c = 'u' then some (.unit none 4 0, []) else (escaped? c).map fun e => (.plain, [e])
  | .unit high left value => unitDigit high left value c
  | .pairing high => if c = '\\' then some (.pairingStarted high, []) else none
  | .pairingStarted high => if c = 'u' then some (.unit (some high) 4 0, []) else none

def Escape.isPlain : Escape → Bool
  | .plain => true
  | _ => false

/-- The rest of a string. `read` holds the characters before it, last first. -/
def stringRest : Escape → List Char → List Char → Option (String × List Char)
  | _, _, [] => none
  | mode, read, c :: rest =>
    if mode.isPlain && c == '"' then some (String.ofList read.reverse, rest)
    else
      match stringStep c mode with
      | some (mode, more) => stringRest mode (more ++ read) rest
      | none => none

/-! ## Values -/

/-- How deep arrays and objects may nest. -/
def maxDepth : Nat := 127

/-- A value that holds no others. -/
def readScalar : List Char → Option (Json × List Char)
  | 'n' :: 'u' :: 'l' :: 'l' :: rest => some (.null, rest)
  | 't' :: 'r' :: 'u' :: 'e' :: rest => some (.bool true, rest)
  | 'f' :: 'a' :: 'l' :: 's' :: 'e' :: rest => some (.bool false, rest)
  | '"' :: rest => (stringRest .plain [] rest).map fun (text, rest) => (.string text, rest)
  | cs =>
    match readNumeral cs with
    | some (n, rest) => n.literal?.map fun literal => (.number literal, rest)
    | none => none

/-- A key and the colon behind it. -/
def readKey (cs : List Char) : Option (String × List Char) :=
  match skipSpaces cs with
  | '"' :: rest =>
    match stringRest .plain [] rest with
    | some (key, rest) =>
      match skipSpaces rest with
      | ':' :: rest => some (key, rest)
      | _ => none
    | none => none
  | _ => none

mutual

/-- A value whose arrays and objects nest at most `depth` deep; `fuel` bounds the readers called
within each other. -/
def readValue : Nat → Nat → List Char → Option (Json × List Char)
  | 0, _, _ => none
  | fuel + 1, depth, cs =>
    match depth, skipSpaces cs with
    | depth + 1, '[' :: rest =>
      match skipSpaces rest with
      | ']' :: rest => some (.array [], rest)
      | _ => (readItems fuel depth rest).map fun (items, rest) => (.array items, rest)
    | depth + 1, '\x7b' :: rest =>
      match skipSpaces rest with
      | '\x7d' :: rest => some (.object [], rest)
      | _ =>
        (readEntries fuel depth rest).map fun (entries, rest) =>
          (.object (Dict.ofList entries), rest)
    | _, cs => readScalar cs

/-- The items of an array, up to its end. -/
def readItems : Nat → Nat → List Char → Option (List Json × List Char)
  | 0, _, _ => none
  | fuel + 1, depth, cs =>
    match readValue fuel depth cs with
    | none => none
    | some (item, rest) =>
      match skipSpaces rest with
      | ']' :: rest => some ([item], rest)
      | ',' :: rest => (readItems fuel depth rest).map fun (items, rest) => (item :: items, rest)
      | _ => none

/-- The entries of an object, up to its end. -/
def readEntries : Nat → Nat → List Char → Option (List (String × Json) × List Char)
  | 0, _, _ => none
  | fuel + 1, depth, cs =>
    match readKey cs with
    | none => none
    | some (key, rest) =>
      match readValue fuel depth rest with
      | none => none
      | some (value, rest) =>
        match skipSpaces rest with
        | '\x7d' :: rest => some ([(key, value)], rest)
        | ',' :: rest =>
          (readEntries fuel depth rest).map fun (entries, rest) => ((key, value) :: entries, rest)
        | _ => none

end

/-- The value of a text in which arrays and objects nest at most `depth` deep. -/
def parseWithin? (depth : Nat) (text : String) : Option Json :=
  let cs := text.toList
  match readValue (2 * cs.length + 2) depth cs with
  | some (value, rest) => if (skipSpaces rest).isEmpty then some value else none
  | none => none

/-- The value of a text. -/
def parse? (text : String) : Option Json := parseWithin? maxDepth text

end ChainScript.Json
