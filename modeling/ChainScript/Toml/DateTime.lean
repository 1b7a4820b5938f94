import ChainScript.Number.Decimal

/-! # Dates and times of a settings document

A date, a time of day, or a date with a time and perhaps an offset from universal time.

* Reading checks the days against the calendar and the rest against the clock. A minute may have a
  second 60, and digits of a second beyond the ninth are dropped.
* Writing has one form: a `T` between date and time, a `Z` for universal time, and a fraction of a
  second without the zeros at its end.
-/

namespace ChainScript.Toml
set_option autoImplicit false

structure Date where
  year : Nat
  month : Nat
  day : Nat
  deriving DecidableEq, Inhabited

structure Time where
  hour : Nat
  minute : Nat
  second : Nat
  nanosecond : Nat
  deriving DecidableEq, Inhabited

inductive Offset where
  | universal
  | minutes (count : Int)
  deriving DecidableEq, Inhabited

inductive DateTime where
  | date (date : Date)
  | time (time : Time)
  | both (date : Date) (time : Time) (offset : Option Offset)
  deriving DecidableEq, Inhabited

/-! ## Writing -/

/-- A number in two digits. -/
def twoDigits (n : Nat) : List Char := Decimal.lowDigits 2 n

def Date.print (d : Date) : List Char :=
  Decimal.lowDigits 4 d.year ++ '-' :: twoDigits d.month ++ '-' :: twoDigits d.day

def Time.print (t : Time) : List Char :=
  let fraction := Decimal.dropTrailingZeros (Decimal.lowDigits 9 t.nanosecond)
  twoDigits t.hour ++ ':' :: twoDigits t.minute ++ ':' :: twoDigits t.second ++
    if fraction.isEmpty then [] else '.' :: fraction

def Offset.print : Offset → List Char
  | .universal => ['Z']
  | .minutes count =>
    (if count < 0 then '-' else '+') :: twoDigits (count.natAbs / 60) ++
      ':' :: twoDigits (count.natAbs % 60)

def DateTime.print : DateTime → List Char
  | .date d => d.print
  | .time t => t.print
  | .both d t none => d.print ++ 'T' :: t.print
  | .both d t (some offset) => d.print ++ 'T' :: t.print ++ offset.print

def DateTime.display (d : DateTime) : String := String.ofList d.print

/-! ## Reading -/

/-- A number of exactly so many digits within bounds. -/
def readField (width low high : Nat) (cs : List Char) : Option (Nat × List Char) :=
  let digits := cs.take width
  let n := Text.digitsValue digits
  if digits.length = width ∧ digits.all Text.isDigit ∧ low ≤ n ∧ n ≤ high then
    some (n, cs.drop width)
  else none

def expect (c : Char) : List Char → Option (List Char)
  | d :: rest => if c = d then some rest else none
  | [] => none

def isLeapYear (year : Nat) : Bool := year % 4 == 0 && (year % 100 != 0 || year % 400 == 0)

def daysInMonth (year month : Nat) : Nat :=
  if month = 2 then if isLeapYear year then 29 else 28
  else if month = 4 ∨ month = 6 ∨ month = 9 ∨ month = 11 then 30
  else 31

def readDate (cs : List Char) : Option (Date × List Char) := do
  let (year, rest) ← readField 4 0 9999 cs
  let (month, rest) ← readField 2 1 12 (← expect '-' rest)
  let (day, rest) ← readField 2 1 (daysInMonth year month) (← expect '-' rest)
  return (⟨year, month, day⟩, rest)

/-- The nanoseconds of the digits behind the point of a second. -/
def nanoseconds (digits : List Char) : Nat :=
  Text.digitsValue ((digits ++ List.replicate 9 '0').take 9)

/-- The fraction of a second, 0 if there is none. -/
def readNanoseconds (cs : List Char) : Nat × List Char :=
  match cs with
  | '.' :: rest =>
    let digits := rest.takeWhile Text.isDigit
    if digits.isEmpty then (0, cs) else (nanoseconds digits, rest.dropWhile Text.isDigit)
  | _ => (0, cs)

def readTime (cs : List Char) : Option (Time × List Char) := do
  let (hour, rest) ← readField 2 0 23 cs
  let (minute, rest) ← readField 2 0 59 (← expect ':' rest)
  let (second, rest) ← readField 2 0 60 (← expect ':' rest)
  let (nanosecond, rest) := readNanoseconds rest
  return (⟨hour, minute, second, nanosecond⟩, rest)

/-- An offset from universal time, if there is one. -/
def readOffset (cs : List Char) : Option (Option Offset × List Char) :=
  match cs with
  | 'Z' :: rest => some (some .universal, rest)
  | 'z' :: rest => some (some .universal, rest)
  | c :: rest =>
    if c = '+' ∨ c = '-' then do
      let (hours, rest) ← readField 2 0 23 rest
      let (minutes, rest) ← readField 2 0 59 (← expect ':' rest)
      let count : Int := 60 * hours + minutes
      return (some (.minutes (if c = '-' then -count else count)), rest)
    else some (none, cs)
  | [] => some (none, [])

/-- What follows a date: a time and perhaps an offset, or nothing that belongs to it. -/
def readBehindDate (d : Date) (cs : List Char) : Option (DateTime × List Char) :=
  match cs with
  | c :: rest =>
    if c = 'T' ∨ c = 't' ∨ c = ' ' then
      match readTime rest with
      | some (t, rest) => (readOffset rest).map fun (offset, rest) => (.both d t offset, rest)
      | none => some (.date d, cs)
    else some (.date d, cs)
  | [] => some (.date d, [])

/-- A date, a date with a time, or a time. -/
def readDateTime (cs : List Char) : Option (DateTime × List Char) :=
  match readDate cs with
  | some (d, rest) => readBehindDate d rest
  | none => (readTime cs).map fun (t, rest) => (.time t, rest)

end ChainScript.Toml
