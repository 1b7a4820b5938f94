import ChainScript.Dict
import ChainScript.Number.Parser
import ChainScript.Value.Basic

/-! # Comparison of values

Equality follows a fixed table over the kinds. `anything` equals every value, `nothing` no other.
Numbers, addresses and truth values also compare with the texts that write them, and truth values
with 0 and 1. Lists compare element by element, and a missing element stands for `nothing`. Maps
need the same keys. Every other pair of kinds cannot be compared. Only numbers are ordered.
-/

namespace ChainScript
set_option autoImplicit false

/-- The kinds of two values that cannot be compared, left first. -/
structure Mismatch where
  left : Kind
  right : Kind
  deriving DecidableEq, Inhabited

namespace Value

/-- Whether a text writes this truth value. -/
def textMatchesBool (text : String) (flag : Bool) : Bool :=
  let word := Text.lower text
  if word = "true" then flag else if word = "false" then !flag else false

/-- Whether a number is the 0 or 1 of this truth value. -/
def numberMatchesBool (number : Number) (flag : Bool) : Bool :=
  number.value == if flag then 1 else 0

def textMatchesNumber (text : String) (number : Number) : Bool :=
  match Number.parse? text with
  | some parsed => parsed.sameValue number
  | none => false

def textMatchesPrecise (text : String) (precise : Precise) : Bool :=
  match Number.parse? text with
  | some parsed => precise.agrees parsed
  | none => false

def textMatchesAddress (text : String) (address : Address) : Bool :=
  match Address.parse text with
  | .ok parsed => parsed == address
  | .error _ => false

mutual

/-- Equality of an expected and a given value. -/
def compare : Value → Value → Except Mismatch Bool
  | .anything, _ => .ok true
  | _, .anything => .ok true
  | .nothing, _ => .ok false
  | _, .nothing => .ok false
  | .number a, .number b => .ok (a.sameValue b)
  | .number a, .precise p => .ok (p.agrees a)
  | .precise p, .number b => .ok (p.agrees b)
  | .precise p, .precise q => .ok (p.agrees q.number)
  | .number a, .string t => .ok (textMatchesNumber t a)
  | .string t, .number b => .ok (textMatchesNumber t b)
  | .precise p, .string t => .ok (textMatchesPrecise t p)
  | .string t, .precise p => .ok (textMatchesPrecise t p)
  | .address a, .address b => .ok (a == b)
  | .address a, .string t => .ok (textMatchesAddress t a)
  | .string t, .address b => .ok (textMatchesAddress t b)
  | .bool a, .bool b => .ok (a == b)
  | .bool a, .number b => .ok (numberMatchesBool b a)
  | .number a, .bool b => .ok (numberMatchesBool a b)
  | .bool a, .string t => .ok (textMatchesBool t a)
  | .string t, .bool b => .ok (textMatchesBool t b)
  | .string s, .string t => .ok (s == t)
  | .list xs, .list ys => compareList xs ys
  | .list xs, .array ys => compareList xs ys
  | .array xs, .list ys => compareList xs ys
  | .array xs, .array ys => compareList xs ys
  | .map xs, .map ys => if xs.length = ys.length then compareEntries xs ys else .ok false
  | .event a, .event b => .ok (a == b)
  | a, b => .error ⟨a.kind, b.kind⟩

/-- Equality of lists up to the longer length: where one of them has ended, only `anything` equals
the missing element. -/
def compareList : List Value → List Value → Except Mismatch Bool
  | [], ys => .ok (ys.all isAnything)
  | x :: xs, [] => .ok (x.isAnything && xs.all isAnything)
  | x :: xs, y :: ys =>
    match compare x y with
    | .ok true => compareList xs ys
    | .ok false => .ok false
    | .error e => .error e

/-- Equality of the entries on the left with those of the same keys on the right. -/
def compareEntries : List (String × Value) → List (String × Value) → Except Mismatch Bool
  | [], _ => .ok true
  | (key, x) :: xs, ys =>
    match Dict.find? key ys with
    | none => .ok false
    | some y =>
      match compare x y with
      | .ok true => compareEntries xs ys
      | .ok false => .ok false
      | .error e => .error e

end

/-! ## Lists by index -/

theorem compare_nothing_left (v : Value) : compare .nothing v = .ok v.isAnything := by
  cases v <;> rfl

theorem compare_nothing_right (v : Value) : compare v .nothing = .ok v.isAnything := by
  cases v <;> rfl

/-- The elements of two lists at each index of the longer one, with `nothing` for what is missing. -/
def atEachIndex (xs ys : List Value) : List (Value × Value) :=
  (List.range (max xs.length ys.length)).map fun i => (xs.getD i .nothing, ys.getD i .nothing)

theorem atEachIndex_nil (ys : List Value) : atEachIndex [] ys = ys.map fun y => (.nothing, y) := by
  apply List.ext_getElem
  · simp [atEachIndex]
  · intro i hi hi'
    have hlt : i < ys.length := by simpa using hi'
    simp [atEachIndex, hlt]

theorem atEachIndex_cons (x : Value) (xs ys : List Value) :
    atEachIndex (x :: xs) ys = (x, ys.headD .nothing) :: atEachIndex xs ys.tail := by
  cases ys <;> simp [atEachIndex, List.range_succ_eq_map, Nat.succ_max_succ]

/-- Where the left list has ended, each element left over is compared with `nothing`. -/
theorem compareList_nil (ys : List Value) :
    compareList [] ys = (atEachIndex [] ys).allM fun pair => compare pair.1 pair.2 := by
  rw [atEachIndex_nil, compareList]
  induction ys with
  | nil => rfl
  | cons y ys ih =>
    rw [List.map_cons, List.allM, compare_nothing_left, List.all_cons]
    cases y.isAnything with
    | false => rfl
    | true => exact ih

/-- Lists are compared at each index of the longer one, in order, up to the first that differs. -/
theorem compareList_eq (xs ys : List Value) :
    compareList xs ys = (atEachIndex xs ys).allM fun pair => compare pair.1 pair.2 := by
  induction xs generalizing ys with
  | nil => exact compareList_nil ys
  | cons x xs ih =>
    rw [atEachIndex_cons, List.allM]
    cases ys with
    | nil =>
      have hrest : compareList xs [] = .ok (xs.all isAnything) := by
        cases xs with
        | nil => rfl
        | cons x' xs => rw [compareList, List.all_cons]
      rw [compareList, List.headD_nil, List.tail_nil, compare_nothing_right, ← ih, hrest]
      cases x.isAnything <;> rfl
    | cons y ys =>
      rw [compareList, List.headD_cons, List.tail_cons, ← ih]
      rcases compare x y with e | _ | _ <;> rfl

/-! ## Order -/

/-- The order of two numbers; other values have none. -/
def order (a b : Value) : Except Mismatch Ordering :=
  match a.numeric?, b.numeric? with
  | some x, some y => .ok (if x < y then .lt else if x = y then .eq else .gt)
  | _, _ => .error ⟨a.kind, b.kind⟩

end Value

end ChainScript
