import ChainScript.Address
import ChainScript.Event.Printer
import ChainScript.Number.Basic

/-! # Values

What an expression resolves to. Lists and arrays differ in name only. `anything` equals every value
and `nothing` equals none but `anything`. The entries of a map stand in the order of their keys.
-/

namespace ChainScript
set_option autoImplicit false

inductive Kind where
  | bool
  | string
  | address
  | number
  | precise
  | list
  | array
  | map
  | event
  | anything
  | nothing
  deriving DecidableEq, Inhabited

def Kind.name : Kind → String
  | .bool => "BoolV"
  | .string => "StringV"
  | .address => "AddressV"
  | .number => "NumberV"
  | .precise => "PreciseV"
  | .list => "ListV"
  | .array => "ArrayV"
  | .map => "MapV"
  | .event => "EventV"
  | .anything => "AnythingV"
  | .nothing => "NothingV"

inductive Value where
  | bool (flag : Bool)
  | string (text : String)
  | address (address : Address)
  | number (number : Number)
  | precise (precise : Precise)
  | list (items : List Value)
  | array (items : List Value)
  | map (entries : List (String × Value))
  | event (event : Event)
  | anything
  | nothing
  deriving Inhabited

namespace Value

def kind : Value → Kind
  | .bool _ => .bool
  | .string _ => .string
  | .address _ => .address
  | .number _ => .number
  | .precise _ => .precise
  | .list _ => .list
  | .array _ => .array
  | .map _ => .map
  | .event _ => .event
  | .anything => .anything
  | .nothing => .nothing

/-! ## Views -/

def asBool? : Value → Option Bool
  | .bool flag => some flag
  | _ => none

def asString? : Value → Option String
  | .string text => some text
  | _ => none

def asAddress? : Value → Option Address
  | .address a => some a
  | _ => none

def asNumber? : Value → Option Number
  | .number n => some n
  | _ => none

def asEvent? : Value → Option Event
  | .event e => some e
  | _ => none

/-- The items of a list or an array. -/
def asList? : Value → Option (List Value)
  | .list items => some items
  | .array items => some items
  | _ => none

def isNothing : Value → Bool
  | .nothing => true
  | _ => false

def isAnything : Value → Bool
  | .anything => true
  | _ => false

/-- The rational behind a number or a precise number. -/
def numeric? : Value → Option Rat
  | .number n => some n.value
  | .precise p => some p.number.value
  | _ => none

/-- Whether a value counts as true: what is empty or zero does not. -/
def truthy : Value → Bool
  | .bool flag => flag
  | .string text => !text.isEmpty
  | .address a => !a.isZero
  | .number n => !n.isZero
  | .precise p => !p.number.isZero
  | .list items => !items.isEmpty
  | .array items => !items.isEmpty
  | .map entries => !entries.isEmpty
  | .event _ => true
  | .anything => true
  | .nothing => false

/-! ## Text -/

mutual

/-- The text of a value. -/
def display : Value → String
  | .bool flag => if flag then "true" else "false"
  | .string text => text
  | .address a => a.display
  | .number n => n.display
  | .precise p => p.display
  | .list items => "[" ++ ", ".intercalate (displayList items) ++ "]"
  | .array items => "[" ++ ", ".intercalate (displayList items) ++ "]"
  | .map entries => "\x7b" ++ ", ".intercalate (displayEntries entries) ++ "\x7d"
  | .event e => e.display
  | .anything => "Anything"
  | .nothing => "Nothing"

def displayList : List Value → List String
  | [] => []
  | v :: vs => v.display :: displayList vs

def displayEntries : List (String × Value) → List String
  | [] => []
  | (key, v) :: entries => (key ++ ": " ++ v.display) :: displayEntries entries

end

end Value

end ChainScript
