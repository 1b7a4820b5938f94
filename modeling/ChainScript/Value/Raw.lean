import ChainScript.Dict
import ChainScript.Json.Basic
import ChainScript.Number.Parser
import ChainScript.Value.Basic

/-! # Values and JSON

A raw result becomes a value by what its text reads as: an address, else a number, else a string.
Handing a value back writes numbers and addresses as strings, so reading them again gives the same
value up to the digits that the text of a number leaves out.
-/

namespace ChainScript.Value
set_option autoImplicit false

/-- What a string of a raw result stands for. -/
def ofText (text : String) : Value :=
  match Address.parse text with
  | .ok a => .address a
  | .error _ =>
    match Number.parse? text with
    | some n => .number n
    | none => .string text

/-- What a number of a raw result stands for. -/
def ofLiteral (literal : String) : Value :=
  match Number.parse? literal with
  | some n => .number n
  | none => .string literal

mutual

/-- The value of a raw result. -/
def ofJson : Json → Value
  | .null => .nothing
  | .bool flag => .bool flag
  | .number literal => ofLiteral literal
  | .string text => ofText text
  | .array items => .list (ofJsonList items)
  | .object entries => .map (ofJsonEntries entries)

def ofJsonList : List Json → List Value
  | [] => []
  | j :: js => ofJson j :: ofJsonList js

def ofJsonEntries : List (String × Json) → List (String × Value)
  | [] => []
  | (key, j) :: entries => (key, ofJson j) :: ofJsonEntries entries

end

mutual

/-- A value as it is handed to a chain, with addresses in the checksum spelling under this hash. -/
def toJsonWith (hash : List UInt8 → List UInt8) : Value → Json
  | .bool flag => .bool flag
  | .string text => .string text
  | .address a => .string (a.checksumWith hash)
  | .number n => .string n.plainText
  | .precise p => .string p.number.plainText
  | .list items => .array (toJsonListWith hash items)
  | .array items => .array (toJsonListWith hash items)
  | .map entries => .object (toJsonEntriesWith hash entries)
  | .event e => .string e.display
  | .anything => .string "Anything"
  | .nothing => .null

def toJsonListWith (hash : List UInt8 → List UInt8) : List Value → List Json
  | [] => []
  | v :: vs => toJsonWith hash v :: toJsonListWith hash vs

def toJsonEntriesWith (hash : List UInt8 → List UInt8) :
    List (String × Value) → List (String × Json)
  | [] => []
  | (key, v) :: entries => (key, toJsonWith hash v) :: toJsonEntriesWith hash entries

end

/-- A value as it is handed to a chain. -/
def toJson (v : Value) : Json := v.toJsonWith Keccak.digest

end ChainScript.Value
