import ChainScript.Settings.Basic
import ChainScript.Toml.Parser

/-! # Settings from a document

A key that is missing keeps its default and an unknown key is ignored, but a key with a value of the
wrong type makes the whole document invalid. The seed must not be negative.
-/

namespace ChainScript.Settings
set_option autoImplicit false

def string? : Toml → Option String
  | .string text => some text
  | _ => none

def boolean? : Toml → Option Bool
  | .boolean flag => some flag
  | _ => none

def seed? : Toml → Option UInt64
  | .integer n => if 0 ≤ n then some n.toNat.toUInt64 else none
  | _ => none

def strings? : Toml → Option (List String)
  | .array items => items.mapM string?
  | _ => none

/-- The key under which a date or time stands where a table is wanted. -/
def dateTimeKey : String := "$__toml_private_datetime"

/-- A table of strings. A date or time counts as a table with its text as the only entry. -/
def stringTable? : Toml → Option (Dict String)
  | .table entries =>
    (entries.mapM fun (entry : String × Toml) => (string? entry.2).map (entry.1, ·)).map Dict.ofList
  | .dateTime d => some [(dateTimeKey, d.display)]
  | _ => none

/-- The value under a key in the form `read`, or the default when there is none. -/
def field {α : Type} (entries : List (String × Toml)) (key : String) (read : Toml → Option α)
    (standard : α) : Option α :=
  match entries.lookup key with
  | some v => read v
  | none => some standard

/-- The settings of a document. -/
def ofToml? : Toml → Option Settings
  | .table entries => do
    let standard : Settings := {}
    return {
      defaultFrom := ← field entries "default_from" string? standard.defaultFrom
      accounts := ← field entries "accounts" strings? standard.accounts
      aliases := ← field entries "aliases" stringTable? standard.aliases
      chainSeed := ← field entries "chain_seed" seed? standard.chainSeed
      printValues := ← field entries "print_values" boolean? standard.printValues }
  | _ => none

/-- The settings written by a text. -/
def parse? (text : String) : Option Settings :=
  match Toml.parse? text with
  | some document => ofToml? document
  | none => none

end ChainScript.Settings
