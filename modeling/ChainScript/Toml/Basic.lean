import ChainScript.Toml.DateTime

/-! # Settings documents

A TOML document is a table. Floats are kept as they are written.

`Node` is a table while a document is read. Besides its entries it knows how a table came about, for
a document must not define a table twice: by a header, on the way of a longer header, or by a dotted
key.
-/

namespace ChainScript
set_option autoImplicit false

inductive Toml where
  | string (text : String)
  | integer (value : Int)
  | float (literal : String)
  | boolean (flag : Bool)
  | dateTime (value : ChainScript.Toml.DateTime)
  | array (items : List Toml)
  | table (entries : List (String × Toml))
  deriving Inhabited

namespace Toml

/-- How a table came about. -/
inductive Origin where
  | defined
  | implied
  | dotted
  deriving DecidableEq, Inhabited

/-- A part of a document that is being read: a value, a table, or tables that make up an array. -/
inductive Node where
  | value (value : Toml)
  | table (origin : Origin) (entries : List (String × Node))
  | tables (items : List (List (String × Node)))
  deriving Inhabited

abbrev Entries : Type := List (String × Node)

namespace Entries

/-- The entries with `node` under `key`, in place or at the end. -/
def assign (key : String) (node : Node) : Entries → Entries
  | [] => [(key, node)]
  | (k, n) :: rest => if k = key then (k, node) :: rest else (k, n) :: assign key node rest

/-- A change of the last item of a list. -/
def changeLast {α : Type} (f : α → Option α) : List α → Option (List α)
  | [] => none
  | [a] => (f a).map ([·])
  | a :: rest => (changeLast f rest).map (a :: ·)

/-- A change of the table at the end of a path of header keys. Tables on the way are implied, and of
an array of tables the last one is meant. -/
def changeAt (f : Entries → Option Entries) : List String → Entries → Option Entries
  | [], entries => f entries
  | key :: path, entries =>
    match entries.lookup key with
    | none => (changeAt f path []).map fun inner => entries.assign key (.table .implied inner)
    | some (.value _) => none
    | some (.table origin inner) =>
      (changeAt f path inner).map fun inner => entries.assign key (.table origin inner)
    | some (.tables items) =>
      (changeLast (changeAt f path) items).map fun items => entries.assign key (.tables items)

/-- The entries with a value under a dotted key: a path of tables that only dotted keys may define,
and a key that must be new. -/
def put (key : String) (value : Toml) : List String → Entries → Option Entries
  | [], entries =>
    if (entries.lookup key).isSome then none else some (entries ++ [(key, .value value)])
  | part :: path, entries =>
    match entries.lookup part with
    | none => (put key value path []).map fun inner => entries.assign part (.table .dotted inner)
    | some (.value _) => none
    | some (.table .defined _) => none
    | some (.table .implied inner) =>
      if path.isEmpty then none
      else (put key value path inner).map fun inner => entries.assign part (.table .implied inner)
    | some (.table .dotted inner) =>
      (put key value path inner).map fun inner => entries.assign part (.table .dotted inner)
    | some (.tables items) =>
      if path.isEmpty then none
      else
        (changeLast (put key value path) items).map fun items => entries.assign part (.tables items)

/-- The table that a header defines: new, or only implied so far. -/
def defineTable (key : String) (entries : Entries) : Option Entries :=
  match entries.lookup key with
  | none => some (entries.assign key (.table .defined []))
  | some (.table .implied inner) => some (entries.assign key (.table .defined inner))
  | some _ => none

/-- A new table at the end of an array of tables. -/
def appendTable (key : String) (entries : Entries) : Option Entries :=
  match entries.lookup key with
  | none => some (entries.assign key (.tables [[]]))
  | some (.tables items) => some (entries.assign key (.tables (items ++ [[]])))
  | some _ => none

end Entries

mutual

/-- The value of a part of a document. -/
def ofNode : Node → Toml
  | .value v => v
  | .table _ entries => .table (ofEntries entries)
  | .tables items => .array (ofItems items)

def ofEntries : List (String × Node) → List (String × Toml)
  | [] => []
  | (key, n) :: rest => (key, ofNode n) :: ofEntries rest

def ofItems : List (List (String × Node)) → List Toml
  | [] => []
  | entries :: rest => .table (ofEntries entries) :: ofItems rest

end

end Toml

end ChainScript
