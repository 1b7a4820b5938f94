/-! # Dictionaries

A dictionary is a list of entries in increasing order of their keys. Keys are compared code point by
code point, which is the order of their UTF-8 bytes. `Dict.insert` keeps the order and the number of
entries under a key at one.
-/

namespace ChainScript
set_option autoImplicit false

abbrev Dict (α : Type) : Type := List (String × α)

namespace Dict

variable {α : Type}

/-- The entry of a key. -/
def find? (key : String) (d : Dict α) : Option α := d.lookup key

/-- The dictionary with `value` under `key`, in place of what stood there. -/
def insert (d : Dict α) (key : String) (value : α) : Dict α :=
  match d with
  | [] => [(key, value)]
  | (k, v) :: rest =>
    if k = key then (key, value) :: rest
    else if key < k then (key, value) :: (k, v) :: rest
    else (k, v) :: insert rest key value

/-- The dictionary of a list of entries; of several under one key the last stands. -/
def ofList (entries : List (String × α)) : Dict α :=
  entries.foldl (fun d (k, v) => insert d k v) []

def keys (d : Dict α) : List String := d.map (·.1)

def values (d : Dict α) : List α := d.map (·.2)

/-- Keys stand in increasing order, so each occurs once. -/
def Sorted (d : Dict α) : Prop := d.Pairwise fun a b => a.1 < b.1

end Dict

end ChainScript
