import ChainScript.Toml.Numbers

/-! # Reading settings documents

A document is a list of lines: blanks and comments, headers of tables, and keys with their values. A
key belongs to the table whose header stands last above it.
-/

namespace ChainScript.Toml
set_option autoImplicit false

/-! ## Values -/

/-- A reader of what may stand at one place. -/
abbrev Reader (α : Type) : Type := List Char → Option (α × List Char)

/-- The items of an array up to its end; `fuel` bounds their number. -/
def readItems (item : Reader Toml) : Nat → Reader (List Toml)
  | 0, _ => none
  | fuel + 1, cs =>
    match skipLines false cs with
    | ']' :: rest => some ([], rest)
    | cs =>
      match item cs with
      | none => none
      | some (v, rest) =>
        match skipLines false rest with
        | ']' :: rest => some ([v], rest)
        | ',' :: rest =>
          match readItems item fuel rest with
          | some (vs, rest) => some (v :: vs, rest)
          | none => none
        | _ => none

/-- A key and its value. -/
def readPair (item : Reader Toml) : Reader ((List String × String) × Toml) := fun cs =>
  match readKey cs with
  | some (key, '=' :: rest) =>
    match item (skipSpaces rest) with
    | some (v, rest) => some ((key, v), rest)
    | none => none
  | _ => none

/-- The keys of a table on one line, added to `entries`; `fuel` bounds their number. -/
def readPairs (item : Reader Toml) : Nat → Entries → Reader Entries
  | 0, _, _ => none
  | fuel + 1, entries, cs =>
    match readPair item cs with
    | none => none
    | some (((path, key), v), rest) =>
      match entries.put key v path with
      | none => none
      | some entries =>
        match skipSpaces rest with
        | '\x7d' :: rest => some (entries, rest)
        | ',' :: rest => readPairs item fuel entries rest
        | _ => none

/-- A table on one line, behind its opening brace. -/
def readInlineTable (item : Reader Toml) : Reader Toml := fun cs =>
  match skipSpaces cs with
  | '\x7d' :: rest => some (.table [], rest)
  | cs =>
    match readPairs item (cs.length + 1) [] cs with
    | some (entries, rest) => some (.table (ofEntries entries), rest)
    | none => none

/-- A value that holds no others. -/
def readScalar : Reader Toml := fun cs =>
  match cs with
  | 't' :: 'r' :: 'u' :: 'e' :: rest => some (.boolean true, rest)
  | 'f' :: 'a' :: 'l' :: 's' :: 'e' :: rest => some (.boolean false, rest)
  | c :: _ =>
    if c = '"' ∨ c = '\'' then
      match readString cs with
      | some (text, rest) => some (.string (String.ofList text), rest)
      | none => none
    else ((readDateTime cs).map fun (d, rest) => (.dateTime d, rest)).or (readNumber cs)
  | [] => none

/-- A value; arrays and tables nest at most `depth` deep. -/
def readValue : Nat → Reader Toml
  | 0, cs => readScalar cs
  | depth + 1, '[' :: rest =>
    match readItems (readValue depth) (rest.length + 1) rest with
    | some (vs, rest) => some (.array vs, rest)
    | none => none
  | depth + 1, '\x7b' :: rest => readInlineTable (readValue depth) rest
  | _ + 1, cs => readScalar cs

/-! ## Documents -/

/-- The entries read so far, and the path of the table to which the next keys belong. -/
structure Draft where
  root : Entries := []
  path : List String := []

namespace Draft

/-- A change that the last part of a path names, in the table that the other parts name. -/
def header (d : Draft) (key : List String × String) (change : String → Entries → Option Entries) :
    Option Draft :=
  match d.root.changeAt (change key.2) key.1 with
  | some root => some ⟨root, key.1 ++ [key.2]⟩
  | none => none

/-- A value under a dotted key of the current table. -/
def put (d : Draft) (key : List String × String) (v : Toml) : Option Draft :=
  match d.root.changeAt (fun entries => entries.put key.2 v key.1) d.path with
  | some root => some { d with root := root }
  | none => none

end Draft

/-- One line that says something: the draft after it, and the characters behind it. -/
def readStatement (d : Draft) (cs : List Char) : Option (Draft × List Char) := do
  match cs with
  | '[' :: '[' :: rest =>
    match ← readKey rest with
    | (key, ']' :: ']' :: rest) => return (← d.header key Entries.appendTable, ← restOfLine rest)
    | _ => none
  | '[' :: rest =>
    match ← readKey rest with
    | (key, ']' :: rest) => return (← d.header key Entries.defineTable, ← restOfLine rest)
    | _ => none
  | cs =>
    let ((key, v), rest) ← readPair (readValue maxDepth) cs
    return (← d.put key v, ← restOfLine rest)

/-- The draft after all lines; `fuel` bounds their number. -/
def readLines : Nat → Draft → List Char → Option Draft
  | 0, _, _ => none
  | fuel + 1, d, cs =>
    match skipLines false cs with
    | [] => some d
    | cs =>
      match readStatement d cs with
      | some (d, rest) => readLines fuel d rest
      | none => none

/-- The characters behind a byte order mark, if there is one. -/
def skipMark (cs : List Char) : List Char :=
  match cs with
  | c :: rest => if c.toNat = 0xFEFF then rest else cs
  | [] => []

/-- The table of a document, if it is well formed. -/
def parse? (text : String) : Option Toml :=
  let cs := skipMark text.toList
  match readLines (cs.length + 1) {} cs with
  | some d => some (.table (ofEntries d.root))
  | none => none

end ChainScript.Toml
