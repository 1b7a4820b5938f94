import ChainScript.Text.Blank

/-! # Items of a line

A line is scanned from left to right into items: parentheses, and texts that stand bare or between
quotes. Blanks separate items. A `#` or `--` where an item would start ends the line. Inside quotes
a backslash takes the next character as it is, except that `n` and `t` stand for a line feed and a
tab. Each item carries the byte offset of its first character.

`Scan.ofLine` is one pass over the characters in one of four modes; a scan ends either at the end of
the line or inside a quote that was never closed.
-/

namespace ChainScript
set_option autoImplicit false

inductive Item where
  | opening
  | closing
  | text (content : List Char)
  deriving DecidableEq, Inhabited

/-- An item and the byte offset where it starts. -/
structure PlacedItem where
  offset : Nat
  item : Item
  deriving DecidableEq, Inhabited

/-- The items of a line, and where the quote opened that was never closed, if there is one. -/
structure Scan where
  items : List PlacedItem
  unclosedQuote : Option Nat
  deriving DecidableEq, Inhabited

namespace Scan

def push (offset : Nat) (item : Item) (s : Scan) : Scan :=
  { s with items := ⟨offset, item⟩ :: s.items }

/-- A scan with an item in front, if there is one. -/
def pushIf (offset : Nat) : Option Item → Scan → Scan
  | some item, s => s.push offset item
  | none, s => s

/-- Where the scan stands: between items, in a bare text, in a quoted text, or behind a backslash in
a quoted text. The texts hold the characters read so far, last first. -/
inductive Mode where
  | between
  | bare (start : Nat) (read : List Char)
  | quoted (start : Nat) (read : List Char)
  | escaped (start : Nat) (read : List Char)

/-- The characters that end a bare text. -/
def endsBare (c : Char) : Bool :=
  Text.isBlank c || c == '(' || c == ')' || c == '"'

/-- Whether a comment starts where an item would: at `c`, followed by `rest`. -/
def startsComment (c : Char) (rest : List Char) : Bool :=
  c == '#' || (c == '-' && rest.head? == some '-')

/-- The character that a backslash and `c` stand for. -/
def unescape (c : Char) : Char :=
  if c = 'n' then '\n' else if c = 't' then '\t' else c

/-- What the first character of an item stands for: an item of its own, and the mode behind it. -/
def enter (offset : Nat) (c : Char) : Option Item × Mode :=
  if Text.isBlank c then (none, .between)
  else if c = '(' then (some .opening, .between)
  else if c = ')' then (some .closing, .between)
  else if c = '"' then (none, .quoted offset [])
  else (none, .bare offset [c])

/-- The scan of the characters from byte `offset` on. -/
def scanFrom : Nat → Mode → List Char → Scan
  | _, .between, [] => ⟨[], none⟩
  | _, .bare start read, [] => ⟨[⟨start, .text read.reverse⟩], none⟩
  | _, .quoted start _, [] => ⟨[], some start⟩
  | _, .escaped start _, [] => ⟨[], some start⟩
  | offset, .between, c :: rest =>
    if startsComment c rest then ⟨[], none⟩
    else (scanFrom (offset + c.utf8Size) (enter offset c).2 rest).pushIf offset (enter offset c).1
  | offset, .bare start read, c :: rest =>
    if endsBare c then
      let behind := scanFrom (offset + c.utf8Size) (enter offset c).2 rest
      (behind.pushIf offset (enter offset c).1).push start (.text read.reverse)
    else scanFrom (offset + c.utf8Size) (.bare start (c :: read)) rest
  | offset, .quoted start read, c :: rest =>
    if c = '\\' then scanFrom (offset + c.utf8Size) (.escaped start read) rest
    else if c = '"' then
      (scanFrom (offset + c.utf8Size) .between rest).push start (.text read.reverse)
    else scanFrom (offset + c.utf8Size) (.quoted start (c :: read)) rest
  | offset, .escaped start read, c :: rest =>
    scanFrom (offset + c.utf8Size) (.quoted start (unescape c :: read)) rest

/-- The scan of a line. -/
def ofLine (line : List Char) : Scan :=
  scanFrom 0 .between line

end Scan

end ChainScript
