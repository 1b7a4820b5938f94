import ChainScript.Event.Basic
import ChainScript.Event.Scan

/-! # Events of a line

The items of a line are nested by their parentheses. A line with no item has no event, a line with
one top-level item is that item, and a line with more is the sequence of them.

The first closing parenthesis with nothing to close is reported where it stands; a quote never
closed where it opens; failing both, the innermost parenthesis still open. Columns count bytes from
1.
-/

namespace ChainScript
set_option autoImplicit false

/-! ## Errors -/

inductive ParseError.Cause where
  | unexpectedClose
  | unclosed
  | unterminated
  | empty
  deriving DecidableEq, Inhabited

/-- What is wrong with a line, and where, counted from 1. -/
structure ParseError where
  cause : ParseError.Cause
  line : Nat
  column : Nat
  deriving DecidableEq, Inhabited

namespace ParseError

def Cause.opening : Cause → String
  | .unexpectedClose => "Unexpected `)` at line "
  | .unclosed => "Unclosed `(` opened at line "
  | .unterminated => "Unterminated string starting at line "
  | .empty => "Expected an expression at line "

def message (e : ParseError) : String :=
  e.cause.opening ++ toString e.line ++ ", column " ++ toString e.column

end ParseError

/-! ## Nesting -/

namespace Event

/-- A parenthesis still open: the events before it on its own level, last first, and its offset. -/
structure OpenGroup where
  before : List Event
  offset : Nat

/-- The top-level events of a scan. `groups` are the parentheses still open, innermost first, and
`level` the events read since the innermost, last first. -/
def nest (unclosedQuote : Option Nat) :
    List OpenGroup → List Event → List PlacedItem → Except (ParseError.Cause × Nat) (List Event)
  | groups, level, [] =>
    match unclosedQuote, groups with
    | some offset, _ => .error (.unterminated, offset)
    | none, group :: _ => .error (.unclosed, group.offset)
    | none, [] => .ok level.reverse
  | groups, level, ⟨offset, .opening⟩ :: items =>
    nest unclosedQuote (⟨level, offset⟩ :: groups) [] items
  | [], _, ⟨offset, .closing⟩ :: _ => .error (.unexpectedClose, offset)
  | group :: groups, level, ⟨_, .closing⟩ :: items =>
    nest unclosedQuote groups (.seq level.reverse :: group.before) items
  | groups, level, ⟨_, .text content⟩ :: items =>
    nest unclosedQuote groups (.token (String.ofList content) :: level) items

/-- The event that stands for the top-level items of a line. -/
def ofTopLevel : List Event → Option Event
  | [] => none
  | [e] => some e
  | es => some (.seq es)

/-- The event of a line, if it has one; `line` is its number in error positions. -/
def parseLine (text : String) (line : Nat) : Except ParseError (Option Event) :=
  let scan := Scan.ofLine text.toList
  match nest scan.unclosedQuote [] [] scan.items with
  | .ok es => .ok (ofTopLevel es)
  | .error (cause, offset) => .error ⟨cause, line, offset + 1⟩

/-- The event of a text that must hold one. -/
def parse (text : String) : Except ParseError Event :=
  match parseLine text 1 with
  | .ok (some e) => .ok e
  | .ok none => .error ⟨.empty, 1, 1⟩
  | .error e => .error e

end Event

/-! ## Scripts -/

/-- A line of a script that holds an event. -/
structure ScriptLine where
  number : Nat
  text : String
  event : Event

namespace ScriptLine

/-- The lines that hold an event, of a script whose first line has this number. -/
def ofLines (number : Nat) : List String → Except ParseError (List ScriptLine)
  | [] => .ok []
  | text :: rest =>
    match Event.parseLine text number with
    | .error e => .error e
    | .ok none => ofLines (number + 1) rest
    | .ok (some event) =>
      match ofLines (number + 1) rest with
      | .error e => .error e
      | .ok lines => .ok (⟨number, Text.trim text, event⟩ :: lines)

/-- The lines of a script that hold an event, or its first error. -/
def parseScript (source : String) : Except ParseError (List ScriptLine) :=
  ofLines 1 (Text.lines source)

end ScriptLine

end ChainScript
