import ChainScript.Script

/-! # The prompt

At the prompt a line is a command or an expression. `:help` lists the fetchers, `:eval` forces an
expression and `:quit` ends the session. A line headed by the name of a contract is read as a view
of it first; any other line is performed, and resolved when no command matches.
-/

namespace ChainScript
set_option autoImplicit false

/-- What a line comes to. -/
inductive Reply where
  | value (value : Value)
  | applied (lines : List String)
  | help (lines : List String)
  | empty

namespace Prompt

def mark : String := "scenario> "

def helpWord : String := ":help"

def quitWord : String := ":quit"

def evalWord : String := ":eval"

/-! ## One line -/

/-- The lines of the help: usages in a column of 40 characters, and descriptions. -/
def helpLines (w : World) : List String :=
  w.describeFetchers.map fun (usage, description) =>
    match description with
    | some text => Text.padTo 40 usage ++ " " ++ text
    | none => usage

/-- The expression behind `:eval`, when a line without its outer blanks starts with that word. -/
def evalRest? (line : List Char) : Option (List Char) :=
  if evalWord.toList.isPrefixOf line then
    let rest := line.drop evalWord.toList.length
    match rest with
    | [] => some rest
    | c :: _ => if Text.isBlank c then some rest else none
  else none

/-- Whether the head of an event is the name of a contract, letter case aside. -/
def namesContract (w : World) (e : Event) : Bool :=
  match e.head? with
  | some head => w.contracts.names.any fun name => Text.sameLetters name head
  | none => false

/-- Resolve an event for its value; the world stays. -/
def resolved (w : World) (e : Event) : Program (Except Error Reply × World) := do
  match ← (w.resolve e).run with
  | .ok v => return (.ok (.value v), w)
  | .error err => return (.error err, w)

/-- Perform an event, or resolve it when no command matches. -/
def performed (w : World) (e : Event) : Program (Except Error Reply × World) := do
  match ← w.executeAs e w.defaultFrom with
  | (.ok (), next) => return (.ok (.applied (next.output.drop w.output.length)), next)
  | (.error (.noMatch _ _ _), same) => resolved same e
  | (.error err, same) => return (.error err, same)

/-- The reply to an event and the world after it. -/
def evalEvent (w : World) (e : Event) : Program (Except Error Reply × World) := do
  if namesContract w e then
    match ← (w.resolve e).run with
    | .ok v => return (.ok (.value v), w)
    | .error (.noMatch _ _ _) => performed w e
    | .error err => return (.error err, w)
  else performed w e

/-- The reply to a line and the world after it. -/
def evalLine (w : World) (line : String) : Program (Except Error Reply × World) :=
  let trimmed := Text.trim line
  if trimmed = helpWord then return (.ok (.help (helpLines w)), w)
  else
    match evalRest? trimmed.toList with
    | some rest =>
      match Event.parseLine (String.ofList rest) 1 with
      | .ok (some e) => resolved w e
      | .ok none => return (.ok .empty, w)
      | .error cause => return (.error (.parse cause), w)
    | none =>
      match Event.parseLine line 1 with
      | .ok (some e) => evalEvent w e
      | .ok none => return (.ok .empty, w)
      | .error cause => return (.error (.parse cause), w)

/-! ## Sessions -/

/-- The lines shown for a reply. -/
def shown : Except Error Reply → List String
  | .ok (.value v) => [v.display]
  | .ok (.applied lines) => lines
  | .ok (.help lines) => lines
  | .ok .empty => []
  | .error err => ["error[" ++ err.code ++ "]: " ++ err.message]

/-- Lines of text, each ended by a line feed. -/
def textOfLines (lines : List String) : String :=
  String.join (lines.map fun line => line ++ "\n")

/-- Whether a line ends the session. -/
def isQuit (line : String) : Bool := Text.trim line == quitWord

/-- What is written in answer to a line, the next prompt included, and the world after it. -/
def turn (w : World) (line : String) : Program (String × World) := do
  let (reply, next) ← evalLine w line
  return (textOfLines (shown reply) ++ mark, next)

/-- Everything written behind the first prompt in answer to the lines, and the world at the end. -/
def answerLines (w : World) : List String → Program (String × World)
  | [] => return ("", w)
  | line :: rest =>
    if isQuit line then return ("", w)
    else do
      let (text, next) ← turn w line
      let (more, last) ← answerLines next rest
      return (text ++ more, last)

/-- A session over an input text: everything written, and the world at the end. -/
def run (w : World) (input : String) : Program (String × World) := do
  let (text, last) ← answerLines w (Text.lines input)
  return (mark ++ text, last)

end Prompt

end ChainScript
