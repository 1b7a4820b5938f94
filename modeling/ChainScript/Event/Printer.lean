import ChainScript.Event.Basic
import ChainScript.Text.Blank

/-! # Printed events

A token stands as it is, or between quotes when it is empty or holds a blank, a parenthesis, a quote
or a backslash; inside quotes only the quote and the backslash are escaped. The elements of a
sequence stand between parentheses, one space apart.
-/

namespace ChainScript
set_option autoImplicit false

namespace Event

/-- The characters that force a token into quotes. -/
def isQuoteworthy (c : Char) : Bool :=
  Text.isBlank c || c == '(' || c == ')' || c == '"' || c == '\\'

/-- Whether a token is printed between quotes. -/
def needsQuotes (text : List Char) : Bool :=
  text.isEmpty || text.any isQuoteworthy

/-- The characters of a quoted token, before those of `rest`. -/
def printEscaped : List Char → List Char → List Char
  | [], rest => rest
  | c :: cs, rest =>
    if c = '"' ∨ c = '\\' then '\\' :: c :: printEscaped cs rest else c :: printEscaped cs rest

/-- A printed token, before the characters of `rest`. -/
def printToken (text rest : List Char) : List Char :=
  if needsQuotes text then '"' :: printEscaped text ('"' :: rest) else text ++ rest

mutual

/-- The printed form of an event, before the characters of `rest`. -/
def print : Event → List Char → List Char
  | .token text, rest => printToken text.toList rest
  | .seq [], rest => '(' :: ')' :: rest
  | .seq (e :: es), rest => '(' :: print e (printMore es (')' :: rest))

/-- The printed form of the events after the first of a sequence, each after a space. -/
def printMore : List Event → List Char → List Char
  | [], rest => rest
  | e :: es, rest => ' ' :: print e (printMore es rest)

end

/-- The printed form of an event. -/
def display (e : Event) : String :=
  String.ofList (e.print [])

end Event

end ChainScript
