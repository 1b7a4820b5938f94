import ChainScript.Command.Perform

/-! # Running scripts

A script is run line by line as the default actor. The run stops at the first line that cannot be
read or performed, and what earlier lines did stands.
-/

namespace ChainScript
set_option autoImplicit false

namespace World

/-- What an event comes to when an actor performs it, and the world that stands after it: the next
one, or the same one when the event failed. -/
def executeAs (w : World) (e : Event) (actor : Address) : Program (Except Error Unit × World) := do
  match ← (w.perform e actor).run with
  | .ok next => return (.ok (), next)
  | .error err => return (.error err, w)

/-- The world after an event was performed by the default actor. -/
def execute (w : World) (e : Event) : Action World :=
  w.perform e w.defaultFrom

/-- The world after a line was performed by the default actor. -/
def executeLine (w : World) (line : String) : Action World :=
  match Event.parse line with
  | .ok e => w.execute e
  | .error cause => throw (.parse cause)

/-- The value of an expression in a line. -/
def evalLine (w : World) (line : String) : Action Value :=
  match Event.parse line with
  | .ok e => w.resolve e
  | .error cause => throw (.parse cause)

end World

/-! ## Runs -/

/-- The line that stopped a run. -/
structure LineFailure where
  line : Nat
  event : String
  error : Error

def LineFailure.message (f : LineFailure) : String :=
  "line " ++ toString f.line ++ ": `" ++ f.event ++ "` failed [" ++ f.error.code ++ "]: " ++
    f.error.message

/-- The world after the last line that succeeded, the number of lines executed, and the failure. -/
structure RunOutcome where
  world : World
  executed : Nat
  failure : Option LineFailure

def RunOutcome.succeeded (o : RunOutcome) : Bool := o.failure.isNone

namespace Script

/-- Run lines, the first of which has this number, after so many were executed. -/
def runLines (w : World) (number executed : Nat) : List String → Program RunOutcome
  | [] => return ⟨w, executed, none⟩
  | text :: rest =>
    match Event.parseLine text number with
    | .error cause => return ⟨w, executed, some ⟨number, Text.trim text, .parse cause⟩⟩
    | .ok none => runLines w (number + 1) executed rest
    | .ok (some e) => do
      match ← w.executeAs e w.defaultFrom with
      | (.error err, last) => return ⟨last, executed, some ⟨number, e.display, err⟩⟩
      | (.ok (), next) => runLines next (number + 1) (executed + 1) rest

/-- Run a script in a world. -/
def run (w : World) (source : String) : Program RunOutcome :=
  runLines w 1 0 (Text.lines source)

end Script

end ChainScript
