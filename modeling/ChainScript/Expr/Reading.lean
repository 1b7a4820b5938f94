import ChainScript.Dispatch.Binding
import ChainScript.Number.Parser
import ChainScript.World

/-! # Readings

A typed reading takes a token literally when it can. Otherwise the event is resolved, and the value
must have the kind that is asked for. When both ways fail on a token the literal error is reported,
and a fatal error is reported in any case.
-/

namespace ChainScript
set_option autoImplicit false

/-! ## Literals -/

namespace Literal

def number (text : String) : Except Fault Number :=
  match Number.parse? text with
  | some n => .ok n
  | none => .error (.notANumber text)

def bool (text : String) : Except Fault Value :=
  let word := Text.lower text
  if word = "true" then .ok (.bool true)
  else if word = "false" then .ok (.bool false)
  else .error (.notABoolean text)

/-- The text without a percent sign at its end. -/
def dropPercent (text : String) : String :=
  match text.toList.reverse with
  | '%' :: rest => String.ofList rest.reverse
  | _ => text

/-- An address in digits, or a known name. -/
def address (w : World) (text : String) : Except Fault Value :=
  match Address.parse text with
  | .ok a => .ok (.address a)
  | .error _ =>
    match w.lookupAddress text with
    | some a => .ok (.address a)
    | none => .error (.unknownAddress text)

/-- The value of a bare token: a number, an address in digits, a known name, or its text. -/
def ofToken (w : World) (text : String) : Value :=
  match Number.parse? text with
  | some n => .number n
  | none =>
    match address w text with
    | .ok a => a
    | .error _ => .string text

end Literal

/-! ## Readings of an event -/

namespace Reading

/-- A reading that takes a token by `literal`, and any event by a value of the kind `expected`. -/
def typed (resolve : Event → Action Value) (literal : String → Except Fault Value) (expected : Kind)
    (e : Event) : Action Value :=
  match e with
  | .token text =>
    match literal text with
    | .ok v => pure v
    | .error fault => ExceptT.mk do
      match ← (resolve e).run with
      | .ok v => return if v.kind = expected then .ok v else .error (.invalid fault)
      | .error err => return if err.isFatal then .error err else .error (.invalid fault)
  | .seq _ => do
    let v ← resolve e
    if v.kind = expected then pure v else throw (.invalid (.unexpectedKind expected e v))

/-- The value of an event under a reading, where nested expressions are resolved by `resolve`. -/
def read (resolve : Event → Action Value) (w : World) (e : Event) : Reading → Action Value
  | .core => resolve e
  | .string => typed resolve (fun text => .ok (.string text)) .string e
  | .bool => typed resolve Literal.bool .bool e
  | .number => typed resolve (fun text => (Literal.number text).map .number) .number e
  | .exp => typed resolve (fun text => (Literal.number text).map fun n => .number n.exp) .number e
  | .percent =>
    typed resolve
      (fun text => (Literal.number (Literal.dropPercent text)).map fun n => .number n.percent)
      .number e
  | .address => typed resolve (Literal.address w) .address e
  | .event => pure (.event e)
  | .literal =>
    match e with
    | .token text => pure (Literal.ofToken w text)
    | .seq _ => throw (.invalid (.notALiteral e))

end Reading

end ChainScript
