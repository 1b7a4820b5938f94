import ChainScript.Dispatch.Select
import ChainScript.Expr.Reading
import ChainScript.Value.Raw

/-! # Resolving expressions

An event is resolved by the first fetcher of the world's registry that binds to it. Resolution comes
back to itself for the elements of the event, so it ends by the size of the event: an event that is
not smaller is never resolved on the way. A bare token is resolved without coming back at all.
-/

namespace ChainScript
set_option autoImplicit false

/-! ## Effects of fetchers -/

namespace Arithmetic

def apply (a b : Number) : Arithmetic → Except Error Number
  | .add => .ok (a.add b)
  | .sub => .ok (a.sub b)
  | .mul => .ok (a.mul b)
  | .div =>
    match a.div? b with
    | some q => .ok q
    | none => .error (.invalid (.divisionByZero a))

end Arithmetic

/-- The value that a chain reads for a method. -/
def readChain (target : Address) (method : String) (args : List Value) : Action Value :=
  ExceptT.mk (Program.ask (.read target method args) fun reply =>
    .done <| match reply with
      | .ok raw => .ok (Value.ofJson raw)
      | .error cause => .error (.transport cause))

/-- The value of a formula for the arguments. -/
def Formula.value (w : World) (args : BoundArgs) : Formula → Except Error Value
  | .constant v => .ok v
  | .amount => do return .number (← args.number "amount")
  | .precisely => do
    let precision ← args.number "precision"
    match precision.toWord? with
    | some (digits + 1) => return .precise ⟨← args.number "amount", digits + 1⟩
    | _ => .error (.invalid (.badPrecision precision))
  | .arithmetic operation => do
    return .number (← operation.apply (← args.number "a") (← args.number "b"))
  | .equal => do
    match (← args.value "expected").compare (← args.value "actual") with
    | .ok r => return .bool r
    | .error kinds => .error (.incomparable kinds)
  | .list => do return .list (← args.list "items")
  | .array => do return .array (← args.list "items")
  | .address => do return .address (← args.address "who")
  | .account => do
    let name ← args.string "name"
    match w.accounts.find? name with
    | some a => return .address a
    | none => .error (.invalid (.unknownAccount name))
  | .lastContract =>
    match w.lastContract with
    | some a => .ok (.address a)
    | none => .error (.invalid .nothingDeployed)
  | .stored => do
    let key ← args.string "key"
    match w.vars.find? key with
    | some v => return v
    | none => .error (.invalid (.unsetVariable key))
  | .literal => args.value "literal"

namespace Fetch

/-- The value of one expression, or of another when the first fails and its error is not fatal. -/
def resolveFirst (resolve : Event → Action Value) (expr fallback : Event) : Action Value :=
  ExceptT.mk do
    match ← (resolve expr).run with
    | .ok v => return .ok v
    | .error err => if err.isFatal then return .error err else (resolve fallback).run

/-- What a fetcher yields for its arguments. -/
def run (resolve : Event → Action Value) (w : World) (args : BoundArgs) : Fetch → Action Value
  | .compute formula => Action.ofExcept (formula.value w args)
  | .firstOf => do
    let expr ← Action.ofExcept (args.event "expr")
    let fallback ← Action.ofExcept (args.event "fallback")
    resolveFirst resolve expr fallback
  | .call => do
    let target ← Action.ofExcept (args.address "address")
    let method ← Action.ofExcept (args.string "method")
    let list ← Action.ofExcept (args.list "args")
    readChain target method list
  | .view target => do
    let method ← Action.ofExcept (args.string "method")
    let list ← Action.ofExcept (args.list "args")
    readChain target method list

end Fetch

/-! ## Resolution -/

namespace World

/-- How parameters are bound in a world, where nested expressions are resolved by `resolve`. -/
def binder (w : World) (resolve : Event → Action Value) : Binder Reading where
  resolve reading e := reading.read resolve w e
  slot := w.implicit

/-- The name of the search for a fetcher. -/
def coreKind : String := "Core"

/-- One level of resolution, where nested expressions are resolved by `resolve`. -/
def resolveStep (w : World) (resolve : Event → Action Value) (e : Event) : Action Value :=
  fetchValue (w.binder resolve) (fun f args => f.run resolve w args) coreKind w.registry e

/-- The value of an event in a world. -/
def resolve (w : World) (e : Event) : Action Value :=
  w.resolveStep (fun inner =>
    if inner.size < e.size then w.resolve inner else throw (.invalid (.selfReference inner))) e
termination_by e.size

/-- The value of an event in a world under a reading. -/
def read (w : World) (reading : Reading) (e : Event) : Action Value :=
  reading.read w.resolve w e

end World

end ChainScript
