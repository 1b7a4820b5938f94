import ChainScript.Command.Core
import ChainScript.Expr.Resolve

/-! # Performing commands

An event is performed on behalf of an actor by the first command that binds to it, and gives the
next world. Acting as another account performs an element of the event, so performing ends by the
size of the event. A command makes at most one transaction or deployment, as its last call.
-/

namespace ChainScript
set_option autoImplicit false

/-! ## Assertions -/

namespace Check

def failed (cause : Assertion) : Except Error Unit := .error (.assertion cause)

/-- Whether the last invocation reverted, with the given reason if there is one. -/
def reverted (reason : Value) : Option Invocation → Except Error Unit
  | none => failed .nothingReverted
  | some i =>
    match i.outcome with
    | .ok _ => failed (.noRevert i.target i.method)
    | .error (.revert found) =>
      match reason with
      | .string wanted => if wanted = found then .ok () else failed (.otherReason wanted found)
      | _ => .ok ()
    | .error other => failed (.otherFailure other)

/-- Whether the last invocation succeeded. -/
def succeeded : Option Invocation → Except Error Unit
  | none => failed .nothingInvoked
  | some i =>
    match i.outcome with
    | .ok _ => .ok ()
    | .error found => failed (.noSuccess i.target i.method found)

/-- The check of an assertion on its arguments. -/
def run (w : World) (args : BoundArgs) : Check → Except Error Unit
  | .equal => do
    let expected ← args.value "expected"
    let actual ← args.value "actual"
    match expected.compare actual with
    | .ok true => .ok ()
    | .ok false => failed (.unequal expected actual)
    | .error kinds => .error (.incomparable kinds)
  | .truth wanted => do
    let v ← args.value "value"
    if v.truthy = wanted then .ok () else failed (.untruth v wanted)
  | .order wanted => do
    let left ← args.value "a"
    let right ← args.value "b"
    match left.order right with
    | .ok o => if o = wanted then .ok () else failed (.misordered left right wanted)
    | .error kinds => .error (.unordered kinds)
  | .revert => do
    reverted (← args.value "reason") w.lastInvocation
  | .success => succeeded w.lastInvocation

end Check

/-! ## Effects of commands -/

namespace World

/-- A summary of a world in one line. -/
def summary (w : World) : String :=
  let contracts := w.contracts.toList.map fun i =>
    i.name ++ "=" ++ i.artifact ++ "@" ++ i.address.display
  let vars := w.vars.map fun (key, v) => key ++ "=" ++ v.display
  "accounts: " ++ toString w.accounts.length ++ "; contracts: [" ++ ", ".intercalate contracts ++
    "]; vars: [" ++ ", ".intercalate vars ++ "]; allow_failures: " ++
    (if w.allowFailures then "true" else "false")

/-- The world after a deployment was answered. -/
def deployed (w : World) (name artifact : String) (outcome : Except TransportError Receipt) :
    Except Error World :=
  match outcome with
  | .error _ => w.settle ⟨name, "deploy", outcome⟩
  | .ok receipt =>
    match receipt.contractAddress with
    | none => .error (.invalid (.noContractAddress name))
    | some address =>
      .ok ((w.withContract name artifact address).withInvocation ⟨name, "deploy", outcome⟩)

end World

/-- Deploy a contract and take up the outcome. -/
def deployContract (w : World) (actor : Address) (name artifact : String) (args : List Value) :
    Action World :=
  ExceptT.mk (Program.ask (.deploy artifact args actor) fun reply =>
    .done (w.deployed name artifact reply))

/-- Send a transaction and take up the outcome. -/
def sendTransaction (w : World) (actor : Address) (contract : String) (target : Address)
    (method : String) (args : List Value) : Action World :=
  ExceptT.mk (Program.ask (.send target method args actor) fun reply =>
    .done (w.settle ⟨contract, method, reply⟩))

namespace Effect

/-- The world after a command, where commands of another actor are performed by `perform`. -/
def run (perform : Event → Address → Action World) (w : World) (actor : Address)
    (args : BoundArgs) : Effect → Action World
  | .print => Action.ofExcept do
    return w.withOutput (← args.value "message").display
  | .read => do
    let expr ← Action.ofExcept (args.event "expr")
    let v ← w.resolve expr
    return w.withOutput (expr.display ++ " => " ++ v.display)
  | .nameAddress => Action.ofExcept do
    return w.withAlias (← args.string "name") (← args.address "address")
  | .store => Action.ofExcept do
    let v ← args.value "value"
    return w.withVar (← args.string "key") v
  | .deploy => do
    let name ← Action.ofExcept (args.string "name")
    let artifact ← Action.ofExcept (args.value "artifact")
    let list ← Action.ofExcept (args.list "args")
    deployContract w actor name (artifact.asString?.getD name) list
  | .allowFailures => return w.withAllowFailures true
  | .actAs => do
    let other ← Action.ofExcept (args.address "actor")
    let inner ← Action.ofExcept (args.event "event")
    perform inner other
  | .inspect => return w.withOutput w.summary
  | .check condition => Action.ofExcept do
    condition.run w args
    return w
  | .send contract target => do
    let method ← Action.ofExcept (args.string "method")
    let list ← Action.ofExcept (args.list "args")
    sendTransaction w actor contract target method list

end Effect

/-! ## Performing -/

namespace World

/-- The name of the search for a command. -/
def commandKind : String := "Command"

/-- One level of performing, where commands of another actor are performed by `perform`. -/
def performStep (w : World) (perform : Event → Address → Action World) (e : Event)
    (actor : Address) : Action World :=
  carryOut (w.binder w.resolve) (fun effect args => effect.run perform w actor args) commandKind
    (Command.registry w.contracts) e

/-- The world after an event was performed by an actor. -/
def perform (w : World) (e : Event) (actor : Address) : Action World :=
  w.performStep (fun inner other =>
    if inner.size < e.size then w.perform inner other
    else throw (.invalid (.selfReference inner))) e actor
termination_by e.size

/-- The usage and description of every command. -/
def describeCommands (w : World) : List (String × Option String) :=
  (Command.registry w.contracts).map fun c => (c.usage, c.description)

end World

end ChainScript
