import ChainScript.Dispatch.Binding

/-! # The search for a handler

Named handlers whose name stands in the event are tried in order, then the catch-alls in order. The
first that binds, with no element left over, is selected. A group passes the elements that its own
parameters leave to its members as an event of their own, and its arguments to the member selected.
A handler that cannot be bound is recorded, a fatal error ends the search, and when no handler is
left the event has no match.
-/

namespace ChainScript
set_option autoImplicit false

variable {ρ ε : Type}

/-- The handler chosen for an event and its arguments. -/
structure Selection (ρ ε : Type) where
  signature : Signature ρ
  effect : ε
  args : BoundArgs

/-- What trying handlers in turn comes to. -/
inductive Trial (α : Type) where
  | found (result : α)
  | fatal (error : Error)
  | abandoned (attempted : List Attempt)

namespace Trial

variable {α : Type}

/-- The trial behind attempts that were abandoned before it. -/
def after (earlier : List Attempt) : Trial α → Trial α
  | .abandoned attempted => .abandoned (earlier ++ attempted)
  | t => t

/-- Go on to a second trial when the first one was abandoned. -/
def orElse (t : Trial α) (second : Unit → Program (Trial α)) : Program (Trial α) :=
  match t with
  | .abandoned attempted => return (← second ()).after attempted
  | t => return t

/-- The result of a trial of all handlers for an event. -/
def conclude (kind : String) (e : Event) : Trial α → Except Error α
  | .found a => .ok a
  | .fatal err => .error err
  | .abandoned attempted => .error (.noMatch kind e attempted)

end Trial

namespace Handler

mutual

/-- Bind a handler to the elements of an event. -/
def attempt (b : Binder ρ) : Handler ρ ε → List Event → Search (Selection ρ ε)
  | .leaf s effect, elements => do
    let (args, rest) ← b.params s.params {} (s.remaining elements)
    match rest with
    | [] => return ⟨s, effect, args⟩
    | e :: _ => throw (.failed (.trailing rest.length e))
  | .group s members, elements => do
    let (args, rest) ← b.params s.params {} (s.remaining elements)
    if rest.isEmpty then throw (.failed (.missingRest s.label))
    let trial ← ExceptT.lift do
      (← attemptAll b (·.isNamedIn rest) members rest).orElse fun _ =>
        attemptAll b (·.isCatchAll) members rest
    match trial.conclude s.label (.seq rest) with
    | .ok selection => return { selection with args := selection.args.prepend args }
    | .error err => throw (Refusal.ofError .within err)

/-- Bind the first of the handlers that is among those wanted and can be bound. -/
def attemptAll (b : Binder ρ) (wanted : Signature ρ → Bool) :
    List (Handler ρ ε) → List Event → Program (Trial (Selection ρ ε))
  | [], _ => return .abandoned []
  | h :: hs, elements =>
    if wanted h.signature then do
      match ← (h.attempt b elements).run with
      | .ok selection => return .found selection
      | .error (.fatal err) => return .fatal err
      | .error (.failed reason) =>
        return (← attemptAll b wanted hs elements).after [⟨h.label, reason.message⟩]
    else attemptAll b wanted hs elements

end

end Handler

/-- The first handler that binds to an event. `kind` names the search in its error. -/
def select (b : Binder ρ) (kind : String) (handlers : List (Handler ρ ε)) (e : Event) :
    Action (Selection ρ ε) :=
  ExceptT.mk do
    let named ← Handler.attemptAll b (·.isNamedIn e.elements) handlers e.elements
    let trial ← named.orElse fun _ => Handler.attemptAll b (·.isCatchAll) handlers e.elements
    return trial.conclude kind e

/-- The value of an event by the handler selected for it. A bare token that no handler takes stands
for itself. -/
def fetchValue (b : Binder ρ) (run : ε → BoundArgs → Action Value) (kind : String)
    (handlers : List (Handler ρ ε)) (e : Event) : Action Value :=
  ExceptT.mk do
    match ← (select b kind handlers e).run, e with
    | .ok selection, _ => (run selection.effect selection.args).run
    | .error (.noMatch _ _ _), .token text => return .ok (.string text)
    | .error err, _ => return .error err

/-- Carry out the effect of the handler selected for an event. -/
def carryOut {α : Type} (b : Binder ρ) (run : ε → BoundArgs → Action α) (kind : String)
    (handlers : List (Handler ρ ε)) (e : Event) : Action α := do
  let selection ← select b kind handlers e
  run selection.effect selection.args

end ChainScript
