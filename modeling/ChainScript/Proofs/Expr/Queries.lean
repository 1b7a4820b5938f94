import ChainScript.Expr.Resolve
import ChainScript.Proofs.Dispatch.Queries

/-! # Resolving only reads

Resolving an expression is a query in every world: it makes reads and nothing else, and the first
read that fails ends it. Every place that gives up an error and goes on (a typed reading, a fetcher
with a fallback, the search itself) lets the error of a failed read through.
-/

namespace ChainScript
set_option autoImplicit false

open Program

theorem readChain_inquires (target : Address) (method : String) (args : List Value) :
    Inquires Error.transport (readChain target method args) := by
  refine ReadsThen.read (fun _ => rfl) fun raw => ?_
  exact Query.done _ _

section Nested

variable {resolve : Event → Action Value} (hr : ∀ e, Inquires Error.transport (resolve e))
include hr

/-! ## Readings -/

theorem Reading.typed_inquires (literal : String → Except Fault Value) (expected : Kind)
    (e : Event) : Inquires Error.transport (Reading.typed resolve literal expected e) := by
  cases e with
  | token text =>
    rw [Reading.typed]
    split
    · exact .pure _
    · refine Query.bind (hr _) (fun _ => rfl) fun r => ?_
      cases r with
      | ok v => exact Query.done _ _
      | error err => exact Query.done _ _
  | seq items =>
    rw [Reading.typed]
    refine Inquires.seq (hr _) fun v => ?_
    split
    · exact .pure _
    · exact .throw _

theorem Reading.read_inquires (w : World) (e : Event) (reading : Reading) :
    Inquires Error.transport (reading.read resolve w e) := by
  cases reading with
  | core => exact hr e
  | event => exact .pure _
  | literal =>
    cases e with
    | token text => exact .pure _
    | seq items => exact .throw _
  | string | bool | number | exp | percent | address =>
    rw [Reading.read]
    exact Reading.typed_inquires hr _ _ e

/-! ## Effects of fetchers -/

theorem Fetch.resolveFirst_inquires (expr fallback : Event) :
    Inquires Error.transport (Fetch.resolveFirst resolve expr fallback) := by
  refine Query.bind (hr expr) (fun _ => rfl) fun r => ?_
  cases r with
  | ok v => exact Query.done _ _
  | error err =>
    dsimp only
    split
    · exact Query.done _ _
    · exact hr fallback

theorem Fetch.run_inquires (w : World) (args : BoundArgs) (f : Fetch) :
    Inquires Error.transport (f.run resolve w args) := by
  cases f with
  | compute formula => exact .ofExcept _
  | firstOf =>
    refine (Inquires.ofExcept (args.event "expr")).seq fun expr => ?_
    refine (Inquires.ofExcept (args.event "fallback")).seq fun fallback => ?_
    exact Fetch.resolveFirst_inquires hr expr fallback
  | call =>
    refine (Inquires.ofExcept (args.address "address")).seq fun target => ?_
    refine (Inquires.ofExcept (args.string "method")).seq fun method => ?_
    refine (Inquires.ofExcept (args.list "args")).seq fun list => ?_
    exact readChain_inquires target method list
  | view target =>
    refine (Inquires.ofExcept (args.string "method")).seq fun method => ?_
    refine (Inquires.ofExcept (args.list "args")).seq fun list => ?_
    exact readChain_inquires target method list

theorem World.resolveStep_inquires (w : World) (e : Event) :
    Inquires Error.transport (w.resolveStep resolve e) :=
  fetchValue_inquires (fun reading e => Reading.read_inquires hr w e reading)
    (fun f args => Fetch.run_inquires hr w args f) _ _ e

end Nested

/-! ## Resolution -/

namespace World

/-- Resolving an event is a query. The induction is on the size of the event, as in `resolve`. -/
theorem resolve_inquires (w : World) (e : Event) : Inquires Error.transport (w.resolve e) := by
  rw [resolve]
  refine resolveStep_inquires (fun inner => ?_) w e
  split
  · exact resolve_inquires w inner
  · exact .throw _
termination_by e.size

end World

end ChainScript
