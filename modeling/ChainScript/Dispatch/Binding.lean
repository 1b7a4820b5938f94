import ChainScript.Chain.Program
import ChainScript.Dispatch.BoundArgs
import ChainScript.Dispatch.Handler

/-! # Binding parameters to elements

The parameters of a handler are bound from left to right to the elements that its name leaves over.
Binding ends with the bound arguments and the elements not taken, or with a refusal. A refusal is
either a reason to try the next handler or an error that ends the search.
-/

namespace ChainScript
set_option autoImplicit false

/-- A computation that may ask the chain and may fail. -/
abbrev Action (α : Type) : Type := ExceptT Error Program α

/-- A result that is already there, as an action. -/
def Action.ofExcept {α : Type} (r : Except Error α) : Action α :=
  ExceptT.mk (Program.done r)

/-! ## Refusals -/

/-- Why a handler could not be bound. -/
inductive BindFailure where
  | missing (param : String)
  | trailing (count : Nat) (first : Event)
  | unfilled (param slot : String)
  | missingRest (label : String)
  | unresolved (param : String) (cause : Error)
  | unresolvedElement (param : String) (index : Nat) (cause : Error)
  | within (cause : Error)

def BindFailure.message : BindFailure → String
  | .missing param => "missing argument `" ++ param ++ "`"
  | .trailing count first =>
    toString count ++ " unexpected trailing argument(s) starting at `" ++ first.display ++ "`"
  | .unfilled param slot =>
    "implicit argument `" ++ param ++ "` has no value in slot `" ++ slot ++ "`"
  | .missingRest label => "`" ++ label ++ "` needs a sub-expression"
  | .unresolved param cause => "argument `" ++ param ++ "`: " ++ cause.message
  | .unresolvedElement param index cause =>
    "argument `" ++ param ++ "` element " ++ toString index ++ ": " ++ cause.message
  | .within cause => cause.message

/-- A handler given up, or an error that ends the search. -/
inductive Refusal where
  | failed (reason : BindFailure)
  | fatal (error : Error)

/-- A fatal error ends the search, every other one is a reason to go on. -/
def Refusal.ofError (blame : Error → BindFailure) (e : Error) : Refusal :=
  if e.isFatal then .fatal e else .failed (blame e)

/-- A computation of the search for a handler. -/
abbrev Search (α : Type) : Type := ExceptT Refusal Program α

/-! ## Binding -/

/-- How readings are carried out and what the slots hold. -/
structure Binder (ρ : Type) where
  resolve : ρ → Event → Action Value
  slot : String → Option Value

namespace Binder

variable {ρ : Type}

/-- The value of an element, with the blame for a failure. -/
def value (b : Binder ρ) (blame : Error → BindFailure) (reading : ρ) (e : Event) : Search Value :=
  ExceptT.mk do
    match ← (b.resolve reading e).run with
    | .ok v => return .ok v
    | .error err => return .error (Refusal.ofError blame err)

/-- The values of elements one by one, the first of which is number `index`. -/
def values (b : Binder ρ) (param : String) (reading : ρ) : Nat → List Event → Search (List Value)
  | _, [] => return []
  | index, e :: es => do
    let v ← b.value (.unresolvedElement param index) reading e
    let vs ← b.values param reading (index + 1) es
    return v :: vs

/-- The value of one parameter and the elements it leaves. -/
def param (b : Binder ρ) (p : Param ρ) (elements : List Event) : Search (Value × List Event) :=
  match p.source with
  | .slot slot =>
    match b.slot slot with
    | some v => return (v, elements)
    | none => throw (.failed (.unfilled p.name slot))
  | .element reading =>
    if p.variadic then
      match elements, p.fallback with
      | [], some v => return (v, [])
      | _, _ =>
        if p.mapped then do
          let vs ← b.values p.name reading 0 elements
          return (.array vs, [])
        else do
          let v ← b.value (.unresolved p.name) reading (.seq elements)
          return (v, [])
    else
      match elements with
      | e :: rest => do
        let v ← b.value (.unresolved p.name) reading e
        return (v, rest)
      | [] =>
        match p.fallback with
        | some v => return (v, [])
        | none =>
          if p.nullable then return (.nothing, []) else throw (.failed (.missing p.name))

/-- The values of the parameters, added to those bound before, and the elements left over. -/
def params (b : Binder ρ) :
    List (Param ρ) → BoundArgs → List Event → Search (BoundArgs × List Event)
  | [], bound, elements => return (bound, elements)
  | p :: ps, bound, elements => do
    let (v, rest) ← b.param p elements
    b.params ps (bound.insert p.name v) rest

end Binder

end ChainScript
