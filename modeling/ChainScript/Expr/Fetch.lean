import ChainScript.Dispatch.Handler

/-! # Fetchers

A fetcher is a handler that yields a value. Its readings and its effect are data, so a table of
fetchers can be kept, compared and reasoned about.

* `Reading`: how an element becomes a value.
* `Formula`: a value computed from the arguments and the world alone.
* `Fetch`: what a fetcher does with its arguments.
-/

namespace ChainScript
set_option autoImplicit false

/-- How an element of an event becomes a value. The typed readings take a token as written when they
can, and otherwise the value of the expression. -/
inductive Reading where
  | core
  | string
  | bool
  | number
  | exp
  | percent
  | address
  | event
  | literal
  deriving DecidableEq, Inhabited

inductive Arithmetic where
  | add
  | sub
  | mul
  | div
  deriving DecidableEq, Inhabited

/-- A value computed from the arguments and the world alone. -/
inductive Formula where
  | constant (value : Value)
  | amount
  | precisely
  | arithmetic (operation : Arithmetic)
  | equal
  | list
  | array
  | address
  | account
  | lastContract
  | stored
  | literal

/-- What a fetcher does: compute a value, resolve one of two expressions, or read the chain at an
address among its arguments or at a fixed one. -/
inductive Fetch where
  | compute (formula : Formula)
  | firstOf
  | call
  | view (target : Address)

abbrev Fetcher : Type := Handler Reading Fetch

end ChainScript
