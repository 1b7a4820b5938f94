import ChainScript.Dispatch.Handler

/-! # Commands

A command is a handler that changes the world. Like fetchers, commands are data.

* `Check`: what an assertion looks at.
* `Effect`: what a command does.
-/

namespace ChainScript
set_option autoImplicit false

/-- What an assertion checks. -/
inductive Check where
  | equal
  | truth (wanted : Bool)
  | order (wanted : Ordering)
  | revert
  | success
  deriving DecidableEq, Inhabited

/-- What a command does. -/
inductive Effect where
  | print
  | read
  | nameAddress
  | store
  | deploy
  | allowFailures
  | actAs
  | inspect
  | check (condition : Check)
  | send (contract : String) (target : Address)

end ChainScript
