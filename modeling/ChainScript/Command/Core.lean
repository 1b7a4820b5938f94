import ChainScript.Command.Effect
import ChainScript.Contract.Index
import ChainScript.Expr.Fetch

/-! # Tables of commands

The commands of the core, and the namespace of each contract, whose only member sends a transaction.
-/

namespace ChainScript
set_option autoImplicit false

abbrev Command : Type := Handler Reading Effect

namespace Command

open Handler Param

/-- An assertion. -/
def check (name : String) (params : List (Param Reading)) (condition : Check)
    (description : String) : Command :=
  named name params (.check condition) description

/-- The assertions, in the order in which they are tried. -/
def assertions : List Command :=
  [check "Equal" [one "expected" .core, one "actual" .core] .equal "Values compare equal",
   check "True" [one "value" .core] (.truth true) "Value is truthy",
   check "False" [one "value" .core] (.truth false) "Value is falsy",
   check "LessThan" [one "a" .core, one "b" .core] (.order .lt) "First number is smaller",
   check "GreaterThan" [one "a" .core, one "b" .core] (.order .gt) "First number is larger",
   check "Revert" [optional "reason" .string] .revert
     "Last invocation reverted, optionally with a reason",
   check "Success" [] .success "Last invocation succeeded"]

/-- The commands of the core, in the order in which they are tried. -/
def core : List Command :=
  [named "Print" [one "message" .core] .print "Print a message",
   named "Read" [one "expr" .event] .read "Resolve an expression and print its value",
   named "Alias" [one "name" .string, one "address" .address] .nameAddress "Name an address",
   named "Set" [one "key" .string, one "value" .core] .store "Store a value for `Var`",
   named "Deploy" [one "name" .string, optional "artifact" .string, each "args" .core] .deploy
     "Deploy a contract instance, e.g. `(Deploy cDAI CToken)`",
   named "AllowFailures" [] .allowFailures "Let the next invocation fail without halting",
   named "From" [one "actor" .address, one "event" .event] .actAs
     "Run a command as another account",
   named "Inspect" [] .inspect "Print a summary of the world",
   namespaced "Assert" assertions (some "Assertions; a failure halts the scenario")]

/-- The commands behind the name of a contract. -/
def ofContract (i : ContractInstance) : Command :=
  namespaced i.name
    [catchAll "Send" [one "method" .string, each "args" .core] (.send i.name i.address)
      "Send a transaction, e.g. `(Token transfer Geoff 10)`"]
    none

/-- The commands of the core followed by those of each contract. -/
def registry (contracts : ContractIndex) : List Command :=
  core ++ contracts.names.flatMap fun name => ((contracts.get? name).map ofContract).toList

end Command

end ChainScript
