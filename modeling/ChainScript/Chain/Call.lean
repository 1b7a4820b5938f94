import ChainScript.Json.Basic
import ChainScript.Value.Basic

/-! # Calls to a chain

A chain is read, sent transactions and asked to deploy contracts. Every call may fail, either
because the contract reverted or because the chain could not be reached.
-/

namespace ChainScript
set_option autoImplicit false

inductive TransportError where
  | revert (reason : String)
  | rpc (problem : String)
  deriving DecidableEq, Inhabited

def TransportError.message : TransportError → String
  | .revert reason => "execution reverted: " ++ reason
  | .rpc problem => "transport failure: " ++ problem

/-- What a chain answers to a transaction or a deployment. -/
structure Receipt where
  txHash : String
  contractAddress : Option Address
  logs : List String
  deriving DecidableEq, Inhabited

inductive Call where
  | read (target : Address) (method : String) (args : List Value)
  | send (target : Address) (method : String) (args : List Value) (actor : Address)
  | deploy (artifact : String) (args : List Value) (actor : Address)

/-- What a chain answers to a call. -/
abbrev Call.Reply : Call → Type
  | .read _ _ _ => Except TransportError Json
  | .send _ _ _ _ => Except TransportError Receipt
  | .deploy _ _ _ => Except TransportError Receipt

end ChainScript
