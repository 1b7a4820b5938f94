import ChainScript.Chain.Program
import ChainScript.Chain.Stream
import ChainScript.Dict

/-! # A chain in memory

Addresses are drawn from the stream of a seed, 20 bytes each: first the accounts, then one for every
deployment. Reads answer what was prepared for them. A transaction to a deployed contract succeeds
unless its method is set to revert, and is recorded. Successful transactions and deployments are
numbered together from 1.
-/

namespace ChainScript
set_option autoImplicit false

/-- A recorded transaction, with the texts of its arguments. -/
structure SentTransaction where
  target : Address
  method : String
  args : List String
  actor : Address
  deriving DecidableEq, Inhabited

structure MemoryChain where
  seed : UInt64
  drawn : Nat
  accounts : List Address
  deployed : List (Address × String)
  stubs : List ((Address × String) × Json)
  reverts : Dict String
  sent : List SentTransaction
  nonce : Nat

namespace MemoryChain

/-- Address number `k` of the stream of a seed. -/
def addressAt (seed : UInt64) (k : Nat) : Address :=
  let bytes := Stream.slice seed (20 * k) 20
  Address.ofFn fun i => bytes.getD i 0

/-- A chain with so many accounts. -/
def new (seed : UInt64) (accountCount : Nat) : MemoryChain where
  seed := seed
  drawn := accountCount
  accounts := (List.range accountCount).map (addressAt seed)
  deployed := []
  stubs := []
  reverts := []
  sent := []
  nonce := 0

/-! ## Preparation -/

/-- Reads of `method` at `target` answer `result` from now on. -/
def stubRead (c : MemoryChain) (target : Address) (method : String) (result : Json) : MemoryChain :=
  { c with stubs := ((target, method), result) :: c.stubs }

/-- Transactions that call `method` revert from now on. -/
def revertOn (c : MemoryChain) (method reason : String) : MemoryChain :=
  { c with reverts := c.reverts.insert method reason }

/-- What was deployed at an address. -/
def artifactAt? (c : MemoryChain) (target : Address) : Option String :=
  c.deployed.lookup target

/-! ## Answers -/

/-- The hash of transaction number `n`: the number in 64 hexadecimal digits. -/
def txHash (n : Nat) : String :=
  let digits := Nat.toDigits 16 n
  String.ofList ('0' :: 'x' :: (List.replicate (64 - digits.length) '0' ++ digits))

/-- The hash tells numbers apart: its digits give the number back, with or without the zeros before
them. -/
theorem txHash_inj {m n : Nat} : txHash m = txHash n ↔ m = n := by
  refine ⟨fun h => ?_, congrArg txHash⟩
  have hdigits := congrArg (fun text => Address.valueInBase 16 (text.toList.drop 2)) h
  simpa [txHash, Address.valueInBase_zeros, Address.valueInBase_toDigits] using hdigits

example : txHash 255 =
    "0x00000000000000000000000000000000000000000000000000000000000000ff" := by
  decide +kernel

def notDeployed (target : Address) : TransportError :=
  .rpc ("no contract deployed at " ++ target.display)

def read (c : MemoryChain) (target : Address) (method : String) : Except TransportError Json :=
  match c.artifactAt? target with
  | none => .error (notDeployed target)
  | some _ =>
    match c.stubs.lookup (target, method) with
    | some result => .ok result
    | none => .error (.revert ("no result for `" ++ method ++ "` at " ++ target.display))

def send (c : MemoryChain) (target : Address) (method : String) (args : List Value)
    (actor : Address) : Except TransportError Receipt × MemoryChain :=
  match c.artifactAt? target with
  | none => (.error (notDeployed target), c)
  | some _ =>
    match c.reverts.find? method with
    | some reason => (.error (.revert reason), c)
    | none =>
      (.ok ⟨txHash (c.nonce + 1), none, []⟩,
        { c with
          sent := c.sent ++ [⟨target, method, args.map Value.display, actor⟩]
          nonce := c.nonce + 1 })

def deploy (c : MemoryChain) (artifact : String) : Receipt × MemoryChain :=
  let target := addressAt c.seed c.drawn
  (⟨txHash (c.nonce + 1), some target, ["deployed " ++ artifact ++ " at " ++ target.display]⟩,
    { c with
      drawn := c.drawn + 1
      deployed := (target, artifact) :: c.deployed
      nonce := c.nonce + 1 })

/-- How the chain answers a call. -/
def answer (c : MemoryChain) : (call : Call) → call.Reply × MemoryChain
  | .read target method _ => (c.read target method, c)
  | .send target method args actor => c.send target method args actor
  | .deploy artifact _ _ => (.ok (c.deploy artifact).1, (c.deploy artifact).2)

end MemoryChain

end ChainScript
