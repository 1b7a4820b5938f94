import ChainScript.Address
import ChainScript.Dict

/-! # Known contracts

The contracts that a script has deployed, by name. A name deployed again stands for the new
contract. Sequence numbers tell which of the contracts from one artifact is the newest.
-/

namespace ChainScript
set_option autoImplicit false

structure ContractInstance where
  name : String
  artifact : String
  address : Address
  sequence : Nat
  deriving DecidableEq, Inhabited

structure ContractIndex where
  instances : Dict ContractInstance := []
  nextSequence : Nat := 0
  deriving Inhabited

namespace ContractIndex

def insert (index : ContractIndex) (name artifact : String) (address : Address) :
    ContractIndex where
  instances := index.instances.insert name ⟨name, artifact, address, index.nextSequence⟩
  nextSequence := index.nextSequence + 1

def get? (index : ContractIndex) (name : String) : Option ContractInstance :=
  index.instances.find? name

/-- The names, in order. -/
def names (index : ContractIndex) : List String := index.instances.keys

/-- The contracts, in the order of their names. -/
def toList (index : ContractIndex) : List ContractInstance := index.instances.values

/-- The contract with the greatest sequence number. -/
def newest : List ContractInstance → Option ContractInstance
  | [] => none
  | i :: rest =>
    match newest rest with
    | none => some i
    | some j => if i.sequence ≤ j.sequence then some j else some i

/-- The newest contract deployed from an artifact. -/
def latestByArtifact (index : ContractIndex) (artifact : String) : Option ContractInstance :=
  newest (index.toList.filter (·.artifact == artifact))

end ContractIndex

end ChainScript
