import ChainScript.Error
import ChainScript.Expr.Core
import ChainScript.Settings.Basic

/-! # Worlds

A world is what a script knows: accounts, aliases, contracts, variables, slots, the last invocation,
whether the next failure is allowed, who acts by default and what was printed. Each update gives a
new world; the chain is not part of it.

The registry of fetchers may be remembered in the world. Updates that change which fetchers there
are forget it.
-/

namespace ChainScript
set_option autoImplicit false

/-- The last transaction or deployment and what came of it. -/
structure Invocation where
  target : String
  method : String
  outcome : Except TransportError Receipt

def Invocation.succeeded (i : Invocation) : Bool := i.outcome.isOk

/-- Where the fetchers of a contract name come from. -/
inductive Synthesizer where
  | standard
  | custom (fetchers : String → List Fetcher)

/-- Where the values of slots come from. -/
inductive SlotLookup where
  | standard
  | custom (value : String → Option Value)

structure World where
  settings : Settings
  accounts : Dict Address
  aliases : Dict Address
  contracts : ContractIndex := {}
  vars : Dict Value := []
  slots : Dict Value := []
  lastContract : Option Address := none
  lastInvocation : Option Invocation := none
  allowFailures : Bool := false
  defaultFrom : Address
  output : List String := []
  synthesizer : Synthesizer := .standard
  slotLookup : SlotLookup := .standard
  remembered : Option (List Fetcher) := none

namespace World

/-! ## Creation -/

/-- The addresses of aliases, or the first text that is none. -/
def readAliases : Dict String → Except Error (Dict Address)
  | [] => .ok []
  | (name, text) :: rest =>
    match Address.parse text with
    | .error cause => .error (.invalid (.badAlias name text cause))
    | .ok address =>
      match readAliases rest with
      | .error e => .error e
      | .ok aliases => .ok ((name, address) :: aliases)

/-- The default actor is an account, else an alias, else the first unlocked account. -/
def chooseActor (name : String) (accounts aliases : Dict Address) (unlocked : List Address) :
    Address :=
  ((accounts.find? name).or ((aliases.find? name).or unlocked.head?)).getD Address.zero

/-- The world of these settings, whose account names go in order to the unlocked accounts. -/
def new (unlocked : List Address) (settings : Settings) : Except Error World := do
  let accounts := Dict.ofList (settings.accounts.zip unlocked)
  let aliases ← readAliases settings.aliases
  return {
    settings := settings
    accounts := accounts
    aliases := aliases
    defaultFrom := chooseActor settings.defaultFrom accounts aliases unlocked }

/-! ## Look-up -/

/-- The address of a name: an alias, else an account, else a contract. -/
def lookupAddress (w : World) (name : String) : Option Address :=
  (w.aliases.find? name).or
    ((w.accounts.find? name).or ((w.contracts.get? name).map ContractInstance.address))

/-- The standard value of a slot: set as a slot, else a variable, else the address of the contract
of that name, else that of the newest contract from an artifact of that name. -/
def standardSlot (w : World) (slot : String) : Option Value :=
  let contract := (w.contracts.get? slot).or (w.contracts.latestByArtifact slot)
  (w.slots.find? slot).or ((w.vars.find? slot).or (contract.map fun i => .address i.address))

/-- The value of a slot. -/
def implicit (w : World) (slot : String) : Option Value :=
  match w.slotLookup with
  | .standard => w.standardSlot slot
  | .custom value => value slot

/-! ## Updates -/

def withAlias (w : World) (name : String) (address : Address) : World :=
  { w with aliases := w.aliases.insert name address }

def withVar (w : World) (key : String) (value : Value) : World :=
  { w with vars := w.vars.insert key value }

def withSlot (w : World) (slot : String) (value : Value) : World :=
  { w with slots := w.slots.insert slot value }

/-- A contract is known from now on, and is the last one deployed. -/
def withContract (w : World) (name artifact : String) (address : Address) : World :=
  { w with
    contracts := w.contracts.insert name artifact address
    lastContract := some address
    remembered := none }

/-- An invocation was made; the next failure is not allowed. -/
def withInvocation (w : World) (invocation : Invocation) : World :=
  { w with lastInvocation := some invocation, allowFailures := false }

def withAllowFailures (w : World) (allow : Bool) : World :=
  { w with allowFailures := allow }

def withDefaultFrom (w : World) (actor : Address) : World :=
  { w with defaultFrom := actor }

def withOutput (w : World) (line : String) : World :=
  { w with output := w.output ++ [line] }

def withSynthesizer (w : World) (synthesizer : Synthesizer) : World :=
  { w with synthesizer := synthesizer, remembered := none }

def withSlotLookup (w : World) (lookup : SlotLookup) : World :=
  { w with slotLookup := lookup }

/-- The world after an invocation; a failure that is not allowed is an error. -/
def settle (w : World) (invocation : Invocation) : Except Error World :=
  match invocation.outcome with
  | .ok _ => .ok (w.withInvocation invocation)
  | .error cause =>
    if w.allowFailures then .ok (w.withInvocation invocation) else .error (.transport cause)

/-! ## The registry of fetchers -/

/-- The fetchers of a contract name. -/
def synthesize (w : World) (name : String) : List Fetcher :=
  match w.synthesizer with
  | .standard => ((w.contracts.get? name).map Fetcher.ofContract).toList
  | .custom fetchers => fetchers name

/-- The registry built from the contracts known now. -/
def builtRegistry (w : World) : List Fetcher :=
  Fetcher.registry Fetcher.core w.contracts.names w.synthesize

/-- The registry: the one remembered, or else a new one. -/
def registry (w : World) : List Fetcher :=
  w.remembered.getD w.builtRegistry

/-- The same world with its registry remembered. -/
def remember (w : World) : World :=
  { w with remembered := some w.registry }

/-- The usage and description of every fetcher. -/
def describeFetchers (w : World) : List (String × Option String) :=
  w.registry.map fun f => (f.usage, f.description)

end World

end ChainScript
