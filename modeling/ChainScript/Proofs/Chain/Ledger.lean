import ChainScript.Proofs.Chain.Exchanges
import ChainScript.Proofs.Chain.Stream
import ChainScript.Proofs.Dict.Entries

/-! # The ledger of a chain in memory

Calls and preparations may come in any order. What a chain in memory has recorded is what the calls
and their replies say: how many deployments there were decides the next address, how many calls
succeeded decides the next number, and what was sent and deployed is what succeeded.

* `MemoryChain.send_cases`: the three ways in which a transaction may end.
* `MemoryChain.Operation`, `MemoryChain.after`, `MemoryChain.history`: operations in a row, the chain
  after them, and their calls with the replies.
* `MemoryChain.Adds`: what operations add to the state, read off them and the replies.
* `MemoryChain.Adds.step`, `MemoryChain.Adds.run`: one operation, and operations in a row.
* `MemoryChain.Adds.hash_iff`: the hash of a success tells its number.
* `MemoryChain.ledger_exact`: what follows for addresses, hashes and transactions.
-/

namespace ChainScript
set_option autoImplicit false

/-! ## Successes -/

namespace Exchange

/-- The receipt of a transaction or a deployment that succeeded. -/
def receipt? (x : Exchange) : Option Receipt := x.outcome?.bind Except.toOption

/-- The address that a deployment returned. -/
def deployed? (x : Exchange) : Option Address :=
  match x.call with
  | .deploy _ _ _ => x.receipt?.bind Receipt.contractAddress
  | _ => none

/-- What a transaction that succeeded has sent. -/
def sent? (x : Exchange) : Option SentTransaction :=
  match x.call with
  | .send target method args actor =>
    x.receipt?.map fun _ => ⟨target, method, args.map Value.display, actor⟩
  | _ => none

variable {x : Exchange}

theorem deployed?_eq_none (h : x.receipt? = none) : x.deployed? = none := by
  unfold deployed?
  split
  · rw [h]
    rfl
  · rfl

theorem sent?_eq_none (h : x.receipt? = none) : x.sent? = none := by
  unfold sent?
  split
  · rw [h]
    rfl
  · rfl

end Exchange

namespace MemoryChain

/-! ## Transactions and deployments -/

/-- A contract is deployed at the address. -/
def Holds (c : MemoryChain) (target : Address) : Prop :=
  ∃ artifact, c.artifactAt? target = some artifact

/-- The chain with one more transaction recorded. -/
def record (c : MemoryChain) (transaction : SentTransaction) : MemoryChain :=
  { c with sent := c.sent ++ [transaction], nonce := c.nonce + 1 }

/-- A transaction fails for want of a contract, it reverts, or it is recorded and numbered next. -/
theorem send_cases (c : MemoryChain) (target : Address) (method : String) (args : List Value)
    (actor : Address) :
    (¬ c.Holds target ∧ c.send target method args actor = (.error (notDeployed target), c)) ∨
    (∃ reason, c.Holds target ∧ c.reverts.find? method = some reason ∧
      c.send target method args actor = (.error (.revert reason), c)) ∨
    (c.Holds target ∧ c.reverts.find? method = none ∧
      c.send target method args actor = (.ok ⟨txHash (c.nonce + 1), none, []⟩,
        c.record ⟨target, method, args.map Value.display, actor⟩)) := by
  unfold send
  cases hartifact : c.artifactAt? target with
  | none =>
    refine .inl ⟨?_, rfl⟩
    rintro ⟨artifact, h⟩
    rw [hartifact] at h
    cases h
  | some artifact =>
    cases hreverts : c.reverts.find? method with
    | some reason => exact .inr (.inl ⟨reason, ⟨artifact, hartifact⟩, rfl, rfl⟩)
    | none => exact .inr (.inr ⟨⟨artifact, hartifact⟩, rfl, rfl⟩)

theorem send_error {c next : MemoryChain} {target : Address} {method : String} {args : List Value}
    {actor : Address} {cause : TransportError}
    (h : c.send target method args actor = (.error cause, next)) : next = c := by
  rcases c.send_cases target method args actor with
    ⟨-, hsend⟩ | ⟨reason, -, -, hsend⟩ | ⟨-, -, hsend⟩ <;> rw [hsend] at h <;> cases h
  · rfl
  · rfl

theorem send_succeeds_iff (c : MemoryChain) (target : Address) (method : String)
    (args : List Value) (actor : Address) :
    (∃ receipt, (c.send target method args actor).1 = .ok receipt) ↔
      c.Holds target ∧ c.reverts.find? method = none := by
  rcases c.send_cases target method args actor with
    ⟨hmissing, hsend⟩ | ⟨reason, -, hreverts, hsend⟩ | ⟨hholds, hreverts, hsend⟩
  · simp [hsend, hmissing]
  · simp [hsend, hreverts]
  · simp [hsend, hholds, hreverts]

/-- A deployment adds one address and hides no other. -/
theorem holds_deploy_iff {c : MemoryChain} {artifact : String} {target : Address} :
    (c.deploy artifact).2.Holds target ↔ target = addressAt c.seed c.drawn ∨ c.Holds target := by
  unfold Holds artifactAt? deploy
  dsimp only
  rw [List.lookup_cons]
  by_cases htarget : target = addressAt c.seed c.drawn
  · simp [htarget]
  · simp [beq_false_of_ne htarget, htarget]

theorem bytes_addressAt (seed : UInt64) (k : Nat) :
    (addressAt seed k).bytes = (List.range 20).map fun i => Stream.byte seed (20 * k + i) := by
  unfold addressAt Address.ofFn
  dsimp only
  rw [Stream.slice_eq]
  refine List.map_congr_left fun i hi => ?_
  have hlt : i < 20 := List.mem_range.mp hi
  simp [hlt]

/-! ## Operations -/

/-- What is done with a chain: a call, or a preparation for calls to come. -/
inductive Operation where
  | call (call : Call)
  | stubRead (target : Address) (method : String) (result : Json)
  | revertOn (method reason : String)

def Operation.isDeployment : Operation → Bool
  | .call (.deploy _ _ _) => true
  | _ => false

def perform (c : MemoryChain) : Operation → MemoryChain
  | .call call => (c.answer call).2
  | .stubRead target method result => c.stubRead target method result
  | .revertOn method reason => c.revertOn method reason

/-- The call of an operation, with its reply. -/
def exchanged (c : MemoryChain) : Operation → List Exchange
  | .call call => [⟨call, (c.answer call).1⟩]
  | .stubRead _ _ _ => []
  | .revertOn _ _ => []

/-- The chain after operations in a row. -/
def after (c : MemoryChain) : List Operation → MemoryChain
  | [] => c
  | op :: ops => (c.perform op).after ops

/-- The calls among operations in a row, with their replies. -/
def history (c : MemoryChain) : List Operation → List Exchange
  | [] => []
  | op :: ops => c.exchanged op ++ (c.perform op).history ops

/-! ## What operations add -/

/-- Operations with these exchanges lead from one chain to another: what they add to its state can be
read off them. -/
structure Adds (c : MemoryChain) (ops : List Operation) (log : List Exchange)
    (d : MemoryChain) : Prop where
  seed : d.seed = c.seed
  drawn : d.drawn = c.drawn + ops.countP Operation.isDeployment
  nonce : d.nonce = c.nonce + (log.filterMap Exchange.receipt?).length
  sent : d.sent = c.sent ++ log.filterMap Exchange.sent?
  holds : ∀ target, d.Holds target ↔ c.Holds target ∨ target ∈ log.filterMap Exchange.deployed?
  reverts : ∀ method, d.reverts.find? method = none ↔
    c.reverts.find? method = none ∧ ∀ reason, .revertOn method reason ∉ ops
  addresses : log.filterMap Exchange.deployed? =
    (List.range (ops.countP Operation.isDeployment)).map fun j => addressAt c.seed (c.drawn + j)
  hashes : (log.filterMap Exchange.receipt?).map Receipt.txHash =
    (List.range (log.filterMap Exchange.receipt?).length).map fun k => txHash (c.nonce + k + 1)

namespace Adds

theorem refl (c : MemoryChain) : Adds c [] [] c := by
  constructor <;> simp

theorem trans {c d e : MemoryChain} {ops ops' : List Operation} {log log' : List Exchange}
    (first : Adds c ops log d) (second : Adds d ops' log' e) :
    Adds c (ops ++ ops') (log ++ log') e := by
  have hseed := first.seed
  have hdrawn := first.drawn
  have hnonce := first.nonce
  refine ⟨second.seed.trans hseed, ?_, ?_, ?_, fun target => ?_, fun method => ?_, ?_, ?_⟩
  · rw [second.drawn, hdrawn, List.countP_append, Nat.add_assoc]
  · rw [second.nonce, hnonce, List.filterMap_append, List.length_append, Nat.add_assoc]
  · rw [second.sent, first.sent, List.filterMap_append, List.append_assoc]
  · rw [second.holds, first.holds, List.filterMap_append, List.mem_append, or_assoc]
  · rw [second.reverts, first.reverts, and_assoc]
    simp [not_or, forall_and]
  · rw [List.filterMap_append, first.addresses, second.addresses, List.countP_append,
      List.range_add, List.map_append, List.map_map, hseed, hdrawn]
    simp [Function.comp_def, Nat.add_assoc]
  · rw [List.filterMap_append, List.map_append, first.hashes, second.hashes, List.length_append,
      List.range_add, List.map_append, List.map_map, hnonce]
    simp [Function.comp_def, Nat.add_assoc]

/-- A call without a receipt adds nothing. -/
theorem silent (c : MemoryChain) {call : Call} {reply : call.Reply}
    (hplain : (Operation.call call).isDeployment = false)
    (hreceipt : (⟨call, reply⟩ : Exchange).receipt? = none) :
    Adds c [.call call] [⟨call, reply⟩] c := by
  have hdeployed := Exchange.deployed?_eq_none hreceipt
  have hsent := Exchange.sent?_eq_none hreceipt
  constructor <;> simp [hplain, hreceipt, hdeployed, hsent]

theorem recorded (c : MemoryChain) (target : Address) (method : String) (args : List Value)
    (actor : Address) :
    Adds c [.call (.send target method args actor)]
      [⟨.send target method args actor, Except.ok ⟨txHash (c.nonce + 1), none, []⟩⟩]
      (c.record ⟨target, method, args.map Value.display, actor⟩) where
  seed := rfl
  drawn := rfl
  nonce := rfl
  sent := rfl
  holds _ := (or_iff_left List.not_mem_nil).symm
  reverts _ := by simp [record]
  addresses := rfl
  hashes := rfl

theorem send (c : MemoryChain) (target : Address) (method : String) (args : List Value)
    (actor : Address) :
    Adds c [.call (.send target method args actor)]
      [⟨.send target method args actor, (c.send target method args actor).1⟩]
      (c.send target method args actor).2 := by
  rcases c.send_cases target method args actor with
    ⟨-, hsend⟩ | ⟨reason, -, -, hsend⟩ | ⟨-, -, hsend⟩ <;> rw [hsend]
  · exact .silent c rfl rfl
  · exact .silent c rfl rfl
  · exact .recorded c target method args actor

theorem deploy (c : MemoryChain) (artifact : String) (args : List Value) (actor : Address) :
    Adds c [.call (.deploy artifact args actor)]
      [⟨.deploy artifact args actor, Except.ok (c.deploy artifact).1⟩] (c.deploy artifact).2 where
  seed := rfl
  drawn := rfl
  nonce := rfl
  sent := (List.append_nil _).symm
  holds _ := holds_deploy_iff.trans (or_comm.trans (or_congr_right List.mem_singleton.symm))
  reverts _ := by simp [MemoryChain.deploy]
  addresses := rfl
  hashes := rfl

theorem stubRead (c : MemoryChain) (target : Address) (method : String) (result : Json) :
    Adds c [.stubRead target method result] [] (c.stubRead target method result) where
  seed := rfl
  drawn := rfl
  nonce := rfl
  sent := (List.append_nil _).symm
  holds _ := (or_iff_left List.not_mem_nil).symm
  reverts _ := by simp [MemoryChain.stubRead]
  addresses := rfl
  hashes := rfl

theorem revertOn (c : MemoryChain) (method reason : String) :
    Adds c [.revertOn method reason] [] (c.revertOn method reason) where
  seed := rfl
  drawn := rfl
  nonce := rfl
  sent := (List.append_nil _).symm
  holds _ := (or_iff_left List.not_mem_nil).symm
  reverts other := by
    change (c.reverts.insert method reason).find? other = none ↔ _
    by_cases hother : other = method
    · simp [hother, Dict.find?_insert_self]
    · simp [hother, Dict.find?_insert_of_ne hother]
  addresses := rfl
  hashes := rfl

theorem step (c : MemoryChain) (op : Operation) : Adds c [op] (c.exchanged op) (c.perform op) := by
  cases op with
  | call call =>
    cases call with
    | read target method args => exact .silent c rfl rfl
    | send target method args actor => exact .send c target method args actor
    | deploy artifact args actor => exact .deploy c artifact args actor
  | stubRead target method result => exact .stubRead c target method result
  | revertOn method reason => exact .revertOn c method reason

theorem run (c : MemoryChain) (ops : List Operation) : Adds c ops (c.history ops) (c.after ops) := by
  induction ops generalizing c with
  | nil => exact .refl c
  | cons op ops ih => exact (step c op).trans (ih (c.perform op))

/-- The hash of a success is that of its number, counted on from the first chain, and of no other. -/
theorem hash_iff {c d : MemoryChain} {ops : List Operation} {log : List Exchange}
    (h : Adds c ops log d) {k : Nat} {receipt : Receipt}
    (hk : (log.filterMap Exchange.receipt?)[k]? = some receipt) (n : Nat) :
    receipt.txHash = txHash n ↔ n = c.nonce + k + 1 := by
  have hlt := (List.getElem?_eq_some_iff.mp hk).1
  have hhash := congrArg (·[k]?) h.hashes
  simp only [List.getElem?_map, hk, List.getElem?_range hlt, Option.map_some] at hhash
  rw [Option.some.inj hhash, txHash_inj, eq_comm]

end Adds

/-! ## What the ledger says -/

/-- What operations in a row have made of a chain with so many accounts, and what the next call will
make of it. -/
structure Ledger (seed : UInt64) (accountCount : Nat) (ops : List Operation) (log : List Exchange)
    (c : MemoryChain) : Prop where
  addresses : (log.filterMap Exchange.deployed?).map Address.bytes =
    (List.range (ops.countP Operation.isDeployment)).map fun j =>
      (List.range 20).map fun i => Stream.byte seed (20 * (accountCount + j) + i)
  nonce : c.nonce = (log.filterMap Exchange.receipt?).length
  hashes : (log.filterMap Exchange.receipt?).map Receipt.txHash =
    (List.range (log.filterMap Exchange.receipt?).length).map fun k => txHash (k + 1)
  numbered : ∀ k receipt, (log.filterMap Exchange.receipt?)[k]? = some receipt →
    ∀ n, receipt.txHash = txHash n ↔ n = k + 1
  sent : c.sent = log.filterMap Exchange.sent?
  reads : ∀ target method args, (c.answer (.read target method args)).2 = c
  failures : ∀ target method args actor cause,
    (c.answer (.send target method args actor)).1 = .error cause →
      (c.answer (.send target method args actor)).2 = c
  successes : ∀ target method args actor,
    (∃ receipt, (c.answer (.send target method args actor)).1 = .ok receipt) ↔
      target ∈ log.filterMap Exchange.deployed? ∧
        ∀ reason, Operation.revertOn method reason ∉ ops

/-- Deployment number `j` gets the bytes of the stream that come after those of the accounts and of
the deployments before it, whatever else was done, and success number `k` the hash of `k`, which is
that of no other number. The successes are counted, and what was sent are the transactions that
succeeded. A transaction succeeds exactly when a deployment has returned its address and its method
was not set to revert, and otherwise, as with a read, the chain stays as it is. -/
theorem ledger_exact (seed : UInt64) (accountCount : Nat) (ops : List Operation) :
    Ledger seed accountCount ops ((new seed accountCount).history ops)
      ((new seed accountCount).after ops) := by
  have h := Adds.run (new seed accountCount) ops
  refine ⟨?_, ?_, ?_, ?_, h.sent, fun _ _ _ => rfl, ?_, ?_⟩
  · rw [h.addresses, List.map_map]
    refine List.map_congr_left fun j _ => ?_
    exact bytes_addressAt seed (accountCount + j)
  · rw [h.nonce]
    exact Nat.zero_add _
  · rw [h.hashes]
    simp [new]
  · intro k receipt hk n
    rw [h.hash_iff hk]
    simp [new]
  · intro target method args actor cause hreply
    exact send_error (Prod.ext hreply rfl)
  · intro target method args actor
    have hholds := h.holds target
    have hreverts := h.reverts method
    have hnone : ¬ (new seed accountCount).Holds target := by simp [Holds, artifactAt?, new]
    have hfree : (new seed accountCount).reverts.find? method = none := rfl
    rw [or_iff_right hnone] at hholds
    rw [and_iff_right hfree] at hreverts
    rw [← hholds, ← hreverts]
    exact send_succeeds_iff _ target method args actor

end MemoryChain

end ChainScript
