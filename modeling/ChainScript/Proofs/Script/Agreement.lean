import ChainScript.Proofs.Command.Errors
import ChainScript.Proofs.Contract.Index
import ChainScript.Proofs.Expr.Recursion
import ChainScript.Proofs.Script.Allowance

/-! # A world and its chain agree

The world that a line has made is dropped when the line fails, while the chain is changed in place.
The two stay in step all the same: every contract that a world knows is deployed, and what happened
last on the chain is the last invocation, unless that one has failed.

* `Reached`: the worlds and chains that lines and scripts lead to from a new chain.
* `Agrees`: a world and a chain in step.
* `Agrees.finish`, `Agrees.execute`, `Agrees.run`: a line keeps them in step, and so does a script.
* `OnRecord`: a change of the chain that the world has recorded.
* `Turn.nonce_after`, `Script.nonce_after_run`: how many successes a line counts, and a script.
* `Reached.agreement`: what follows for views, transactions and recorded invocations.
-/

namespace ChainScript
set_option autoImplicit false

open Program Handler

variable {σ : Type}

/-! ## Lines and built worlds -/

theorem Quiet.built {w next : World} (h : Quiet w next) (hw : w.Built) : next.Built := by
  cases h with
  | same => exact hw
  | printed line => exact hw.withOutput line
  | named name address => exact hw.withAlias name address
  | stored key value => exact hw.withVar key value

theorem World.Built.deployed {w next : World} (hw : w.Built) {name artifact : String}
    {outcome : Except TransportError Receipt} (h : w.deployed name artifact outcome = .ok next) :
    next.Built := by
  unfold World.deployed at h
  split at h
  · exact hw.settle h
  · split at h
    · cases h
    · cases h
      exact (hw.withContract _ _ _).withInvocation _

/-- A built world stays one when a line is performed. -/
theorem World.Built.perform {w next : World} (hw : w.Built) {answers : Answers σ} {e : Event}
    {actor : Address} {s s' : σ}
    (h : (w.perform e actor).run.run answers s = (.ok next, s')) : next.Built := by
  obtain ⟨q, s₁, hleads, hfinish⟩ := World.perform_finishes answers s w e actor
  rw [hleads.run] at h
  cases hfinish with
  | failed err => cases h
  | allowed _ =>
    cases h
    exact hw.withAllowFailures true
  | quiet _ change =>
    cases h
    exact change.built hw
  | send => exact hw.settle (congrArg Prod.fst h)
  | deploy => exact hw.deployed (congrArg Prod.fst h)

theorem World.Built.execute {w next : World} (hw : w.Built) {answers : Answers σ} {e : Event}
    {actor : Address} {s s' : σ} {r : Except Error Unit}
    (h : (w.executeAs e actor).run answers s = ((r, next), s')) : next.Built := by
  rw [World.run_executeAs] at h
  split at h
  · rename_i hperform
    cases h
    exact hw.perform hperform
  · cases h
    exact hw

theorem World.Built.run {w : World} (hw : w.Built) {answers : Answers σ} {t u : σ}
    {source : String} {outcome : RunOutcome}
    (h : (Script.run w source).run answers t = (outcome, u)) : outcome.world.Built :=
  Script.run_keeps (P := fun w _ => w.Built) (fun _ _ _ _ hx hline => hx.execute hline) hw h

/-! ## Worlds that are reached -/

/-- The worlds and chains that come about when a world is created on a new chain and from then on
lines are executed, scripts run, expressions resolved and answers of the chain prepared. -/
inductive Reached : World → MemoryChain → Prop where
  | created {seed : UInt64} {count : Nat} {settings : Settings} {w : World}
      (h : World.new (MemoryChain.new seed count).accounts settings = .ok w) :
      Reached w (.new seed count)
  | executed {w next : World} {c d : MemoryChain} {e : Event} {actor : Address}
      {r : Except Error Unit} (h : Reached w c)
      (line : (w.executeAs e actor).run MemoryChain.answer c = ((r, next), d)) : Reached next d
  | ran {w : World} {c d : MemoryChain} {source : String} {outcome : RunOutcome} (h : Reached w c)
      (script : (Script.run w source).run MemoryChain.answer c = (outcome, d)) :
      Reached outcome.world d
  | resolved {w : World} {c d : MemoryChain} {e : Event} {r : Except Error Value} (h : Reached w c)
      (value : (w.resolve e).run.run MemoryChain.answer c = (r, d)) : Reached w d
  | remembered {w : World} {c : MemoryChain} (h : Reached w c) : Reached w.remember c
  | stubbed {w : World} {c : MemoryChain} (h : Reached w c) (target : Address) (method : String)
      (result : Json) : Reached w (c.stubRead target method result)
  | reverting {w : World} {c : MemoryChain} (h : Reached w c) (method reason : String) :
      Reached w (c.revertOn method reason)

theorem Reached.built {w : World} {c : MemoryChain} (h : Reached w c) : w.Built := by
  induction h with
  | created h => exact .new h
  | executed _ line ih => exact ih.execute line
  | ran _ script ih => exact ih.run script
  | resolved _ _ ih | stubbed _ _ _ _ ih | reverting _ _ _ ih => exact ih
  | remembered _ ih => exact ih.remember

/-! ## Deployed contracts -/

namespace MemoryChain

variable {c : MemoryChain} {target : Address} {method : String}

/-- A transaction to a deployed contract reverts, or is numbered next. -/
theorem Holds.send_cases (h : c.Holds target) (method : String) (args : List Value)
    (actor : Address) :
    (∃ reason, c.send target method args actor = (.error (.revert reason), c)) ∨
      ∃ receipt d, c.send target method args actor = (.ok receipt, d) ∧ d.deployed = c.deployed ∧
        d.nonce = c.nonce + 1 ∧ receipt.txHash = txHash d.nonce := by
  rcases c.send_cases target method args actor with
    ⟨hmissing, -⟩ | ⟨reason, -, -, hsend⟩ | ⟨-, -, hsend⟩
  · exact absurd h hmissing
  · exact .inl ⟨reason, hsend⟩
  · exact .inr ⟨_, _, hsend, rfl, rfl, rfl⟩

/-- A read of a deployed contract reverts when it fails. -/
theorem Holds.read_error (h : c.Holds target) {cause : TransportError}
    (hread : c.read target method = .error cause) : ∃ reason, cause = .revert reason := by
  obtain ⟨artifact, hartifact⟩ := h
  rw [MemoryChain.read, hartifact] at hread
  dsimp only at hread
  split at hread
  · cases hread
  · cases hread
    exact ⟨_, rfl⟩

end MemoryChain

/-! ## Agreement -/

/-- The contracts of the world are deployed on the chain. Nothing was invoked and nothing happened on
the chain, or the last invocation has failed, or it is what happened last on the chain. -/
structure Agrees (w : World) (c : MemoryChain) : Prop where
  deployed : ∀ entry ∈ w.contracts.instances, c.Holds entry.2.address
  untouched : w.lastInvocation = none → c.nonce = 0
  recorded : ∀ target method receipt, w.lastInvocation = some ⟨target, method, .ok receipt⟩ →
    receipt.txHash = MemoryChain.txHash c.nonce

theorem ContractIndex.mem_of_get? {index : ContractIndex} {name : String} {i : ContractInstance}
    (h : index.get? name = some i) : (name, i) ∈ index.instances := by
  obtain ⟨front, back, hsplit, -⟩ := List.lookup_eq_some_iff.mp h
  rw [hsplit]
  exact List.mem_append_right _ (List.mem_cons_self ..)

namespace Agrees

variable {w : World} {c : MemoryChain}

theorem holds_of_get? (h : Agrees w c) {name : String} {i : ContractInstance}
    (hi : w.contracts.get? name = some i) : c.Holds i.address :=
  h.deployed (name, i) (ContractIndex.mem_of_get? hi)

theorem holds_of_known (h : Agrees w c) {i : ContractInstance} (hi : i ∈ w.contracts.known) :
    c.Holds i.address := by
  obtain ⟨name, -, hname⟩ := List.mem_filterMap.mp hi
  exact h.holds_of_get? hname

theorem created {seed : UInt64} {count : Nat} {settings : Settings}
    (h : World.new (MemoryChain.new seed count).accounts settings = .ok w) :
    Agrees w (.new seed count) := by
  obtain ⟨accounts, aliases, actor, rfl⟩ := World.new_ok h
  exact ⟨nofun, fun _ => rfl, nofun⟩

end Agrees

/-- A line was closed in step: with an error it leaves the chain as it was, and otherwise the next
world agrees with the chain. -/
def InStep (c : MemoryChain) : Except Error World × MemoryChain → Prop
  | (.ok next, d) => Agrees next d
  | (.error _, d) => d = c

namespace Agrees

variable {w : World} {c : MemoryChain}

theorem settle_failure (h : Agrees w c) (target method : String) (cause : TransportError) :
    InStep c (w.settle ⟨target, method, .error cause⟩, c) := by
  change InStep c (if w.allowFailures then .ok (w.withInvocation ⟨target, method, .error cause⟩)
    else .error (.transport cause), c)
  split
  · exact ⟨h.deployed, nofun, nofun⟩
  · rfl

theorem settle_success (h : Agrees w c) {d : MemoryChain} (hdeployed : d.deployed = c.deployed)
    (target method : String) {receipt : Receipt}
    (hhash : receipt.txHash = MemoryChain.txHash d.nonce) :
    InStep c (w.settle ⟨target, method, .ok receipt⟩, d) := by
  refine ⟨fun entry hentry => ?_, nofun, ?_⟩
  · obtain ⟨artifact, hartifact⟩ := h.deployed entry hentry
    refine ⟨artifact, ?_⟩
    rw [MemoryChain.artifactAt?, hdeployed]
    exact hartifact
  · intro other called found hlast
    cases hlast
    exact hhash

theorem deployed_success (h : Agrees w c) (name artifact : String) :
    InStep c (w.deployed name artifact (.ok (c.deploy artifact).1), (c.deploy artifact).2) := by
  refine ⟨fun entry hentry => ?_, nofun, ?_⟩
  · rcases Dict.mem_of_mem_insert hentry with rfl | hentry
    · exact MemoryChain.holds_deploy_iff.mpr (.inl rfl)
    · exact MemoryChain.holds_deploy_iff.mpr (.inr (h.deployed entry hentry))
  · intro other called found hlast
    cases hlast
    rfl

/-- The step of a run: a line that finishes in agreement is closed in step. -/
theorem finish (h : Agrees w c) {allows : Bool} {q : Program (Except Error World)}
    (hq : Finish w allows q) : InStep c (q.run MemoryChain.answer c) := by
  cases hq with
  | failed err => rfl
  | allowed _ => exact ⟨h.deployed, h.untouched, h.recorded⟩
  | quiet _ change =>
    refine ⟨?_, ?_, ?_⟩
    · rw [change.contracts_eq]
      exact h.deployed
    · rw [change.lastInvocation_eq]
      exact h.untouched
    · rw [change.lastInvocation_eq]
      exact h.recorded
  | @send i _ known actor method args =>
    change InStep c (w.settle ⟨i.name, method, (c.send i.address method args actor).1⟩,
      (c.send i.address method args actor).2)
    rcases (h.holds_of_known known).send_cases method args actor with
      ⟨reason, hsend⟩ | ⟨receipt, d, hsend, hdeployed, -, hhash⟩
    · rw [hsend]
      exact h.settle_failure i.name method _
    · rw [hsend]
      exact h.settle_success hdeployed i.name method hhash
  | deploy _ actor name artifact args => exact h.deployed_success name artifact

theorem perform (h : Agrees w c) (e : Event) (actor : Address) :
    InStep c ((w.perform e actor).run.run MemoryChain.answer c) := by
  obtain ⟨q, s, hleads, hfinish⟩ := World.perform_finishes MemoryChain.answer c w e actor
  rw [hleads.run, hleads.keeps MemoryChain.readsKeep]
  exact h.finish hfinish

theorem execute (h : Agrees w c) {e : Event} {actor : Address} {r : Except Error Unit}
    {next : World} {d : MemoryChain}
    (hline : (w.executeAs e actor).run MemoryChain.answer c = ((r, next), d)) : Agrees next d := by
  have hperform := h.perform e actor
  rw [World.run_executeAs] at hline
  generalize (w.perform e actor).run.run MemoryChain.answer c = result at hline hperform
  rcases result with ⟨err | found, d'⟩
  · cases hline
    rw [show d = c from hperform]
    exact h
  · cases hline
    exact hperform

/-- The run of `Agrees.execute`. -/
theorem run (h : Agrees w c) {source : String} {outcome : RunOutcome} {d : MemoryChain}
    (hrun : (Script.run w source).run MemoryChain.answer c = (outcome, d)) :
    Agrees outcome.world d :=
  Script.run_keeps (fun _ _ _ _ hx hline => hx.execute hline) h hrun

end Agrees

theorem Reached.agrees {w : World} {c : MemoryChain} (h : Reached w c) : Agrees w c := by
  induction h with
  | created h => exact .created h
  | executed _ line ih => exact ih.execute line
  | ran _ script ih => exact ih.run script
  | resolved _ value ih =>
    obtain ⟨-, rfl⟩ := ((World.resolve_inquires _ _).run_iff MemoryChain.readsKeep).mp value
    exact ih
  | remembered _ ih | stubbed _ _ _ _ ih | reverting _ _ _ ih =>
    exact ⟨ih.deployed, ih.untouched, ih.recorded⟩

/-! ## Records -/

/-- Among all hashes the one that the world has recorded last is that of the number of successes. -/
theorem Agrees.hash_iff {w : World} {c : MemoryChain} (h : Agrees w c) {target method : String}
    {receipt : Receipt} (hlast : w.lastInvocation = some ⟨target, method, .ok receipt⟩) (n : Nat) :
    receipt.txHash = MemoryChain.txHash n ↔ n = c.nonce := by
  rw [h.recorded target method receipt hlast, MemoryChain.txHash_inj, eq_comm]

/-- A line that has changed the chain is on record: it succeeded, it counts as one success more, and
the next world has its receipt, with a hash that no other number has. -/
structure OnRecord (c : MemoryChain) (r : Except Error Unit) (next : World) (d : MemoryChain) :
    Prop where
  succeeded : r = .ok ()
  counted : d.nonce = c.nonce + 1
  recorded : ∃ target method receipt,
    next.lastInvocation = some ⟨target, method, .ok receipt⟩ ∧
      ∀ n, receipt.txHash = MemoryChain.txHash n ↔ n = d.nonce

theorem World.executeAs_onRecord {w next : World} {e : Event} {actor : Address} {c d : MemoryChain}
    {r : Except Error Unit}
    (h : (w.executeAs e actor).run MemoryChain.answer c = ((r, next), d)) (hne : d ≠ c) :
    OnRecord c r next d := by
  obtain ⟨hr, receipt, target, method, hinvoked, hlast⟩ := executeAs_invoked h hne
  obtain ⟨hnonce, hhash⟩ := hinvoked.numbered
  refine ⟨hr, hnonce, target, method, receipt, hlast, fun n => ?_⟩
  rw [hhash, MemoryChain.txHash_inj, eq_comm]

/-- The chain has counted a success while the line was executed. -/
def Turn.counts (x : Turn MemoryChain) : Bool :=
  (x.outcome MemoryChain.answer).2.nonce != x.chain.nonce

theorem Turn.nonce_after {x : Turn MemoryChain} {r : Except Error Unit} {next : World}
    {d : MemoryChain} (h : x.outcome MemoryChain.answer = ((r, next), d)) :
    d.nonce = x.chain.nonce + [x].countP Turn.counts := by
  have hcounts : x.counts = (d.nonce != x.chain.nonce) := by rw [counts, h]
  rw [List.countP_singleton, hcounts]
  by_cases hsame : d = x.chain
  · simp [hsame]
  · simp [(World.executeAs_onRecord h hsame).counted]

theorem Executes.nonce_after {w last : World} {c d : MemoryChain} {xs : List (Turn MemoryChain)}
    (h : Executes MemoryChain.answer w c xs last d) :
    d.nonce = c.nonce + xs.countP Turn.counts := by
  induction h with
  | nil => rfl
  | @cons x xs _ _ _ _ done _ ih =>
    rw [ih, Turn.nonce_after done, Nat.add_assoc, ← List.countP_append, List.singleton_append]

/-- The run of `Turn.nonce_after`. -/
theorem Script.nonce_after_run {w : World} {c d : MemoryChain} {source : String}
    {outcome : RunOutcome} (hrun : (run w source).run MemoryChain.answer c = (outcome, d)) :
    d.nonce = c.nonce + (turns MemoryChain.answer w c source).countP Turn.counts := by
  have hran : Ran MemoryChain.answer w c 0 _ _ ((run w source).run MemoryChain.answer c) :=
    runLines_ran MemoryChain.answer w c 1 0 (Text.lines source)
  rw [hrun] at hran
  rw [turns]
  cases hran with
  | through execution all _ => rw [← all, execution.turnsOf_eq, execution.nonce_after]
  | halted execution failed reached _ =>
    rw [reached, turnsOf_halted execution failed, List.countP_append, ← Nat.add_assoc,
      ← execution.nonce_after, Turn.nonce_after failed]

/-! ## Views and transactions -/

/-- Views are of known contracts. -/
theorem Fetcher.known_of_view {contracts : ContractIndex} {h : Fetcher} {target : Address}
    (hh : h ∈ core ++ contracts.known.map ofContract) (he : Fetch.view target ∈ h.effects) :
    ∃ i ∈ contracts.known, target = i.address := by
  have hcore : Fetch.view target ∉ effectsOf core := by
    simp [core, effectsOf, effects, computed, constant, arithmetic, catchAll, named]
  rcases List.mem_append.mp hh with hh | hh
  · exact absurd (effects_subset hh he) hcore
  · obtain ⟨i, hi, rfl⟩ := List.mem_map.mp hh
    rw [effects_ofContract] at he
    simp only [List.mem_cons, reduceCtorEq, Fetch.view.injEq, false_or, List.not_mem_nil,
      or_false] at he
    exact ⟨i, hi, he⟩

theorem World.fetcher_select_inquires (w : World) (e : Event) :
    Inquires Error.transport (select (w.binder w.resolve) coreKind w.registry e) :=
  select_inquires (fun reading e => Reading.read_inquires w.resolve_inquires w e reading) _ _ e

namespace World.Standard

variable {w : World} {answers : Answers σ} {s s' : σ} {e : Event}
  {selection : Selection Reading Fetch} {target : Address}

theorem known_of_view_selected (hw : w.Standard)
    (hselect : (select (w.binder w.resolve) coreKind w.registry e).run.run answers s =
      (.ok selection, s')) (heffect : selection.effect = .view target) :
    ∃ i ∈ w.contracts.known, target = i.address := by
  obtain ⟨k, hk, s₀, hbound⟩ := select_ok hselect
  have hmem := mem_of_mem_candidates hk
  rw [hw.registry_eq] at hmem
  refine Fetcher.known_of_view hmem ?_
  rw [← heffect]
  exact attempt_effect k hbound

/-- What an expression comes to that is taken for a view. -/
theorem resolve_view (hw : w.Standard)
    (hselect : (select (w.binder w.resolve) coreKind w.registry e).run.run answers s =
      (.ok selection, s')) (heffect : selection.effect = .view target) :
    (w.resolve e).run.run answers s =
      (Fetch.run w.resolve w selection.args (.view target)).run.run answers s' := by
  rw [← heffect, resolve_eq_resolveStep hw.registry_eq, resolveStep, fetchValue, ExceptT.run_mk,
    run_bind, hselect]

end World.Standard

theorem readChain_error {c : MemoryChain} {target : Address} (h : c.Holds target) {method : String}
    {args : List Value} {err : Error}
    (hrun : ((readChain target method args).run.run MemoryChain.answer c).1 = .error err) :
    ∃ reason, err = .transport (.revert reason) := by
  cases hread : c.read target method with
  | ok raw =>
    simp only [readChain, ExceptT.run_mk, run_ask, MemoryChain.answer, hread, run_done] at hrun
    cases hrun
  | error cause =>
    simp only [readChain, ExceptT.run_mk, run_ask, MemoryChain.answer, hread, run_done] at hrun
    cases hrun
    obtain ⟨reason, rfl⟩ := h.read_error hread
    exact ⟨reason, rfl⟩

theorem Fetch.view_error {c : MemoryChain} {target : Address} (h : c.Holds target)
    {resolve : Event → Action Value} {w : World} {args : BoundArgs} {err : Error}
    (hrun : ((Fetch.run resolve w args (.view target)).run.run MemoryChain.answer c).1 =
      .error err) :
    (∃ fault, err = .invalid fault) ∨ ∃ reason, err = .transport (.revert reason) := by
  rw [Fetch.run] at hrun
  cases hmethod : args.string "method" with
  | error found =>
    rw [hmethod] at hrun
    cases hrun
    exact .inl (BoundArgs.view_error hmethod)
  | ok method =>
    cases hlist : args.list "args" with
    | error found =>
      rw [hmethod, hlist] at hrun
      cases hrun
      exact .inl (BoundArgs.view_error hlist)
    | ok list =>
      rw [hmethod, hlist] at hrun
      exact .inr (readChain_error h hrun)

/-- The transactions and deployments of a line reach their contract. -/
theorem Agrees.outcome_not_rpc {w : World} {c : MemoryChain} (h : Agrees w c) {e : Event}
    {actor : Address} {y : Exchange}
    (hy : y ∈ (w.perform e actor).run.exchanges MemoryChain.answer c) (problem : String) :
    y.outcome? ≠ some (.error (.rpc problem)) := by
  obtain ⟨q, s, hleads, hfinish⟩ := World.perform_finishes MemoryChain.answer c w e actor
  obtain ⟨reads, hreads, hexchanges⟩ := hleads.reads
  rw [hexchanges, hleads.keeps MemoryChain.readsKeep] at hy
  rcases List.mem_append.mp hy with hy | hy
  · rw [Exchange.outcome?_of_read (hreads y hy)]
    exact nofun
  · cases hfinish with
    | failed | allowed | quiet => cases hy
    | @send i _ known actor method args =>
      obtain rfl := List.mem_singleton.mp hy
      change some (c.send i.address method args actor).1 ≠ _
      rcases (h.holds_of_known known).send_cases method args actor with
        ⟨reason, hsend⟩ | ⟨receipt, d, hsend, -⟩
      · rw [hsend]
        exact nofun
      · rw [hsend]
        exact nofun
    | deploy _ actor name artifact args =>
      obtain rfl := List.mem_singleton.mp hy
      exact nofun

/-! ## Reached worlds -/

/-- In a world that is reached, every contract known is deployed at its address, so that neither a
view of a contract nor a transaction to one fails for want of it. Nothing has happened on the chain
as long as nothing was invoked, and a last invocation that succeeded has the hash of the number of
successes on the chain, and of no other. No change of the chain goes unrecorded: a line that makes
one is on record, and a script makes as many as it has lines that are. -/
theorem Reached.agreement (w : World) (c : MemoryChain) (h : Reached w c) :
    (∀ name i, w.contracts.get? name = some i →
      ∃ artifact, c.artifactAt? i.address = some artifact) ∧
    (∀ e selection target c', (select (w.binder w.resolve) World.coreKind w.registry e).run.run
        MemoryChain.answer c = (.ok selection, c') → selection.effect = .view target →
      (∃ i, w.contracts.get? i.name = some i ∧ target = i.address) ∧
      ∀ problem, ((w.resolve e).run.run MemoryChain.answer c).1 ≠
        .error (.transport (.rpc problem))) ∧
    (∀ e actor, ∀ y ∈ (w.perform e actor).run.exchanges MemoryChain.answer c, ∀ problem,
      y.outcome? ≠ some (.error (.rpc problem))) ∧
    (w.lastInvocation = none → c.nonce = 0) ∧
    (∀ target method receipt, w.lastInvocation = some ⟨target, method, .ok receipt⟩ →
      ∀ n, receipt.txHash = MemoryChain.txHash n ↔ n = c.nonce) ∧
    (∀ e actor r next d, (w.executeAs e actor).run MemoryChain.answer c = ((r, next), d) →
      d ≠ c → OnRecord c r next d) ∧
    ∀ source outcome d, (Script.run w source).run MemoryChain.answer c = (outcome, d) →
      (∀ x ∈ Script.turns MemoryChain.answer w c source, ∀ r next v,
        x.outcome MemoryChain.answer = ((r, next), v) → v ≠ x.chain →
          OnRecord x.chain r next v) ∧
      d.nonce = c.nonce + (Script.turns MemoryChain.answer w c source).countP Turn.counts := by
  have hagrees := h.agrees
  have hstandard := h.built.standard
  refine ⟨fun name i hi => hagrees.holds_of_get? hi, ?_,
    fun e actor y hy => hagrees.outcome_not_rpc hy, hagrees.untouched,
    fun _ _ _ hlast => hagrees.hash_iff hlast,
    fun _ _ _ _ _ hline hne => World.executeAs_onRecord hline hne,
    fun _ _ _ hrun => ⟨fun _ _ _ _ _ hline hne => World.executeAs_onRecord hline hne,
      Script.nonce_after_run hrun⟩⟩
  intro e selection target c' hselect heffect
  obtain ⟨i, hi, rfl⟩ := hstandard.known_of_view_selected hselect heffect
  refine ⟨⟨i, h.built.ordered.mem_known.mp hi, rfl⟩, fun problem hrun => ?_⟩
  obtain ⟨-, rfl⟩ := ((w.fetcher_select_inquires e).run_iff MemoryChain.readsKeep).mp hselect
  rw [hstandard.resolve_view hselect heffect] at hrun
  rcases Fetch.view_error (hagrees.holds_of_known hi) hrun with ⟨fault, hfault⟩ | ⟨reason, hreason⟩
  · cases hfault
  · cases hreason

/-- A new chain on which the token was deployed. -/
def MemoryChain.tokenDeployed : MemoryChain := ((MemoryChain.new 0 0).deploy "Erc20").2

/-- The world that has deployed it. -/
def World.tokenDeployed : World :=
  (World.blank.withContract "Token" "Erc20" (MemoryChain.addressAt 0 0)).withInvocation
    ⟨"Token", "deploy", .ok ((MemoryChain.new 0 0).deploy "Erc20").1⟩

/-- The chain on which it was deployed twice. -/
def MemoryChain.tokenRedeployed : MemoryChain := (MemoryChain.tokenDeployed.deploy "Erc20").2

theorem Reached.agreement_token :
    Reached .tokenDeployed .tokenDeployed ∧
    (∃ artifact, MemoryChain.tokenDeployed.artifactAt? (MemoryChain.addressAt 0 0) =
      some artifact) ∧
    (∀ problem, ((World.tokenDeployed.resolve (.seq [.token "Token", .token "supply"])).run.run
      MemoryChain.answer .tokenDeployed).1 ≠ .error (.transport (.rpc problem))) ∧
    (∃ reply, ∃ y ∈ (World.tokenDeployed.perform (.seq [.token "Token", .token "mint"])
        Address.zero).run.exchanges MemoryChain.answer .tokenDeployed,
      y.outcome? = some reply ∧ ∀ problem, reply ≠ .error (.rpc problem)) ∧
    (∀ n, ((MemoryChain.new 0 0).deploy "Erc20").1.txHash = MemoryChain.txHash n ↔
      n = MemoryChain.tokenDeployed.nonce) ∧
    ∃ r next, (World.tokenDeployed.executeAs
        (.seq [.token "Deploy", .token "Token", .token "Erc20"]) Address.zero).run
          MemoryChain.answer .tokenDeployed = ((r, next), .tokenRedeployed) ∧
      MemoryChain.tokenRedeployed ≠ .tokenDeployed ∧
      OnRecord .tokenDeployed r next .tokenRedeployed := by
  have hline : (World.blank.executeAs (.seq [.token "Deploy", .token "Token", .token "Erc20"])
      Address.zero).run MemoryChain.answer (.new 0 0) =
        ((.ok (), .tokenDeployed), .tokenDeployed) := by
    with_unfolding_all rfl
  have hblank : Reached World.blank (.new 0 0) := .created World.new_blank
  have hreached : Reached .tokenDeployed .tokenDeployed := hblank.executed hline
  have hview : ∃ selection, (select (World.tokenDeployed.binder World.tokenDeployed.resolve)
      World.coreKind World.tokenDeployed.registry
      (.seq [.token "Token", .token "supply"])).run.run MemoryChain.answer .tokenDeployed =
        (.ok selection, .tokenDeployed) ∧
      selection.effect = .view (MemoryChain.addressAt 0 0) := by
    with_unfolding_all exact ⟨_, rfl, rfl⟩
  have hsend : ∃ y ∈ (World.tokenDeployed.perform (.seq [.token "Token", .token "mint"])
      Address.zero).run.exchanges MemoryChain.answer .tokenDeployed, ∃ reply,
        y.outcome? = some reply := by
    with_unfolding_all exact ⟨_, List.mem_singleton.mpr rfl, _, rfl⟩
  have hagain : ∃ r next, (World.tokenDeployed.executeAs
      (.seq [.token "Deploy", .token "Token", .token "Erc20"]) Address.zero).run
        MemoryChain.answer .tokenDeployed = ((r, next), .tokenRedeployed) := by
    with_unfolding_all exact ⟨_, _, rfl⟩
  obtain ⟨hdeployed, hviews, hsends, -, hhash, hlines, -⟩ := Reached.agreement _ _ hreached
  obtain ⟨selection, hselect, heffect⟩ := hview
  obtain ⟨y, hy, reply, hreply⟩ := hsend
  obtain ⟨r, next, hagain⟩ := hagain
  have hne : MemoryChain.tokenRedeployed ≠ .tokenDeployed := by
    intro h
    cases congrArg MemoryChain.nonce h
  refine ⟨hreached, hdeployed "Token" ⟨"Token", "Erc20", MemoryChain.addressAt 0 0, 0⟩ rfl,
    (hviews _ selection _ _ hselect heffect).2, ⟨reply, y, hy, hreply, fun problem hrpc => ?_⟩,
    hhash "Token" "deploy" _ rfl, r, next, hagain, hne, hlines _ _ _ _ _ hagain hne⟩
  exact hsends _ _ y hy problem (hreply.trans (congrArg some hrpc))

end ChainScript
