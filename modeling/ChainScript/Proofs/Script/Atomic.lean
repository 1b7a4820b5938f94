import ChainScript.Proofs.Chain.Ledger
import ChainScript.Proofs.Command.Course
import ChainScript.Script

/-! # Lines are atomic

On a chain in memory a line that fails leaves the world and the chain as they were, and a line that
changes the chain has made one invocation that succeeded and has recorded its receipt. A failed
line drops the next world, but the chain is shared and cannot be taken back: what saves it is that
nothing can fail once a transaction or a deployment has taken effect.
-/

namespace ChainScript
set_option autoImplicit false

open Program

namespace MemoryChain

/-- A transaction or a deployment succeeded, left this receipt and took the chain to this state. -/
inductive Invoked (c : MemoryChain) : Receipt → MemoryChain → Prop where
  | send {target : Address} {method : String} {args : List Value} {actor : Address}
      {receipt : Receipt} {next : MemoryChain}
      (h : c.send target method args actor = (.ok receipt, next)) : Invoked c receipt next
  | deploy (artifact : String) : Invoked c (c.deploy artifact).1 (c.deploy artifact).2

/-- What succeeded is numbered next, and its receipt has the hash of that number. -/
theorem Invoked.numbered {c next : MemoryChain} {receipt : Receipt} (h : c.Invoked receipt next) :
    next.nonce = c.nonce + 1 ∧ receipt.txHash = txHash next.nonce := by
  cases h with
  | @send target method args actor _ _ h =>
    rcases c.send_cases target method args actor with
      ⟨-, hsend⟩ | ⟨reason, -, -, hsend⟩ | ⟨-, -, hsend⟩ <;> rw [hsend] at h <;> cases h
    exact ⟨rfl, rfl⟩
  | deploy artifact => exact ⟨rfl, rfl⟩

end MemoryChain

/-- A line was closed with this result on a chain: the chain is as it was, or an invocation
succeeded and the next world has recorded its receipt. -/
inductive Settled (c : MemoryChain) : Except Error World × MemoryChain → Prop where
  | kept (r : Except Error World) : Settled c (r, c)
  | invoked {w : World} {target method : String} {receipt : Receipt} {next : MemoryChain}
      (invoked : c.Invoked receipt next)
      (recorded : w.lastInvocation = some ⟨target, method, .ok receipt⟩) :
      Settled c (.ok w, next)

theorem Closing.settled {w : World} {actor : Address} {p : Program (Except Error World)}
    (h : Closing w actor p) (c : MemoryChain) : Settled c (p.run MemoryChain.answer c) := by
  cases h with
  | done r => exact .kept r
  | send contract target method args =>
    change Settled c (w.settle ⟨contract, method, (c.send target method args actor).1⟩,
      (c.send target method args actor).2)
    rcases hsend : c.send target method args actor with ⟨cause | receipt, next⟩
    · rw [MemoryChain.send_error hsend]
      exact .kept _
    · exact .invoked (.send hsend) rfl
  | deploy name artifact args => exact .invoked (.deploy artifact) rfl

theorem World.perform_settled (w : World) (e : Event) (actor : Address) (c : MemoryChain) :
    Settled c ((w.perform e actor).run.run MemoryChain.answer c) := by
  obtain ⟨reads, q, s, -, -, hrun, hq, hkeep⟩ := (w.perform_course e actor).split
    MemoryChain.answer c
  rw [hrun, hkeep MemoryChain.readsKeep]
  rcases hq with ⟨cause, rfl⟩ | ⟨other, hq⟩
  · exact .kept _
  · exact hq.settled c

theorem World.run_executeAs {σ : Type} (w : World) (e : Event) (actor : Address)
    (answers : Answers σ) (s : σ) :
    (w.executeAs e actor).run answers s =
      match (w.perform e actor).run.run answers s with
      | (.ok next, s') => ((.ok (), next), s')
      | (.error err, s') => ((.error err, w), s') := by
  rw [executeAs, run_bind]
  rcases (w.perform e actor).run.run answers s with ⟨err | next, s'⟩ <;> rfl

/-- A line that fails leaves the world as it was. -/
theorem World.executeAs_error {σ : Type} {answers : Answers σ} {w last : World} {e : Event}
    {actor : Address} {t u : σ} {err : Error}
    (h : (w.executeAs e actor).run answers t = ((.error err, last), u)) : last = w := by
  rw [run_executeAs] at h
  split at h
  · cases h
  · cases h
    rfl

/-- A line that changes the chain succeeds, and has recorded the invocation that did it. -/
theorem World.executeAs_invoked {w next : World} {e : Event} {actor : Address} {c d : MemoryChain}
    {r : Except Error Unit}
    (h : (w.executeAs e actor).run MemoryChain.answer c = ((r, next), d)) (hne : d ≠ c) :
    r = .ok () ∧ ∃ receipt target method, c.Invoked receipt d ∧
      next.lastInvocation = some ⟨target, method, .ok receipt⟩ := by
  have hsettled := w.perform_settled e actor c
  rw [run_executeAs] at h
  generalize (w.perform e actor).run.run MemoryChain.answer c = outcome at h hsettled
  cases hsettled with
  | kept result =>
    rcases result with err | found <;> cases h <;> exact absurd rfl hne
  | @invoked found target method receipt _ hinvoked hrecorded =>
    cases h
    exact ⟨rfl, receipt, target, method, hinvoked, hrecorded⟩

/-- A line that fails leaves the world and the chain as they were. One that succeeds leaves the chain
as it was, or has made one invocation, and its receipt is that of the last invocation. -/
theorem executeAs_atomic (w w' : World) (e : Event) (actor : Address) (c c' : MemoryChain)
    (r : Except Error Unit)
    (h : (w.executeAs e actor).run MemoryChain.answer c = ((r, w'), c')) :
    (∀ err, r = .error err → w' = w ∧ c' = c) ∧
    (r = .ok () → c' ≠ c → ∃ receipt target method, c.Invoked receipt c' ∧
      w'.lastInvocation = some ⟨target, method, .ok receipt⟩) := by
  refine ⟨fun err hr => ?_, fun _ hne => (World.executeAs_invoked h hne).2⟩
  subst hr
  refine ⟨World.executeAs_error h, ?_⟩
  by_contra hne
  cases (World.executeAs_invoked h hne).1

/-- A chain with the token deployed, where minting reverts. -/
def MemoryChain.paused : MemoryChain :=
  { MemoryChain.new 0 0 with deployed := [(Address.zero, "Erc20")], reverts := [("mint", "paused")] }

def MemoryChain.burnt : MemoryChain :=
  { MemoryChain.paused with sent := [⟨Address.zero, "burn", ["7"], Address.zero⟩], nonce := 1 }

theorem executeAs_atomic_token :
    (∃ err next chain, (World.ofToken.executeAs (.seq [.token "Token", .token "mint", .token "5"])
        Address.zero).run MemoryChain.answer .paused = ((.error err, next), chain) ∧
      next = World.ofToken ∧ chain = .paused) ∧
    ∃ next receipt target method, (World.ofToken.executeAs
        (.seq [.token "Token", .token "burn", .token "7"]) Address.zero).run MemoryChain.answer
          .paused = ((.ok (), next), .burnt) ∧
      MemoryChain.paused.Invoked receipt .burnt ∧
      next.lastInvocation = some ⟨target, method, .ok receipt⟩ := by
  constructor
  · have hmint : (World.ofToken.executeAs (.seq [.token "Token", .token "mint", .token "5"])
        Address.zero).run MemoryChain.answer .paused =
        ((.error (.transport (.revert "paused")), World.ofToken), .paused) := by
      with_unfolding_all rfl
    exact ⟨_, _, _, hmint, (executeAs_atomic _ _ _ _ _ _ _ hmint).1 _ rfl⟩
  · have hburn : (World.ofToken.executeAs (.seq [.token "Token", .token "burn", .token "7"])
        Address.zero).run MemoryChain.answer .paused =
        ((.ok (), World.ofToken.withInvocation
          ⟨"Token", "burn", .ok ⟨MemoryChain.txHash 1, none, []⟩⟩), .burnt) := by
      with_unfolding_all rfl
    have hne : MemoryChain.burnt ≠ MemoryChain.paused := by
      intro h
      cases congrArg MemoryChain.nonce h
    obtain ⟨receipt, target, method, hinvoked, hlast⟩ :=
      (executeAs_atomic _ _ _ _ _ _ _ hburn).2 rfl hne
    exact ⟨_, receipt, target, method, hburn, hinvoked, hlast⟩

end ChainScript
