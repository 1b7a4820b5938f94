import ChainScript.Proofs.Command.Finish
import ChainScript.Proofs.Contract.Index

/-! # What each command changes

The command that a line carries out stands inside all changes of the actor, and it owns a part of the
world: the output, one alias, one variable, the allowance, the last invocation, or one contract with
what is known of the last one. Everything else is as it was before the line.

* `Effect.Changes`: what a command may change.
* `World.innermostCommand`, `World.perform_changes`: the command inside all changes of the actor, and
  that a line changes what this command may change.
* `World.Persists`: what no line takes away.
-/

namespace ChainScript
set_option autoImplicit false

open Program Handler

variable {σ : Type}

/-! ## What a command may change -/

/-- The world after a command with this effect differs from the world before it in what the command
owns, and in nothing else. The change of the actor is no command of its own. -/
def Effect.Changes (w next : World) : Effect → Prop
  | .print | .read | .inspect => ∃ line, next = { w with output := w.output ++ [line] }
  | .nameAddress => ∃ aliases name address, Dict.OneSet w.aliases aliases name address ∧
      next = { w with aliases := aliases }
  | .store => ∃ vars key value, Dict.OneSet w.vars vars key value ∧ next = { w with vars := vars }
  | .allowFailures => next = { w with allowFailures := true }
  | .send contract _ => ∃ method outcome, next =
      { w with lastInvocation := some ⟨contract, method, outcome⟩, allowFailures := false }
  | .deploy =>
    (∃ name cause, w.allowFailures = true ∧ next =
      { w with lastInvocation := some ⟨name, "deploy", .error cause⟩, allowFailures := false }) ∨
    ∃ contracts i receipt, receipt.contractAddress = some i.address ∧
      Dict.OneSet w.contracts.instances contracts.instances i.name i ∧ next =
        { w with
          contracts := contracts
          lastContract := some i.address
          lastInvocation := some ⟨i.name, "deploy", .ok receipt⟩
          allowFailures := false
          remembered := none }
  | .check _ => next = w
  | .actAs => False

section Effects

variable {w next : World} {answers : Answers σ} {s s' : σ}

theorem World.settle_error_allowed {target method : String} {cause : TransportError}
    (h : w.settle ⟨target, method, .error cause⟩ = .ok next) : w.allowFailures = true := by
  by_cases hflag : w.allowFailures = true
  · exact hflag
  · have hrefused : w.settle ⟨target, method, .error cause⟩ = .error (.transport cause) := by
      simp [World.settle, hflag]
    rw [hrefused] at h
    cases h

theorem World.deployed_changes {name artifact : String} {outcome : Except TransportError Receipt}
    (h : w.deployed name artifact outcome = .ok next) : Effect.deploy.Changes w next := by
  cases outcome with
  | error cause =>
    have hallowed : w.allowFailures = true := World.settle_error_allowed h
    exact .inl ⟨name, cause, hallowed, World.settle_ok h⟩
  | ok receipt =>
    cases haddress : receipt.contractAddress with
    | none =>
      simp [World.deployed, haddress] at h
    | some address =>
      simp only [World.deployed, haddress, Except.ok.injEq] at h
      subst h
      let i : ContractInstance := ⟨name, artifact, address, w.contracts.nextSequence⟩
      exact .inr ⟨_, i, receipt, haddress, Dict.oneSet_insert w.contracts.instances name i, rfl⟩

/-- A result in two parts is there when both parts are. -/
theorem Action.ofExcept_bind_ok {α β : Type} {r : Except Error α} {f : α → Except Error β} {b : β}
    (h : (Action.ofExcept (r >>= f)).run.run answers s = (.ok b, s')) :
    ∃ a, r = .ok a ∧ f a = .ok b := by
  have hresult : (r >>= f) = .ok b := congrArg Prod.fst h
  cases r with
  | error err => cases hresult
  | ok a => exact ⟨a, rfl, hresult⟩

/-- A command changes what its effect owns. -/
theorem Effect.run_changes {perform : Event → Address → Action World} {actor : Address}
    {args : BoundArgs} {effect : Effect} (hactor : effect ≠ .actAs)
    (h : (effect.run perform w actor args).run.run answers s = (.ok next, s')) :
    effect.Changes w next := by
  cases effect with
  | print =>
    obtain ⟨v, -, hnext⟩ := Action.ofExcept_bind_ok h
    cases hnext
    exact ⟨v.display, rfl⟩
  | read =>
    obtain ⟨expr, s₁, -, h⟩ := run_exceptBind_eq_ok.mp h
    obtain ⟨v, s₂, -, hnext⟩ := run_exceptBind_eq_ok.mp h
    cases hnext
    exact ⟨_, rfl⟩
  | nameAddress =>
    obtain ⟨name, -, hnext⟩ := Action.ofExcept_bind_ok h
    cases haddress : args.address "address" with
    | error err => simp [haddress, Bind.bind, Except.bind] at hnext
    | ok address =>
      rw [haddress] at hnext
      cases hnext
      exact ⟨_, name, address, Dict.oneSet_insert w.aliases name address, rfl⟩
  | store =>
    obtain ⟨v, -, hnext⟩ := Action.ofExcept_bind_ok h
    cases hkey : args.string "key" with
    | error err => simp [hkey, Bind.bind, Except.bind] at hnext
    | ok key =>
      rw [hkey] at hnext
      cases hnext
      exact ⟨_, key, v, Dict.oneSet_insert w.vars key v, rfl⟩
  | deploy =>
    obtain ⟨name, s₁, -, h⟩ := run_exceptBind_eq_ok.mp h
    obtain ⟨artifact, s₂, -, h⟩ := run_exceptBind_eq_ok.mp h
    obtain ⟨list, s₃, -, h⟩ := run_exceptBind_eq_ok.mp h
    exact World.deployed_changes (congrArg Prod.fst h)
  | allowFailures =>
    cases h
    rfl
  | actAs => exact absurd rfl hactor
  | inspect =>
    cases h
    exact ⟨w.summary, rfl⟩
  | check condition =>
    obtain ⟨-, -, hnext⟩ := Action.ofExcept_bind_ok h
    cases hnext
    rfl
  | send contract target =>
    obtain ⟨method, s₁, -, h⟩ := run_exceptBind_eq_ok.mp h
    obtain ⟨list, s₂, -, h⟩ := run_exceptBind_eq_ok.mp h
    exact ⟨method, _, World.settle_ok (congrArg Prod.fst h)⟩

end Effects

/-! ## The innermost command -/

namespace World

/-- The effect of the command selected for an event, in a run that starts in a state. -/
def commandAt (answers : Answers σ) (w : World) (e : Event) (s : σ) : Option Effect :=
  match (select (w.binder w.resolve) commandKind (Command.registry w.contracts) e).run.run
    answers s with
  | (.ok selection, _) => some selection.effect
  | (.error _, _) => none

/-- The effect of the command inside all changes of the actor, in a run that starts in a state. -/
def innermostCommand (answers : Answers σ) (w : World) (e : Event) (s : σ) : Option Effect :=
  match e with
  | .seq [.token text, whom, inner] =>
    if Text.sameLetters "From" text then
      match (w.read .address whom).run.run answers s with
      | (.ok (.address _), s') => innermostCommand answers w inner s'
      | _ => w.commandAt answers (.seq [.token text, whom, inner]) s
    else w.commandAt answers (.seq [.token text, whom, inner]) s
  | e => w.commandAt answers e s

section Innermost

variable {w : World} {answers : Answers σ} {s s' : σ} {e inner : Event} {other : Address}

theorem innermostCommand_from {text : String} {whom : Event}
    (htext : Text.sameLetters "From" text = true)
    (hwhom : (w.read .address whom).run.run answers s = (.ok (.address other), s')) :
    w.innermostCommand answers (.seq [.token text, whom, inner]) s =
      w.innermostCommand answers inner s' := by
  rw [innermostCommand, if_pos htext, hwhom]

theorem innermostCommand_of_select {selection : Selection Reading Effect}
    (hrun : (select (w.binder w.resolve) commandKind (Command.registry w.contracts) e).run.run
      answers s = (.ok selection, s'))
    (heffect : selection.effect ≠ .actAs) :
    w.innermostCommand answers e s = some selection.effect := by
  have hat : w.commandAt answers e s = some selection.effect := by
    rw [commandAt, hrun]
  unfold innermostCommand
  split
  · split
    · rename_i text whom inner htext
      split
      · rename_i other s₁ hwhom
        rw [Command.select_actAs htext hwhom] at hrun
        cases hrun
        exact absurd rfl heffect
      · exact hat
    · exact hat
  · exact hat

end Innermost

/-- A line changes what the command inside all changes of the actor may change. The induction is on
the size of the event, as in `World.perform`. -/
theorem perform_changes {w next : World} {answers : Answers σ} {s s' : σ} {e : Event}
    {actor : Address} (h : (w.perform e actor).run.run answers s = (.ok next, s')) :
    ∃ effect, w.innermostCommand answers e s = some effect ∧ effect.Changes w next := by
  rw [perform, performStep, carryOut] at h
  obtain ⟨selection, s₁, hselect, hrun⟩ := run_exceptBind_eq_ok.mp h
  by_cases heffect : selection.effect = .actAs
  · obtain ⟨text, whom, inner, other, rfl, htext, hwhom, hargs⟩ :=
      Command.actAs_selected hselect heffect
    have hsize : inner.size < (Event.seq [.token text, whom, inner]).size := by
      simp only [Event.size, Event.sizeList]
      omega
    rw [heffect, hargs, Command.run_actAs, if_pos hsize] at hrun
    rw [innermostCommand_from htext hwhom]
    exact perform_changes hrun
  · exact ⟨selection.effect, innermostCommand_of_select hselect heffect,
      Effect.run_changes heffect hrun⟩
termination_by e.size

end World

/-! ## What no line takes away -/

/-- What lines keep of a world: the accounts, the settings, the slots and the default actor as they
are, the output as the beginning of a longer one, and the keys of variables, aliases and contracts. -/
structure World.Persists (w next : World) : Prop where
  accounts : next.accounts = w.accounts
  settings : next.settings = w.settings
  slots : next.slots = w.slots
  defaultFrom : next.defaultFrom = w.defaultFrom
  output : w.output <+: next.output
  vars : ∀ key ∈ w.vars.keys, key ∈ next.vars.keys
  aliases : ∀ name ∈ w.aliases.keys, name ∈ next.aliases.keys
  contracts : ∀ name ∈ w.contracts.names, name ∈ next.contracts.names

namespace World.Persists

theorem refl (w : World) : w.Persists w :=
  ⟨rfl, rfl, rfl, rfl, List.prefix_rfl, fun _ h => h, fun _ h => h, fun _ h => h⟩

theorem trans {w next last : World} (h : w.Persists next) (h' : next.Persists last) :
    w.Persists last where
  accounts := h'.accounts.trans h.accounts
  settings := h'.settings.trans h.settings
  slots := h'.slots.trans h.slots
  defaultFrom := h'.defaultFrom.trans h.defaultFrom
  output := h.output.trans h'.output
  vars key hkey := h'.vars key (h.vars key hkey)
  aliases name hname := h'.aliases name (h.aliases name hname)
  contracts name hname := h'.contracts name (h.contracts name hname)

end World.Persists

namespace Effect.Changes

variable {w next : World} {effect : Effect}

/-- A command prints at most one line. -/
theorem output (h : effect.Changes w next) :
    next.output = w.output ∨ ∃ line, next.output = w.output ++ [line] := by
  cases effect with
  | print | read | inspect =>
    obtain ⟨line, rfl⟩ := h
    exact .inr ⟨line, rfl⟩
  | nameAddress | store =>
    obtain ⟨_, _, _, -, rfl⟩ := h
    exact .inl rfl
  | allowFailures =>
    have hnext : next = { w with allowFailures := true } := h
    exact .inl (by rw [hnext])
  | check condition =>
    have hnext : next = w := h
    exact .inl (by rw [hnext])
  | deploy =>
    obtain ⟨_, _, -, rfl⟩ | ⟨_, _, _, -, -, rfl⟩ := h
    · exact .inl rfl
    · exact .inl rfl
  | actAs => exact h.elim
  | send contract target =>
    obtain ⟨_, _, rfl⟩ := h
    exact .inl rfl

/-- No command takes away what lines keep. -/
theorem persists (h : effect.Changes w next) : w.Persists next := by
  have hoff : ∀ i flag, w.Persists { w with lastInvocation := i, allowFailures := flag } :=
    fun _ _ => ⟨rfl, rfl, rfl, rfl, List.prefix_rfl, fun _ h => h, fun _ h => h, fun _ h => h⟩
  cases effect with
  | print | read | inspect =>
    obtain ⟨line, rfl⟩ := h
    exact { World.Persists.refl w with output := List.prefix_append _ _ }
  | nameAddress =>
    obtain ⟨aliases, name, address, hset, rfl⟩ := h
    exact { World.Persists.refl w with aliases := fun _ hname => hset.mem_keys hname }
  | store =>
    obtain ⟨vars, key, value, hset, rfl⟩ := h
    exact { World.Persists.refl w with vars := fun _ hkey => hset.mem_keys hkey }
  | allowFailures => exact h ▸ hoff w.lastInvocation true
  | check condition => exact h ▸ .refl w
  | deploy =>
    obtain ⟨_, _, -, rfl⟩ | ⟨contracts, i, receipt, -, hset, rfl⟩ := h
    · exact hoff _ _
    · exact { hoff none false with contracts := fun _ hname => hset.mem_keys hname }
  | actAs => exact h.elim
  | send contract target =>
    obtain ⟨_, _, rfl⟩ := h
    exact hoff _ _

end Effect.Changes

end ChainScript
