import ChainScript.Proofs.Command.Actor

/-! # How a line finishes

A line makes reads and then finishes in one of five ways: it fails, it allows the next failure, it
changes the world in some other way without a call, it sends a transaction to a known contract, or it
makes a deployment. Which lines allow a failure can be told from the event inside all changes of the
actor.

* `Program.LeadsTo`: a run makes reads and goes on as another program.
* `World.innermostEvent`: the event inside all changes of the actor.
* `Finish`, `World.perform_finishes`: how lines finish, and that every line does.
-/

namespace ChainScript
set_option autoImplicit false

open Program Handler

variable {σ : Type}

/-! ## Going on behind reads -/

namespace Program

variable {α β : Type}

/-- A run of `p` makes reads and then goes on as `q` does from another state. Where reads leave the
state as it is, the two states are the same. -/
structure LeadsTo (answers : Answers σ) (p : Program α) (s : σ) (q : Program α) (s' : σ) : Prop where
  reads : ∃ reads, (∀ x ∈ reads, x.call.actor? = none) ∧
    p.exchanges answers s = reads ++ q.exchanges answers s'
  run : p.run answers s = q.run answers s'
  keeps : ReadsKeep answers → s' = s

namespace LeadsTo

variable {answers : Answers σ} {p q r : Program α} {s s₁ s₂ : σ}

theorem refl (answers : Answers σ) (p : Program α) (s : σ) : LeadsTo answers p s p s :=
  ⟨⟨[], by simp, rfl⟩, rfl, fun _ => rfl⟩

theorem trans (h : LeadsTo answers p s q s₁) (h' : LeadsTo answers q s₁ r s₂) :
    LeadsTo answers p s r s₂ := by
  obtain ⟨first, hfirst, hp⟩ := h.reads
  obtain ⟨second, hsecond, hq⟩ := h'.reads
  refine ⟨⟨first ++ second, ?_, ?_⟩, h.run.trans h'.run, fun hk => ?_⟩
  · intro x hx
    rcases List.mem_append.mp hx with hx | hx
    · exact hfirst x hx
    · exact hsecond x hx
  · rw [hp, hq, List.append_assoc]
  · exact (h'.keeps hk).trans (h.keeps hk)

end LeadsTo

end Program

/-- A query leads to what is done with its value, or ends with its error. -/
theorem Inquires.leadsTo {α β ω : Type} {error : TransportError → ω} {answers : Answers σ}
    {x : ExceptT ω Program α} {f : α → ExceptT ω Program β} {s s₁ : σ} {r : Except ω α}
    (hx : Inquires error x) :
    x.run.run answers s = (r, s₁) → LeadsTo answers (x >>= f).run s
      (match r with
        | .ok a => (f a).run
        | .error e => .done (.error e)) s₁ := by
  intro hrun
  refine ⟨⟨x.run.exchanges answers s, hx.reads answers s, ?_⟩, ?_, fun hk => ?_⟩
  · rw [exchanges_exceptBind, hrun]
    cases r <;> rfl
  · rw [run_exceptBind, hrun]
    cases r <;> rfl
  · exact ((hx.run_iff hk).mp hrun).2

/-! ## Allowing a failure -/

/-- The event of the command that allows the next failure. -/
def Event.allowsFailures (e : Event) : Bool :=
  match e.elements with
  | [.token text] => Text.sameLetters "AllowFailures" text
  | _ => false

theorem Event.allowsFailures_iff {e : Event} :
    e.allowsFailures = true ↔
      ∃ text, e.elements = [.token text] ∧ Text.sameLetters "AllowFailures" text = true := by
  unfold allowsFailures
  constructor
  · intro h
    split at h
    · rename_i text helements
      exact ⟨text, helements, h⟩
    · cases h
  · rintro ⟨text, helements, htext⟩
    rw [helements]
    exact htext

namespace Command

def allowFailures : Command :=
  named "AllowFailures" [] .allowFailures "Let the next invocation fail without halting"

theorem core_named_allowFailures :
    core.filter (fun h => h.signature.isNamedIn [.token "AllowFailures"]) = [allowFailures] := rfl

theorem eq_allowFailures_of_effect {contracts : ContractIndex} {h : Command}
    (hh : h ∈ registry contracts) (he : Effect.allowFailures ∈ h.effects) : h = allowFailures := by
  have hcore : core = core.take 5 ++ allowFailures :: core.drop 6 := rfl
  have hbefore : Effect.allowFailures ∉ effectsOf (core.take 5) := by
    simp [core, effectsOf, effects, named]
  have hafter : Effect.allowFailures ∉ effectsOf (core.drop 6) := by
    simp [core, effectsOf, effects, named, namespaced, assertions, check]
  rw [registry_eq, List.mem_append] at hh
  rcases hh with hh | hh
  · rw [hcore] at hh
    exact eq_of_effect hbefore hafter hh he
  · obtain ⟨i, -, rfl⟩ := List.mem_map.mp hh
    simp at he

/-- Transactions are sent to known contracts. -/
theorem known_of_send {contracts : ContractIndex} {h : Command} {name : String} {target : Address}
    (hh : h ∈ registry contracts) (he : Effect.send name target ∈ h.effects) :
    ∃ i ∈ contracts.known, name = i.name ∧ target = i.address := by
  have hcore : Effect.send name target ∉ effectsOf core := by
    simp [core, effectsOf, effects, named, namespaced, assertions, check]
  rw [registry_eq, List.mem_append] at hh
  rcases hh with hh | hh
  · exact absurd (effects_subset hh he) hcore
  · obtain ⟨i, hi, rfl⟩ := List.mem_map.mp hh
    rw [effects_ofContract, List.mem_singleton] at he
    cases he
    exact ⟨i, hi, rfl, rfl⟩

section Selected

variable {w : World} {answers : Answers σ} {s s' : σ} {e : Event}
  {selection : Selection Reading Effect}

theorem select_allowFailures (h : e.allowsFailures = true) :
    (select (w.binder w.resolve) World.commandKind (registry w.contracts) e).run.run answers s =
      (.ok ⟨allowFailures.signature, .allowFailures, {}⟩, s) := by
  obtain ⟨text, helements, htext⟩ := Event.allowsFailures_iff.mp h
  have hc := candidates_registry w.contracts [.token text]
  rw [filter_named_congr htext, core_named_allowFailures, List.singleton_append,
    ← helements] at hc
  refine select_first hc ?_
  rw [helements]
  exact attempt_leaf_ok.mpr ⟨{}, Binder.params_nil.mpr ⟨rfl, rfl⟩, rfl⟩

theorem allowsFailures_selected
    (hrun : (select (w.binder w.resolve) World.commandKind (registry w.contracts) e).run.run
      answers s = (.ok selection, s')) :
    e.allowsFailures = true ↔ selection.effect = .allowFailures := by
  constructor
  · intro h
    rw [select_allowFailures h] at hrun
    cases hrun
    rfl
  · intro heffect
    obtain ⟨text, rest, s₀, helements, htext, hbound⟩ := bound_of_effect
      (fun _ => eq_allowFailures_of_effect) (k := allowFailures) rfl rfl hrun heffect
    obtain ⟨args, hp, -⟩ := attempt_leaf_ok.mp hbound
    obtain ⟨hp, -⟩ := Binder.params_nil.mp hp
    obtain rfl : rest = [] := (congrArg Prod.snd hp).symm
    exact Event.allowsFailures_iff.mpr ⟨text, helements, htext⟩

theorem known_of_send_selected {name : String} {target : Address}
    (hrun : (select (w.binder w.resolve) World.commandKind (registry w.contracts) e).run.run
      answers s = (.ok selection, s')) (heffect : selection.effect = .send name target) :
    ∃ i ∈ w.contracts.known, name = i.name ∧ target = i.address := by
  obtain ⟨h, hh, s₀, hbound⟩ := select_ok hrun
  refine known_of_send (mem_of_mem_candidates hh) ?_
  rw [← heffect]
  exact attempt_effect h hbound

end Selected

end Command

/-! ## The innermost event -/

namespace World

/-- The event inside all changes of the actor, in a run that starts in a state. -/
def innermostEvent (answers : Answers σ) (w : World) (e : Event) (s : σ) : Event :=
  match e with
  | .seq [.token text, whom, inner] =>
    if Text.sameLetters "From" text then
      match (w.read .address whom).run.run answers s with
      | (.ok (.address _), s') => innermostEvent answers w inner s'
      | _ => .seq [.token text, whom, inner]
    else .seq [.token text, whom, inner]
  | e => e

section Innermost

variable {w : World} {answers : Answers σ} {s s' : σ} {e inner : Event} {other : Address}

theorem innermostEvent_from {text : String} {whom : Event}
    (htext : Text.sameLetters "From" text = true)
    (hwhom : (w.read .address whom).run.run answers s = (.ok (.address other), s')) :
    w.innermostEvent answers (.seq [.token text, whom, inner]) s =
      w.innermostEvent answers inner s' := by
  rw [innermostEvent, if_pos htext, hwhom]

theorem innermostEvent_of_select {selection : Selection Reading Effect}
    (hrun : (select (w.binder w.resolve) commandKind (Command.registry w.contracts) e).run.run
      answers s = (.ok selection, s'))
    (heffect : selection.effect ≠ .actAs) : w.innermostEvent answers e s = e := by
  unfold innermostEvent
  split
  · split
    · rename_i text whom inner htext
      split
      · rename_i other s₁ hwhom
        rw [Command.select_actAs htext hwhom] at hrun
        cases hrun
        exact absurd rfl heffect
      · rfl
    · rfl
  · rfl

end Innermost

end World

/-! ## Finishes -/

/-- A change of a world that leaves the contracts, the last invocation and the allowance alone. -/
inductive Quiet (w : World) : World → Prop where
  | same : Quiet w w
  | printed (line : String) : Quiet w (w.withOutput line)
  | named (name : String) (address : Address) : Quiet w (w.withAlias name address)
  | stored (key : String) (value : Value) : Quiet w (w.withVar key value)

namespace Quiet

variable {w next : World}

theorem contracts_eq (h : Quiet w next) : next.contracts = w.contracts := by
  cases h <;> rfl

theorem lastInvocation_eq (h : Quiet w next) : next.lastInvocation = w.lastInvocation := by
  cases h <;> rfl

theorem allowFailures_eq (h : Quiet w next) : next.allowFailures = w.allowFailures := by
  cases h <;> rfl

end Quiet

/-- How a line finishes once its reads are made; `allows` tells whether it allows a failure. -/
inductive Finish (w : World) (allows : Bool) : Program (Except Error World) → Prop where
  | failed (err : Error) : Finish w allows (.done (.error err))
  | allowed (h : allows = true) : Finish w allows (.done (.ok (w.withAllowFailures true)))
  | quiet {next : World} (h : allows = false) (change : Quiet w next) :
      Finish w allows (.done (.ok next))
  | send {i : ContractInstance} (h : allows = false) (known : i ∈ w.contracts.known)
      (actor : Address) (method : String) (args : List Value) :
      Finish w allows (sendTransaction w actor i.name i.address method args).run
  | deploy (h : allows = false) (actor : Address) (name artifact : String) (args : List Value) :
      Finish w allows (deployContract w actor name artifact args).run

/-- An action makes reads and then finishes. -/
def Finishes (answers : Answers σ) (w : World) (allows : Bool) (x : Action World) (s : σ) : Prop :=
  ∃ q s', LeadsTo answers x.run s q s' ∧ Finish w allows q

namespace Finishes

variable {answers : Answers σ} {w : World} {allows : Bool} {s : σ}

theorem at_once {x : Action World} (h : Finish w allows x.run) : Finishes answers w allows x s :=
  ⟨x.run, s, .refl answers x.run s, h⟩

theorem bind {α : Type} {x : Action α} {f : α → Action World} (hx : Inquires Error.transport x)
    (hf : ∀ a s', x.run.run answers s = (.ok a, s') → Finishes answers w allows (f a) s') :
    Finishes answers w allows (x >>= f) s := by
  rcases hrun : x.run.run answers s with ⟨err | a, s₁⟩
  · exact ⟨_, s₁, hx.leadsTo hrun, .failed err⟩
  · obtain ⟨q, s', hq, hfinish⟩ := hf a s₁ hrun
    exact ⟨q, s', (hx.leadsTo hrun).trans hq, hfinish⟩

theorem after {α : Type} {r : Except Error α} {f : α → Action World}
    (hf : ∀ a, Finishes answers w allows (f a) s) :
    Finishes answers w allows (Action.ofExcept r >>= f) s := by
  refine bind (.ofExcept r) fun a s' hrun => ?_
  cases hrun
  exact hf a

theorem ofExcept {α : Type} (h : allows = false) (r : Except Error α) {f : α → Except Error World}
    (hf : ∀ a next, f a = .ok next → Quiet w next) :
    Finishes answers w allows (Action.ofExcept (r >>= f)) s := by
  refine at_once ?_
  cases r with
  | error err => exact .failed err
  | ok a =>
    change Finish w allows (.done (f a))
    cases hnext : f a with
    | error err => exact .failed err
    | ok next => exact .quiet h (hf a next hnext)

end Finishes

/-- Every effect but the change of the actor finishes the line. -/
theorem Effect.run_finishes {perform : Event → Address → Action World} (answers : Answers σ)
    (s : σ) (w : World) (actor : Address) (args : BoundArgs) {effect : Effect} {allows : Bool}
    (hactor : effect ≠ .actAs) (hallows : allows = true ↔ effect = .allowFailures)
    (hsend : ∀ name target, effect = .send name target →
      ∃ i ∈ w.contracts.known, name = i.name ∧ target = i.address) :
    Finishes answers w allows (effect.run perform w actor args) s := by
  have hother : effect ≠ .allowFailures → allows = false := fun h =>
    Bool.eq_false_iff.mpr fun h' => h (hallows.mp h')
  cases effect with
  | print =>
    refine .ofExcept (hother nofun) _ fun v next h => ?_
    cases h
    exact .printed _
  | read =>
    refine .after fun expr => ?_
    refine .bind (w.resolve_inquires expr) fun v s' _ => ?_
    exact .at_once (.quiet (hother nofun) (.printed _))
  | nameAddress =>
    refine .ofExcept (hother nofun) _ fun name next h => ?_
    cases haddress : args.address "address" with
    | error err =>
      rw [haddress] at h
      cases h
    | ok address =>
      rw [haddress] at h
      cases h
      exact .named name address
  | store =>
    refine .ofExcept (hother nofun) _ fun v next h => ?_
    cases hkey : args.string "key" with
    | error err =>
      rw [hkey] at h
      cases h
    | ok key =>
      rw [hkey] at h
      cases h
      exact .stored key v
  | deploy =>
    refine .after fun name => .after fun artifact => .after fun list => ?_
    exact .at_once (.deploy (hother nofun) actor name _ list)
  | allowFailures => exact .at_once (.allowed (hallows.mpr rfl))
  | actAs => exact absurd rfl hactor
  | inspect => exact .at_once (.quiet (hother nofun) (.printed _))
  | check condition =>
    refine .ofExcept (hother nofun) _ fun _ next h => ?_
    cases h
    exact .same
  | send name target =>
    obtain ⟨i, hi, rfl, rfl⟩ := hsend name target rfl
    refine .after fun method => .after fun list => ?_
    exact .at_once (.send (hother nofun) hi actor method list)

/-- Every line makes reads and then finishes. The induction is on the size of the event, as in
`World.perform`. -/
theorem World.perform_finishes (answers : Answers σ) (s : σ) (w : World) (e : Event)
    (actor : Address) :
    Finishes answers w (w.innermostEvent answers e s).allowsFailures (w.perform e actor) s := by
  rw [perform, performStep, carryOut]
  refine .bind (w.command_select_inquires e) fun selection s₁ hrun => ?_
  by_cases heffect : selection.effect = .actAs
  · obtain ⟨text, whom, inner, other, rfl, htext, hwhom, hargs⟩ :=
      Command.actAs_selected hrun heffect
    have hsize : inner.size < (Event.seq [.token text, whom, inner]).size := by
      simp only [Event.size, Event.sizeList]
      omega
    rw [innermostEvent_from htext hwhom, heffect, hargs, Command.run_actAs, if_pos hsize]
    exact perform_finishes answers s₁ w inner other
  · rw [innermostEvent_of_select hrun heffect]
    exact Effect.run_finishes answers s₁ w actor selection.args heffect
      (Command.allowsFailures_selected hrun)
      fun name target => Command.known_of_send_selected hrun
termination_by e.size

end ChainScript
