import ChainScript.Proofs.Command.Course
import ChainScript.Proofs.Expr.Reading
import ChainScript.Proofs.Registry

/-! # Who acts

`(From whom inner)` performs `inner` as the account that `whom` stands for, and such events nest.
`World.innermostActor` peels them off an event and says whose account is reached in a run. The one
call of a line that is no read is made by that account. A contract may be named like the command:
it is tried only where the command cannot be bound, and then no actor changes.
-/

namespace ChainScript
set_option autoImplicit false

open Program Handler

variable {σ : Type}

/-! ## Changing the actor -/

namespace Command

def actAs : Command :=
  named "From" [.one "actor" .address, .one "event" .event] .actAs "Run a command as another account"

def actAsArgs (other : Address) (inner : Event) : BoundArgs :=
  ⟨[("actor", .address other), ("event", .event inner)]⟩

theorem run_actAs (perform : Event → Address → Action World) (w : World) (actor other : Address)
    (inner : Event) :
    Effect.run perform w actor (actAsArgs other inner) .actAs = perform inner other := rfl

theorem core_named_from (rest : List Event) :
    core.filter (fun h => h.signature.isNamedIn (.token "From" :: rest)) = [actAs] := rfl

theorem actAs_attempt_ok {w : World} {answers : Answers σ} {s s' : σ} {text : String}
    {rest : List Event} {selection : Selection Reading Effect} :
    (actAs.attempt (w.binder w.resolve) (.token text :: rest)).run.run answers s =
        (.ok selection, s') ↔
      ∃ whom inner other, rest = [whom, inner] ∧
        (w.read .address whom).run.run answers s = (.ok (.address other), s') ∧
        selection = ⟨actAs.signature, .actAs, actAsArgs other inner⟩ := by
  have hparams : ∀ args, ((w.binder w.resolve).params actAs.signature.params {} rest).run.run
      answers s = (.ok (args, []), s') ↔ ∃ whom inner other, rest = [whom, inner] ∧
        (w.read .address whom).run.run answers s = (.ok (.address other), s') ∧
        args = actAsArgs other inner := by
    intro args
    constructor
    · intro h
      obtain ⟨whom, rest₁, v, s₁, rfl, hwhom, h⟩ := Binder.params_one.mp h
      obtain ⟨inner, rest₂, u, s₂, rfl, hinner, h⟩ := Binder.params_one.mp h
      obtain ⟨h, rfl⟩ := Binder.params_nil.mp h
      obtain ⟨other, rfl⟩ := World.read_address hwhom
      cases hinner
      cases h
      exact ⟨whom, inner, other, rfl, hwhom, rfl⟩
    · rintro ⟨whom, inner, other, rfl, hwhom, rfl⟩
      refine Binder.params_one.mpr ⟨whom, [inner], .address other, s', rfl, hwhom, ?_⟩
      refine Binder.params_one.mpr ⟨inner, [], .event inner, s', rfl, rfl, ?_⟩
      exact Binder.params_nil.mpr ⟨rfl, rfl⟩
  refine attempt_leaf_ok.trans ?_
  constructor
  · rintro ⟨args, hp, rfl⟩
    obtain ⟨whom, inner, other, hrest, hwhom, rfl⟩ := (hparams args).mp hp
    exact ⟨whom, inner, other, hrest, hwhom, rfl⟩
  · rintro ⟨whom, inner, other, hrest, hwhom, rfl⟩
    exact ⟨actAsArgs other inner, (hparams _).mpr ⟨whom, inner, other, hrest, hwhom, rfl⟩, rfl⟩

theorem core_split : core = core.take 6 ++ actAs :: core.drop 7 := rfl

/-- Of the core, only the command that changes the actor has that effect. -/
theorem eq_actAs_of_effect {h : Command} (hh : h ∈ core) (he : Effect.actAs ∈ h.effects) :
    h = actAs := by
  have hbefore : Effect.actAs ∉ effectsOf (core.take 6) := by
    simp [core, effectsOf, effects, named]
  have hafter : Effect.actAs ∉ effectsOf (core.drop 7) := by
    simp [core, effectsOf, effects, named, namespaced, assertions, check]
  rw [core_split] at hh
  exact eq_of_effect hbefore hafter hh he

section Selected

variable {w : World} {answers : Answers σ} {s s' : σ} {e : Event}
  {selection : Selection Reading Effect}

/-- A change of actor is selected only for an event of its form whose account can be had. -/
theorem actAs_selected
    (hrun : (select (w.binder w.resolve) World.commandKind (registry w.contracts) e).run.run
      answers s = (.ok selection, s'))
    (heffect : selection.effect = .actAs) :
    ∃ text whom inner other, e = .seq [.token text, whom, inner] ∧
      Text.sameLetters "From" text = true ∧
      (w.read .address whom).run.run answers s = (.ok (.address other), s') ∧
      selection.args = actAsArgs other inner := by
  have hcontract : ∀ h ∈ contractCandidates ofContract w.contracts e.elements, ∀ s₀,
      (h.attempt (w.binder w.resolve) e.elements).run.run answers s₀ ≠ (.ok selection, s') := by
    intro h hh s₀ hbound
    obtain ⟨i, -, rfl⟩ := mem_contractCandidates hh
    have hmem := attempt_effect _ hbound
    rw [effects_ofContract, heffect] at hmem
    simp at hmem
  by_cases hnamed : actAs.signature.isNamedIn e.elements = true
  · obtain ⟨text, rest, helements, htext⟩ := (Signature.isNamedIn_front rfl rfl).mp hnamed
    have hc := candidates_registry w.contracts e.elements
    rw [helements, filter_named_congr htext, core_named_from, ← helements,
      List.singleton_append] at hc
    rcases select_ok_cons hc hrun with hbound | ⟨h, hh, s₀, hbound⟩
    · rw [helements] at hbound
      obtain ⟨whom, inner, other, rfl, hwhom, rfl⟩ := actAs_attempt_ok.mp hbound
      refine ⟨text, whom, inner, other, ?_, htext, hwhom, rfl⟩
      cases e with
      | token t => simp [Event.elements] at helements
      | seq items => exact congrArg Event.seq helements
    · exact absurd hbound (hcontract h hh s₀)
  · obtain ⟨h, hh, s₀, hbound⟩ := select_ok hrun
    rw [candidates_registry, List.mem_append] at hh
    rcases hh with hh | hh
    · obtain ⟨hcore, hn⟩ := List.mem_filter.mp hh
      have hmem := attempt_effect _ hbound
      rw [heffect] at hmem
      rw [eq_actAs_of_effect hcore hmem] at hn
      exact absurd hn hnamed
    · exact absurd hbound (hcontract h hh s₀)

theorem select_actAs {text : String} {whom inner : Event} {other : Address}
    (htext : Text.sameLetters "From" text = true)
    (hwhom : (w.read .address whom).run.run answers s = (.ok (.address other), s')) :
    (select (w.binder w.resolve) World.commandKind (registry w.contracts)
      (.seq [.token text, whom, inner])).run.run answers s =
        (.ok ⟨actAs.signature, .actAs, actAsArgs other inner⟩, s') := by
  have hc := candidates_registry w.contracts [.token text, whom, inner]
  rw [filter_named_congr htext, core_named_from, List.singleton_append] at hc
  refine select_first (h := actAs) hc ?_
  exact actAs_attempt_ok.mpr ⟨whom, inner, other, rfl, hwhom, rfl⟩

end Selected

end Command

/-! ## The innermost actor -/

namespace World

/-- The account for which an event is performed in a run that starts in a state: the account of the
innermost change of actor around it, or else the actor given. -/
def innermostActor (answers : Answers σ) (w : World) (e : Event) (actor : Address) (s : σ) :
    Address :=
  match e with
  | .seq [.token text, whom, inner] =>
    if Text.sameLetters "From" text then
      match (w.read .address whom).run.run answers s with
      | (.ok (.address other), s') => innermostActor answers w inner other s'
      | _ => actor
    else actor
  | _ => actor

section Actor

variable {w : World} {answers : Answers σ} {s s' : σ} {e inner : Event} {actor other : Address}

theorem innermostActor_from {text : String} {whom : Event}
    (htext : Text.sameLetters "From" text = true)
    (hwhom : (w.read .address whom).run.run answers s = (.ok (.address other), s')) :
    w.innermostActor answers (.seq [.token text, whom, inner]) actor s =
      w.innermostActor answers inner other s' := by
  rw [innermostActor, if_pos htext, hwhom]

example :
    let bob := Address.ofFn fun _ => 7
    (World.ofToken.withAlias "Bob" bob).innermostActor reverting
      (.seq [.token "From", .token "Token", .seq [.token "from", .seq [.token "Address",
        .token "Bob"], .seq [.token "Token", .token "mint"]]]) Address.zero () = bob := by
  with_unfolding_all rfl

theorem innermostActor_of_select {selection : Selection Reading Effect}
    (hrun : (select (w.binder w.resolve) commandKind (Command.registry w.contracts) e).run.run
      answers s = (.ok selection, s'))
    (heffect : selection.effect ≠ .actAs) : w.innermostActor answers e actor s = actor := by
  unfold innermostActor
  split
  · split
    · rename_i text whom inner htext
      split
      · rename_i other s₁ hwhom
        rw [Command.select_actAs htext hwhom] at hrun
        cases hrun
        exact absurd rfl heffect
      · rfl
    · rfl
  · rfl

end Actor

/-- The calls of a line are reads, followed by at most one transaction or deployment. It is made by
the innermost actor of the event, and nothing is asked after it. -/
theorem perform_actsLast (answers : Answers σ) (s : σ) (w : World) (e : Event) (actor : Address) :
    ActsLast (w.innermostActor answers e actor s) ((w.perform e actor).run.exchanges answers s) := by
  have hselect := (w.command_select_inquires e).reads answers s
  rw [perform, performStep, carryOut, exchanges_exceptBind]
  rcases hrun : (select (w.binder w.resolve) commandKind (Command.registry w.contracts) e).run.run
    answers s with ⟨err | selection, s₁⟩
  · exact ActsLast.append hselect (.of_reads (by simp))
  · refine ActsLast.append hselect ?_
    dsimp only
    by_cases heffect : selection.effect = .actAs
    · obtain ⟨text, whom, inner, other, rfl, htext, hwhom, hargs⟩ :=
        Command.actAs_selected hrun heffect
      have hsize : inner.size < (Event.seq [.token text, whom, inner]).size := by
        simp only [Event.size, Event.sizeList]
        omega
      rw [innermostActor_from htext hwhom, heffect, hargs, Command.run_actAs, if_pos hsize]
      exact perform_actsLast answers s₁ w inner other
    · rw [innermostActor_of_select hrun heffect]
      refine Course.actsLast (w := w) ?_ answers s₁
      exact Effect.run_course w actor selection.args selection.effect (fun _ h => h)
        fun h => absurd h heffect
termination_by e.size

end World

end ChainScript
