import ChainScript.Proofs.Command.Actor
import ChainScript.Proofs.Expr.Recursion

/-! # Resolving and performing end

Resolving an event and performing it come back to themselves. A level of both takes as given how the
tasks inside an event are done; nothing in it asks whether those are smaller. Here is shown that they
always are: a level looks only at tasks for the parts of its event, so the two recursions end without
a guard, and the guard that `World.resolve` and `World.perform` carry is never met.

* `Tasks`, `World.level`: one level of resolving and performing, over any way to do the tasks inside.
* `World.ComesBack`: a task for which a level comes back.
* `World.unrolled_same`: levels on top of each other do what the world does.
-/

namespace ChainScript
set_option autoImplicit false

open Program Handler

/-! ## One level of performing -/

/-- The world after a command, where expressions are resolved by `resolve` and commands of another
actor are performed by `perform`. -/
def Effect.runWith (resolve : Event → Action Value) (perform : Event → Address → Action World)
    (w : World) (actor : Address) (args : BoundArgs) : Effect → Action World
  | .read => do
    let expr ← Action.ofExcept (args.event "expr")
    let v ← resolve expr
    return w.withOutput (expr.display ++ " => " ++ v.display)
  | effect => effect.run perform w actor args

theorem Effect.runWith_resolve (perform : Event → Address → Action World) (w : World)
    (actor : Address) (args : BoundArgs) (effect : Effect) :
    effect.runWith w.resolve perform w actor args = effect.run perform w actor args := by
  cases effect <;> rfl

namespace World

/-- One level of performing, over any way to resolve expressions and to perform commands. -/
def performWith (w : World) (resolve : Event → Action Value)
    (perform : Event → Address → Action World) (e : Event) (actor : Address) : Action World :=
  carryOut (w.binder resolve) (fun effect args => effect.runWith resolve perform w actor args)
    commandKind (Command.registry w.contracts) e

theorem performWith_resolve (w : World) (perform : Event → Address → Action World) (e : Event)
    (actor : Address) : w.performWith w.resolve perform e actor = w.performStep perform e actor := by
  simp only [performWith, performStep, Effect.runWith_resolve]

end World

/-! ## Commands that come back -/

namespace Command

theorem core_oneByOne : ∀ p ∈ parametersOf core, p.variadic = true → p.mapped = true := by
  decide

theorem ofContract_oneByOne (i : ContractInstance) :
    ∀ p ∈ (ofContract i).parameters, p.variadic = true → p.mapped = true := by
  have hparameters : (ofContract i).parameters =
      [.one "method" .string, .each "args" .core] := rfl
  rw [hparameters]
  simp [Param.one, Param.each]

/-- The command that resolves an expression and prints its value. -/
def readOut : Command :=
  named "Read" [.one "expr" .event] .read "Resolve an expression and print its value"

theorem core_split_readOut : core = core.take 1 ++ readOut :: core.drop 2 := rfl

theorem eq_readOut_of_effect {contracts : ContractIndex} {h : Command}
    (hh : h ∈ registry contracts) (he : Effect.read ∈ h.effects) : h = readOut := by
  rw [registry_eq] at hh
  rcases List.mem_append.mp hh with hh | hh
  · rw [core_split_readOut] at hh
    refine eq_of_effect ?_ ?_ hh he
    · simp [core, effectsOf, effects, named]
    · simp [core, effectsOf, effects, named, namespaced, assertions, check]
  · obtain ⟨i, -, rfl⟩ := List.mem_map.mp hh
    simp at he

theorem eq_actAs_of_mem_registry {contracts : ContractIndex} {h : Command}
    (hh : h ∈ registry contracts) (he : Effect.actAs ∈ h.effects) : h = actAs := by
  rw [registry_eq] at hh
  rcases List.mem_append.mp hh with hh | hh
  · exact eq_actAs_of_effect hh he
  · obtain ⟨i, -, rfl⟩ := List.mem_map.mp hh
    simp at he

section Bound

variable {σ : Type} {w : World} {f : Event → Action Value} {answers : Answers σ} {s s' : σ}
  {text : String} {rest : List Event} {selection : Selection Reading Effect}

theorem readOut_bound (h : (readOut.attempt (w.binder f) (.token text :: rest)).run.run answers s =
      (.ok selection, s')) :
    ∃ x, rest = [x] ∧ selection = ⟨readOut.signature, .read, ⟨[("expr", .event x)]⟩⟩ := by
  obtain ⟨args, hp, rfl⟩ := attempt_leaf_ok.mp h
  obtain ⟨x, rest₁, v, s₁, hrest, hx, hp⟩ := Binder.params_one.mp hp
  obtain ⟨hp, rfl⟩ := Binder.params_nil.mp hp
  cases hx
  cases hp
  exact ⟨x, hrest, rfl⟩

theorem actAs_bound (h : (actAs.attempt (w.binder f) (.token text :: rest)).run.run answers s =
      (.ok selection, s')) :
    ∃ whom inner v, rest = [whom, inner] ∧
      selection = ⟨actAs.signature, .actAs, ⟨[("actor", v), ("event", .event inner)]⟩⟩ := by
  obtain ⟨args, hp, rfl⟩ := attempt_leaf_ok.mp h
  obtain ⟨whom, rest₁, v, s₁, hrest, -, hp⟩ := Binder.params_one.mp hp
  obtain ⟨inner, rest₂, u, s₂, rfl, hinner, hp⟩ := Binder.params_one.mp hp
  obtain ⟨hp, rfl⟩ := Binder.params_nil.mp hp
  cases hinner
  cases hp
  exact ⟨whom, inner, v, hrest, rfl⟩

end Bound

end Command

/-! ## Locality -/

namespace World

variable {w : World} {e : Event} {f g : Event → Action Value}

theorem command_select_congr (hfg : ∀ x ∈ e.parts, f x = g x) :
    select (w.binder f) commandKind (Command.registry w.contracts) e =
      select (w.binder g) commandKind (Command.registry w.contracts) e := by
  refine select_congr (fun h hh => ?_) _
  rw [Command.candidates_registry] at hh
  rcases List.mem_append.mp hh with hh | hh
  · obtain ⟨hcore, hnamed⟩ := List.mem_filter.mp hh
    exact attempt_named_congr (fun p hp => Command.core_oneByOne p (parameters_subset hcore hp))
      hnamed hfg
  · obtain ⟨i, -, rfl⟩ := mem_contractCandidates hh
    exact attempt_named_congr (Command.ofContract_oneByOne i) (List.mem_filter.mp hh).2 hfg

/-- What one level of performing does depends on how the parts of the event are resolved and
performed. -/
theorem performWith_congr {p q : Event → Address → Action World}
    (hfg : ∀ x ∈ e.parts, f x = g x) (hpq : ∀ x ∈ e.parts, ∀ other, p x other = q x other)
    (actor : Address) : w.performWith f p e actor = w.performWith g q e actor := by
  rw [performWith, performWith, carryOut, carryOut, command_select_congr hfg]
  refine exceptBind_congr_of_run fun σ answers s s' selection hrun => ?_
  cases heffect : selection.effect with
  | read =>
    obtain ⟨text, rest, s₀, helements, -, hbound⟩ :=
      bound_of_effect (fun h => Command.eq_readOut_of_effect) rfl rfl hrun heffect
    obtain ⟨x, rfl, rfl⟩ := Command.readOut_bound hbound
    have hx : f x = g x := hfg x (Event.mem_parts_of_elements helements (by simp))
    change (f x >>= fun v => pure (w.withOutput _)) = g x >>= fun v => pure (w.withOutput _)
    rw [hx]
  | actAs =>
    obtain ⟨text, rest, s₀, helements, -, hbound⟩ :=
      bound_of_effect (fun h => Command.eq_actAs_of_mem_registry) rfl rfl hrun heffect
    obtain ⟨whom, inner, v, rfl, rfl⟩ := Command.actAs_bound hbound
    have hinner : ∀ other, p inner other = q inner other :=
      hpq inner (Event.mem_parts_of_elements helements (by simp))
    let args : BoundArgs := ⟨[("actor", v), ("event", .event inner)]⟩
    change (Action.ofExcept (args.address "actor") >>= fun other => p inner other) =
      Action.ofExcept (args.address "actor") >>= fun other => q inner other
    simp only [hinner]
  | _ => rfl

end World

/-! ## Levels -/

/-- Something to be done: an event to be resolved, or to be performed by an actor. -/
inductive Task where
  | value (e : Event)
  | line (e : Event) (actor : Address)

def Task.event : Task → Event
  | .value e => e
  | .line e _ => e

structure Tasks where
  value : Event → Action Value
  line : Event → Address → Action World

def Tasks.Same (t u : Tasks) : Task → Prop
  | .value e => t.value e = u.value e
  | .line e actor => t.line e actor = u.line e actor

namespace World

/-- One level of doing tasks, over any way to do those that come up inside. -/
def level (w : World) (inside : Tasks) : Tasks where
  value := w.resolveStep inside.value
  line := w.performWith inside.value inside.line

def tasks (w : World) : Tasks := ⟨w.resolve, w.perform⟩

/-- A level comes back for a task when changing how this one task is done can change what the level
does. To do a task may be to ask the chain, so coming back for it shows even where its result is
dropped. -/
def ComesBack (w : World) (outer inner : Task) : Prop :=
  ∃ t u : Tasks, (∀ task, task ≠ inner → t.Same u task) ∧ ¬ (w.level t).Same (w.level u) outer

/-- Levels on top of each other, with any way to do tasks at the bottom. -/
def unrolled (w : World) (bottom : Tasks) : Nat → Tasks
  | 0 => bottom
  | n + 1 => w.level (w.unrolled bottom n)

section Levels

variable {w : World}
  (hregistry : w.registry = Fetcher.core ++ w.contracts.known.map Fetcher.ofContract)
include hregistry

theorem level_same {t u : Tasks} {task : Task}
    (h : ∀ inner, inner.event ∈ task.event.parts → t.Same u inner) :
    (w.level t).Same (w.level u) task := by
  have hvalue : ∀ x ∈ task.event.parts, t.value x = u.value x := fun x hx => h (.value x) hx
  have hline : ∀ x ∈ task.event.parts, ∀ other, t.line x other = u.line x other :=
    fun x hx other => h (.line x other) hx
  cases task with
  | value e => exact resolveStep_congr hregistry hvalue
  | line e actor => exact performWith_congr hvalue hline actor

theorem ComesBack.mem_parts {outer inner : Task} (h : w.ComesBack outer inner) :
    inner.event ∈ outer.event.parts := by
  obtain ⟨t, u, hsame, hdiffer⟩ := h
  refine Classical.byContradiction fun hnot => hdiffer ?_
  refine level_same hregistry fun task htask => hsame task ?_
  rintro rfl
  exact hnot htask

/-- A level over a way that does smaller tasks as the world does them does what the world does. -/
theorem level_tasks {t : Tasks} {task : Task}
    (h : ∀ inner, inner.event.size < task.event.size → t.Same w.tasks inner) :
    (w.level t).Same w.tasks task := by
  cases task with
  | value e =>
    change w.resolveStep t.value e = w.resolve e
    rw [resolve]
    refine resolveStep_congr hregistry fun x hx => ?_
    have hsize := Event.size_lt_of_mem_parts hx
    rw [if_pos hsize]
    exact h (.value x) hsize
  | line e actor =>
    change w.performWith t.value t.line e actor = w.perform e actor
    rw [perform, ← performWith_resolve]
    refine performWith_congr (fun x hx => ?_) (fun x hx other => ?_) actor
    · exact h (.value x) (Event.size_lt_of_mem_parts hx)
    · have hsize := Event.size_lt_of_mem_parts hx
      rw [if_pos hsize]
      exact h (.line x other) hsize

theorem unrolled_same (bottom : Tasks) {n : Nat} {task : Task} (h : task.event.size ≤ n) :
    (w.unrolled bottom n).Same w.tasks task := by
  induction n generalizing task with
  | zero =>
    have hpos := task.event.size_pos
    omega
  | succ n ih =>
    refine level_tasks hregistry fun inner hsize => ih ?_
    omega

end Levels

/-- Resolving and performing end. A level over the world's own way to do tasks does what the world
does, without a guard. It comes back for parts of the event only, which are smaller, and never for a
token; a reading resolves the event it is given, at most once. However tasks are done at the bottom,
as many levels as the event is large never get there. -/
theorem recursion_ends (w : World) (hsynthesizer : w.synthesizer = .standard)
    (hremembered : w.registry = w.builtRegistry) :
    (∀ task, (w.level w.tasks).Same w.tasks task) ∧
    (∀ outer inner, w.ComesBack outer inner →
      inner.event ∈ outer.event.parts ∧ inner.event.size < outer.event.size) ∧
    (WellFounded fun inner outer => w.ComesBack outer inner) ∧
    (∀ text inner, ¬ w.ComesBack (.value (.token text)) inner) ∧
    (∀ (reading : Reading) (e : Event), (∃ r, ∀ f, reading.read f w e = r) ∨
      ∃ next, ∀ f : Event → Action Value, (reading.read f w e).run = (f e).run >>= next) ∧
    ∀ bottom n task, task.event.size ≤ n → (w.unrolled bottom n).Same w.tasks task := by
  have hregistry : w.registry = Fetcher.core ++ w.contracts.known.map Fetcher.ofContract := by
    rw [hremembered, builtRegistry_eq hsynthesizer]
  have hsmaller : ∀ outer inner, w.ComesBack outer inner →
      inner.event.size < outer.event.size :=
    fun outer inner h => Event.size_lt_of_mem_parts (h.mem_parts hregistry)
  refine ⟨fun task => ?_, fun outer inner h => ?_, ?_, fun text inner h => ?_, ?_, ?_⟩
  · refine level_tasks hregistry fun inner _ => ?_
    cases inner <;> rfl
  · exact ⟨h.mem_parts hregistry, hsmaller outer inner h⟩
  · exact Subrelation.wf (fun {inner outer} h => hsmaller outer inner h)
      (measure fun task : Task => task.event.size).wf
  · exact absurd (h.mem_parts hregistry) List.not_mem_nil
  · exact fun reading e => Reading.read_once w e reading
  · exact fun bottom n task h => unrolled_same hregistry bottom h

end World

/-- A way that has one value for the token and none for anything else. -/
def Tasks.ofToken (v : Value) : Tasks where
  value e := if e = .token "Token" then pure v else throw (.invalid .nothingDeployed)
  line _ _ := throw (.invalid .nothingDeployed)

def Event.listToken : Event := .seq [.token "List", .token "Token"]

theorem World.recursion_ends_listToken :
    World.ofToken.ComesBack (.value .listToken) (.value (.token "Token")) ∧
    (Event.token "Token").size < Event.listToken.size ∧
    ∀ bottom, (World.ofToken.unrolled bottom 3).value .listToken =
      World.ofToken.resolve .listToken := by
  have hends := World.recursion_ends World.ofToken rfl rfl
  have hlevel : ∀ v, ((World.ofToken.level (.ofToken v)).value .listToken).run =
      .done (.ok (.list [v])) := by
    intro v
    with_unfolding_all rfl
  have hback : World.ofToken.ComesBack (.value .listToken) (.value (.token "Token")) := by
    refine ⟨.ofToken .nothing, .ofToken .anything, fun task htask => ?_, fun hsame => ?_⟩
    · cases task with
      | value e =>
        have hne : e ≠ .token "Token" := fun h => htask (congrArg Task.value h)
        simp [Tasks.Same, Tasks.ofToken, hne]
      | line e actor => rfl
    · have hruns := congrArg ExceptT.run hsame
      rw [hlevel, hlevel] at hruns
      cases hruns
  refine ⟨hback, (hends.2.1 _ _ hback).2, fun bottom => ?_⟩
  exact hends.2.2.2.2.2 bottom 3 (.value .listToken) (by decide)

end ChainScript
