import ChainScript.Command.Perform
import ChainScript.Proofs.Expr.Queries

/-! # The course of a line

Performing an event makes reads and then comes to a close: it asks nothing more, sends one
transaction or makes one deployment, and takes up the reply. `World.perform_course` says so of every
world, event and actor, nested actors included. What a failed read, a failed transaction or a
failed line leaves behind follows from it.
-/

namespace ChainScript
set_option autoImplicit false

open Program

/-- The close of a line of an actor. -/
inductive Closing (w : World) (actor : Address) : Program (Except Error World) → Prop where
  | done (r : Except Error World) : Closing w actor (.done r)
  | send (contract : String) (target : Address) (method : String) (args : List Value) :
      Closing w actor (sendTransaction w actor contract target method args).run
  | deploy (name artifact : String) (args : List Value) :
      Closing w actor (deployContract w actor name artifact args).run

namespace Closing

variable {w : World} {actor : Address} {p : Program (Except Error World)}

theorem of_ends (h : Ends p) : Closing w actor p := by
  obtain ⟨r, rfl⟩ := h
  exact .done r

/-- A close makes at most one call, which is no read and is made by the actor. -/
theorem exchanges {σ : Type} (h : Closing w actor p) (answers : Answers σ) (s : σ) :
    p.exchanges answers s = [] ∨
      ∃ x, p.exchanges answers s = [x] ∧ x.call.actor? = some actor := by
  cases h with
  | done r => exact .inl rfl
  | send contract target method args => exact .inr ⟨_, rfl, rfl⟩
  | deploy name artifact args => exact .inr ⟨_, rfl, rfl⟩

/-- A close makes no read. -/
theorem acts {σ : Type} (h : Closing w actor p) (answers : Answers σ) (s : σ) :
    ∀ x ∈ p.exchanges answers s, x.call.actor? ≠ none := by
  intro x hx
  rcases h.exchanges answers s with hnone | ⟨y, hone, hactor⟩
  · simp [hnone] at hx
  · rw [hone, List.mem_singleton] at hx
    simp [hx, hactor]

end Closing

/-- A line that makes reads, each of which must succeed, and then comes to a close. -/
abbrev Course (last : Program (Except Error World) → Prop) (x : Action World) : Prop :=
  ReadsThen (fun cause => .error (.transport cause)) last x.run

/-! ## Calls of a line -/

/-- Some reads, followed by at most one transaction or deployment, which the actor makes. -/
def ActsLast (actor : Address) (xs : List Exchange) : Prop :=
  ∃ reads last, xs = reads ++ last ∧ (∀ x ∈ reads, x.call.actor? = none) ∧
    (last = [] ∨ ∃ x, last = [x] ∧ x.call.actor? = some actor)

namespace ActsLast

variable {actor : Address} {xs ys : List Exchange}

theorem of_reads (h : ∀ x ∈ xs, x.call.actor? = none) : ActsLast actor xs :=
  ⟨xs, [], (List.append_nil xs).symm, h, .inl rfl⟩

theorem append (hxs : ∀ x ∈ xs, x.call.actor? = none) (hys : ActsLast actor ys) :
    ActsLast actor (xs ++ ys) := by
  obtain ⟨reads, last, rfl, hreads, hlast⟩ := hys
  refine ⟨xs ++ reads, last, (List.append_assoc ..).symm, ?_, hlast⟩
  intro x hx
  rcases List.mem_append.mp hx with hx | hx
  · exact hxs x hx
  · exact hreads x hx

end ActsLast

theorem Course.actsLast {σ : Type} {w : World} {actor : Address} {x : Action World}
    (h : Course (Closing w actor) x) (answers : Answers σ) (s : σ) :
    ActsLast actor (x.run.exchanges answers s) := by
  obtain ⟨reads, q, s', hreads, hex, -, hq, -⟩ := h.split answers s
  refine ⟨reads, q.exchanges answers s', hex, hreads, ?_⟩
  rcases hq with ⟨cause, rfl⟩ | hq
  · exact .inl rfl
  · exact hq.exchanges answers s'

/-! ## Effects -/

theorem Effect.run_course {perform : Event → Address → Action World}
    {last : Program (Except Error World) → Prop} (w : World) (actor : Address) (args : BoundArgs)
    (effect : Effect) (hlast : ∀ p, Closing w actor p → last p)
    (hperform : effect = .actAs → ∀ e other, Course last (perform e other)) :
    Course last (effect.run perform w actor args) := by
  have hends : ∀ p, Ends p → last p := fun p h => hlast p (.of_ends h)
  have hdone : ∀ r, Course last (Action.ofExcept r) := fun r => .last (hlast _ (.done r))
  cases effect with
  | print | nameAddress | store | allowFailures | inspect | check condition => exact hdone _
  | read =>
    refine (Inquires.ofExcept (args.event "expr")).bind hends fun expr => ?_
    refine (w.resolve_inquires expr).bind hends fun v => ?_
    exact hdone _
  | deploy =>
    refine (Inquires.ofExcept (args.string "name")).bind hends fun name => ?_
    refine (Inquires.ofExcept (args.value "artifact")).bind hends fun artifact => ?_
    refine (Inquires.ofExcept (args.list "args")).bind hends fun list => ?_
    exact .last (hlast _ (.deploy name _ list))
  | actAs =>
    refine (Inquires.ofExcept (args.address "actor")).bind hends fun other => ?_
    refine (Inquires.ofExcept (args.event "event")).bind hends fun inner => ?_
    exact hperform rfl inner other
  | send contract target =>
    refine (Inquires.ofExcept (args.string "method")).bind hends fun method => ?_
    refine (Inquires.ofExcept (args.list "args")).bind hends fun list => ?_
    exact .last (hlast _ (.send contract target method list))

/-! ## Performing -/

namespace World

theorem command_select_inquires (w : World) (e : Event) :
    Inquires Error.transport
      (select (w.binder w.resolve) commandKind (Command.registry w.contracts) e) :=
  select_inquires (fun reading e => Reading.read_inquires w.resolve_inquires w e reading) _ _ e

/-- Performing an event makes reads and then comes to the close of a line of some actor. -/
theorem perform_course (w : World) (e : Event) (actor : Address) :
    Course (fun p => ∃ other, Closing w other p) (w.perform e actor) := by
  rw [perform]
  refine (w.command_select_inquires e).bind (fun p h => ⟨actor, .of_ends h⟩) fun selection => ?_
  refine Effect.run_course w actor selection.args selection.effect (fun p h => ⟨actor, h⟩) ?_
  intro _ inner other
  split
  · exact perform_course w inner other
  · exact .last ⟨actor, .done _⟩
termination_by e.size

end World

/-! ## Failed reads -/

/-- A read that fails while an event is resolved or performed is the last call made, and its cause is
the error that comes out. -/
theorem failed_read_surfaces {σ : Type} (answers : Answers σ) (s : σ) (w : World) (e : Event)
    (actor : Address) (earlier later : List Exchange) (target : Address) (method : String)
    (args : List Value) (cause : TransportError) :
    ((w.resolve e).run.exchanges answers s =
        earlier ++ ⟨.read target method args, Except.error cause⟩ :: later →
      later = [] ∧ ((w.resolve e).run.run answers s).1 = .error (.transport cause)) ∧
    ((w.perform e actor).run.exchanges answers s =
        earlier ++ ⟨.read target method args, Except.error cause⟩ :: later →
      later = [] ∧ ((w.perform e actor).run.run answers s).1 = .error (.transport cause)) := by
  constructor
  · intro h
    refine (w.resolve_inquires e).failed_read answers ?_ s h
    rintro q ⟨a, rfl⟩ s x hx
    simp at hx
  · intro h
    refine (w.perform_course e actor).failed_read answers ?_ s h
    rintro q ⟨other, hq⟩ s x hx
    rcases hq.exchanges answers s with hnone | ⟨y, hone, hactor⟩
    · simp [hnone] at hx
    · rw [hone, List.mem_singleton] at hx
      simp [hx, hactor]

/-- A world without contracts. -/
def World.blank : World :=
  { settings := { aliases := [] }, accounts := [], aliases := [], defaultFrom := Address.zero }

theorem World.new_blank : World.new [] { aliases := [] } = .ok World.blank := by
  with_unfolding_all rfl

def World.ofToken : World := World.blank.withContract "Token" "Erc20" Address.zero

/-- A chain on which every call reverts. -/
def Program.reverting : Answers Unit := fixed fun
  | .read _ _ _ => .error (.revert "paused")
  | .send _ _ _ _ => .error (.revert "paused")
  | .deploy _ _ _ => .error (.revert "paused")

/-- A read of the token inside a list, inside an expression with a fallback. -/
def Event.guardedRead : Event :=
  .seq [.token "Default", .seq [.token "List", .seq [.token "Token", .token "supply"]], .token "0"]

theorem failed_read_surfaces_guarded :
    ((World.ofToken.resolve .guardedRead).run.run reverting ()).1 =
      .error (.transport (.revert "paused")) ∧
    ((World.ofToken.perform (.seq [.token "Print", .guardedRead]) Address.zero).run.run
      reverting ()).1 = .error (.transport (.revert "paused")) := by
  constructor
  · have hreads : (World.ofToken.resolve .guardedRead).run.exchanges reverting () =
        [⟨.read Address.zero "supply" [], Except.error (.revert "paused")⟩] := by
      with_unfolding_all rfl
    exact ((failed_read_surfaces reverting () World.ofToken .guardedRead Address.zero [] []
      Address.zero "supply" [] (.revert "paused")).1 hreads).2
  · have hreads : (World.ofToken.perform (.seq [.token "Print", .guardedRead])
        Address.zero).run.exchanges reverting () =
        [⟨.read Address.zero "supply" [], Except.error (.revert "paused")⟩] := by
      with_unfolding_all rfl
    exact ((failed_read_surfaces reverting () World.ofToken (.seq [.token "Print", .guardedRead])
      Address.zero [] [] Address.zero "supply" [] (.revert "paused")).2 hreads).2

end ChainScript
