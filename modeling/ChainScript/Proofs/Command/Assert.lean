import ChainScript.Proofs.Command.Course
import ChainScript.Proofs.Expr.Application

/-! # Assertions are exact

An assertion passes exactly when its elements have values that meet its check, and it changes neither
the world nor the chain. A contract may bear the name of the assertions. It is tried when an assertion
cannot be bound, but it resolves the same elements, so it cannot be bound either.
-/

namespace ChainScript
set_option autoImplicit false

open Program Handler

/-! ## Binding an assertion -/

namespace Command

/-- The assertion of a name, whose parameters are read as expressions. -/
def assertion (name : String) (names : List String) (condition : Check) (description : String) :
    Command :=
  check name (names.map fun param => .one param .core) condition description

def assertGroup : Command :=
  namespaced "Assert" assertions (some "Assertions; a failure halts the scenario")

theorem core_named_assert (rest : List Event) :
    core.filter (fun h => h.signature.isNamedIn (.token "Assert" :: rest)) = [assertGroup] := rfl

/-- What an assertion selects for the values of its elements. -/
def assertSelection (name : String) (names : List String) (condition : Check)
    (description : String) (vs : List Value) : Selection Reading Effect :=
  ⟨(assertion name names condition description).signature, .check condition,
    BoundArgs.insertAll {} names vs⟩

section Binding

variable {name description : String} {names : List String} {condition : Check} {es : List Event}

theorem assert_attempt_ok {σ : Type} {b : Binder Reading} {answers : Answers σ} {s s' : σ}
    {selection : Selection Reading Effect}
    (ha : candidates assertions (.token name :: es) = [assertion name names condition description]) :
    (assertGroup.attempt b (.token "Assert" :: .token name :: es)).run.run answers s =
        (.ok selection, s') ↔
      ∃ vs, b.ResolvesEach answers .core es s vs s' ∧ es.length = names.length ∧
        selection = assertSelection name names condition description vs := by
  refine attempt_group_ok.trans ?_
  constructor
  · rintro ⟨args, rest, s₁, inner, hp, -, hsel, rfl⟩
    obtain ⟨hp, rfl⟩ := Binder.params_nil.mp hp
    cases hp
    rcases select_ok_cons ha hsel with hbound | ⟨k, hk, -⟩
    · obtain ⟨vs, hvs, hlength, rfl⟩ := (attempt_named_ones names).mp hbound
      exact ⟨vs, hvs, hlength, rfl⟩
    · cases hk
  · rintro ⟨vs, hvs, hlength, rfl⟩
    refine ⟨{}, .token name :: es, s, assertSelection name names condition description vs,
      Binder.params_nil.mpr ⟨rfl, rfl⟩, List.cons_ne_nil _ _, ?_, rfl⟩
    exact select_first ha ((attempt_named_ones names).mpr ⟨vs, hvs, hlength, rfl⟩)

/-- Where the elements are as many as the parameters, an assertion is selected exactly when they all
have values. -/
theorem select_assert {w : World} {reply : (c : Call) → c.Reply}
    {selection : Selection Reading Effect}
    (ha : candidates assertions (.token name :: es) = [assertion name names condition description])
    (hlength : es.length = names.length) :
    (select (w.binder w.resolve) World.commandKind (registry w.contracts)
        (.seq (.token "Assert" :: .token name :: es))).run.run (fixed reply) () =
        (.ok selection, ()) ↔
      ∃ vs, (w.binder w.resolve).ResolvesEach (fixed reply) .core es () vs () ∧
        selection = assertSelection name names condition description vs := by
  have hc := candidates_registry w.contracts (.token "Assert" :: .token name :: es)
  rw [core_named_assert, List.singleton_append] at hc
  have hfirst : ∀ k ∈ contractCandidates ofContract w.contracts
      (.token "Assert" :: .token name :: es), ∀ other,
      (k.attempt (w.binder w.resolve) (.token "Assert" :: .token name :: es)).run.run
        (fixed reply) () = (.ok other, ()) →
      ∃ first, (assertGroup.attempt (w.binder w.resolve)
        (.token "Assert" :: .token name :: es)).run.run (fixed reply) () = (.ok first, ()) := by
    intro k hk other hother
    obtain ⟨i, -, rfl⟩ := mem_contractCandidates hk
    obtain ⟨vs, _, hvs⟩ := ofContract_bound i hother
    exact ⟨_, (assert_attempt_ok ha).mpr ⟨vs, hvs, hlength, rfl⟩⟩
  refine (select_eq_first hc hfirst).trans ((assert_attempt_ok ha).trans ?_)
  constructor
  · rintro ⟨vs, hvs, -, rfl⟩
    exact ⟨vs, hvs, rfl⟩
  · rintro ⟨vs, hvs, rfl⟩
    exact ⟨vs, hvs, hlength, rfl⟩

end Binding

end Command

/-! ## Performing an assertion -/

theorem Effect.run_check {σ : Type} {perform : Event → Address → Action World} {w next : World}
    {actor : Address} {args : BoundArgs} {condition : Check} {answers : Answers σ} {s s' : σ} :
    (Effect.run perform w actor args (.check condition)).run.run answers s = (.ok next, s') ↔
      condition.run w args = .ok () ∧ next = w ∧ s' = s := by
  change ((do condition.run w args; return w : Except Error World), s) = _ ↔ _
  cases condition.run w args with
  | ok u =>
    constructor
    · intro h
      cases h
      exact ⟨rfl, rfl, rfl⟩
    · rintro ⟨-, rfl, rfl⟩
      rfl
  | error err =>
    constructor
    · intro h
      cases h
    · rintro ⟨h, -, -⟩
      cases h

namespace Check

variable {w : World} {v v₁ v₂ : Value}

theorem run_equal :
    Check.equal.run w (BoundArgs.insertAll {} ["expected", "actual"] [v₁, v₂]) = .ok () ↔
      v₁.compare v₂ = .ok true := by
  have hexpected : (BoundArgs.insertAll {} ["expected", "actual"] [v₁, v₂]).value "expected" =
    .ok v₁ := rfl
  have hactual : (BoundArgs.insertAll {} ["expected", "actual"] [v₁, v₂]).value "actual" =
    .ok v₂ := rfl
  simp only [Check.run, hexpected, hactual, Bind.bind, Except.bind]
  rcases v₁.compare v₂ with kinds | (_ | _) <;> simp [failed]

theorem run_order {wanted : Ordering} :
    (Check.order wanted).run w (BoundArgs.insertAll {} ["a", "b"] [v₁, v₂]) = .ok () ↔
      v₁.order v₂ = .ok wanted := by
  have hleft : (BoundArgs.insertAll {} ["a", "b"] [v₁, v₂]).value "a" = .ok v₁ := rfl
  have hright : (BoundArgs.insertAll {} ["a", "b"] [v₁, v₂]).value "b" = .ok v₂ := rfl
  simp only [Check.run, hleft, hright, Bind.bind, Except.bind]
  rcases v₁.order v₂ with kinds | o
  · simp
  · by_cases ho : o = wanted <;> simp [ho, failed]

theorem run_truth {wanted : Bool} :
    (Check.truth wanted).run w (BoundArgs.insertAll {} ["value"] [v]) = .ok () ↔
      v.truthy = wanted := by
  change (if v.truthy = wanted then .ok () else failed (.untruth v wanted)) = Except.ok () ↔ _
  by_cases h : v.truthy = wanted <;> simp [h, failed]

end Check

namespace World

variable {w : World} {c : MemoryChain} {actor : Address}

/-- The value of an event in a world on a chain. -/
def HasValue (w : World) (c : MemoryChain) (e : Event) (v : Value) : Prop :=
  ((w.resolve e).run.run MemoryChain.answer c).1 = .ok v

theorem hasValue_iff {e : Event} {v : Value} :
    w.HasValue c e v ↔ ((w.resolve e).run.eval fun call => (c.answer call).1) = .ok v := by
  rw [HasValue, (w.resolve_inquires e).run_eq MemoryChain.readsKeep]

/-- A line passes exactly under a condition, and leaves the world and the chain as they are. -/
structure Tests (w : World) (c : MemoryChain) (actor : Address) (e : Event) (condition : Prop) :
    Prop where
  passes : (∃ next chain, (w.perform e actor).run.run MemoryChain.answer c = (.ok next, chain)) ↔
    condition
  keeps : ∀ next chain, (w.perform e actor).run.run MemoryChain.answer c = (.ok next, chain) →
    next = w ∧ chain = c

theorem Tests.of_iff {e : Event} {condition : Prop}
    (h : ∀ next chain, (w.perform e actor).run.run MemoryChain.answer c = (.ok next, chain) ↔
      next = w ∧ chain = c ∧ condition) : w.Tests c actor e condition := by
  refine ⟨⟨?_, fun hcondition => ⟨w, c, (h w c).mpr ⟨rfl, rfl, hcondition⟩⟩⟩, ?_⟩
  · rintro ⟨next, chain, hrun⟩
    exact ((h next chain).mp hrun).2.2
  · intro next chain hrun
    obtain ⟨rfl, rfl, -⟩ := (h next chain).mp hrun
    exact ⟨rfl, rfl⟩

/-- An assertion passes exactly when its elements have values that meet the check. -/
theorem assertion_tests {name description : String} {names : List String} {condition : Check}
    {es : List Event}
    (ha : candidates Command.assertions (.token name :: es) =
      [Command.assertion name names condition description])
    (hlength : es.length = names.length) :
    w.Tests c actor (.seq (.token "Assert" :: .token name :: es))
      (∃ vs, (w.binder w.resolve).ResolvesEach (fixed fun call => (c.answer call).1) .core es ()
        vs () ∧ condition.run w (BoundArgs.insertAll {} names vs) = .ok ()) := by
  refine .of_iff fun next chain => ?_
  rw [perform, performStep, carryOut, run_exceptBind_eq_ok]
  constructor
  · rintro ⟨selection, c₁, hsel, hrun⟩
    obtain ⟨hsel, rfl⟩ := ((w.command_select_inquires _).run_iff MemoryChain.readsKeep).mp hsel
    obtain ⟨vs, hvs, rfl⟩ := (Command.select_assert ha hlength).mp (run_fixed.mpr hsel)
    obtain ⟨hcheck, rfl, rfl⟩ := Effect.run_check.mp hrun
    exact ⟨rfl, rfl, vs, hvs, hcheck⟩
  · rintro ⟨rfl, rfl, vs, hvs, hcheck⟩
    have hsel := run_fixed.mp ((Command.select_assert ha hlength).mpr ⟨vs, hvs, rfl⟩)
    refine ⟨_, chain,
      ((next.command_select_inquires _).run_iff MemoryChain.readsKeep).mpr ⟨hsel, rfl⟩, ?_⟩
    exact Effect.run_check.mpr ⟨hcheck, rfl, rfl⟩

theorem Tests.congr {e : Event} {p q : Prop} (h : w.Tests c actor e p) (hpq : p ↔ q) :
    w.Tests c actor e q :=
  ⟨h.passes.trans hpq, h.keeps⟩

/-- Two events have values in a relation. -/
def Relates (w : World) (c : MemoryChain) (e₁ e₂ : Event) (related : Value → Value → Prop) : Prop :=
  ∃ v₁ v₂, w.HasValue c e₁ v₁ ∧ w.HasValue c e₂ v₂ ∧ related v₁ v₂

theorem assertion_tests_two {name first second description : String} {condition : Check}
    {e₁ e₂ : Event}
    (ha : candidates Command.assertions [.token name, e₁, e₂] =
      [Command.assertion name [first, second] condition description])
    {related : Value → Value → Prop}
    (hrelated : ∀ v₁ v₂, condition.run w (BoundArgs.insertAll {} [first, second] [v₁, v₂]) =
      .ok () ↔ related v₁ v₂) :
    w.Tests c actor (.seq [.token "Assert", .token name, e₁, e₂]) (w.Relates c e₁ e₂ related) := by
  refine (assertion_tests ha rfl).congr ?_
  constructor
  · rintro ⟨vs, hvs, hcheck⟩
    obtain ⟨v₁, v₂, h₁, h₂, rfl⟩ := Binder.resolvesEach_fixed_two.mp hvs
    exact ⟨v₁, v₂, hasValue_iff.mpr h₁, hasValue_iff.mpr h₂, (hrelated v₁ v₂).mp hcheck⟩
  · rintro ⟨v₁, v₂, h₁, h₂, h⟩
    refine ⟨[v₁, v₂], Binder.resolvesEach_fixed_two.mpr ⟨v₁, v₂, ?_, ?_, rfl⟩,
      (hrelated v₁ v₂).mpr h⟩
    · exact hasValue_iff.mp h₁
    · exact hasValue_iff.mp h₂

theorem truth_tests {name description : String} {wanted : Bool} {e : Event}
    (ha : candidates Command.assertions [.token name, e] =
      [Command.assertion name ["value"] (.truth wanted) description]) :
    w.Tests c actor (.seq [.token "Assert", .token name, e])
      (∃ v, w.HasValue c e v ∧ v.truthy = wanted) := by
  refine (assertion_tests ha rfl).congr ?_
  constructor
  · rintro ⟨vs, hvs, hcheck⟩
    obtain ⟨v, hv, rfl⟩ := Binder.resolvesEach_fixed_one.mp hvs
    exact ⟨v, hasValue_iff.mpr hv, Check.run_truth.mp hcheck⟩
  · rintro ⟨v, hv, htruth⟩
    exact ⟨[v], Binder.resolvesEach_fixed_one.mpr ⟨v, hasValue_iff.mp hv, rfl⟩,
      Check.run_truth.mpr htruth⟩

/-- The value of a comparison is true exactly when its elements compare equal. -/
theorem Standard.truthy_equal (hw : w.Standard) (c : MemoryChain) (e₁ e₂ : Event) :
    (∃ v, w.HasValue c (.seq [.token "Equal", e₁, e₂]) v ∧ v.truthy = true) ↔
      w.Relates c e₁ e₂ fun v₁ v₂ => v₁.compare v₂ = .ok true := by
  constructor
  · rintro ⟨v, hv, htruth⟩
    obtain ⟨v₁, v₂, r, h₁, h₂, hcompare, rfl⟩ := hw.resolve_equal.mp (hasValue_iff.mp hv)
    rw [Value.truthy] at htruth
    rw [htruth] at hcompare
    exact ⟨v₁, v₂, hasValue_iff.mpr h₁, hasValue_iff.mpr h₂, hcompare⟩
  · rintro ⟨v₁, v₂, h₁, h₂, hcompare⟩
    refine ⟨.bool true, hasValue_iff.mpr (hw.resolve_equal.mpr ?_), rfl⟩
    exact ⟨v₁, v₂, true, hasValue_iff.mp h₁, hasValue_iff.mp h₂, hcompare, rfl⟩

/-- In a built world, whatever contracts it knows, an assertion passes exactly when its elements have
values that compare, are ordered or are true as it says, and it changes nothing. -/
theorem assertions_exact (w : World) (hw : w.Built) (c : MemoryChain) (actor : Address)
    (e₁ e₂ : Event) :
    w.Tests c actor (.seq [.token "Assert", .token "Equal", e₁, e₂])
      (w.Relates c e₁ e₂ fun v₁ v₂ => v₁.compare v₂ = .ok true) ∧
    w.Tests c actor (.seq [.token "Assert", .token "True", .seq [.token "Equal", e₁, e₂]])
      (w.Relates c e₁ e₂ fun v₁ v₂ => v₁.compare v₂ = .ok true) ∧
    w.Tests c actor (.seq [.token "Assert", .token "LessThan", e₁, e₂])
      (w.Relates c e₁ e₂ fun v₁ v₂ => v₁.order v₂ = .ok .lt) ∧
    w.Tests c actor (.seq [.token "Assert", .token "GreaterThan", e₁, e₂])
      (w.Relates c e₁ e₂ fun v₁ v₂ => v₁.order v₂ = .ok .gt) ∧
    w.Tests c actor (.seq [.token "Assert", .token "True", e₁])
      (∃ v, w.HasValue c e₁ v ∧ v.truthy = true) ∧
    w.Tests c actor (.seq [.token "Assert", .token "False", e₁])
      (∃ v, w.HasValue c e₁ v ∧ v.truthy = false) := by
  refine ⟨assertion_tests_two rfl fun _ _ => Check.run_equal, ?_,
    assertion_tests_two rfl fun _ _ => Check.run_order,
    assertion_tests_two rfl fun _ _ => Check.run_order, truth_tests rfl, truth_tests rfl⟩
  exact (truth_tests rfl).congr (hw.standard.truthy_equal c e₁ e₂)

/-- A world with contracts that bear the names of the assertions and of the comparison. -/
def shadowed : World :=
  (blank.withContract "Assert" "Erc20" Address.zero).withContract "Equal" "Erc20" Address.zero

theorem shadowed_built : shadowed.Built :=
  ((Built.new new_blank).withContract "Assert" "Erc20" Address.zero).withContract "Equal" "Erc20"
    Address.zero

theorem assertions_exact_shadowed :
    shadowed.Built ∧
    (shadowed.perform (.seq [.token "Assert", .token "Equal", .token "False",
      .seq [.token "Equal", .token "a", .token "A"]]) Address.zero).run.run MemoryChain.answer
        (.new 0 0) = (.ok shadowed, .new 0 0) := by
  have hfalse : shadowed.HasValue (.new 0 0) (.token "False") (.bool false) := by
    with_unfolding_all rfl
  have hequal : shadowed.HasValue (.new 0 0) (.seq [.token "Equal", .token "a", .token "A"])
      (.bool false) := by
    with_unfolding_all rfl
  have hcompare : (Value.bool false).compare (.bool false) = .ok true := by
    with_unfolding_all rfl
  have htests := (assertions_exact shadowed shadowed_built (.new 0 0) Address.zero (.token "False")
    (.seq [.token "Equal", .token "a", .token "A"])).1
  obtain ⟨next, chain, hrun⟩ := htests.passes.mpr ⟨_, _, hfalse, hequal, hcompare⟩
  obtain ⟨rfl, rfl⟩ := htests.keeps next chain hrun
  exact ⟨shadowed_built, hrun⟩

end World

end ChainScript
