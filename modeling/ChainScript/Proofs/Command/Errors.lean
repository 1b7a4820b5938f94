import ChainScript.Command.Perform
import ChainScript.Proofs.Dispatch.DepthFirst

/-! # Errors of events

Errors of reading a text come from the text. An event is read already, so neither its value nor its
performance ever fails with one: `World.resolve_unparsed`, `World.perform_unparsed`.
-/

namespace ChainScript
set_option autoImplicit false

open Program Handler

/-! ## Results -/

/-- A result that is no error of reading a text. -/
def Unparsed {α : Type} (r : Except Error α) : Prop :=
  ∀ cause, r ≠ .error (.parse cause)

namespace Unparsed

variable {α β : Type}

theorem ok (a : α) : Unparsed (.ok a : Except Error α) := nofun

theorem invalid (cause : Fault) : Unparsed (.error (.invalid cause) : Except Error α) := nofun

theorem bind {r : Except Error α} {f : α → Except Error β} (hr : Unparsed r)
    (hf : ∀ a, Unparsed (f a)) : Unparsed (r >>= f) := by
  cases r with
  | ok a => exact hf a
  | error err =>
    intro cause h
    cases h
    exact hr cause rfl

end Unparsed

namespace BoundArgs

variable {α : Type} {args : BoundArgs} {name : String} {as? : Value → Option α} {expected : Kind}
  {err : Error}

theorem value_error (h : args.value name = .error err) : ∃ cause, err = .invalid cause := by
  unfold value at h
  split at h
  · cases h
  · cases h
    exact ⟨_, rfl⟩

/-- An argument that cannot be had is an invalid value. -/
theorem view_error (h : args.view name as? expected = .error err) :
    ∃ cause, err = .invalid cause := by
  unfold view at h
  cases hv : args.value name with
  | error found =>
    rw [hv] at h
    cases h
    exact value_error hv
  | ok v =>
    rw [hv] at h
    cases has : as? v with
    | some a =>
      simp only [Bind.bind, Except.bind, has] at h
      cases h
    | none =>
      simp only [Bind.bind, Except.bind, has] at h
      cases h
      exact ⟨_, rfl⟩

theorem value_unparsed (args : BoundArgs) (name : String) : Unparsed (args.value name) := by
  intro cause h
  obtain ⟨fault, hfault⟩ := value_error h
  cases hfault

theorem view_unparsed (args : BoundArgs) (name : String) (as? : Value → Option α)
    (expected : Kind) : Unparsed (args.view name as? expected) := by
  intro cause h
  obtain ⟨fault, hfault⟩ := view_error h
  cases hfault

end BoundArgs

/-- An error about values: one cannot be had, or two cannot be compared. -/
def Error.IsOfValues : Error → Prop
  | .invalid _ => True
  | .incomparable _ => True
  | _ => False

/-- A result that fails with an error about values only. -/
def FailsOnValues {α : Type} (r : Except Error α) : Prop :=
  ∀ err, r = .error err → err.IsOfValues

namespace FailsOnValues

variable {α β : Type}

theorem ok (a : α) : FailsOnValues (.ok a : Except Error α) := nofun

theorem invalid (cause : Fault) : FailsOnValues (.error (.invalid cause) : Except Error α) := by
  intro err h
  cases h
  trivial

theorem incomparable (kinds : Mismatch) :
    FailsOnValues (.error (.incomparable kinds) : Except Error α) := by
  intro err h
  cases h
  trivial

theorem bind {r : Except Error α} {f : α → Except Error β} (hr : FailsOnValues r)
    (hf : ∀ a, FailsOnValues (f a)) : FailsOnValues (r >>= f) := by
  cases r with
  | ok a => exact hf a
  | error err =>
    intro found h
    cases h
    exact hr err rfl

theorem value (args : BoundArgs) (name : String) : FailsOnValues (args.value name) := by
  intro err h
  obtain ⟨cause, rfl⟩ := BoundArgs.value_error h
  trivial

theorem view (args : BoundArgs) (name : String) (as? : Value → Option α) (expected : Kind) :
    FailsOnValues (args.view name as? expected) := by
  intro err h
  obtain ⟨cause, rfl⟩ := BoundArgs.view_error h
  trivial

end FailsOnValues

theorem Formula.value_fails (w : World) (args : BoundArgs) (formula : Formula) :
    FailsOnValues (formula.value w args) := by
  cases formula with
  | constant v => exact .ok v
  | literal => exact .value args _
  | amount | list | array | address =>
    exact (FailsOnValues.view args _ _ _).bind fun _ => .ok _
  | precisely =>
    refine (FailsOnValues.view args _ _ _).bind fun precision => ?_
    split
    · exact (FailsOnValues.view args _ _ _).bind fun _ => .ok _
    · exact .invalid _
  | arithmetic operation =>
    refine (FailsOnValues.view args _ _ _).bind fun a => ?_
    refine (FailsOnValues.view args _ _ _).bind fun b => ?_
    refine FailsOnValues.bind ?_ fun _ => .ok _
    cases operation with
    | add | sub | mul => exact .ok _
    | div =>
      rw [Arithmetic.apply]
      split
      · exact .ok _
      · exact .invalid _
  | equal =>
    refine (FailsOnValues.value args _).bind fun expected => ?_
    refine (FailsOnValues.value args _).bind fun actual => ?_
    split
    · exact .ok _
    · exact .incomparable _
  | account | stored =>
    refine (FailsOnValues.view args _ _ _).bind fun name => ?_
    split
    · exact .ok _
    · exact .invalid _
  | lastContract =>
    rw [Formula.value]
    split
    · exact .ok _
    · exact .invalid _

theorem Check.run_unparsed (w : World) (args : BoundArgs) (condition : Check) :
    Unparsed (condition.run w args) := by
  cases condition with
  | equal =>
    refine (args.value_unparsed _).bind fun expected => (args.value_unparsed _).bind fun actual => ?_
    split
    · exact .ok _
    · exact nofun
    · exact nofun
  | truth wanted =>
    refine (args.value_unparsed _).bind fun v => ?_
    split
    · exact .ok _
    · exact nofun
  | order wanted =>
    refine (args.value_unparsed _).bind fun left => (args.value_unparsed _).bind fun right => ?_
    split
    · split
      · exact .ok _
      · exact nofun
    · exact nofun
  | revert =>
    refine (args.value_unparsed _).bind fun reason => ?_
    unfold Check.reverted
    repeat' split
    all_goals exact nofun
  | success =>
    rw [Check.run]
    unfold Check.succeeded
    repeat' split
    all_goals exact nofun

theorem World.settle_unparsed (w : World) (made : Invocation) : Unparsed (w.settle made) := by
  unfold World.settle
  repeat' split
  all_goals exact nofun

theorem World.deployed_unparsed (w : World) (name artifact : String)
    (outcome : Except TransportError Receipt) : Unparsed (w.deployed name artifact outcome) := by
  unfold World.deployed
  split
  · exact w.settle_unparsed _
  · split
    · exact .invalid _
    · exact .ok _

/-! ## Actions -/

/-- An action that fails with no error of reading a text, whichever chain answers it. -/
def Action.Unparsed {α : Type} (x : Action α) : Prop :=
  ∀ (σ : Type) (answers : Answers σ) (s : σ), ChainScript.Unparsed (x.run.run answers s).1

namespace Action.Unparsed

variable {α β : Type}

theorem ofExcept {r : Except Error α} (hr : ChainScript.Unparsed r) :
    (Action.ofExcept r).Unparsed := fun _ _ _ => hr

theorem bind {x : Action α} {f : α → Action β} (hx : x.Unparsed) (hf : ∀ a, (f a).Unparsed) :
    Action.Unparsed (x >>= f) := by
  intro σ answers s
  have hfirst := hx σ answers s
  rw [run_exceptBind]
  generalize x.run.run answers s = r at hfirst ⊢
  rcases r with ⟨err | a, s₁⟩
  · intro cause h
    cases h
    exact hfirst cause rfl
  · exact hf a σ answers s₁

end Action.Unparsed

/-! ## Selection -/

/-- A search ends without a match or with a fatal error, and errors of reading are neither. -/
theorem select_unparsed {ρ ε : Type} (b : Binder ρ) (kind : String) (hs : List (Handler ρ ε))
    (e : Event) : Action.Unparsed (select b kind hs e) := by
  intro σ answers s
  have hjudges := select_judges b answers hs e s
  rw [select_run, run_bind]
  generalize (tryAll b (candidates hs e.elements) e.elements).run answers s = t at hjudges
  cases hjudges with
  | found first => exact nofun
  | fatal first isFatal =>
    rintro cause h
    cases h
    cases isFatal
  | abandoned none named => exact nofun

theorem fetchValue_unparsed {ρ ε : Type} {b : Binder ρ} {run : ε → BoundArgs → Action Value}
    (hrun : ∀ args effect, (run effect args).Unparsed) (kind : String) (hs : List (Handler ρ ε))
    (e : Event) : (fetchValue b run kind hs e).Unparsed := by
  intro σ answers s
  have hselect := select_unparsed b kind hs e σ answers s
  rw [fetchValue, ExceptT.run_mk, run_bind]
  generalize (select b kind hs e).run.run answers s = r at hselect ⊢
  rcases r with ⟨err | selection, s₁⟩
  · cases err with
    | parse cause => exact absurd rfl (hselect cause)
    | _ =>
      intro cause h
      cases e <;> cases h
  · exact hrun selection.args selection.effect σ answers s₁

/-! ## Resolution -/

theorem readChain_fails {σ : Type} {answers : Answers σ} {s s' : σ} {target : Address}
    {method : String} {args : List Value} {err : Error}
    (h : (readChain target method args).run.run answers s = (.error err, s')) :
    ∃ cause, err = .transport cause := by
  rw [readChain, ExceptT.run_mk, run_ask] at h
  generalize answers s (.read target method args) = r at h
  obtain ⟨reply, s₁⟩ := r
  cases reply with
  | ok raw => cases h
  | error cause =>
    cases h
    exact ⟨cause, rfl⟩

/-- An effect that resolves nothing fails on its values or on the chain. -/
theorem Fetch.run_fails {f : Fetch} (hf : f ≠ .firstOf) {resolve : Event → Action Value} {w : World}
    {args : BoundArgs} {σ : Type} {answers : Answers σ} {s s' : σ} {err : Error}
    (h : (f.run resolve w args).run.run answers s = (.error err, s')) :
    err.IsOfValues ∨ ∃ cause, err = .transport cause := by
  have hview : ∀ {α : Type} {as? : Value → Option α} {name : String} {expected : Kind} {t t' : σ},
      (Action.ofExcept (args.view name as? expected)).run.run answers t = (.error err, t') →
        err.IsOfValues :=
    fun hargs => FailsOnValues.view args _ _ _ err (congrArg Prod.fst hargs)
  cases f with
  | compute formula => exact .inl (formula.value_fails w args err (congrArg Prod.fst h))
  | firstOf => exact absurd rfl hf
  | call =>
    rcases run_exceptBind_eq_error.mp h with h | ⟨target, s₁, -, h⟩
    · exact .inl (hview h)
    · rcases run_exceptBind_eq_error.mp h with h | ⟨method, s₂, -, h⟩
      · exact .inl (hview h)
      · rcases run_exceptBind_eq_error.mp h with h | ⟨list, s₃, -, h⟩
        · exact .inl (hview h)
        · exact .inr (readChain_fails h)
  | view target =>
    rcases run_exceptBind_eq_error.mp h with h | ⟨method, s₁, -, h⟩
    · exact .inl (hview h)
    · rcases run_exceptBind_eq_error.mp h with h | ⟨list, s₂, -, h⟩
      · exact .inl (hview h)
      · exact .inr (readChain_fails h)

theorem Fetch.run_unparsed {resolve : Event → Action Value} (hr : ∀ e, (resolve e).Unparsed)
    (w : World) (args : BoundArgs) (f : Fetch) : (f.run resolve w args).Unparsed := by
  by_cases hf : f = .firstOf
  · subst hf
    refine .bind (.ofExcept (args.view_unparsed _ _ _)) fun expr => ?_
    refine .bind (.ofExcept (args.view_unparsed _ _ _)) fun fallback => ?_
    intro σ answers s
    have hexpr := hr expr σ answers s
    rw [resolveFirst, ExceptT.run_mk, run_bind]
    generalize (resolve expr).run.run answers s = r at hexpr ⊢
    rcases r with ⟨err | v, s₁⟩
    · dsimp only
      split
      · exact hexpr
      · exact hr fallback σ answers s₁
    · exact .ok v
  · intro σ answers s cause h
    rcases run_fails hf (Prod.ext h rfl) with hvalues | ⟨found, htransport⟩
    · exact hvalues
    · cases htransport

namespace World

theorem resolve_unparsed (w : World) (e : Event) : (w.resolve e).Unparsed := by
  rw [resolve]
  have hinside : ∀ inner, Action.Unparsed (if inner.size < e.size then w.resolve inner
      else throw (.invalid (.selfReference inner))) := by
    intro inner
    split
    · exact resolve_unparsed w inner
    · exact .ofExcept (.invalid _)
  exact fetchValue_unparsed (Fetch.run_unparsed hinside w) _ _ e
termination_by e.size

end World

/-! ## Performance -/

theorem Effect.run_unparsed {perform : Event → Address → Action World}
    (hperform : ∀ e other, (perform e other).Unparsed) (w : World) (actor : Address)
    (args : BoundArgs) (effect : Effect) : (effect.run perform w actor args).Unparsed := by
  cases effect with
  | print => exact .ofExcept ((args.value_unparsed _).bind fun _ => .ok _)
  | read =>
    refine .bind (.ofExcept (args.view_unparsed _ _ _)) fun expr => ?_
    exact .bind (w.resolve_unparsed expr) fun v => .ofExcept (.ok _)
  | nameAddress =>
    refine .ofExcept ((args.view_unparsed _ _ _).bind fun name => ?_)
    exact (args.view_unparsed _ _ _).bind fun _ => .ok _
  | store =>
    refine .ofExcept ((args.value_unparsed _).bind fun v => ?_)
    exact (args.view_unparsed _ _ _).bind fun _ => .ok _
  | deploy =>
    refine .bind (.ofExcept (args.view_unparsed _ _ _)) fun name => ?_
    refine .bind (.ofExcept (args.value_unparsed _)) fun artifact => ?_
    refine .bind (.ofExcept (args.view_unparsed _ _ _)) fun list => ?_
    exact fun σ answers s => w.deployed_unparsed name _ _
  | allowFailures | inspect => exact .ofExcept (.ok _)
  | actAs =>
    refine .bind (.ofExcept (args.view_unparsed _ _ _)) fun other => ?_
    exact .bind (.ofExcept (args.view_unparsed _ _ _)) fun inner => hperform inner other
  | check condition => exact .ofExcept ((condition.run_unparsed w args).bind fun _ => .ok _)
  | send contract target =>
    refine .bind (.ofExcept (args.view_unparsed _ _ _)) fun method => ?_
    refine .bind (.ofExcept (args.view_unparsed _ _ _)) fun list => ?_
    exact fun σ answers s => w.settle_unparsed _

namespace World

theorem perform_unparsed (w : World) (e : Event) (actor : Address) :
    (w.perform e actor).Unparsed := by
  rw [perform]
  refine .bind (select_unparsed _ _ _ e) fun selection => ?_
  refine Effect.run_unparsed (fun inner other => ?_) w actor selection.args selection.effect
  split
  · exact perform_unparsed w inner other
  · exact .ofExcept (.invalid _)
termination_by e.size

end World

end ChainScript
