import ChainScript.Proofs.Command.Course
import ChainScript.Proofs.Expr.Settling

/-! # Falling back on a second expression

The fetcher with a fallback takes both expressions as they stand, so it is bound whatever they are,
and a contract of its name is never tried. The first expression is resolved, and the second one after
an error of the first that is not fatal. What follows an expression depends on its result alone, so a
fallback of a fallback is the same computation whichever of the two is taken first.

* `Fetch.goOn`: how the result of the first expression goes on.
* `World.Standard.resolve_firstOf`: resolution of an expression with a fallback.
* `World.Built.fallback_assoc`: fallbacks can be grouped either way, and catch what is not fatal.
-/

namespace ChainScript
set_option autoImplicit false

open Program Handler

/-- The expression `(Default a b)`. -/
def Event.firstOf (a b : Event) : Event := .seq [.token "Default", a, b]

/-! ## What follows the first expression -/

namespace Fetch

/-- How the result of a first expression goes on, with `second` to fall back on. -/
def goOn (second : Action Value) : Except Error Value → Program (Except Error Value)
  | .ok v => .done (.ok v)
  | .error err => if err.isFatal then .done (.error err) else second.run

theorem resolveFirst_run (resolve : Event → Action Value) (a b : Event) :
    (resolveFirst resolve a b).run = (resolve a).run >>= goOn (resolve b) := by
  rw [resolveFirst, ExceptT.run_mk]
  congr 1

/-- A fallback behind a fallback is one fallback, on the second expression with its own. -/
theorem goOn_bind (second third : Action Value) (r : Except Error Value) :
    goOn second r >>= goOn third = goOn (ExceptT.mk (second.run >>= goOn third)) r := by
  cases r with
  | ok v => rfl
  | error err =>
    by_cases hfatal : err.isFatal = true
    · simp [goOn, hfatal]
    · simp [goOn, hfatal]

end Fetch

/-! ## Resolution -/

namespace World

variable {w : World}

namespace Standard

theorem select_firstOf (hw : w.Standard) (a b : Event) :
    (select (w.binder w.resolve) coreKind w.registry (.firstOf a b)).run =
      .done (.ok ⟨Fetcher.firstOf.signature, .firstOf,
        ⟨[("expr", .event a), ("fallback", .event b)]⟩⟩) := by
  have hcore : Fetcher.core.filter
      (fun h => h.signature.isNamedIn (.token "Default" :: [a, b])) = [Fetcher.firstOf] := rfl
  have hbound : (Fetcher.firstOf.attempt (w.binder w.resolve) [.token "Default", a, b]).run =
      .done (.ok ⟨Fetcher.firstOf.signature, .firstOf,
        ⟨[("expr", .event a), ("fallback", .event b)]⟩⟩) := by
    rw [Fetcher.firstOf, named, attempt_leaf]
    rfl
  exact select_done (hw.candidates_of_core hcore) hbound

theorem resolve_firstOf (hw : w.Standard) (a b : Event) :
    (w.resolve (.firstOf a b)).run = (w.resolve a).run >>= Fetch.goOn (w.resolve b) := by
  rw [Event.firstOf, resolve_seq_eq_carryOut hw.registry_eq, carryOut, ExceptT.run_bind]
  change (select (w.binder w.resolve) coreKind w.registry (.firstOf a b)).run >>= _ = _
  rw [hw.select_firstOf, ← Fetch.resolveFirst_run]
  rfl

theorem resolve_firstOf_assoc (hw : w.Standard) (a b c : Event) :
    w.resolve (.firstOf (.firstOf a b) c) = w.resolve (.firstOf a (.firstOf b c)) := by
  apply ExceptT.ext
  have hinner : (w.resolve (.firstOf b c)) =
      ExceptT.mk ((w.resolve b).run >>= Fetch.goOn (w.resolve c)) :=
    ExceptT.ext (hw.resolve_firstOf b c)
  calc (w.resolve (.firstOf (.firstOf a b) c)).run
      = (w.resolve a).run >>= Fetch.goOn (w.resolve b) >>= Fetch.goOn (w.resolve c) := by
        rw [hw.resolve_firstOf, hw.resolve_firstOf]
    _ = (w.resolve a).run >>= Fetch.goOn (w.resolve (.firstOf b c)) := by
        rw [bind_assoc, hinner]
        simp only [Fetch.goOn_bind]
    _ = (w.resolve (.firstOf a (.firstOf b c))).run := (hw.resolve_firstOf a _).symm

end Standard

/-- In every built world, with two fallbacks in a row it does not matter which is taken first: the
computation is the same, and with it the value or error and the calls over every chain. An expression
with a fallback has the value of the expression, or its fatal error, with no further call. After any
other error it goes on as the fallback does. -/
theorem Built.fallback_assoc (hw : w.Built) (a b c : Event) :
    w.resolve (.firstOf (.firstOf a b) c) = w.resolve (.firstOf a (.firstOf b c)) ∧
    ∀ (σ : Type) (answers : Answers σ) (s s' : σ),
      (∀ v, (w.resolve a).run.run answers s = (.ok v, s') →
        (w.resolve (.firstOf a b)).run.run answers s = (.ok v, s') ∧
        (w.resolve (.firstOf a b)).run.exchanges answers s =
          (w.resolve a).run.exchanges answers s) ∧
      (∀ err, (w.resolve a).run.run answers s = (.error err, s') → err.isFatal = true →
        (w.resolve (.firstOf a b)).run.run answers s = (.error err, s') ∧
        (w.resolve (.firstOf a b)).run.exchanges answers s =
          (w.resolve a).run.exchanges answers s) ∧
      ∀ err, (w.resolve a).run.run answers s = (.error err, s') → err.isFatal = false →
        (w.resolve (.firstOf a b)).run.run answers s = (w.resolve b).run.run answers s' ∧
        (w.resolve (.firstOf a b)).run.exchanges answers s =
          (w.resolve a).run.exchanges answers s ++ (w.resolve b).run.exchanges answers s' := by
  refine ⟨hw.standard.resolve_firstOf_assoc a b c, fun σ answers s s' => ?_⟩
  have hrun := hw.standard.resolve_firstOf a b
  refine ⟨fun v ha => ?_, fun err ha hfatal => ?_, fun err ha hfatal => ?_⟩
  · rw [hrun, run_bind, exchanges_bind, ha]
    simp [Fetch.goOn]
  · rw [hrun, run_bind, exchanges_bind, ha]
    simp [Fetch.goOn, hfatal]
  · rw [hrun, run_bind, exchanges_bind, ha]
    simp [Fetch.goOn, hfatal]

end World

/-- A contract with the name of the fetcher that falls back. -/
def World.ofDefault : World := World.blank.withContract "Default" "Erc20" Address.zero

/-- A variable that is not set, and a view of the contract. -/
def Event.unset : Event := .seq [.token "Var", .token "x"]

def Event.supply : Event := .seq [.token "Default", .token "supply"]

theorem World.fallback_assoc_ofDefault :
    ofDefault.Built ∧
    ofDefault.resolve (.firstOf (.firstOf .unset .supply) (.token "7")) =
      ofDefault.resolve (.firstOf .unset (.firstOf .supply (.token "7"))) ∧
    (ofDefault.resolve (.firstOf (.token "1") .supply)).run.run reverting () =
      (.ok (.number ⟨1, .plain⟩), ()) ∧
    (ofDefault.resolve (.firstOf .supply (.token "7"))).run.run reverting () =
      (.error (.transport (.revert "paused")), ()) ∧
    (ofDefault.resolve (.firstOf .unset .supply)).run.exchanges reverting () =
      [⟨.read Address.zero "supply" [], .error (.revert "paused")⟩] := by
  have hbuilt : ofDefault.Built := (Built.new new_blank).withContract "Default" "Erc20" _
  have hone : (ofDefault.resolve (.token "1")).run.run reverting () =
      (.ok (.number ⟨1, .plain⟩), ()) := by
    with_unfolding_all rfl
  have hsupply : (ofDefault.resolve .supply).run.run reverting () =
      (.error (.transport (.revert "paused")), ()) := by
    with_unfolding_all rfl
  have hunset : (ofDefault.resolve .unset).run.run reverting () =
      (.error (.invalid (.unsetVariable "x")), ()) := by
    with_unfolding_all rfl
  have hassoc := (hbuilt.fallback_assoc .unset .supply (.token "7")).1
  have hfirst := (hbuilt.fallback_assoc (.token "1") .supply .unset).2 Unit reverting () ()
  have hfatal := (hbuilt.fallback_assoc .supply (.token "7") .unset).2 Unit reverting () ()
  have hsecond := (hbuilt.fallback_assoc .unset .supply .unset).2 Unit reverting () ()
  refine ⟨hbuilt, hassoc, (hfirst.1 _ hone).1, (hfatal.2.1 _ hsupply rfl).1, ?_⟩
  rw [(hsecond.2.2 _ hunset rfl).2]
  with_unfolding_all rfl

end ChainScript
