import ChainScript.Proofs.Dispatch.Settling
import ChainScript.Proofs.Expr.Recursion

/-! # Expressions over values

Where the parts of an expression are resolved without a call and never fail fatally, the search for
its fetcher makes no call. A fetcher of the core that stands first then decides alone: with a value
for each of its parameters it has the last word, and with an expression that has no value behind its
name nothing matches, neither the fetcher nor a contract of its name nor the catch-all.

* `World.Standard.select_settles`: the search over such parts.
* `World.Standard.resolve_applied`: the fetcher has the last word.
* `World.Standard.resolve_unmatched`: nothing matches.
-/

namespace ChainScript
set_option autoImplicit false

open Program Handler

/-- Replies of a new chain, for a computation that makes no call. -/
def Call.anyReply (c : Call) : c.Reply := (MemoryChain.answer (.new 0 0) c).1

/-- A computation that makes no call and never fails fatally. -/
abbrev Passes {α : Type} (x : Action α) : Prop := Settles (fun err => err.isFatal = false) x

/-! ## Readings -/

section Nested

variable {resolve : Event → Action Value} (hr : ∀ e, Passes (resolve e))
include hr

theorem Reading.typed_passes (literal : String → Except Fault Value) (expected : Kind)
    (e : Event) : Passes (Reading.typed resolve literal expected e) := by
  cases e with
  | token text =>
    rw [Reading.typed]
    split
    · exact .pure _
    · rename_i fault _
      obtain ⟨r, hrun, hpasses⟩ := hr (.token text)
      rw [hrun]
      have hfault : Passes (throw (.invalid fault) : Action Value) := .throw rfl
      cases r with
      | ok v =>
        by_cases hkind : v.kind = expected
        · simp only [Program.done_bind, hkind, if_true]
          exact .pure v
        · simp only [Program.done_bind, hkind, if_false]
          exact hfault
      | error err =>
        simp only [Program.done_bind, hpasses err rfl]
        exact hfault
  | seq items =>
    rw [Reading.typed]
    refine (hr (.seq items)).bind fun v => ?_
    split
    · exact .pure _
    · exact .throw rfl

theorem Reading.read_passes (w : World) (e : Event) (reading : Reading) :
    Passes (reading.read resolve w e) := by
  cases reading with
  | core => exact hr e
  | event => exact .pure _
  | literal =>
    cases e with
    | token text => exact .pure _
    | seq items => exact .throw rfl
  | string | bool | number | exp | percent | address =>
    rw [Reading.read]
    exact Reading.typed_passes hr _ _ e

end Nested

/-! ## Selection -/

namespace World.Standard

variable {w : World}

theorem token_passes (hw : w.Standard) (text : String) : Passes (w.resolve (.token text)) := by
  obtain ⟨r, hrun, hresult⟩ := hw.resolve_token text
  refine ⟨r, hrun, fun err herr => ?_⟩
  rw [(hresult err herr).1]
  rfl

/-- The search for a fetcher over parts that pass finds one or comes to no match. Nothing but the
parts is looked at, so that everything else may as well pass. -/
theorem select_settles (hw : w.Standard) {e : Event} (hparts : ∀ x ∈ e.parts, Passes (w.resolve x)) :
    Settles (fun err => ∃ attempted, err = .noMatch coreKind e attempted)
      (select (w.binder w.resolve) coreKind w.registry e) := by
  let f : Event → Action Value := fun x =>
    if x ∈ e.parts then w.resolve x else throw (.invalid (.selfReference x))
  have hf : ∀ x, Passes (f x) := by
    intro x
    by_cases hx : x ∈ e.parts
    · simp only [f, if_pos hx]
      exact hparts x hx
    · simp only [f, if_neg hx]
      exact .throw rfl
  have hsame : ∀ x ∈ e.parts, w.resolve x = f x := by
    intro x hx
    simp only [f, if_pos hx]
  rw [fetcher_select_congr hw.registry_eq hsame]
  exact ChainScript.select_settles (fun reading x => Reading.read_passes hf w x reading) _ _ e

/-! ## Fetchers of the core -/

section Applied

variable {head name description : String} {names : List String} {reading : Reading}
  {formula : Formula} {operands : List Event}

/-- The fetchers tried for a name of the core. -/
theorem candidates_of_core (hw : w.Standard) {h : Fetcher}
    (hcore : Fetcher.core.filter (fun h => h.signature.isNamedIn (.token head :: operands)) = [h]) :
    candidates w.registry (.token head :: operands) = h ::
      (contractCandidates Fetcher.ofContract w.contracts (.token head :: operands) ++
        [Fetcher.literal]) := by
  rw [hw.registry_eq, Fetcher.candidates_registry, hcore]
  rfl

theorem parts_pass (hw : w.Standard) (head : String)
    (hoperands : ∀ x ∈ operands, Passes (w.resolve x)) :
    ∀ x ∈ (Event.seq (.token head :: operands)).parts, Passes (w.resolve x) := by
  intro x hx
  rcases List.mem_cons.mp hx with rfl | hx
  · exact hw.token_passes head
  · exact hoperands x hx

/-- A fetcher of the core with a value for each parameter computes its formula. -/
theorem resolve_applied (hw : w.Standard)
    (hcore : Fetcher.core.filter (fun h => h.signature.isNamedIn (.token head :: operands)) =
      [Fetcher.computed name (names.map fun param => .one param reading) formula description])
    (hoperands : ∀ x ∈ operands, Passes (w.resolve x)) (hlength : operands.length = names.length)
    {vs : List Value}
    (hvs : (w.binder w.resolve).ResolvesEach (fixed Call.anyReply) reading operands () vs ()) :
    (w.resolve (.seq (.token head :: operands))).run =
      .done (formula.value w (BoundArgs.insertAll {} names vs)) := by
  let fetcher := Fetcher.computed name (names.map fun param => .one param reading) formula description
  have hbound : (fetcher.attempt (w.binder w.resolve) (.token head :: operands)).run.run
      (fixed Call.anyReply) () = (.ok ⟨fetcher.signature, .compute formula,
        BoundArgs.insertAll {} names vs⟩, ()) :=
    (attempt_named_ones names).mpr ⟨vs, hvs, hlength, rfl⟩
  have hfirst : (select (w.binder w.resolve) coreKind w.registry
      (.seq (.token head :: operands))).run.run (fixed Call.anyReply) () = _ :=
    select_first (hw.candidates_of_core hcore) hbound
  have hselect := (hw.select_settles (hw.parts_pass head hoperands)).run_eq Call.anyReply
  rw [run_fixed.mp hfirst] at hselect
  rw [resolve_seq_eq_carryOut hw.registry_eq, carryOut, ExceptT.run_bind, hselect]
  rfl

/-- A candidate is bound only where every expression behind the name has a value. -/
theorem has_value_of_bound (hw : w.Standard)
    (hcore : Fetcher.core.filter (fun h => h.signature.isNamedIn (.token head :: operands)) =
      [Fetcher.computed name (names.map fun param => .one param .number) formula description])
    {h : Fetcher} (hh : h ∈ candidates w.registry (.token head :: operands)) {items : List Event}
    (hitems : .seq items ∈ operands) {reply : (c : Call) → c.Reply} {selection : Selection Reading Fetch}
    (hbound : (h.attempt (w.binder w.resolve) (.token head :: operands)).run.run (fixed reply) () =
      (.ok selection, ())) : ∃ v, (w.resolve (.seq items)).run.eval reply = .ok v := by
  rw [hw.candidates_of_core hcore] at hh
  rcases List.mem_cons.mp hh with rfl | hh
  · obtain ⟨vs, hvs, -⟩ := (attempt_named_ones names).mp hbound
    obtain ⟨_, v, _, hread⟩ := hvs.of_mem hitems
    exact ⟨v, run_fixed.mp (binder_seq_ok hread nofun)⟩
  · cases operands with
    | nil => cases hitems
    | cons first others =>
      rcases List.mem_append.mp hh with hh | hh
      · obtain ⟨i, hi, rfl⟩ := mem_contractCandidates hh
        have hview : others ≠ [] ∨ ∃ items, first = .seq items := by
          by_cases hothers : others = []
          · subst hothers
            exact .inr ⟨items, (List.mem_singleton.mp hitems).symm⟩
          · exact .inl hothers
        exact hw.has_values_of_contract hi hview (fun _ _ => rfl) hbound _ hitems
      · rw [List.mem_singleton.mp hh] at hbound
        exact absurd hbound Fetcher.literal_refuses

/-- A fetcher of the core that reads numbers has no match where an expression behind its name has no
value, whatever contracts there are. -/
theorem resolve_unmatched (hw : w.Standard)
    (hcore : Fetcher.core.filter (fun h => h.signature.isNamedIn (.token head :: operands)) =
      [Fetcher.computed name (names.map fun param => .one param .number) formula description])
    (hoperands : ∀ x ∈ operands, Passes (w.resolve x)) {items : List Event}
    (hitems : .seq items ∈ operands) {err : Error}
    (hfails : (w.resolve (.seq items)).run = .done (.error err)) :
    ∃ attempted, (w.resolve (.seq (.token head :: operands))).run =
      .done (.error (.noMatch coreKind (.seq (.token head :: operands)) attempted)) := by
  obtain ⟨r, hselect, hnoMatch⟩ := hw.select_settles (hw.parts_pass head hoperands)
  cases r with
  | error found =>
    obtain ⟨attempted, rfl⟩ := hnoMatch found rfl
    refine ⟨attempted, ?_⟩
    rw [resolve_seq_eq_carryOut hw.registry_eq, carryOut, ExceptT.run_bind, hselect]
    rfl
  | ok selection =>
    have hrun : (select (w.binder w.resolve) coreKind w.registry
        (.seq (.token head :: operands))).run.run (fixed Call.anyReply) () =
          (.ok selection, ()) := by
      rw [hselect]
      rfl
    obtain ⟨h, hh, s, hbound⟩ := select_ok hrun
    obtain ⟨v, hv⟩ := hw.has_value_of_bound hcore hh hitems hbound
    rw [hfails, eval_done] at hv
    cases hv

end Applied

end World.Standard

end ChainScript
