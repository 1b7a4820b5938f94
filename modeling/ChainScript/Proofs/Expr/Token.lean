import ChainScript.Expr.Resolve
import ChainScript.Proofs.World.Built

/-! # Bare tokens

A bare token leaves no element for the parameters of a handler that it names. Such a handler is given
up at once when it needs one, and so is the namespace of a contract; the others have their value
without resolving anything. Behind them the catch-all of the core takes every token as a literal.
So a token is resolved without a call, and only the name of the last contract can fail.
-/

namespace ChainScript
set_option autoImplicit false

open Program Handler

variable {w : World} {resolve : Event → Action Value} {text : String}

/-- A result for a token: a failure can only be that of the last contract where there is none. -/
def TokenResult (w : World) (text : String) (r : Except Error Value) : Prop :=
  ∀ err, r = .error err → err = .invalid .nothingDeployed ∧ w.lastContract = none ∧
    Text.sameLetters "LastContract" text = true

/-- A fetcher tried for a token is given up, or its value is there without a call. -/
def SettlesToken (w : World) (resolve : Event → Action Value) (text : String) (h : Fetcher) : Prop :=
  (∃ reason, (h.attempt (w.binder resolve) [.token text]).run = .done (.error (.failed reason))) ∨
  ∃ selection r, (h.attempt (w.binder resolve) [.token text]).run = .done (.ok selection) ∧
    (selection.effect.run resolve w selection.args).run = .done r ∧ TokenResult w text r

namespace SettlesToken

theorem of_missing (name param description : String) (reading : Reading)
    (ps : List (Param Reading)) (effect : Fetch) :
    SettlesToken w resolve text (named name (.one param reading :: ps) effect description) :=
  .inl ⟨.missing param, by rw [named, attempt_leaf]; rfl⟩

theorem of_contract (i : ContractInstance) : SettlesToken w resolve text (Fetcher.ofContract i) :=
  .inl ⟨.missingRest i.name, by rw [Fetcher.ofContract, namespaced, attempt_group]; rfl⟩

theorem of_formula (name description : String) (ps : List (Param Reading)) (formula : Formula)
    (args : BoundArgs)
    (hps : ((w.binder resolve).params ps {} []).run = .done (.ok (args, [])))
    (hr : TokenResult w text (formula.value w args)) :
    SettlesToken w resolve text (named name ps (.compute formula) description) := by
  refine .inr ⟨⟨(named name ps (.compute formula) description : Fetcher).signature,
    .compute formula, args⟩, formula.value w args, ?_, rfl, hr⟩
  rw [named, attempt_leaf, ExceptT.run_bind]
  change ((w.binder resolve).params ps {} []).run >>= _ = _
  rw [hps]
  rfl

end SettlesToken

theorem TokenResult.ok (v : Value) : TokenResult w text (.ok v) := by
  intro err h
  cases h

theorem TokenResult.lastContract (htext : Text.sameLetters "LastContract" text = true) :
    TokenResult w text (Formula.lastContract.value w {}) := by
  intro err h
  rw [Formula.value] at h
  cases hlast : w.lastContract with
  | some a =>
    rw [hlast] at h
    cases h
  | none =>
    rw [hlast] at h
    cases h
    exact ⟨rfl, rfl, htext⟩

/-- The constants give their values, and lists and arrays of no items theirs. The other fetchers need
an element, except for the last contract. -/
theorem Fetcher.core_settles {h : Fetcher} (hh : h ∈ core)
    (hnamed : h.signature.isNamedIn [.token text] = true) : SettlesToken w resolve text h := by
  simp only [core, List.mem_cons, List.not_mem_nil, or_false] at hh
  rcases hh with rfl | rfl | rfl | rfl | rfl | rfl | rfl | rfl | rfl | rfl | rfl | rfl | rfl | rfl |
    rfl | rfl | rfl | rfl | rfl | rfl | rfl | rfl
  iterate 4 exact .of_formula _ _ _ _ {} rfl (.ok _)
  iterate 10 exact .of_missing _ _ _ _ _ _
  iterate 2 exact .of_formula _ _ _ _ ⟨[("items", .array [])]⟩ rfl (.ok _)
  iterate 2 exact .of_missing _ _ _ _ _ _
  · exact .of_formula _ _ _ _ {} rfl (.lastContract hnamed)
  iterate 2 exact .of_missing _ _ _ _ _ _
  · cases hnamed

theorem Fetcher.literal_settles : SettlesToken w resolve text literal :=
  .inr ⟨⟨literal.signature, .compute .literal, ⟨[("literal", Literal.ofToken w text)]⟩⟩,
    .ok (Literal.ofToken w text), by rw [literal, catchAll, attempt_leaf]; rfl, rfl, .ok _⟩

theorem tryAll_settles {hs : List Fetcher} (hhs : ∀ h ∈ hs, SettlesToken w resolve text h) :
    (∃ selection r, tryAll (w.binder resolve) hs [.token text] = .done (.found selection) ∧
      (selection.effect.run resolve w selection.args).run = .done r ∧ TokenResult w text r) ∨
    ∃ attempted, tryAll (w.binder resolve) hs [.token text] = .done (.abandoned attempted) := by
  induction hs with
  | nil => exact .inr ⟨[], tryAll_nil _ _⟩
  | cons h hs ih =>
    rw [tryAll_cons]
    rcases hhs h (List.mem_cons_self ..) with ⟨reason, hh⟩ | ⟨selection, r, hh, hrun, hr⟩
    · rw [hh]
      rcases ih fun k hk => hhs k (List.mem_cons_of_mem h hk) with
        ⟨selection, r, ht, hrun, hr⟩ | ⟨attempted, ht⟩
      · refine .inl ⟨selection, r, ?_, hrun, hr⟩
        simp [ht, Trial.after]
      · refine .inr ⟨⟨h.label, reason.message⟩ :: attempted, ?_⟩
        simp [ht, Trial.after]
    · refine .inl ⟨selection, r, ?_, hrun, hr⟩
      rw [hh]
      rfl

/-- A bare token is resolved without a call. Only the name of the last contract can fail. -/
theorem World.Standard.resolve_token (hw : w.Standard) (text : String) :
    ∃ r, (w.resolve (.token text)).run = .done r ∧ TokenResult w text r := by
  rw [World.resolve, World.resolveStep, hw.registry_eq]
  rw [fetchValue, ExceptT.run_mk, select_run, Fetcher.candidates_registry]
  have hsettles : ∀ h ∈ (Fetcher.core.filter fun h => h.signature.isNamedIn [.token text]) ++
      (contractCandidates Fetcher.ofContract w.contracts [.token text] ++ [Fetcher.literal]),
      SettlesToken w (fun inner => if inner.size < (Event.token text).size then w.resolve inner
        else throw (.invalid (.selfReference inner))) text h := by
    intro h hh
    rcases List.mem_append.mp hh with hh | hh
    · obtain ⟨hcore, hnamed⟩ := List.mem_filter.mp hh
      exact Fetcher.core_settles hcore hnamed
    · rcases List.mem_append.mp hh with hh | hh
      · obtain ⟨i, -, rfl⟩ := mem_contractCandidates hh
        exact .of_contract i
      · rw [List.mem_singleton.mp hh]
        exact Fetcher.literal_settles
  rcases tryAll_settles hsettles with ⟨selection, r, ht, hrun, hr⟩ | ⟨attempted, ht⟩
  · refine ⟨r, ?_, hr⟩
    rw [Event.elements, ht]
    exact hrun
  · refine ⟨.ok (.string text), ?_, .ok _⟩
    rw [Event.elements, ht]
    rfl

theorem World.Standard.resolve_token_ok (hw : w.Standard) {i : ContractInstance}
    (hi : i ∈ w.contracts.known) (text : String) :
    ∃ v, (w.resolve (.token text)).run = .done (.ok v) := by
  obtain ⟨r, hrun, hr⟩ := hw.resolve_token text
  cases r with
  | ok v => exact ⟨v, hrun⟩
  | error err =>
    obtain ⟨-, hnone, -⟩ := hr err rfl
    obtain ⟨a, hsome⟩ := hw.lastContract_of_known hi
    rw [hnone] at hsome
    cases hsome

end ChainScript
