import ChainScript.Command.Core
import ChainScript.Proofs.Dispatch.Binding
import ChainScript.World

/-! # The handlers of a registry

Both registries are the table of the core followed by one namespace for each known contract. An event
is tried against the handlers of the core that it names, then against the contracts that it names,
whatever their names are, and last against the catch-alls of the core.
-/

namespace ChainScript
set_option autoImplicit false

open Handler

/-! ## Known contracts -/

/-- The contracts behind the names of an index, in the order of the names. -/
def ContractIndex.known (index : ContractIndex) : List ContractInstance :=
  index.names.filterMap index.get?

theorem ContractIndex.flatMap_names {α : Type} (index : ContractIndex) (f : ContractInstance → α) :
    (index.names.flatMap fun name => ((index.get? name).map f).toList) = index.known.map f := by
  unfold known
  induction index.names with
  | nil => rfl
  | cons name names ih =>
    rw [List.flatMap_cons, ih]
    cases hname : index.get? name with
    | none => simp [hname]
    | some i => simp [hname]

section Contracts

variable {ρ ε : Type} {ofContract : ContractInstance → Handler ρ ε} {contracts : ContractIndex}

/-- The handlers of the contracts that an event names. -/
def contractCandidates (ofContract : ContractInstance → Handler ρ ε) (contracts : ContractIndex)
    (elements : List Event) : List (Handler ρ ε) :=
  (contracts.known.map ofContract).filter fun h => h.signature.isNamedIn elements

theorem mem_contractCandidates {elements : List Event} {h : Handler ρ ε}
    (hh : h ∈ contractCandidates ofContract contracts elements) :
    ∃ i ∈ contracts.known, h = ofContract i := by
  obtain ⟨hmem, -⟩ := List.mem_filter.mp hh
  obtain ⟨i, hi, rfl⟩ := List.mem_map.mp hmem
  exact ⟨i, hi, rfl⟩

theorem candidates_known (hnamed : ∀ i, (ofContract i).signature.isCatchAll = false)
    (core : List (Handler ρ ε)) (elements : List Event) :
    candidates (core ++ contracts.known.map ofContract) elements =
      (core.filter fun h => h.signature.isNamedIn elements) ++
        (contractCandidates ofContract contracts elements ++
          core.filter fun h => h.signature.isCatchAll) := by
  have hcatch : (contracts.known.map ofContract).filter (fun h => h.signature.isCatchAll) = [] := by
    rw [List.filter_eq_nil_iff]
    intro h hh
    obtain ⟨i, -, rfl⟩ := List.mem_map.mp hh
    simp [hnamed i]
  rw [candidates, List.filter_append, List.filter_append, hcatch, List.append_nil,
    List.append_assoc]
  rfl

theorem filter_named_congr {name text : String} (h : Text.sameLetters name text = true)
    (core : List (Handler ρ ε)) (rest : List Event) :
    core.filter (fun h => h.signature.isNamedIn (.token text :: rest)) =
      core.filter fun h => h.signature.isNamedIn (.token name :: rest) :=
  List.filter_congr fun k _ => k.signature.isNamedIn_congr h rest

end Contracts

/-- The catch-all of a contract takes the first element for a method and resolves the others. -/
theorem catchAll_method_ok {ε σ : Type} {b : Binder Reading} {answers : Program.Answers σ}
    {s s' : σ} {label description : String} {effect : ε} {elements : List Event}
    {selection : Selection Reading ε} :
    ((catchAll label [.one "method" .string, .each "args" .core] effect description).attempt b
        elements).run.run answers s = (.ok selection, s') ↔
      ∃ method es v vs s₁, elements = method :: es ∧
        (b.resolve .string method).run.run answers s = (.ok v, s₁) ∧
        b.ResolvesEach answers .core es s₁ vs s' ∧
        selection = ⟨(catchAll label [.one "method" .string, .each "args" .core] effect
          description).signature, effect, ⟨[("method", v), ("args", .array vs)]⟩⟩ := by
  refine attempt_leaf_ok.trans ?_
  constructor
  · rintro ⟨args, hp, rfl⟩
    obtain ⟨method, es, v, s₁, hrest, hv, hp⟩ := Binder.params_one.mp hp
    obtain ⟨vs, hvs, hp⟩ := Binder.params_each.mp hp
    cases hp
    exact ⟨method, es, v, vs, s₁, hrest, hv, hvs, rfl⟩
  · rintro ⟨method, es, v, vs, s₁, rfl, hv, hvs, rfl⟩
    refine ⟨_, ?_, rfl⟩
    exact Binder.params_one.mpr ⟨method, es, v, s₁, rfl, hv, Binder.params_each.mpr ⟨vs, hvs, rfl⟩⟩

/-! ## Commands -/

namespace Command

theorem registry_eq (contracts : ContractIndex) :
    registry contracts = core ++ contracts.known.map ofContract := by
  rw [registry, contracts.flatMap_names]

theorem candidates_registry (contracts : ContractIndex) (elements : List Event) :
    candidates (registry contracts) elements =
      (core.filter fun h => h.signature.isNamedIn elements) ++
        contractCandidates ofContract contracts elements := by
  have hcore : core.filter (fun h => h.signature.isCatchAll) = [] := rfl
  rw [registry_eq, candidates_known (fun _ => rfl), hcore, List.append_nil]

theorem ofContract_bound {σ : Type} {b : Binder Reading} {answers : Program.Answers σ} {s s' : σ}
    {text : String} {method : Event} {es : List Event} {selection : Selection Reading Effect}
    (i : ContractInstance)
    (h : ((ofContract i).attempt b (.token text :: method :: es)).run.run answers s =
      (.ok selection, s')) :
    ∃ vs s₁, b.ResolvesEach answers .core es s₁ vs s' := by
  obtain ⟨args, rest, s₁, inner, hp, -, hsel, -⟩ := attempt_group_ok.mp h
  obtain ⟨hp, rfl⟩ := Binder.params_nil.mp hp
  cases hp
  obtain ⟨member, hmem, s₀, hbound⟩ := select_ok hsel
  rw [List.mem_singleton.mp (mem_of_mem_candidates hmem)] at hbound
  obtain ⟨_, _, v, vs, s₂, helements, -, hvs, -⟩ := catchAll_method_ok.mp hbound
  cases helements
  exact ⟨vs, s₂, hvs⟩

@[simp] theorem effects_ofContract (i : ContractInstance) :
    (ofContract i).effects = [.send i.name i.address] := rfl

end Command

/-! ## Fetchers -/

namespace Fetcher

/-- The catch-all of the core: a bare token for a literal. -/
def literal : Fetcher :=
  catchAll "Literal" [.one "literal" .literal] (.compute .literal)
    "A number, hex address or string literal"

theorem candidates_registry (contracts : ContractIndex) (elements : List Event) :
    candidates (core ++ contracts.known.map ofContract) elements =
      (core.filter fun h => h.signature.isNamedIn elements) ++
        (contractCandidates ofContract contracts elements ++ [literal]) :=
  candidates_known (fun _ => rfl) core elements

end Fetcher

end ChainScript
