import ChainScript.Proofs.Dispatch.Locality
import ChainScript.Proofs.Expr.Application

/-! # What resolution comes back for

A reading resolves the event that it is given, or nothing. A fetcher with a fallback resolves events
that it was handed. So one level of resolution comes back only for the elements of a sequence, and
for nothing at all when the event is a token: the handlers that a token names have no element left,
and the catch-all behind them reads the token as a literal.

* `Reading.read_once`: a reading resolves its own event, once, or nothing.
* `World.resolveStep_congr`: one level of resolution looks at the parts of its event.
-/

namespace ChainScript
set_option autoImplicit false

open Program Handler

/-! ## Parts of an event -/

/-- The events inside an event: the elements of a sequence, and none in a token. -/
def Event.parts : Event → List Event
  | .token _ => []
  | .seq items => items

theorem Event.size_pos (e : Event) : 0 < e.size := by
  cases e <;> (unfold Event.size; omega)

theorem Event.size_lt_of_mem_parts {e x : Event} (h : x ∈ e.parts) : x.size < e.size := by
  cases e with
  | token text => cases h
  | seq items => exact Event.size_lt_of_mem h

theorem Event.mem_parts_of_elements {e x first : Event} {rest : List Event}
    (helements : e.elements = first :: rest) (hx : x ∈ rest) : x ∈ e.parts := by
  cases e with
  | token text =>
    cases helements
    cases hx
  | seq items =>
    change items = first :: rest at helements
    rw [helements]
    exact List.mem_cons_of_mem first hx

theorem Signature.mem_parts_of_named {ρ : Type} {sig : Signature ρ} {e x : Event}
    (hnamed : sig.isNamedIn e.elements = true) (hx : x ∈ sig.remaining e.elements) :
    x ∈ e.parts := by
  cases e with
  | token text =>
    have hcatch : sig.isCatchAll = false := by
      cases hc : sig.isCatchAll with
      | false => rfl
      | true => rw [isNamedIn_catchAll hc] at hnamed; cases hnamed
    have hpos : sig.namePosition = 0 := Nat.lt_one_iff.mp (namePosition_lt hnamed)
    rw [remaining, hcatch, hpos] at hx
    cases hx
  | seq items => exact mem_of_mem_remaining hx

/-! ## Readings -/

namespace Reading

variable (w : World) (e : Event)

theorem typed_once (literal : String → Except Fault Value) (expected : Kind) :
    (∃ r, ∀ f, typed f literal expected e = r) ∨
      ∃ next, ∀ f : Event → Action Value,
        (typed f literal expected e).run = (f e).run >>= next := by
  cases e with
  | token text =>
    cases hliteral : literal text with
    | ok v =>
      refine .inl ⟨pure v, fun f => ?_⟩
      rw [typed, hliteral]
    | error fault =>
      exact .inr ⟨_, fun f => by rw [typed, hliteral]; exact rfl⟩
  | seq items =>
    exact .inr ⟨_, fun f => by rw [typed]; exact ExceptT.run_bind ..⟩

/-- A reading is carried out without resolving anything, or it resolves its event first and once. -/
theorem read_once (reading : Reading) :
    (∃ r, ∀ f, reading.read f w e = r) ∨
      ∃ next, ∀ f : Event → Action Value, (reading.read f w e).run = (f e).run >>= next := by
  cases reading with
  | core => exact .inr ⟨.done, fun f => (Program.bind_done _).symm⟩
  | event => exact .inl ⟨_, fun f => rfl⟩
  | literal => exact .inl ⟨_, fun f => rfl⟩
  | string | bool | number | exp | percent | address =>
    simp only [read]
    exact typed_once e _ _

theorem read_congr (reading : Reading) {f g : Event → Action Value} (h : f e = g e) :
    reading.read f w e = reading.read g w e := by
  rcases read_once w e reading with ⟨r, hr⟩ | ⟨next, hnext⟩
  · rw [hr f, hr g]
  · apply ExceptT.ext
    rw [hnext f, hnext g, h]

end Reading

/-! ## Handlers behind a name -/

section Nested

variable {w : World} {e : Event} {f g : Event → Action Value}

theorem attempt_named_congr {ε : Type} {h : Handler Reading ε}
    (hone : ∀ p ∈ h.parameters, p.variadic = true → p.mapped = true)
    (hnamed : h.signature.isNamedIn e.elements = true) (hfg : ∀ x ∈ e.parts, f x = g x) :
    h.attempt (w.binder f) e.elements = h.attempt (w.binder g) e.elements := by
  refine Handler.attempt_congr h fun p hp => ⟨hone p hp, fun _ _ => rfl, ?_⟩
  intro reading _ x hx
  exact Reading.read_congr w x reading (hfg x (Signature.mem_parts_of_named hnamed hx))

theorem literal_attempt_congr (elements : List Event) :
    Fetcher.literal.attempt (w.binder f) elements =
      Fetcher.literal.attempt (w.binder g) elements := by
  refine Handler.attempt_congr _ fun p hp => ?_
  rw [List.mem_singleton.mp hp]
  refine ⟨nofun, fun _ _ => rfl, fun reading hsource x _ => ?_⟩
  cases hsource
  rfl

end Nested

/-! ## Fetchers -/

namespace Fetcher

theorem core_oneByOne : ∀ p ∈ parametersOf core, p.variadic = true → p.mapped = true := by
  decide

theorem ofContract_oneByOne (i : ContractInstance) :
    ∀ p ∈ (ofContract i).parameters, p.variadic = true → p.mapped = true := by
  have hparameters : (ofContract i).parameters =
      [.one "method" .string, .each "args" .core] := rfl
  rw [hparameters]
  simp [Param.one, Param.each]

/-- The fetcher that resolves one of two expressions. -/
def firstOf : Fetcher :=
  named "Default" [.one "expr" .event, .one "fallback" .event] .firstOf
    "Value of `expr`, or of `fallback` when `expr` cannot be resolved"

/-- A fetcher of the core is the one in the registry with an effect that neither the others nor the
contracts have. -/
theorem eq_of_registry_effect {front back : List Fetcher} {h k : Fetcher} {effect : Fetch}
    (hcore : core = front ++ k :: back) (hfront : effect ∉ effectsOf front)
    (hback : effect ∉ effectsOf back) (hcontract : ∀ i, effect ∉ (ofContract i).effects)
    {contracts : ContractIndex} (hh : h ∈ core ++ contracts.known.map ofContract)
    (he : effect ∈ h.effects) : h = k := by
  rcases List.mem_append.mp hh with hh | hh
  · rw [hcore] at hh
    exact eq_of_effect hfront hback hh he
  · obtain ⟨i, -, rfl⟩ := List.mem_map.mp hh
    exact absurd he (hcontract i)

theorem effects_ofContract (i : ContractInstance) : (ofContract i).effects =
    [.compute (.constant (.address i.address)), .compute (.constant (.string i.artifact)),
      .view i.address] := rfl

theorem eq_firstOf_of_effect {contracts : ContractIndex} {h : Fetcher}
    (hh : h ∈ core ++ contracts.known.map ofContract) (he : Fetch.firstOf ∈ h.effects) :
    h = firstOf := by
  have hcore : core = core.take 13 ++ firstOf :: core.drop 14 := rfl
  refine eq_of_registry_effect hcore ?_ ?_ (fun i => ?_) hh he
  · simp [core, effectsOf, effects, computed, constant, arithmetic, named]
  · simp [core, effectsOf, effects, computed, catchAll, named]
  · simp [effects_ofContract]

theorem firstOf_bound {σ : Type} {w : World} {f : Event → Action Value} {answers : Answers σ}
    {s s' : σ} {text : String} {rest : List Event} {selection : Selection Reading Fetch}
    (h : (firstOf.attempt (w.binder f) (.token text :: rest)).run.run answers s =
      (.ok selection, s')) :
    ∃ x y, rest = [x, y] ∧
      selection = ⟨firstOf.signature, .firstOf, ⟨[("expr", .event x), ("fallback", .event y)]⟩⟩ := by
  obtain ⟨args, hp, rfl⟩ := attempt_leaf_ok.mp h
  obtain ⟨x, rest₁, v, s₁, hrest, hx, hp⟩ := Binder.params_one.mp hp
  obtain ⟨y, rest₂, u, s₂, rfl, hy, hp⟩ := Binder.params_one.mp hp
  obtain ⟨hp, rfl⟩ := Binder.params_nil.mp hp
  cases hx
  cases hy
  cases hp
  exact ⟨x, y, hrest, rfl⟩

end Fetcher

/-! ## One level of resolution -/

namespace World

variable {w : World} {e : Event} {f g : Event → Action Value}

theorem fetcher_select_congr
    (hregistry : w.registry = Fetcher.core ++ w.contracts.known.map Fetcher.ofContract)
    (hfg : ∀ x ∈ e.parts, f x = g x) :
    select (w.binder f) coreKind w.registry e = select (w.binder g) coreKind w.registry e := by
  refine select_congr (fun h hh => ?_) _
  rw [hregistry, Fetcher.candidates_registry] at hh
  rcases List.mem_append.mp hh with hh | hh
  · obtain ⟨hcore, hnamed⟩ := List.mem_filter.mp hh
    exact attempt_named_congr (fun p hp => Fetcher.core_oneByOne p (parameters_subset hcore hp))
      hnamed hfg
  · rcases List.mem_append.mp hh with hh | hh
    · obtain ⟨i, -, rfl⟩ := mem_contractCandidates hh
      exact attempt_named_congr (Fetcher.ofContract_oneByOne i) (List.mem_filter.mp hh).2 hfg
    · rw [List.mem_singleton.mp hh]
      exact literal_attempt_congr e.elements

/-- What one level of resolution does depends on how the parts of the event are resolved, and on
nothing else that is resolved. -/
theorem resolveStep_congr
    (hregistry : w.registry = Fetcher.core ++ w.contracts.known.map Fetcher.ofContract)
    (hfg : ∀ x ∈ e.parts, f x = g x) : w.resolveStep f e = w.resolveStep g e := by
  rw [resolveStep, resolveStep, fetchValue, fetchValue, fetcher_select_congr hregistry hfg]
  congr 1
  refine bind_congr_of_run fun σ answers s s' r hrun => ?_
  rcases r with err | selection
  · cases err <;> cases e <;> rfl
  · cases heffect : selection.effect with
    | compute formula | call | view target => simp only [heffect, Fetch.run]
    | firstOf =>
      rw [hregistry] at hrun
      obtain ⟨text, rest, s₀, helements, -, hbound⟩ :=
        bound_of_effect (fun h => Fetcher.eq_firstOf_of_effect) rfl rfl hrun heffect
      obtain ⟨x, y, rfl, rfl⟩ := Fetcher.firstOf_bound hbound
      have hx : f x = g x := hfg x (Event.mem_parts_of_elements helements (by simp))
      have hy : f y = g y := hfg y (Event.mem_parts_of_elements helements (by simp))
      change (Fetch.resolveFirst f x y).run = (Fetch.resolveFirst g x y).run
      rw [Fetch.resolveFirst, Fetch.resolveFirst, hx, hy]

/-- An event is resolved in one level over the resolution of its parts. -/
theorem resolve_eq_resolveStep
    (hregistry : w.registry = Fetcher.core ++ w.contracts.known.map Fetcher.ofContract)
    (e : Event) : w.resolve e = w.resolveStep w.resolve e := by
  rw [resolve]
  refine resolveStep_congr hregistry fun x hx => ?_
  rw [if_pos (Event.size_lt_of_mem_parts hx)]

theorem resolve_seq_eq_carryOut
    (hregistry : w.registry = Fetcher.core ++ w.contracts.known.map Fetcher.ofContract)
    (items : List Event) :
    w.resolve (.seq items) = carryOut (w.binder w.resolve) (fun f args => f.run w.resolve w args)
      coreKind w.registry (.seq items) := by
  rw [resolve_eq_resolveStep hregistry, resolveStep, fetchValue_seq]

end World

end ChainScript
