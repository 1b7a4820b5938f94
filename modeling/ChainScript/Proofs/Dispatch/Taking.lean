import ChainScript.Proofs.Dispatch.Binding

/-! # What parameters take

A parameter that is bound hands events to its reading: one element, each of the elements left, all of
them as one sequence, or none when its value comes from a slot, a fallback or from being absent. What
it hands over are the first elements, and the rest is left for the parameters behind it.

* `Binder.Takes`, `Binder.TakesAll`: how one parameter, or a list of them, was bound in a run.
* `Binder.param_iff_takes`, `Binder.params_iff_takesAll`: binding succeeds exactly in these ways.
* `Binder.TakesAll.elements_eq`: nothing is skipped and nothing is used twice.
-/

namespace ChainScript
set_option autoImplicit false

variable {ρ σ : Type}

/-- What a parameter hands to its reading: nothing, one element, elements one by one, or elements as
one sequence. -/
inductive Handing where
  | none
  | one (e : Event)
  | each (es : List Event)
  | group (es : List Event)

namespace Handing

def elements : Handing → List Event
  | .none => []
  | .one e => [e]
  | .each es => es
  | .group es => es

end Handing

namespace Binder

/-- A parameter was bound to the elements left for it: what it handed to its reading, its value, and
the elements that it left. -/
inductive Takes (b : Binder ρ) (answers : Program.Answers σ) (p : Param ρ) :
    List Event → σ → Handing → Value → List Event → σ → Prop where
  | slot {name : String} {es : List Event} {s : σ} {v : Value} (source : p.source = .slot name)
      (filled : b.slot name = some v) : Takes b answers p es s .none v es s
  | fallback {reading : ρ} {s : σ} {v : Value} (source : p.source = .element reading)
      (fallback : p.fallback = some v) : Takes b answers p [] s .none v [] s
  | absent {reading : ρ} {s : σ} (source : p.source = .element reading)
      (plain : p.variadic = false) (noFallback : p.fallback = none) (nullable : p.nullable = true) :
      Takes b answers p [] s .none .nothing [] s
  | one {reading : ρ} {e : Event} {es : List Event} {s s' : σ} {v : Value}
      (source : p.source = .element reading) (plain : p.variadic = false)
      (value : (b.resolve reading e).run.run answers s = (.ok v, s')) :
      Takes b answers p (e :: es) s (.one e) v es s'
  | each {reading : ρ} {es : List Event} {s s' : σ} {vs : List Value}
      (source : p.source = .element reading) (variadic : p.variadic = true)
      (mapped : p.mapped = true) (needed : es ≠ [] ∨ p.fallback = none)
      (values : b.ResolvesEach answers reading es s vs s') :
      Takes b answers p es s (.each es) (.array vs) [] s'
  | group {reading : ρ} {es : List Event} {s s' : σ} {v : Value}
      (source : p.source = .element reading) (variadic : p.variadic = true)
      (unmapped : p.mapped = false) (needed : es ≠ [] ∨ p.fallback = none)
      (value : (b.resolve reading (.seq es)).run.run answers s = (.ok v, s')) :
      Takes b answers p es s (.group es) v [] s'

variable {b : Binder ρ} {answers : Program.Answers σ} {s s' : σ} {p : Param ρ}
  {elements rest : List Event} {v : Value}

theorem Takes.elements_eq {h : Handing} (ht : b.Takes answers p elements s h v rest s') :
    elements = h.elements ++ rest := by
  cases ht with
  | slot | fallback | absent | one => rfl
  | each | group => exact (List.append_nil _).symm

/-! ## One parameter -/

theorem param_slot {name : String} (hsource : p.source = .slot name) :
    b.param p elements = match b.slot name with
      | some v => pure (v, elements)
      | none => throw (.failed (.unfilled p.name name)) := by
  cases hslot : b.slot name with
  | none => simp [Binder.param, hsource, hslot]
  | some v => simp [Binder.param, hsource, hslot]

theorem param_variadic {reading : ρ} (hsource : p.source = .element reading)
    (hvariadic : p.variadic = true) (hneeded : elements ≠ [] ∨ p.fallback = none) :
    b.param p elements =
      if p.mapped then b.values p.name reading 0 elements >>= fun vs => pure (.array vs, [])
      else b.value (.unresolved p.name) reading (.seq elements) >>= fun v => pure (v, []) := by
  rw [param, hsource]
  dsimp only
  rw [if_pos hvariadic]
  split
  · rename_i hfallback
    rcases hneeded with hne | hnone
    · exact absurd rfl hne
    · rw [hnone] at hfallback
      cases hfallback
  · rfl

theorem param_fallback {reading : ρ} (hsource : p.source = .element reading)
    (hfallback : p.fallback = some v) : b.param p [] = pure (v, []) := by
  rw [param, hsource]
  dsimp only
  rw [hfallback]
  by_cases hvariadic : p.variadic = true
  · rw [if_pos hvariadic]
  · rw [if_neg hvariadic]

theorem param_plain_cons {reading : ρ} {e : Event} {es : List Event}
    (hsource : p.source = .element reading) (hplain : p.variadic = false) :
    b.param p (e :: es) = b.value (.unresolved p.name) reading e >>= fun v => pure (v, es) := by
  rw [param, hsource]
  dsimp only
  rw [hplain]
  rfl

theorem param_plain_nil {reading : ρ} (hsource : p.source = .element reading)
    (hplain : p.variadic = false) (hfallback : p.fallback = none) :
    b.param p [] =
      if p.nullable then pure (.nothing, []) else throw (.failed (.missing p.name)) := by
  rw [param, hsource]
  dsimp only
  rw [hplain, hfallback]
  rfl

/-- A parameter is bound in a run exactly in one of these ways. -/
theorem param_iff_takes :
    (b.param p elements).run.run answers s = (.ok (v, rest), s') ↔
      ∃ h, b.Takes answers p elements s h v rest s' := by
  constructor
  · intro hrun
    cases hsource : p.source with
    | slot name =>
      rw [param_slot hsource] at hrun
      cases hslot : b.slot name with
      | none =>
        rw [hslot] at hrun
        cases hrun
      | some u =>
        rw [hslot] at hrun
        cases hrun
        exact ⟨.none, .slot hsource hslot⟩
    | element reading =>
      have hcases : (elements = [] ∧ ∃ u, p.fallback = some u) ∨
          (elements ≠ [] ∨ p.fallback = none) := by
        cases p.fallback with
        | none => exact .inr (.inr rfl)
        | some u =>
          by_cases hnil : elements = []
          · exact .inl ⟨hnil, u, rfl⟩
          · exact .inr (.inl hnil)
      rcases hcases with ⟨rfl, u, hu⟩ | hneeded
      · rw [param_fallback hsource hu] at hrun
        cases hrun
        exact ⟨.none, .fallback hsource hu⟩
      · cases hvariadic : p.variadic with
        | true =>
          rw [param_variadic hsource hvariadic hneeded] at hrun
          cases hmapped : p.mapped with
          | true =>
            rw [hmapped, if_pos rfl] at hrun
            obtain ⟨vs, s₁, hvs, h⟩ := Program.run_exceptBind_eq_ok.mp hrun
            cases h
            exact ⟨.each elements, .each hsource hvariadic hmapped hneeded (values_ok.mp hvs)⟩
          | false =>
            rw [hmapped, if_neg Bool.false_ne_true] at hrun
            obtain ⟨u, s₁, hu, h⟩ := Program.run_exceptBind_eq_ok.mp hrun
            cases h
            exact ⟨.group elements, .group hsource hvariadic hmapped hneeded (value_ok.mp hu)⟩
        | false =>
          cases elements with
          | cons e es =>
            rw [param_plain_cons hsource hvariadic] at hrun
            obtain ⟨u, s₁, hu, h⟩ := Program.run_exceptBind_eq_ok.mp hrun
            cases h
            exact ⟨.one e, .one hsource hvariadic (value_ok.mp hu)⟩
          | nil =>
            have hnone : p.fallback = none := hneeded.resolve_left fun h => h rfl
            rw [param_plain_nil hsource hvariadic hnone] at hrun
            cases hnullable : p.nullable with
            | true =>
              rw [hnullable, if_pos rfl] at hrun
              cases hrun
              exact ⟨.none, .absent hsource hvariadic hnone hnullable⟩
            | false =>
              rw [hnullable, if_neg Bool.false_ne_true] at hrun
              cases hrun
  · rintro ⟨h, ht⟩
    cases ht with
    | slot source filled => rw [param_slot source, filled]; rfl
    | fallback source fallback => rw [param_fallback source fallback]; rfl
    | absent source plain noFallback nullable =>
      rw [param_plain_nil source plain noFallback, if_pos nullable]
      rfl
    | one source plain value =>
      rw [param_plain_cons source plain]
      exact Program.run_exceptBind_eq_ok.mpr ⟨v, s', value_ok.mpr value, rfl⟩
    | each source variadic mapped needed values =>
      rw [param_variadic source variadic needed, if_pos mapped]
      exact Program.run_exceptBind_eq_ok.mpr ⟨_, s', values_ok.mpr values, rfl⟩
    | group source variadic unmapped needed value =>
      rw [param_variadic source variadic needed, unmapped, if_neg Bool.false_ne_true]
      exact Program.run_exceptBind_eq_ok.mpr ⟨v, s', value_ok.mpr value, rfl⟩

/-! ## Lists of parameters -/

/-- Parameters were bound one after the other, each to the elements that the one before it left. -/
inductive TakesAll (b : Binder ρ) (answers : Program.Answers σ) : List (Param ρ) → BoundArgs →
    List Event → σ → List Handing → BoundArgs → List Event → σ → Prop where
  | nil {bound : BoundArgs} {es : List Event} {s : σ} :
      TakesAll b answers [] bound es s [] bound es s
  | cons {p : Param ρ} {ps : List (Param ρ)} {bound args : BoundArgs} {es mid rest : List Event}
      {s s₁ s' : σ} {h : Handing} {hs : List Handing} {v : Value}
      (head : b.Takes answers p es s h v mid s₁)
      (tail : TakesAll b answers ps (bound.insert p.name v) mid s₁ hs args rest s') :
      TakesAll b answers (p :: ps) bound es s (h :: hs) args rest s'

variable {ps : List (Param ρ)} {bound args : BoundArgs}

theorem params_iff_takesAll :
    (b.params ps bound elements).run.run answers s = (.ok (args, rest), s') ↔
      ∃ hs, b.TakesAll answers ps bound elements s hs args rest s' := by
  induction ps generalizing bound elements s with
  | nil =>
    rw [params_nil]
    constructor
    · rintro ⟨h, rfl⟩
      cases h
      exact ⟨[], .nil⟩
    · rintro ⟨hs, h⟩
      cases h
      exact ⟨rfl, rfl⟩
  | cons p ps ih =>
    rw [params_cons]
    constructor
    · rintro ⟨u, mid, s₁, hp, hps⟩
      obtain ⟨h, head⟩ := param_iff_takes.mp hp
      obtain ⟨hs, tail⟩ := ih.mp hps
      exact ⟨h :: hs, .cons head tail⟩
    · rintro ⟨hs, h⟩
      cases h with
      | cons head tail =>
        exact ⟨_, _, _, param_iff_takes.mpr ⟨_, head⟩, ih.mpr ⟨_, tail⟩⟩

/-- Parameters take the elements from the left: what they hand over, in order, and what they leave
make up the elements that were there. -/
theorem TakesAll.elements_eq {hs : List Handing}
    (h : b.TakesAll answers ps bound elements s hs args rest s') :
    elements = hs.flatMap Handing.elements ++ rest := by
  induction h with
  | nil => rfl
  | cons head _ ih =>
    rw [head.elements_eq, ih, List.flatMap_cons, List.append_assoc]

theorem params_suffix
    (h : (b.params ps bound elements).run.run answers s = (.ok (args, rest), s')) :
    rest <:+ elements := by
  obtain ⟨hs, htakes⟩ := params_iff_takesAll.mp h
  exact ⟨_, htakes.elements_eq.symm⟩

/-- Readings that take every event as it stands. -/
def verbatim : Binder Unit where
  resolve _ e := pure (.event e)
  slot _ := some .nothing

end Binder

end ChainScript
