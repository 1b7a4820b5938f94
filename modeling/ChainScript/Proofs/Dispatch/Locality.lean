import ChainScript.Proofs.Dispatch.Taking

/-! # What the search looks at

A parameter that takes elements one by one hands only elements to its reading. Where all parameters
of a handler do, binding it looks at nothing but the elements that its name leaves over: binders that
have the same slots and the same readings of those elements bind alike, and select alike.

* `Handler.parameters`: the parameters of a handler and of the handlers below it.
* `Handler.attempt_congr`, `select_congr`: binding and selection look at elements only.
-/

namespace ChainScript
set_option autoImplicit false

open Program Handler

variable {ρ ε : Type}

/-! ## Parameters of a tree -/

namespace Handler

mutual

def parameters : Handler ρ ε → List (Param ρ)
  | .leaf sig _ => sig.params
  | .group sig members => sig.params ++ parametersOf members

def parametersOf : List (Handler ρ ε) → List (Param ρ)
  | [] => []
  | h :: hs => h.parameters ++ parametersOf hs

end

theorem parameters_subset {hs : List (Handler ρ ε)} {h : Handler ρ ε} (hh : h ∈ hs) {p : Param ρ}
    (hp : p ∈ h.parameters) : p ∈ parametersOf hs := by
  induction hs with
  | nil => simp at hh
  | cons k hs ih =>
    rw [parametersOf, List.mem_append]
    rcases List.mem_cons.mp hh with rfl | hh
    · exact .inl hp
    · exact .inr (ih hh)

end Handler

theorem Signature.mem_of_mem_remaining {sig : Signature ρ} {elements : List Event} {x : Event}
    (h : x ∈ sig.remaining elements) : x ∈ elements := by
  unfold remaining at h
  split at h
  · exact h
  · exact List.mem_of_mem_eraseIdx h

/-! ## Binders that agree -/

/-- A parameter takes elements one by one, and two binders read those among the elements alike, or
fill its slot alike. -/
structure Binder.AgreeFor (b b' : Binder ρ) (es : List Event) (p : Param ρ) : Prop where
  oneByOne : p.variadic = true → p.mapped = true
  slot : ∀ name, p.source = .slot name → b.slot name = b'.slot name
  resolve : ∀ reading, p.source = .element reading →
    ∀ x ∈ es, b.resolve reading x = b'.resolve reading x

namespace Binder

variable {b b' : Binder ρ} {elements : List Event} {p : Param ρ}

theorem AgreeFor.mono (h : AgreeFor b b' elements p) {es : List Event}
    (hes : ∀ x ∈ es, x ∈ elements) : AgreeFor b b' es p :=
  ⟨h.oneByOne, h.slot, fun reading hsource x hx => h.resolve reading hsource x (hes x hx)⟩

theorem value_congr {reading : ρ} {e : Event} (h : b.resolve reading e = b'.resolve reading e)
    (blame : Error → BindFailure) : b.value blame reading e = b'.value blame reading e := by
  rw [value, value, h]

theorem values_congr {reading : ρ} {es : List Event}
    (h : ∀ x ∈ es, b.resolve reading x = b'.resolve reading x) (name : String) (index : Nat) :
    b.values name reading index es = b'.values name reading index es := by
  induction es generalizing index with
  | nil => rfl
  | cons e es ih =>
    have htail := ih (fun x hx => h x (List.mem_cons_of_mem e hx)) (index + 1)
    rw [values, values, value_congr (h e (List.mem_cons_self ..)), htail]

theorem param_congr (h : AgreeFor b b' elements p) :
    b.param p elements = b'.param p elements := by
  cases hsource : p.source with
  | slot name => rw [param_slot hsource, param_slot hsource, h.slot name hsource]
  | element reading =>
    have hagree := h.resolve reading hsource
    by_cases hneeded : elements ≠ [] ∨ p.fallback = none
    · cases hvariadic : p.variadic with
      | true =>
        have hmapped := h.oneByOne hvariadic
        rw [param_variadic hsource hvariadic hneeded, param_variadic hsource hvariadic hneeded,
          if_pos hmapped, if_pos hmapped, values_congr hagree]
      | false =>
        cases elements with
        | cons e es =>
          rw [param_plain_cons hsource hvariadic, param_plain_cons hsource hvariadic,
            value_congr (hagree e (List.mem_cons_self ..))]
        | nil =>
          have hnone := hneeded.resolve_left fun hne => hne rfl
          rw [param_plain_nil hsource hvariadic hnone, param_plain_nil hsource hvariadic hnone]
    · obtain ⟨hnil, hfallback⟩ := not_or.mp hneeded
      obtain ⟨v, hv⟩ := Option.ne_none_iff_exists'.mp hfallback
      obtain rfl := Classical.not_not.mp hnil
      rw [param_fallback hsource hv, param_fallback hsource hv]

/-- What a parameter leaves to those behind it are elements as well. -/
theorem params_congr {ps : List (Param ρ)} (h : ∀ p ∈ ps, AgreeFor b b' elements p)
    (bound : BoundArgs) :
    b.params ps bound elements = b'.params ps bound elements := by
  induction ps generalizing bound elements with
  | nil => rfl
  | cons p ps ih =>
    rw [params, params, param_congr (h p (List.mem_cons_self ..))]
    refine exceptBind_congr_of_run fun σ answers s s' r hrun => ?_
    obtain ⟨v, rest⟩ := r
    obtain ⟨handing, htakes⟩ := param_iff_takes.mp hrun
    have hrest : ∀ x ∈ rest, x ∈ elements := by
      intro x hx
      rw [htakes.elements_eq]
      exact List.mem_append_right _ hx
    exact ih (fun q hq => (h q (List.mem_cons_of_mem p hq)).mono hrest) _

end Binder

/-! ## Handlers -/

section Search

variable {b b' : Binder ρ}

theorem Handler.tryAll_congr {hs : List (Handler ρ ε)} {elements : List Event}
    (h : ∀ k ∈ hs, k.attempt b elements = k.attempt b' elements) :
    tryAll b hs elements = tryAll b' hs elements := by
  induction hs with
  | nil => rw [tryAll_nil, tryAll_nil]
  | cons k hs ih =>
    have htail := ih fun j hj => h j (List.mem_cons_of_mem k hj)
    rw [tryAll_cons, tryAll_cons, h k (List.mem_cons_self ..), htail]

theorem select_congr {hs : List (Handler ρ ε)} {e : Event}
    (h : ∀ k ∈ candidates hs e.elements, k.attempt b e.elements = k.attempt b' e.elements)
    (kind : String) : select b kind hs e = select b' kind hs e := by
  apply ExceptT.ext
  rw [select_run, select_run, tryAll_congr h]

/-- Binding a handler looks at the elements that its name leaves over. The members of a group see
what its parameters leave of those. -/
theorem Handler.attempt_congr (h : Handler ρ ε) {elements : List Event}
    (hagree : ∀ p ∈ h.parameters, b.AgreeFor b' (h.signature.remaining elements) p) :
    h.attempt b elements = h.attempt b' elements := by
  induction h using Handler.tree generalizing elements with
  | leaf sig effect =>
    have hown : ∀ p ∈ sig.params, b.AgreeFor b' (sig.remaining elements) p := hagree
    rw [attempt_leaf, attempt_leaf, Binder.params_congr hown]
  | group sig members ih =>
    simp only [parameters, List.mem_append] at hagree
    have hown : ∀ p ∈ sig.params, b.AgreeFor b' (sig.remaining elements) p :=
      fun p hp => hagree p (.inl hp)
    rw [attempt_group, attempt_group, Binder.params_congr hown]
    refine exceptBind_congr_of_run fun σ answers s s' r hrun => ?_
    obtain ⟨args, rest⟩ := r
    have hrest := (Binder.params_suffix hrun).subset
    cases rest with
    | nil => rfl
    | cons e rest =>
      have hselect : select b sig.label members (.seq (e :: rest)) =
          select b' sig.label members (.seq (e :: rest)) := by
        refine select_congr (fun k hk => ?_) _
        have hmem := mem_of_mem_candidates hk
        refine ih k hmem fun p hp => ?_
        have hbelow := hagree p (.inr (parameters_subset hmem hp))
        exact hbelow.mono fun x hx => hrest (Signature.mem_of_mem_remaining hx)
      dsimp only
      rw [hselect]

end Search

end ChainScript
