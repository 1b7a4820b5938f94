import ChainScript.Proofs.Expr.Reading
import ChainScript.Proofs.Expr.Token

/-! # Fetchers applied to elements

A sequence that starts with the name of a fetcher of the core is tried against that fetcher, then
against the contracts of the same name, and last against the catch-all of the core, which takes one
element only. The elements are resolved as they are on their own, since they are smaller. A contract
takes the first of them for the name of a method and resolves the others.

Comparison is settled here: the fetcher and a contract of its name ask for the same elements, so the
contract never has the last word.
-/

namespace ChainScript
set_option autoImplicit false

open Program Handler

variable {σ : Type} {w : World} {answers : Answers σ} {s s' : σ}

/-! ## Elements of a sequence -/

theorem Event.size_lt_of_mem {e : Event} {items : List Event} (h : e ∈ items) :
    e.size < (Event.seq items).size := by
  rw [Event.size]
  induction items with
  | nil => cases h
  | cons x xs ih =>
    rw [Event.sizeList]
    rcases List.mem_cons.mp h with rfl | h
    · omega
    · have hxs := ih h
      omega

namespace World

/-- How the events below another one are resolved. -/
def resolveBelow (w : World) (e inner : Event) : Action Value :=
  if inner.size < e.size then w.resolve inner else throw (.invalid (.selfReference inner))

theorem resolveBelow_of_mem {e : Event} {items : List Event} (h : e ∈ items) :
    w.resolveBelow (.seq items) e = w.resolve e := by
  rw [resolveBelow, if_pos (Event.size_lt_of_mem h)]

theorem resolve_seq (w : World) (items : List Event) :
    w.resolve (.seq items) = carryOut (w.binder (w.resolveBelow (.seq items)))
      (fun f args => f.run (w.resolveBelow (.seq items)) w args) coreKind w.registry
      (.seq items) := by
  rw [resolve, resolveStep, fetchValue_seq]
  rfl

end World

/-! ## Contracts and the catch-all -/

namespace Fetcher

variable {b : Binder Reading} {selection : Selection Reading Fetch} {text : String}
  {method : Event} {es : List Event}

/-- A constant behind the name of a contract takes one element only, a token. -/
theorem constant_refuses {name description : String} {value : Value} {hs : List Fetcher}
    (hview : es ≠ [] ∨ ∃ items, method = .seq items)
    (hmem : constant name value description ∈ candidates hs (method :: es)) :
    ((constant name value description).attempt b (method :: es)).run.run answers s ≠
      (.ok selection, s') := by
  intro h
  obtain ⟨args, hp, -⟩ := attempt_leaf_ok.mp h
  obtain ⟨hp, -⟩ := Binder.params_nil.mp hp
  rcases hview with hes | ⟨items, rfl⟩
  · cases hp
    exact hes rfl
  · rcases named_or_catchAll hmem with hnamed | hcatch
    · cases hnamed
    · cases hcatch

/-- Elements that are more than one token are bound by the view of a contract. -/
theorem ofContract_bound (i : ContractInstance) (hview : es ≠ [] ∨ ∃ items, method = .seq items)
    (h : ((ofContract i).attempt b (.token text :: method :: es)).run.run answers s =
      (.ok selection, s')) :
    ∃ v vs s₀ s₁, (b.resolve .string method).run.run answers s₀ = (.ok v, s₁) ∧
      b.ResolvesEach answers .core es s₁ vs s' := by
  obtain ⟨args, rest, s₁, inner, hp, -, hsel, -⟩ := attempt_group_ok.mp h
  obtain ⟨hp, rfl⟩ := Binder.params_nil.mp hp
  cases hp
  obtain ⟨member, hmem, s₀, hbound⟩ := select_ok hsel
  have hmember := mem_of_mem_candidates hmem
  simp only [List.mem_cons, List.not_mem_nil, or_false] at hmember
  rcases hmember with rfl | rfl | rfl
  · exact absurd hbound (constant_refuses hview hmem)
  · exact absurd hbound (constant_refuses hview hmem)
  · obtain ⟨_, _, v, vs, s₂, helements, hv, hvs, -⟩ := catchAll_method_ok.mp hbound
    cases helements
    exact ⟨v, vs, s₀, s₂, hv, hvs⟩

theorem literal_refuses {e₁ e₂ : Event} :
    (literal.attempt b (e₁ :: e₂ :: es)).run.run answers s ≠ (.ok selection, s') := by
  intro h
  obtain ⟨args, hp, -⟩ := attempt_leaf_ok.mp h
  obtain ⟨e, rest, v, s₁, hrest, -, hp⟩ := Binder.params_one.mp hp
  cases hrest
  obtain ⟨hp, -⟩ := Binder.params_nil.mp hp
  cases hp

end Fetcher

/-- In a standard world, a view of a contract bound to a name with elements behind it shows that each
of them has a value. The first one may be a token for a method: it has a value since a contract is
known. -/
theorem World.Standard.has_values_of_contract (hw : w.Standard) {i : ContractInstance}
    (hi : i ∈ w.contracts.known) {reply : (c : Call) → c.Reply} {f : Event → Action Value}
    {text : String} {method : Event} {es : List Event}
    (hview : es ≠ [] ∨ ∃ items, method = .seq items) (hf : ∀ x ∈ method :: es, f x = w.resolve x)
    {selection : Selection Reading Fetch}
    (h : ((Fetcher.ofContract i).attempt (w.binder f) (.token text :: method :: es)).run.run
      (fixed reply) () = (.ok selection, ())) :
    ∀ x ∈ method :: es, ∃ v, (w.resolve x).run.eval reply = .ok v := by
  obtain ⟨v, vs, _, _, hmethod, hvs⟩ := Fetcher.ofContract_bound i hview h
  intro x hx
  rcases List.mem_cons.mp hx with rfl | hes
  · cases x with
    | token name =>
      obtain ⟨v, hv⟩ := hw.resolve_token_ok hi name
      exact ⟨v, by rw [hv, eval_done]⟩
    | seq items =>
      have hrun := binder_seq_ok hmethod nofun
      rw [hf _ hx] at hrun
      exact ⟨v, run_fixed.mp hrun⟩
  · obtain ⟨_, u, _, hrun⟩ := hvs.of_mem hes
    have hu : (f x).run.eval reply = .ok u := run_fixed.mp hrun
    rw [hf x hx] at hu
    exact ⟨u, hu⟩

/-! ## Comparison -/

namespace Fetcher

def equal : Fetcher :=
  computed "Equal" [.one "expected" .core, .one "actual" .core] .equal
    "Whether two values compare equal"

theorem core_named_equal (rest : List Event) :
    core.filter (fun h => h.signature.isNamedIn (.token "Equal" :: rest)) = [equal] := rfl

def equalSelection (v₁ v₂ : Value) : Selection Reading Fetch :=
  ⟨equal.signature, .compute .equal, BoundArgs.insertAll {} ["expected", "actual"] [v₁, v₂]⟩

theorem equalSelection_run (resolve : Event → Action Value) (w : World) (v₁ v₂ : Value) :
    ((equalSelection v₁ v₂).effect.run resolve w (equalSelection v₁ v₂).args).run =
      .done (match v₁.compare v₂ with
        | .ok r => .ok (.bool r)
        | .error kinds => .error (.incomparable kinds)) := by
  change Program.done _ = Program.done _
  congr 1

theorem equal_attempt_ok {b : Binder Reading} {reply : (c : Call) → c.Reply} {text : String}
    {e₁ e₂ : Event} {selection : Selection Reading Fetch} :
    (equal.attempt b [.token text, e₁, e₂]).run.run (fixed reply) () = (.ok selection, ()) ↔
      ∃ v₁ v₂, (b.resolve .core e₁).run.eval reply = .ok v₁ ∧
        (b.resolve .core e₂).run.eval reply = .ok v₂ ∧ selection = equalSelection v₁ v₂ := by
  refine (attempt_named_ones ["expected", "actual"]).trans ?_
  constructor
  · rintro ⟨vs, hvs, -, rfl⟩
    obtain ⟨v₁, v₂, h₁, h₂, rfl⟩ := Binder.resolvesEach_fixed_two.mp hvs
    exact ⟨v₁, v₂, h₁, h₂, rfl⟩
  · rintro ⟨v₁, v₂, h₁, h₂, rfl⟩
    exact ⟨[v₁, v₂], Binder.resolvesEach_fixed_two.mpr ⟨v₁, v₂, h₁, h₂, rfl⟩, rfl, rfl⟩

end Fetcher

namespace World.Standard

variable {reply : (c : Call) → c.Reply} {e₁ e₂ : Event} {selection : Selection Reading Fetch}

theorem equal_bound_below (w : World) :
    (Fetcher.equal.attempt (w.binder (w.resolveBelow (.seq [.token "Equal", e₁, e₂])))
        [.token "Equal", e₁, e₂]).run.run (fixed reply) () = (.ok selection, ()) ↔
      ∃ v₁ v₂, (w.resolve e₁).run.eval reply = .ok v₁ ∧ (w.resolve e₂).run.eval reply = .ok v₂ ∧
        selection = Fetcher.equalSelection v₁ v₂ := by
  rw [Fetcher.equal_attempt_ok]
  change (∃ v₁ v₂, (w.resolveBelow _ e₁).run.eval reply = .ok v₁ ∧
    (w.resolveBelow _ e₂).run.eval reply = .ok v₂ ∧ _) ↔ _
  rw [resolveBelow_of_mem (by simp), resolveBelow_of_mem (by simp)]

theorem select_equal (hw : w.Standard) :
    (select (w.binder (w.resolveBelow (.seq [.token "Equal", e₁, e₂]))) coreKind w.registry
        (.seq [.token "Equal", e₁, e₂])).run.run (fixed reply) () = (.ok selection, ()) ↔
      ∃ v₁ v₂, (w.resolve e₁).run.eval reply = .ok v₁ ∧ (w.resolve e₂).run.eval reply = .ok v₂ ∧
        selection = Fetcher.equalSelection v₁ v₂ := by
  have hc : candidates w.registry [.token "Equal", e₁, e₂] = Fetcher.equal ::
      (contractCandidates Fetcher.ofContract w.contracts [.token "Equal", e₁, e₂] ++
        [Fetcher.literal]) := by
    rw [hw.registry_eq, Fetcher.candidates_registry, Fetcher.core_named_equal]
    rfl
  rw [← equal_bound_below]
  refine select_eq_first hc fun k hk other hother => ?_
  rcases List.mem_append.mp hk with hk | hk
  · obtain ⟨i, hi, rfl⟩ := mem_contractCandidates hk
    have hvalues := hw.has_values_of_contract hi (.inl (List.cons_ne_nil _ _))
      (fun x hx => resolveBelow_of_mem (List.mem_cons_of_mem _ hx)) hother
    obtain ⟨v₁, h₁⟩ := hvalues e₁ (by simp)
    obtain ⟨v₂, h₂⟩ := hvalues e₂ (by simp)
    exact ⟨_, (equal_bound_below w).mpr ⟨v₁, v₂, h₁, h₂, rfl⟩⟩
  · rw [List.mem_singleton.mp hk] at hother
    exact absurd hother Fetcher.literal_refuses

/-- A comparison has a value exactly when its elements have and can be compared, whatever contracts
are known. -/
theorem resolve_equal (hw : w.Standard) {v : Value} :
    (w.resolve (.seq [.token "Equal", e₁, e₂])).run.eval reply = .ok v ↔
      ∃ v₁ v₂ r, (w.resolve e₁).run.eval reply = .ok v₁ ∧ (w.resolve e₂).run.eval reply = .ok v₂ ∧
        v₁.compare v₂ = .ok r ∧ v = .bool r := by
  rw [← run_fixed, resolve_seq, carryOut, run_exceptBind_eq_ok]
  constructor
  · rintro ⟨selection, _, hsel, hrun⟩
    obtain ⟨v₁, v₂, h₁, h₂, rfl⟩ := hw.select_equal.mp hsel
    rw [Fetcher.equalSelection_run] at hrun
    cases hcompare : v₁.compare v₂ with
    | ok r =>
      rw [hcompare] at hrun
      cases hrun
      exact ⟨v₁, v₂, r, h₁, h₂, hcompare, rfl⟩
    | error kinds =>
      rw [hcompare] at hrun
      cases hrun
  · rintro ⟨v₁, v₂, r, h₁, h₂, hcompare, rfl⟩
    refine ⟨_, (), hw.select_equal.mpr ⟨v₁, v₂, h₁, h₂, rfl⟩, ?_⟩
    rw [Fetcher.equalSelection_run, hcompare]
    rfl

end World.Standard

end ChainScript
