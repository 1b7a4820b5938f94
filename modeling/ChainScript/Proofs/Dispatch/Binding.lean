import ChainScript.Proofs.Dispatch.Search

/-! # What binding takes

When a run binds the parameters of a handler, and what it binds them to. Each kind of parameter
that the tables use has one equivalence, read from left to right to take a run of `Binder.params`
apart and from right to left to build one.
-/

namespace ChainScript
set_option autoImplicit false

variable {ρ ε σ : Type}

/-! ## Names -/

theorem Text.sameLetters_self (text : String) : Text.sameLetters text text = true := by
  rw [Text.sameLetters]
  exact BEq.rfl

theorem Text.sameLetters_congr {name text : String} (h : Text.sameLetters name text = true)
    (other : String) : Text.sameLetters other text = Text.sameLetters other name := by
  unfold Text.sameLetters at h ⊢
  rw [eq_of_beq h]

namespace Signature

theorem isNamedIn_congr (sig : Signature ρ) {name text : String}
    (h : Text.sameLetters name text = true) (rest : List Event) :
    sig.isNamedIn (.token text :: rest) = sig.isNamedIn (.token name :: rest) := by
  unfold isNamedIn
  rcases sig.name with _ | own
  · rfl
  · cases sig.namePosition with
    | zero =>
      simp only [List.getElem?_cons_zero]
      exact Text.sameLetters_congr h own
    | succ n => simp only [List.getElem?_cons_succ]

theorem isNamedIn_front {sig : Signature ρ} {name : String} (hname : sig.name = some name)
    (hpos : sig.namePosition = 0) {elements : List Event} :
    sig.isNamedIn elements = true ↔
      ∃ text rest, elements = .token text :: rest ∧ Text.sameLetters name text = true := by
  unfold isNamedIn
  rw [hname, hpos]
  rcases elements with _ | ⟨⟨text⟩ | ⟨items⟩, rest⟩ <;> simp

theorem namePosition_lt {sig : Signature ρ} {elements : List Event}
    (h : sig.isNamedIn elements = true) : sig.namePosition < elements.length := by
  unfold isNamedIn at h
  split at h
  · rename_i htext
    exact (List.getElem?_eq_some_iff.mp htext).1
  · cases h

theorem isNamedIn_catchAll {sig : Signature ρ} (h : sig.isCatchAll = true)
    (elements : List Event) : sig.isNamedIn elements = false := by
  unfold isNamedIn
  rw [Option.isNone_iff_eq_none.mp h]

end Signature

/-! ## Parameters -/

/-- Values bound to names one after the other. -/
def BoundArgs.insertAll (bound : BoundArgs) : List String → List Value → BoundArgs
  | name :: names, v :: vs => (bound.insert name v).insertAll names vs
  | _, _ => bound

namespace Binder

variable {b : Binder ρ} {answers : Program.Answers σ} {s s' : σ}

theorem value_ok {blame : Error → BindFailure} {reading : ρ} {e : Event} {v : Value} :
    (b.value blame reading e).run.run answers s = (.ok v, s') ↔
      (b.resolve reading e).run.run answers s = (.ok v, s') := by
  rw [value, ExceptT.run_mk, Program.run_bind]
  rcases (b.resolve reading e).run.run answers s with ⟨err | v, s₁⟩
  · simp
  · simp

/-- The elements were resolved one by one, each from the state that the one before it left. -/
inductive ResolvesEach (b : Binder ρ) (answers : Program.Answers σ) (reading : ρ) :
    List Event → σ → List Value → σ → Prop where
  | nil (s : σ) : ResolvesEach b answers reading [] s [] s
  | cons {e : Event} {es : List Event} {s s₁ s' : σ} {v : Value} {vs : List Value}
      (head : (b.resolve reading e).run.run answers s = (.ok v, s₁))
      (tail : ResolvesEach b answers reading es s₁ vs s') :
      ResolvesEach b answers reading (e :: es) s (v :: vs) s'

theorem values_ok {param : String} {reading : ρ} {index : Nat} {es : List Event}
    {vs : List Value} :
    (b.values param reading index es).run.run answers s = (.ok vs, s') ↔
      ResolvesEach b answers reading es s vs s' := by
  induction es generalizing index s vs with
  | nil =>
    constructor
    · intro h
      cases h
      exact .nil _
    · intro h
      cases h
      rfl
  | cons e es ih =>
    rw [values, Program.run_exceptBind_eq_ok]
    constructor
    · rintro ⟨v, s₁, hv, h⟩
      obtain ⟨ws, s₂, hws, h⟩ := Program.run_exceptBind_eq_ok.mp h
      cases h
      exact .cons (value_ok.mp hv) (ih.mp hws)
    · intro h
      cases h with
      | cons head tail =>
        refine ⟨_, _, value_ok.mpr head, ?_⟩
        exact Program.run_exceptBind_eq_ok.mpr ⟨_, _, ih.mpr tail, rfl⟩

theorem ResolvesEach.of_mem {reading : ρ} {es : List Event} {vs : List Value}
    (h : ResolvesEach b answers reading es s vs s') {e : Event} (he : e ∈ es) :
    ∃ s₀ v s₁, (b.resolve reading e).run.run answers s₀ = (.ok v, s₁) := by
  induction h with
  | nil => simp at he
  | cons head _ ih =>
    rcases List.mem_cons.mp he with rfl | he
    · exact ⟨_, _, _, head⟩
    · exact ih he

theorem resolvesEach_nil {reading : ρ} {vs : List Value} :
    ResolvesEach b answers reading [] s vs s' ↔ vs = [] ∧ s' = s := by
  constructor
  · intro h
    cases h
    exact ⟨rfl, rfl⟩
  · rintro ⟨rfl, rfl⟩
    exact .nil s'

/-- Where replies are fixed, the elements are resolved independently of each other. -/
theorem resolvesEach_fixed {reply : (c : Call) → c.Reply} {reading : ρ} {e : Event}
    {es : List Event} {vs : List Value} :
    ResolvesEach b (Program.fixed reply) reading (e :: es) () vs () ↔
      ∃ v us, (b.resolve reading e).run.eval reply = .ok v ∧
        ResolvesEach b (Program.fixed reply) reading es () us () ∧ vs = v :: us := by
  constructor
  · intro h
    cases h with
    | cons head tail => exact ⟨_, _, Program.run_fixed.mp head, tail, rfl⟩
  · rintro ⟨v, us, head, tail, rfl⟩
    exact .cons (Program.run_fixed.mpr head) tail

theorem resolvesEach_fixed_one {reply : (c : Call) → c.Reply} {reading : ρ} {e : Event}
    {vs : List Value} :
    ResolvesEach b (Program.fixed reply) reading [e] () vs () ↔
      ∃ v, (b.resolve reading e).run.eval reply = .ok v ∧ vs = [v] := by
  rw [resolvesEach_fixed]
  constructor
  · rintro ⟨v, us, hv, hus, rfl⟩
    obtain ⟨rfl, -⟩ := resolvesEach_nil.mp hus
    exact ⟨v, hv, rfl⟩
  · rintro ⟨v, hv, rfl⟩
    exact ⟨v, [], hv, .nil (), rfl⟩

theorem resolvesEach_fixed_two {reply : (c : Call) → c.Reply} {reading : ρ} {e₁ e₂ : Event}
    {vs : List Value} :
    ResolvesEach b (Program.fixed reply) reading [e₁, e₂] () vs () ↔
      ∃ v₁ v₂, (b.resolve reading e₁).run.eval reply = .ok v₁ ∧
        (b.resolve reading e₂).run.eval reply = .ok v₂ ∧ vs = [v₁, v₂] := by
  rw [resolvesEach_fixed]
  constructor
  · rintro ⟨v₁, us, h₁, hus, rfl⟩
    obtain ⟨v₂, h₂, rfl⟩ := resolvesEach_fixed_one.mp hus
    exact ⟨v₁, v₂, h₁, h₂, rfl⟩
  · rintro ⟨v₁, v₂, h₁, h₂, rfl⟩
    exact ⟨v₁, [v₂], h₁, resolvesEach_fixed_one.mpr ⟨v₂, h₂, rfl⟩, rfl⟩

variable {ps : List (Param ρ)} {bound : BoundArgs} {elements : List Event}
  {result : BoundArgs × List Event}

theorem params_nil :
    (b.params [] bound elements).run.run answers s = (.ok result, s') ↔
      result = (bound, elements) ∧ s' = s := by
  constructor
  · intro h
    cases h
    exact ⟨rfl, rfl⟩
  · rintro ⟨rfl, rfl⟩
    rfl

theorem params_cons {p : Param ρ} :
    (b.params (p :: ps) bound elements).run.run answers s = (.ok result, s') ↔
      ∃ v rest s₁, (b.param p elements).run.run answers s = (.ok (v, rest), s₁) ∧
        (b.params ps (bound.insert p.name v) rest).run.run answers s₁ = (.ok result, s') := by
  rw [params, Program.run_exceptBind_eq_ok]
  constructor
  · rintro ⟨⟨v, rest⟩, s₁, hp, hps⟩
    exact ⟨v, rest, s₁, hp, hps⟩
  · rintro ⟨v, rest, s₁, hp, hps⟩
    exact ⟨(v, rest), s₁, hp, hps⟩

theorem param_one {name : String} {reading : ρ} {v : Value} {rest : List Event} :
    (b.param (.one name reading) elements).run.run answers s = (.ok (v, rest), s') ↔
      ∃ e, elements = e :: rest ∧ (b.resolve reading e).run.run answers s = (.ok v, s') := by
  rcases elements with _ | ⟨e, es⟩
  · constructor
    · intro h
      cases h
    · rintro ⟨e, h, -⟩
      cases h
  · change ((b.value _ reading e >>= fun v => pure (v, es)).run.run answers s = _) ↔ _
    rw [Program.run_exceptBind_eq_ok]
    constructor
    · rintro ⟨v', s₁, hv, h⟩
      cases h
      exact ⟨e, rfl, value_ok.mp hv⟩
    · rintro ⟨e', h, hv⟩
      cases h
      exact ⟨v, s', value_ok.mpr hv, rfl⟩

theorem params_one {name : String} {reading : ρ} :
    (b.params (.one name reading :: ps) bound elements).run.run answers s = (.ok result, s') ↔
      ∃ e rest v s₁, elements = e :: rest ∧
        (b.resolve reading e).run.run answers s = (.ok v, s₁) ∧
        (b.params ps (bound.insert name v) rest).run.run answers s₁ = (.ok result, s') := by
  rw [params_cons]
  constructor
  · rintro ⟨v, rest, s₁, hp, hps⟩
    obtain ⟨e, rfl, hv⟩ := param_one.mp hp
    exact ⟨e, rest, v, s₁, rfl, hv, hps⟩
  · rintro ⟨e, rest, v, s₁, rfl, hv, hps⟩
    exact ⟨v, rest, s₁, param_one.mpr ⟨e, rfl, hv⟩, hps⟩

/-- Parameters read from one element each take as many elements as there are parameters. -/
theorem params_ones {names : List String} {reading : ρ} {args : BoundArgs} :
    (b.params (names.map fun name => .one name reading) bound elements).run.run answers s =
        (.ok (args, []), s') ↔
      ∃ vs, ResolvesEach b answers reading elements s vs s' ∧ elements.length = names.length ∧
        args = bound.insertAll names vs := by
  induction names generalizing bound elements s with
  | nil =>
    rw [List.map_nil, params_nil]
    constructor
    · rintro ⟨h, rfl⟩
      cases h
      exact ⟨[], .nil _, rfl, rfl⟩
    · rintro ⟨vs, hvs, hlength, rfl⟩
      obtain rfl := List.eq_nil_of_length_eq_zero hlength
      cases hvs
      exact ⟨rfl, rfl⟩
  | cons name names ih =>
    rw [List.map_cons, params_one]
    constructor
    · rintro ⟨e, rest, v, s₁, rfl, hv, hps⟩
      obtain ⟨vs, hvs, hlength, rfl⟩ := ih.mp hps
      exact ⟨v :: vs, .cons hv hvs, by simp [hlength], rfl⟩
    · rintro ⟨vs, hvs, hlength, rfl⟩
      cases hvs with
      | nil => simp at hlength
      | @cons e es _ s₁ _ v vs head tail =>
        refine ⟨e, es, v, s₁, rfl, head, ih.mpr ⟨vs, tail, ?_, rfl⟩⟩
        simpa using hlength

theorem params_each {name : String} {reading : ρ} :
    (b.params [.each name reading] bound elements).run.run answers s = (.ok result, s') ↔
      ∃ vs, ResolvesEach b answers reading elements s vs s' ∧
        result = (bound.insert name (.array vs), []) := by
  rw [params_cons]
  have hparam : b.param (.each name reading) elements =
      b.values name reading 0 elements >>= fun vs => pure (.array vs, []) := by
    rcases elements with _ | ⟨e, es⟩ <;> rfl
  rw [hparam]
  constructor
  · rintro ⟨v, rest, s₁, hp, hps⟩
    obtain ⟨vs, s₂, hvs, h⟩ := Program.run_exceptBind_eq_ok.mp hp
    cases h
    obtain ⟨rfl, rfl⟩ := params_nil.mp hps
    exact ⟨vs, values_ok.mp hvs, rfl⟩
  · rintro ⟨vs, hvs, rfl⟩
    refine ⟨.array vs, [], s', ?_, params_nil.mpr ⟨rfl, rfl⟩⟩
    exact Program.run_exceptBind_eq_ok.mpr ⟨vs, s', values_ok.mpr hvs, rfl⟩

end Binder

/-! ## Handlers -/

namespace Handler

variable {b : Binder ρ} {answers : Program.Answers σ} {s s' : σ} {elements : List Event}
  {selection : Selection ρ ε}

theorem attempt_leaf_ok {sig : Signature ρ} {effect : ε} :
    ((leaf sig effect).attempt b elements).run.run answers s = (.ok selection, s') ↔
      ∃ args, (b.params sig.params {} (sig.remaining elements)).run.run answers s =
          (.ok (args, []), s') ∧ selection = ⟨sig, effect, args⟩ := by
  rw [attempt_leaf, Program.run_exceptBind_eq_ok]
  constructor
  · rintro ⟨⟨args, _ | ⟨e, rest⟩⟩, s₁, hp, h⟩
    · cases h
      exact ⟨args, hp, rfl⟩
    · cases h
  · rintro ⟨args, hp, rfl⟩
    exact ⟨(args, []), s', hp, rfl⟩

theorem attempt_named_ones {name text description : String} (names : List String) {reading : ρ}
    {effect : ε} :
    ((named name (names.map fun param => .one param reading) effect description).attempt b
        (.token text :: elements)).run.run answers s = (.ok selection, s') ↔
      ∃ vs, b.ResolvesEach answers reading elements s vs s' ∧ elements.length = names.length ∧
        selection = ⟨(named name (names.map fun param => .one param reading) effect
          description).signature, effect, BoundArgs.insertAll {} names vs⟩ := by
  refine attempt_leaf_ok.trans ?_
  constructor
  · rintro ⟨args, hp, rfl⟩
    obtain ⟨vs, hvs, hlength, rfl⟩ := Binder.params_ones.mp hp
    exact ⟨vs, hvs, hlength, rfl⟩
  · rintro ⟨vs, hvs, hlength, rfl⟩
    exact ⟨_, Binder.params_ones.mpr ⟨vs, hvs, hlength, rfl⟩, rfl⟩

theorem attempt_group_ok {sig : Signature ρ} {members : List (Handler ρ ε)} :
    ((group sig members).attempt b elements).run.run answers s = (.ok selection, s') ↔
      ∃ args rest s₁ inner,
        (b.params sig.params {} (sig.remaining elements)).run.run answers s =
          (.ok (args, rest), s₁) ∧ rest ≠ [] ∧
        (select b sig.label members (.seq rest)).run.run answers s₁ = (.ok inner, s') ∧
        selection = { inner with args := inner.args.prepend args } := by
  rw [attempt_group, Program.run_exceptBind_eq_ok]
  constructor
  · rintro ⟨⟨args, _ | ⟨e, rest⟩⟩, s₁, hp, h⟩
    · cases h
    · dsimp only at h
      rw [ExceptT.run_mk, Program.run_bind] at h
      rcases hsel : (select b sig.label members (.seq (e :: rest))).run.run answers s₁ with
        ⟨err | inner, s₂⟩
      · rw [hsel] at h
        cases h
      · rw [hsel] at h
        cases h
        exact ⟨args, e :: rest, s₁, inner, hp, by simp, hsel, rfl⟩
  · rintro ⟨args, rest, s₁, inner, hp, hrest, hsel, rfl⟩
    obtain ⟨e, rest, rfl⟩ := List.exists_cons_of_ne_nil hrest
    refine ⟨(args, e :: rest), s₁, hp, ?_⟩
    dsimp only
    rw [ExceptT.run_mk, Program.run_bind, hsel]
    rfl

/-! ## Effects -/

mutual

/-- The effects of the leaves of a handler. -/
def effects : Handler ρ ε → List ε
  | .leaf _ effect => [effect]
  | .group _ members => effectsOf members

def effectsOf : List (Handler ρ ε) → List ε
  | [] => []
  | h :: hs => h.effects ++ effectsOf hs

end

theorem effects_subset {hs : List (Handler ρ ε)} {h : Handler ρ ε} (hh : h ∈ hs) {effect : ε}
    (he : effect ∈ h.effects) : effect ∈ effectsOf hs := by
  induction hs with
  | nil => simp at hh
  | cons k hs ih =>
    rw [effectsOf, List.mem_append]
    rcases List.mem_cons.mp hh with rfl | hh
    · exact .inl he
    · exact .inr (ih hh)

/-- A handler of a list is the one with an effect that the others do not have. -/
theorem eq_of_effect {front back : List (Handler ρ ε)} {h k : Handler ρ ε} {effect : ε}
    (hfront : effect ∉ effectsOf front) (hback : effect ∉ effectsOf back)
    (hh : h ∈ front ++ k :: back) (he : effect ∈ h.effects) : h = k := by
  rw [List.mem_append, List.mem_cons] at hh
  rcases hh with hh | rfl | hh
  · exact absurd (effects_subset hh he) hfront
  · rfl
  · exact absurd (effects_subset hh he) hback

/-- A selection carries the effect of a leaf of the handler it comes from. -/
theorem attempt_effect (h : Handler ρ ε)
    (hrun : (h.attempt b elements).run.run answers s = (.ok selection, s')) :
    selection.effect ∈ h.effects := by
  induction h using Handler.tree generalizing elements s s' selection with
  | leaf sig effect =>
    obtain ⟨args, -, rfl⟩ := attempt_leaf_ok.mp hrun
    simp [effects]
  | group sig members ih =>
    obtain ⟨args, rest, s₁, inner, -, -, hsel, rfl⟩ := attempt_group_ok.mp hrun
    obtain ⟨h, hh, s₀, hrun⟩ := select_ok hsel
    have hmem := mem_of_mem_candidates hh
    have heffect : inner.effect ∈ h.effects := ih h hmem hrun
    rw [effects]
    exact effects_subset hmem heffect

/-- An effect that only one handler has is selected by binding that handler, behind its name. -/
theorem bound_of_effect {kind name : String} {hs : List (Handler ρ ε)} {k : Handler ρ ε} {e : Event}
    {effect : ε} (honly : ∀ h ∈ hs, effect ∈ h.effects → h = k)
    (hname : k.signature.name = some name) (hpos : k.signature.namePosition = 0)
    (hrun : (select b kind hs e).run.run answers s = (.ok selection, s'))
    (heffect : selection.effect = effect) :
    ∃ text rest s₀, e.elements = .token text :: rest ∧ Text.sameLetters name text = true ∧
      (k.attempt b (.token text :: rest)).run.run answers s₀ = (.ok selection, s') := by
  obtain ⟨h, hh, s₀, hbound⟩ := select_ok hrun
  have hmem := attempt_effect h hbound
  rw [heffect] at hmem
  obtain rfl := honly h (mem_of_mem_candidates hh) hmem
  have hnamed : h.signature.isNamedIn e.elements = true := by
    rcases named_or_catchAll hh with hnamed | hcatch
    · exact hnamed
    · rw [Signature.isCatchAll, hname] at hcatch
      cases hcatch
  obtain ⟨text, rest, helements, htext⟩ := (Signature.isNamedIn_front hname hpos).mp hnamed
  exact ⟨text, rest, s₀, helements, htext, helements ▸ hbound⟩

end Handler

end ChainScript
