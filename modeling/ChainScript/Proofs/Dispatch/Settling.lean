import ChainScript.Proofs.Dispatch.Search

/-! # Searches that make no call

Where every reading is carried out without a call and never fails fatally, nothing ends the search
before its candidates do: it finds a handler, or it comes to no match, and makes no call either way.
-/

namespace ChainScript
set_option autoImplicit false

open Program Handler

variable {ρ ε α β ω : Type}

/-! ## Computations without a call -/

/-- A computation that makes no call and fails only with the errors allowed. -/
def Settles (allowed : ω → Prop) (x : ExceptT ω Program α) : Prop :=
  ∃ r, x.run = .done r ∧ ∀ err, r = .error err → allowed err

namespace Settles

variable {allowed : ω → Prop}

theorem pure (a : α) : Settles allowed (Pure.pure a : ExceptT ω Program α) :=
  ⟨.ok a, rfl, nofun⟩

theorem throw {err : ω} (h : allowed err) :
    Settles allowed (MonadExcept.throw err : ExceptT ω Program α) := by
  refine ⟨.error err, rfl, fun found hfound => ?_⟩
  cases hfound
  exact h

theorem bind {x : ExceptT ω Program α} {f : α → ExceptT ω Program β} (hx : Settles allowed x)
    (hf : ∀ a, Settles allowed (f a)) : Settles allowed (x >>= f) := by
  obtain ⟨r, hrun, hallowed⟩ := hx
  cases r with
  | ok a =>
    obtain ⟨q, hq, hrest⟩ := hf a
    refine ⟨q, ?_, hrest⟩
    rw [ExceptT.run_bind, hrun]
    exact hq
  | error err =>
    refine ⟨.error err, ?_, fun found hfound => ?_⟩
    · rw [ExceptT.run_bind, hrun]
      rfl
    · cases hfound
      exact hallowed err rfl

/-- What it comes to, whatever the replies of a chain would be. -/
theorem run_eq {x : ExceptT ω Program α} (hx : Settles allowed x) (reply : (c : Call) → c.Reply) :
    x.run = .done (x.run.eval reply) := by
  obtain ⟨r, hrun, -⟩ := hx
  rw [hrun, eval_done]

end Settles

/-- A refusal that lets the search go on. -/
def Refusal.GoesOn (refusal : Refusal) : Prop := ∃ reason, refusal = .failed reason

theorem Refusal.ofError_goesOn {err : Error} (h : err.isFatal = false)
    (blame : Error → BindFailure) : (Refusal.ofError blame err).GoesOn := by
  refine ⟨blame err, ?_⟩
  rw [ofError, h]
  rfl

/-! ## Binding -/

section Search

variable {b : Binder ρ}
  (hb : ∀ reading e, Settles (fun err => err.isFatal = false) (b.resolve reading e))
include hb

theorem Binder.value_settles (blame : Error → BindFailure) (reading : ρ) (e : Event) :
    Settles Refusal.GoesOn (b.value blame reading e) := by
  obtain ⟨r, hrun, hpasses⟩ := hb reading e
  unfold value
  rw [hrun]
  cases r with
  | ok v => exact .pure v
  | error err => exact .throw (Refusal.ofError_goesOn (hpasses err rfl) blame)

theorem Binder.params_settles (ps : List (Param ρ)) (bound : BoundArgs) (elements : List Event) :
    Settles Refusal.GoesOn (b.params ps bound elements) := by
  have hclosed : b.Closed fun _ x => Settles Refusal.GoesOn x :=
    ⟨.pure, fun reason => .throw ⟨reason, rfl⟩, value_settles hb, Settles.bind⟩
  exact hclosed.params ps bound elements

omit hb in
theorem Handler.tryAll_settled {hs : List (Handler ρ ε)} {elements : List Event}
    (hhs : ∀ h ∈ hs, Settles Refusal.GoesOn (h.attempt b elements)) :
    (∃ selection, tryAll b hs elements = .done (.found selection)) ∨
      ∃ attempted, tryAll b hs elements = .done (.abandoned attempted) := by
  induction hs with
  | nil => exact .inr ⟨[], tryAll_nil b elements⟩
  | cons h hs ih =>
    obtain ⟨r, hrun, hgoesOn⟩ := hhs h (List.mem_cons_self ..)
    rw [tryAll_cons, hrun]
    cases r with
    | ok selection => exact .inl ⟨selection, rfl⟩
    | error refusal =>
      obtain ⟨reason, rfl⟩ := hgoesOn refusal rfl
      rcases ih fun k hk => hhs k (List.mem_cons_of_mem h hk) with
        ⟨selection, hfound⟩ | ⟨attempted, habandoned⟩
      · refine .inl ⟨selection, ?_⟩
        simp [hfound, Trial.after]
      · refine .inr ⟨⟨h.label, reason.message⟩ :: attempted, ?_⟩
        simp [habandoned, Trial.after]

omit hb in
theorem select_settles_of_handlers {hs : List (Handler ρ ε)} {e : Event}
    (hhs : ∀ h ∈ hs, Settles Refusal.GoesOn (h.attempt b e.elements)) (kind : String) :
    Settles (fun err => ∃ attempted, err = .noMatch kind e attempted) (select b kind hs e) := by
  unfold Settles
  rw [select_run]
  have hcandidates : ∀ h ∈ candidates hs e.elements,
      Settles Refusal.GoesOn (h.attempt b e.elements) :=
    fun h hh => hhs h (mem_of_mem_candidates hh)
  rcases tryAll_settled hcandidates with ⟨selection, hfound⟩ | ⟨attempted, habandoned⟩
  · rw [hfound]
    exact ⟨_, rfl, nofun⟩
  · rw [habandoned]
    refine ⟨_, rfl, fun err herr => ?_⟩
    cases herr
    exact ⟨attempted, rfl⟩

theorem Handler.attempt_settles (h : Handler ρ ε) (elements : List Event) :
    Settles Refusal.GoesOn (h.attempt b elements) := by
  induction h using Handler.tree generalizing elements with
  | leaf sig effect =>
    rw [attempt_leaf]
    refine (Binder.params_settles hb sig.params {} (sig.remaining elements)).bind fun r => ?_
    rcases r with ⟨args, _ | ⟨e, rest⟩⟩
    · exact .pure _
    · exact .throw ⟨_, rfl⟩
  | group sig members ih =>
    rw [attempt_group]
    refine (Binder.params_settles hb sig.params {} (sig.remaining elements)).bind fun r => ?_
    rcases r with ⟨args, _ | ⟨e, rest⟩⟩
    · exact .throw ⟨_, rfl⟩
    · obtain ⟨q, hrun, hnoMatch⟩ := select_settles_of_handlers (e := .seq (e :: rest))
        (fun h hh => ih h hh (e :: rest)) sig.label
      dsimp only
      rw [hrun]
      cases q with
      | ok selection => exact .pure _
      | error err =>
        obtain ⟨attempted, rfl⟩ := hnoMatch err rfl
        exact .throw (Refusal.ofError_goesOn rfl .within)

/-- A search without calls finds a handler or comes to no match. -/
theorem select_settles (kind : String) (hs : List (Handler ρ ε)) (e : Event) :
    Settles (fun err => ∃ attempted, err = .noMatch kind e attempted) (select b kind hs e) :=
  select_settles_of_handlers (fun h _ => h.attempt_settles hb e.elements) kind

end Search

end ChainScript
