import ChainScript.Proofs.Dispatch.Search

/-! # The search for a handler only reads

When carrying out a reading is a query, so is binding parameters, trying handlers and selecting one:
the search makes no call of its own, and a read that fails ends it.
-/

namespace ChainScript
set_option autoImplicit false

open Program

variable {ρ ε α β ω : Type}

/-! ## Queries that may fail -/

/-- A computation that is a query, and fails with what `error` makes of a failed read. -/
abbrev Inquires (error : TransportError → ω) (x : ExceptT ω Program α) : Prop :=
  Query (fun cause => .error (error cause)) x.run

namespace Inquires

variable {error : TransportError → ω}

theorem pure (a : α) : Inquires error (Pure.pure a : ExceptT ω Program α) := Query.done _ _

theorem throw (e : ω) : Inquires error (throw e : ExceptT ω Program α) := Query.done _ _

theorem ofExcept {error : TransportError → Error} (r : Except Error α) :
    Inquires error (Action.ofExcept r) := Query.done _ _

/-- A query goes on with its value, or ends with its error. -/
theorem bind {x : ExceptT ω Program α} {f : α → ExceptT ω Program β}
    {last : Program (Except ω β) → Prop} (hx : Inquires error x) (hends : ∀ q, Ends q → last q)
    (hf : ∀ a, ReadsThen (fun cause => .error (error cause)) last (f a).run) :
    ReadsThen (fun cause => .error (error cause)) last (x >>= f).run := by
  rw [ExceptT.run_bind]
  refine Query.bind hx (fun _ => rfl) fun r => ?_
  cases r with
  | ok a => exact hf a
  | error e => exact .last (hends _ ⟨_, rfl⟩)

theorem seq {x : ExceptT ω Program α} {f : α → ExceptT ω Program β} (hx : Inquires error x)
    (hf : ∀ a, Inquires error (f a)) : Inquires error (x >>= f) :=
  hx.bind (fun _ h => h) hf

end Inquires

/-- How a failed read ends a search. -/
def searchFailure (cause : TransportError) : Refusal := .fatal (.transport cause)

/-! ## Binding -/

namespace Binder

variable {b : Binder ρ}

theorem value_inquires (hb : ∀ reading e, Inquires Error.transport (b.resolve reading e))
    (blame : Error → BindFailure) (reading : ρ) (e : Event) :
    Inquires searchFailure (b.value blame reading e) := by
  refine Query.bind (hb reading e) (fun _ => rfl) fun r => ?_
  cases r with
  | ok v => exact Query.done _ _
  | error err => exact Query.done _ _

theorem params_inquires (hb : ∀ reading e, Inquires Error.transport (b.resolve reading e))
    (ps : List (Param ρ)) (bound : BoundArgs) (elements : List Event) :
    Inquires searchFailure (b.params ps bound elements) := by
  have hclosed : b.Closed fun _ x => Inquires searchFailure x :=
    ⟨.pure, fun _ => .throw _, value_inquires hb, Inquires.seq⟩
  exact hclosed.params ps bound elements

end Binder

/-! ## Handlers -/

section Search

variable {b : Binder ρ}

theorem Handler.tryAll_query {hs : List (Handler ρ ε)} {elements : List Event}
    (hhs : ∀ h ∈ hs, Inquires searchFailure (h.attempt b elements)) :
    Query (fun cause => .fatal (.transport cause)) (tryAll b hs elements) := by
  induction hs with
  | nil =>
    rw [tryAll_nil]
    exact Query.done _ _
  | cons h hs ih =>
    have hrest := ih fun k hk => hhs k (List.mem_cons_of_mem h hk)
    rw [tryAll_cons]
    refine Query.bind (hhs h (List.mem_cons_self ..)) (fun _ => rfl) fun r => ?_
    rcases r with (reason | err) | selection
    · exact Query.bind hrest (fun _ => rfl) fun t => Query.done _ _
    · exact Query.done _ _
    · exact Query.done _ _

theorem select_inquires_of_handlers {hs : List (Handler ρ ε)} {e : Event}
    (hhs : ∀ h ∈ hs, Inquires searchFailure (h.attempt b e.elements)) (kind : String) :
    Inquires Error.transport (select b kind hs e) := by
  rw [Inquires, select_run]
  refine Query.bind (Handler.tryAll_query fun h hh => ?_) (fun _ => rfl) fun t => Query.done _ _
  exact hhs h (Handler.mem_of_mem_candidates hh)

theorem Handler.attempt_inquires
    (hb : ∀ reading e, Inquires Error.transport (b.resolve reading e)) (h : Handler ρ ε)
    (elements : List Event) : Inquires searchFailure (h.attempt b elements) := by
  induction h using Handler.tree generalizing elements with
  | leaf s effect =>
    rw [attempt_leaf]
    refine (Binder.params_inquires hb s.params {} (s.remaining elements)).seq fun r => ?_
    rcases r with ⟨args, _ | ⟨e, rest⟩⟩
    · exact .pure _
    · exact .throw _
  | group s members ih =>
    rw [attempt_group]
    refine (Binder.params_inquires hb s.params {} (s.remaining elements)).seq fun r => ?_
    rcases r with ⟨args, _ | ⟨e, rest⟩⟩
    · exact .throw _
    · have hselect := select_inquires_of_handlers (e := .seq (e :: rest))
        (fun h hh => ih h hh (e :: rest)) s.label
      exact Query.bind hselect (fun _ => rfl) fun r => Query.done _ _

theorem select_inquires (hb : ∀ reading e, Inquires Error.transport (b.resolve reading e))
    (kind : String) (hs : List (Handler ρ ε)) (e : Event) :
    Inquires Error.transport (select b kind hs e) :=
  select_inquires_of_handlers (fun h _ => h.attempt_inquires hb e.elements) kind

end Search

/-! ## Carrying out the selection -/

theorem fetchValue_inquires {b : Binder ρ} {run : ε → BoundArgs → Action Value}
    (hb : ∀ reading e, Inquires Error.transport (b.resolve reading e))
    (hrun : ∀ effect args, Inquires Error.transport (run effect args)) (kind : String)
    (handlers : List (Handler ρ ε)) (e : Event) :
    Inquires Error.transport (fetchValue b run kind handlers e) := by
  refine Query.bind (select_inquires hb kind handlers e) (fun _ => rfl) fun r => ?_
  split
  · exact hrun _ _
  · exact Query.done _ _
  · exact Query.done _ _

end ChainScript
