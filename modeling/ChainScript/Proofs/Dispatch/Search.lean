import ChainScript.Dispatch.Select
import ChainScript.Proofs.Chain.Exchanges

/-! # The search as a list of candidates

The candidates for an event are the handlers named in it, in order, and then the catch-alls, in
order. Selection tries them in turn, and a group selects among its members in the same way.

* `Binder.Closed`: a property of searches that holds of binding parameters if it holds of each value.
* `Handler.candidates`: the handlers tried, in the order of trial.
* `select_run`: selection is the trial of the candidates.
* `Handler.attempt_group`: binding a group is selection among its members.
* `select_ok_cons`, `select_eq_first`: which candidate a selection comes from.
-/

namespace ChainScript
set_option autoImplicit false

variable {ρ ε α : Type}

/-! ## Trials -/

namespace Trial

@[simp] theorem after_nil (t : Trial α) : t.after [] = t := by
  cases t <;> rfl

@[simp] theorem after_after (first second : List Attempt) (t : Trial α) :
    (t.after second).after first = t.after (first ++ second) := by
  cases t with
  | found a => rfl
  | fatal err => rfl
  | abandoned attempted => simp [after, List.append_assoc]

@[simp] theorem orElse_abandoned (attempted : List Attempt) (second : Unit → Program (Trial α)) :
    (abandoned attempted).orElse second = second () >>= fun t => .done (t.after attempted) := rfl

theorem after_orElse (earlier : List Attempt) (t : Trial α)
    (second : Unit → Program (Trial α)) :
    (t.after earlier).orElse second = t.orElse second >>= fun r => .done (r.after earlier) := by
  cases t with
  | found a => rfl
  | fatal err => rfl
  | abandoned attempted =>
    rw [after, orElse_abandoned, orElse_abandoned, bind_assoc]
    simp only [Program.done_bind, after_after]

end Trial

/-! ## Binding by its parts -/

/-- A property of searches that holds of results, of failures and of the values of elements, and of
two searches in a row if it holds of both. -/
structure Binder.Closed (b : Binder ρ) (P : (β : Type) → Search β → Prop) : Prop where
  pure : ∀ {β : Type} (x : β), P β (Pure.pure x)
  failed : ∀ {β : Type} (reason : BindFailure), P β (throw (.failed reason))
  value : ∀ blame reading e, P Value (b.value blame reading e)
  bind : ∀ {β γ : Type} {x : Search β} {f : β → Search γ},
    P β x → (∀ y, P γ (f y)) → P γ (x >>= f)

namespace Binder.Closed

variable {b : Binder ρ} {P : (β : Type) → Search β → Prop}

theorem values (h : b.Closed P) (param : String) (reading : ρ) (index : Nat) (es : List Event) :
    P (List Value) (b.values param reading index es) := by
  induction es generalizing index with
  | nil => exact h.pure _
  | cons e es ih =>
    refine h.bind (h.value _ reading e) fun v => ?_
    exact h.bind (ih (index + 1)) fun vs => h.pure _

theorem param (h : b.Closed P) (p : Param ρ) (elements : List Event) :
    P (Value × List Event) (b.param p elements) := by
  unfold Binder.param
  split
  · split
    · exact h.pure _
    · exact h.failed _
  · split
    · split
      · exact h.pure _
      · split
        · exact h.bind (h.values _ _ _ _) fun vs => h.pure _
        · exact h.bind (h.value _ _ _) fun v => h.pure _
    · split
      · exact h.bind (h.value _ _ _) fun v => h.pure _
      · split
        · exact h.pure _
        · split
          · exact h.pure _
          · exact h.failed _

theorem params (h : b.Closed P) (ps : List (Param ρ)) (bound : BoundArgs)
    (elements : List Event) : P (BoundArgs × List Event) (b.params ps bound elements) := by
  induction ps generalizing bound elements with
  | nil => exact h.pure _
  | cons p ps ih => exact h.bind (h.param p elements) fun r => ih _ r.2

end Binder.Closed

namespace Handler

/-- Induction over trees of handlers: a group has what its members have. -/
@[elab_as_elim] theorem tree {motive : Handler ρ ε → Prop}
    (leaf : ∀ s effect, motive (.leaf s effect))
    (group : ∀ s members, (∀ h ∈ members, motive h) → motive (.group s members))
    (h : Handler ρ ε) : motive h :=
  @Handler.rec ρ ε motive (fun hs => ∀ h ∈ hs, motive h) leaf
    (fun s members ih => group s members ih) (by simp)
    (fun h hs hh hhs k hk => by
      rcases List.mem_cons.mp hk with rfl | hk
      · exact hh
      · exact hhs k hk) h

variable (b : Binder ρ)

/-! ## Trying handlers in turn -/

/-- Bind the first of the handlers that can be bound. -/
def tryAll : List (Handler ρ ε) → List Event → Program (Trial (Selection ρ ε)) :=
  attemptAll b fun _ => true

@[simp] theorem tryAll_nil (elements : List Event) :
    tryAll b ([] : List (Handler ρ ε)) elements = .done (.abandoned []) := by
  rw [tryAll, attemptAll]
  rfl

theorem tryAll_cons (h : Handler ρ ε) (hs : List (Handler ρ ε)) (elements : List Event) :
    tryAll b (h :: hs) elements = (h.attempt b elements).run >>= fun r =>
      match r with
      | .ok selection => .done (.found selection)
      | .error (.fatal err) => .done (.fatal err)
      | .error (.failed reason) =>
        tryAll b hs elements >>= fun t => .done (t.after [⟨h.label, reason.message⟩]) := by
  rw [tryAll, attemptAll]
  rfl

theorem attemptAll_eq_tryAll (wanted : Signature ρ → Bool) (hs : List (Handler ρ ε))
    (elements : List Event) :
    attemptAll b wanted hs elements = tryAll b (hs.filter fun h => wanted h.signature) elements := by
  induction hs with
  | nil =>
    rw [attemptAll, List.filter_nil, tryAll_nil]
    rfl
  | cons h hs ih =>
    rw [attemptAll]
    by_cases hw : wanted h.signature = true
    · rw [if_pos hw, List.filter_cons, if_pos hw, tryAll_cons, ih]
      rfl
    · rw [if_neg hw, List.filter_cons, if_neg hw, ih]

theorem tryAll_append (hs ks : List (Handler ρ ε)) (elements : List Event) :
    tryAll b (hs ++ ks) elements =
      tryAll b hs elements >>= fun t => t.orElse fun _ => tryAll b ks elements := by
  induction hs with
  | nil =>
    simp only [List.nil_append, tryAll_nil, Program.done_bind, Trial.orElse_abandoned,
      Trial.after_nil]
    exact (Program.bind_done _).symm
  | cons h hs ih =>
    rw [List.cons_append, tryAll_cons, tryAll_cons, bind_assoc]
    congr 1
    funext r
    rcases r with (reason | err) | selection
    · simp only [ih, bind_assoc, Program.done_bind, Trial.after_orElse]
    · rfl
    · rfl

/-- The handlers tried for the elements of an event, in order. -/
def candidates (hs : List (Handler ρ ε)) (elements : List Event) : List (Handler ρ ε) :=
  hs.filter (fun h => h.signature.isNamedIn elements) ++ hs.filter fun h => h.signature.isCatchAll

theorem mem_of_mem_candidates {hs : List (Handler ρ ε)} {elements : List Event}
    {h : Handler ρ ε} (hh : h ∈ candidates hs elements) : h ∈ hs := by
  rcases List.mem_append.mp hh with hh | hh
  · exact (List.mem_filter.mp hh).1
  · exact (List.mem_filter.mp hh).1

theorem named_or_catchAll {hs : List (Handler ρ ε)} {elements : List Event} {h : Handler ρ ε}
    (hh : h ∈ candidates hs elements) :
    h.signature.isNamedIn elements = true ∨ h.signature.isCatchAll = true := by
  rcases List.mem_append.mp hh with hh | hh
  · exact .inl (List.mem_filter.mp hh).2
  · exact .inr (List.mem_filter.mp hh).2

end Handler

/-! ## Selection -/

open Handler

theorem select_run (b : Binder ρ) (kind : String) (hs : List (Handler ρ ε)) (e : Event) :
    (select b kind hs e).run =
      tryAll b (candidates hs e.elements) e.elements >>= fun t => .done (t.conclude kind e) := by
  rw [candidates, tryAll_append, bind_assoc]
  simp only [select, attemptAll_eq_tryAll, ExceptT.run_mk]
  rfl

/-- What a group makes of the selection among its members. -/
def Handler.fromMember (args : BoundArgs) :
    Except Error (Selection ρ ε) → Except Refusal (Selection ρ ε)
  | .ok selection => .ok { selection with args := selection.args.prepend args }
  | .error err => .error (Refusal.ofError .within err)

theorem Handler.attempt_leaf (b : Binder ρ) (s : Signature ρ) (effect : ε)
    (elements : List Event) :
    (leaf s effect).attempt b elements = b.params s.params {} (s.remaining elements) >>= fun r =>
      match r.2 with
      | [] => pure ⟨s, effect, r.1⟩
      | e :: rest => throw (.failed (.trailing (rest.length + 1) e)) := by
  rw [attempt]
  congr 1
  funext r
  rcases r with ⟨args, _ | ⟨e, rest⟩⟩ <;> rfl

theorem Handler.attempt_group (b : Binder ρ) (s : Signature ρ) (members : List (Handler ρ ε))
    (elements : List Event) :
    (group s members).attempt b elements =
      b.params s.params {} (s.remaining elements) >>= fun r =>
        match r.2 with
        | [] => throw (.failed (.missingRest s.label))
        | e :: rest =>
          ExceptT.mk ((select b s.label members (.seq (e :: rest))).run >>= fun selected =>
            .done (fromMember r.1 selected)) := by
  rw [attempt]
  congr 1
  funext r
  rcases r with ⟨args, _ | ⟨e, rest⟩⟩
  · rfl
  · apply ExceptT.ext
    simp only [select, ExceptT.run_mk, ExceptT.run_bind, ExceptT.run_lift, map_eq_pure_bind,
      bind_assoc, List.isEmpty_cons, Bool.false_eq_true, if_false, Event.elements]
    congr 1
    funext named
    congr 1
    funext trial
    simp only [Program.pure_eq, Program.done_bind]
    cases trial.conclude s.label (.seq (e :: rest)) <;> rfl

/-! ## What a selection comes from -/

section Runs

variable {σ : Type} {b : Binder ρ} {answers : Program.Answers σ} {s s' : σ}
  {selection : Selection ρ ε} {elements : List Event}

theorem Handler.tryAll_found {hs : List (Handler ρ ε)}
    (hrun : (tryAll b hs elements).run answers s = (.found selection, s')) :
    ∃ h ∈ hs, ∃ s₀, (h.attempt b elements).run.run answers s₀ = (.ok selection, s') := by
  induction hs generalizing s s' with
  | nil => simp at hrun
  | cons h hs ih =>
    rw [tryAll_cons, Program.run_bind] at hrun
    rcases hh : (h.attempt b elements).run.run answers s with ⟨(reason | err) | found, s₁⟩
    · rw [hh] at hrun
      dsimp only at hrun
      rw [Program.run_bind] at hrun
      rcases ht : (tryAll b hs elements).run answers s₁ with ⟨found | err | attempted, s₂⟩
      · rw [ht] at hrun
        simp only [Trial.after, Program.run_done, Prod.mk.injEq, Trial.found.injEq] at hrun
        obtain ⟨rfl, rfl⟩ := hrun
        obtain ⟨k, hk, s₀, hrun⟩ := ih ht
        exact ⟨k, List.mem_cons_of_mem h hk, s₀, hrun⟩
      · rw [ht] at hrun
        simp [Trial.after] at hrun
      · rw [ht] at hrun
        simp [Trial.after] at hrun
    · rw [hh] at hrun
      simp at hrun
    · rw [hh] at hrun
      simp only [Program.run_done, Prod.mk.injEq, Trial.found.injEq] at hrun
      obtain ⟨rfl, rfl⟩ := hrun
      exact ⟨h, List.mem_cons_self .., s, hh⟩

theorem select_ok {kind : String} {hs : List (Handler ρ ε)} {e : Event}
    (hrun : (select b kind hs e).run.run answers s = (.ok selection, s')) :
    ∃ h ∈ candidates hs e.elements, ∃ s₀,
      (h.attempt b e.elements).run.run answers s₀ = (.ok selection, s') := by
  rw [select_run, Program.run_bind] at hrun
  rcases ht : (tryAll b (candidates hs e.elements) e.elements).run answers s with
    ⟨found | err | attempted, s₂⟩
  · rw [ht] at hrun
    simp only [Trial.conclude, Program.run_done, Prod.mk.injEq, Except.ok.injEq] at hrun
    obtain ⟨rfl, rfl⟩ := hrun
    exact tryAll_found ht
  · rw [ht] at hrun
    simp [Trial.conclude] at hrun
  · rw [ht] at hrun
    simp [Trial.conclude] at hrun

theorem select_first {kind : String} {hs rest : List (Handler ρ ε)} {h : Handler ρ ε} {e : Event}
    (hc : candidates hs e.elements = h :: rest)
    (hrun : (h.attempt b e.elements).run.run answers s = (.ok selection, s')) :
    (select b kind hs e).run.run answers s = (.ok selection, s') := by
  rw [select_run, hc, tryAll_cons, Program.run_bind, Program.run_bind, hrun]
  rfl

theorem select_done {kind : String} {hs rest : List (Handler ρ ε)} {h : Handler ρ ε} {e : Event}
    (hc : candidates hs e.elements = h :: rest)
    (hbound : (h.attempt b e.elements).run = .done (.ok selection)) :
    (select b kind hs e).run = .done (.ok selection) := by
  rw [select_run, hc, tryAll_cons, hbound]
  rfl

/-- A selection comes from the first candidate, or from those behind it once that was given up. -/
theorem select_ok_cons {kind : String} {hs rest : List (Handler ρ ε)} {h : Handler ρ ε} {e : Event}
    (hc : candidates hs e.elements = h :: rest)
    (hrun : (select b kind hs e).run.run answers s = (.ok selection, s')) :
    (h.attempt b e.elements).run.run answers s = (.ok selection, s') ∨
      ∃ k ∈ rest, ∃ s₀, (k.attempt b e.elements).run.run answers s₀ = (.ok selection, s') := by
  rw [select_run, hc, tryAll_cons, Program.run_bind, Program.run_bind] at hrun
  rcases hh : (h.attempt b e.elements).run.run answers s with ⟨(reason | err) | found, s₁⟩
  · rw [hh] at hrun
    dsimp only at hrun
    rw [Program.run_bind] at hrun
    rcases ht : (tryAll b rest e.elements).run answers s₁ with ⟨found | err | attempted, s₂⟩
    · rw [ht] at hrun
      cases hrun
      exact .inr (tryAll_found ht)
    · rw [ht] at hrun
      cases hrun
    · rw [ht] at hrun
      cases hrun
  · rw [hh] at hrun
    cases hrun
  · rw [hh] at hrun
    cases hrun
    exact .inl rfl

/-- Where a later candidate cannot be bound unless the first one can, selection is the binding of
the first one. -/
theorem select_eq_first {reply : (c : Call) → c.Reply} {kind : String}
    {hs rest : List (Handler ρ ε)} {h : Handler ρ ε} {e : Event}
    (hc : candidates hs e.elements = h :: rest)
    (hrest : ∀ k ∈ rest, ∀ other,
      (k.attempt b e.elements).run.run (Program.fixed reply) () = (.ok other, ()) →
        ∃ first, (h.attempt b e.elements).run.run (Program.fixed reply) () = (.ok first, ())) :
    (select b kind hs e).run.run (Program.fixed reply) () = (.ok selection, ()) ↔
      (h.attempt b e.elements).run.run (Program.fixed reply) () = (.ok selection, ()) := by
  refine ⟨fun hrun => ?_, select_first hc⟩
  rcases select_ok_cons hc hrun with hbound | ⟨k, hk, s₀, hbound⟩
  · exact hbound
  · obtain ⟨first, hfirst⟩ := hrest k hk _ hbound
    rw [select_first hc hfirst] at hrun
    cases hrun
    exact hfirst

end Runs

theorem fetchValue_seq (b : Binder ρ) (run : ε → BoundArgs → Action Value) (kind : String)
    (hs : List (Handler ρ ε)) (items : List Event) :
    fetchValue b run kind hs (.seq items) = carryOut b run kind hs (.seq items) := by
  apply ExceptT.ext
  rw [fetchValue, carryOut, ExceptT.run_mk, ExceptT.run_bind]
  congr 1
  funext r
  rcases r with err | selection
  · cases err <;> rfl
  · rfl

end ChainScript
