import ChainScript.Proofs.Dispatch.Taking

/-! # The search is depth first

Every way down from the candidates for an event is a branch: it ends at a handler that cannot be
bound, at a fatal error or at a leaf that is bound. `Handler.branches` lists the branches from left
to right as if none of them stopped the search, each tried in the state of the chain that the one
before it left. Selection is the first of them that does not merely fail.

* `searchBranches`: the branches of a search.
* `select_judges`: what trying the candidates comes to, read off the branches.
* `Alike`: lists of handlers that the search for an event cannot tell apart.
-/

namespace ChainScript
set_option autoImplicit false

open Program Handler

variable {ρ ε σ : Type}

/-! ## Branches -/

inductive Ending (ρ ε : Type) where
  | bound (selection : Selection ρ ε)
  | fatal (error : Error)
  | failed (reason : BindFailure)

namespace Ending

def ofRefusal : Refusal → Ending ρ ε
  | .failed reason => .failed reason
  | .fatal error => .fatal error

/-- The end of a branch below a group that bound its own arguments. -/
def within (args : BoundArgs) : Ending ρ ε → Ending ρ ε
  | .bound selection => .bound { selection with args := selection.args.prepend args }
  | .fatal error => .fatal error
  | .failed reason => .failed reason

def stops : Ending ρ ε → Bool
  | .bound _ => true
  | .fatal _ => true
  | .failed _ => false

@[simp] theorem stops_within (args : BoundArgs) (ending : Ending ρ ε) :
    (ending.within args).stops = ending.stops := by
  cases ending <;> rfl

end Ending

/-- The end of a branch and the state of the chain after it. -/
structure Branch (ρ ε σ : Type) where
  ending : Ending ρ ε
  state : σ

def Branch.within (args : BoundArgs) (x : Branch ρ ε σ) : Branch ρ ε σ :=
  ⟨x.ending.within args, x.state⟩

/-- Visit items in turn, each in the state that the one before it left, and gather what they give. -/
def sweep {α β : Type} (visit : α → σ → List β × σ) : List α → σ → List β × σ
  | [], s => ([], s)
  | a :: as, s =>
    let first := visit a s
    let others := sweep visit as first.2
    (first.1 ++ others.1, others.2)

theorem sweep_attach {α β : Type} (visit : α → σ → List β × σ) (as : List α) (s : σ) :
    sweep (fun a : { a // a ∈ as } => visit a.1) as.attach s = sweep visit as s := by
  suffices h : ∀ (bs : List { a // a ∈ as }) (s : σ),
      sweep (fun a : { a // a ∈ as } => visit a.1) bs s = sweep visit (bs.map Subtype.val) s by
    rw [h, List.attach_map_subtype_val]
  intro bs
  induction bs with
  | nil => intro s; rfl
  | cons b bs ih => intro s; simp only [List.map_cons, sweep, ih]

/-- The branches that start at a handler, from left to right, and the state after the last. -/
def Handler.branches (b : Binder ρ) (answers : Answers σ) :
    Handler ρ ε → List Event → σ → List (Branch ρ ε σ) × σ
  | .leaf sig effect, elements, s =>
    match (b.params sig.params {} (sig.remaining elements)).run.run answers s with
    | (.error refusal, s') => ([⟨.ofRefusal refusal, s'⟩], s')
    | (.ok (args, []), s') => ([⟨.bound ⟨sig, effect, args⟩, s'⟩], s')
    | (.ok (_, e :: rest), s') => ([⟨.failed (.trailing (rest.length + 1) e), s'⟩], s')
  | .group sig members, elements, s =>
    match (b.params sig.params {} (sig.remaining elements)).run.run answers s with
    | (.error refusal, s') => ([⟨.ofRefusal refusal, s'⟩], s')
    | (.ok (_, []), s') => ([⟨.failed (.missingRest sig.label), s'⟩], s')
    | (.ok (args, e :: rest), s') =>
      let below := sweep (fun k => k.1.branches b answers (e :: rest))
        (candidates members (e :: rest)).attach s'
      (below.1.map (Branch.within args), below.2)
termination_by h => h
decreasing_by
  have hmem := mem_of_mem_candidates k.2
  have hlt := List.sizeOf_lt_of_mem hmem
  simp only [Handler.group.sizeOf_spec]
  omega

/-- The branches of the search among handlers. -/
def searchBranches (b : Binder ρ) (answers : Answers σ) (hs : List (Handler ρ ε))
    (elements : List Event) (s : σ) : List (Branch ρ ε σ) × σ :=
  sweep (fun h => h.branches b answers elements) (candidates hs elements) s

theorem Handler.branches_group (b : Binder ρ) (answers : Answers σ) (sig : Signature ρ)
    (members : List (Handler ρ ε)) (elements : List Event) (s : σ) :
    (group sig members).branches b answers elements s =
      match (b.params sig.params {} (sig.remaining elements)).run.run answers s with
      | (.error refusal, s') => ([⟨.ofRefusal refusal, s'⟩], s')
      | (.ok (_, []), s') => ([⟨.failed (.missingRest sig.label), s'⟩], s')
      | (.ok (args, e :: rest), s') =>
        ((searchBranches b answers members (e :: rest) s').1.map (Branch.within args),
          (searchBranches b answers members (e :: rest) s').2) := by
  rw [branches]
  rcases (b.params sig.params {} (sig.remaining elements)).run.run answers s with
    ⟨refusal | ⟨args, _ | ⟨e, rest⟩⟩, s'⟩
  · rfl
  · rfl
  · dsimp only
    rw [sweep_attach (fun k : Handler ρ ε => k.branches b answers (e :: rest))]
    rfl

/-! ## Fatal refusals -/

/-- A search that ends with a fatal error only where the error is fatal. -/
def FatalOnly {α : Type} (x : Search α) : Prop :=
  ∀ (σ : Type) (answers : Answers σ) (s s' : σ) (error : Error),
    x.run.run answers s = (.error (.fatal error), s') → error.isFatal = true

theorem FatalOnly.bind {α β : Type} {x : Search α} {f : α → Search β} (hx : FatalOnly x)
    (hf : ∀ a, FatalOnly (f a)) : FatalOnly (x >>= f) := by
  intro σ answers s s' error h
  rw [run_exceptBind] at h
  rcases hrun : x.run.run answers s with ⟨refusal | a, s₁⟩
  · rw [hrun] at h
    cases h
    exact hx _ _ _ _ _ hrun
  · rw [hrun] at h
    exact hf a _ _ _ _ _ h

theorem Binder.value_fatalOnly (b : Binder ρ) (blame : Error → BindFailure) (reading : ρ)
    (e : Event) : FatalOnly (b.value blame reading e) := by
  intro σ answers s s' error h
  rw [value, ExceptT.run_mk, run_bind] at h
  rcases hrun : (b.resolve reading e).run.run answers s with ⟨err | v, s₁⟩
  · rw [hrun] at h
    dsimp only at h
    by_cases hfatal : err.isFatal = true
    · rw [Refusal.ofError, if_pos hfatal] at h
      cases h
      exact hfatal
    · rw [Refusal.ofError, if_neg hfatal] at h
      cases h
  · rw [hrun] at h
    cases h

theorem Binder.params_fatalOnly (b : Binder ρ) (ps : List (Param ρ)) (bound : BoundArgs)
    (elements : List Event) : FatalOnly (b.params ps bound elements) := by
  have hclosed : b.Closed fun _ x => FatalOnly x := by
    refine ⟨fun a σ answers s s' error h => ?_, fun reason σ answers s s' error h => ?_,
      b.value_fatalOnly, FatalOnly.bind⟩
    · cases h
    · cases h
  exact hclosed.params ps bound elements

/-! ## The first branch that stops -/

def firstStop (xs : List (Branch ρ ε σ)) : Option (Branch ρ ε σ) :=
  xs.find? fun x => x.ending.stops

/-- A branch stops the search when those before it only failed. -/
def StopsAt (xs : List (Branch ρ ε σ)) (x : Branch ρ ε σ) : Prop :=
  x.ending.stops = true ∧
    ∃ earlier later, xs = earlier ++ x :: later ∧ ∀ y ∈ earlier, y.ending.stops = false

theorem firstStop_eq_some {xs : List (Branch ρ ε σ)} {x : Branch ρ ε σ} :
    firstStop xs = some x ↔ StopsAt xs x := by
  simp only [firstStop, List.find?_eq_some_iff_append, StopsAt, Bool.not_eq_true']

theorem firstStop_eq_none {xs : List (Branch ρ ε σ)} :
    firstStop xs = none ↔ ∀ x ∈ xs, x.ending.stops = false := by
  simp only [firstStop, List.find?_eq_none, Bool.not_eq_true]

theorem firstStop_append (xs ys : List (Branch ρ ε σ)) :
    firstStop (xs ++ ys) = (firstStop xs).or (firstStop ys) :=
  List.find?_append

theorem firstStop_within (args : BoundArgs) (xs : List (Branch ρ ε σ)) :
    firstStop (xs.map (Branch.within args)) = (firstStop xs).map (Branch.within args) := by
  rw [firstStop, List.find?_map]
  congr 1
  congr 1
  funext x
  exact Ending.stops_within args x.ending

/-- Binding a handler comes to what its branches say. -/
inductive Decides (found : List (Branch ρ ε σ) × σ) :
    Except Refusal (Selection ρ ε) × σ → Prop where
  | bound {selection : Selection ρ ε} {s : σ}
      (first : firstStop found.1 = some ⟨.bound selection, s⟩) : Decides found (.ok selection, s)
  | fatal {error : Error} {s : σ} (first : firstStop found.1 = some ⟨.fatal error, s⟩)
      (isFatal : error.isFatal = true) : Decides found (.error (.fatal error), s)
  | failed {reason : BindFailure} (none : firstStop found.1 = none) :
      Decides found (.error (.failed reason), found.2)

/-- Trying handlers with these labels comes to what the branches say. -/
inductive Judges (found : List (Branch ρ ε σ) × σ) (labels : List String) :
    Trial (Selection ρ ε) × σ → Prop where
  | found {selection : Selection ρ ε} {s : σ}
      (first : firstStop found.1 = some ⟨.bound selection, s⟩) :
      Judges found labels (.found selection, s)
  | fatal {error : Error} {s : σ} (first : firstStop found.1 = some ⟨.fatal error, s⟩)
      (isFatal : error.isFatal = true) : Judges found labels (.fatal error, s)
  | abandoned {attempted : List Attempt} (none : firstStop found.1 = none)
      (named : attempted.map Attempt.handler = labels) :
      Judges found labels (.abandoned attempted, found.2)

section Search

variable {b : Binder ρ} {answers : Answers σ}

theorem Handler.tryAll_judges {hs : List (Handler ρ ε)} {elements : List Event}
    (hhs : ∀ h ∈ hs, ∀ s, Decides (h.branches b answers elements s)
      ((h.attempt b elements).run.run answers s)) (s : σ) :
    Judges (sweep (fun h => h.branches b answers elements) hs s) (hs.map label)
      ((tryAll b hs elements).run answers s) := by
  induction hs generalizing s with
  | nil =>
    rw [tryAll_nil]
    exact .abandoned rfl rfl
  | cons h hs ih =>
    have hfirst := hhs h (List.mem_cons_self ..) s
    have hrest := ih (fun k hk => hhs k (List.mem_cons_of_mem h hk))
      (h.branches b answers elements s).2
    rw [tryAll_cons, run_bind]
    generalize (h.attempt b elements).run.run answers s = r at hfirst
    cases hfirst with
    | bound first =>
      refine .found ?_
      rw [sweep, firstStop_append, first]
      rfl
    | fatal first isFatal =>
      refine .fatal ?_ isFatal
      rw [sweep, firstStop_append, first]
      rfl
    | failed none =>
      have hbehind : firstStop (sweep (fun h => h.branches b answers elements) (h :: hs) s).1 =
          firstStop (sweep (fun h => h.branches b answers elements) hs
            (h.branches b answers elements s).2).1 := by
        rw [sweep, firstStop_append, none]
        rfl
      dsimp only
      rw [run_bind]
      generalize (tryAll b hs elements).run answers (h.branches b answers elements s).2 = t at hrest
      cases hrest with
      | found first => exact .found (hbehind.trans first)
      | fatal first isFatal => exact .fatal (hbehind.trans first) isFatal
      | @abandoned attempted none named =>
        refine .abandoned (hbehind.trans none) ?_
        rw [List.map_append, named]
        rfl

/-- Binding a handler comes to the first of its branches that stops. The induction is on the tree of
handlers: below a group the members are tried in the order of their branches. -/
theorem Handler.attempt_decides (h : Handler ρ ε) (elements : List Event) (s : σ) :
    Decides (h.branches b answers elements s) ((h.attempt b elements).run.run answers s) := by
  induction h using Handler.tree generalizing elements s with
  | leaf sig effect =>
    rw [attempt_leaf, run_exceptBind, branches]
    rcases hp : (b.params sig.params {} (sig.remaining elements)).run.run answers s with
      ⟨(reason | error) | ⟨args, _ | ⟨e, rest⟩⟩, s'⟩
    · exact .failed rfl
    · exact .fatal rfl (b.params_fatalOnly _ _ _ _ _ _ _ _ hp)
    · exact .bound rfl
    · exact .failed rfl
  | group sig members ih =>
    rw [attempt_group, run_exceptBind, branches_group]
    rcases hp : (b.params sig.params {} (sig.remaining elements)).run.run answers s with
      ⟨(reason | error) | ⟨args, _ | ⟨e, rest⟩⟩, s'⟩
    · exact .failed rfl
    · exact .fatal rfl (b.params_fatalOnly _ _ _ _ _ _ _ _ hp)
    · exact .failed rfl
    · have hmembers : ∀ k ∈ candidates members (e :: rest), ∀ s,
          Decides (k.branches b answers (e :: rest) s)
            ((k.attempt b (e :: rest)).run.run answers s) :=
        fun k hk => ih k (mem_of_mem_candidates hk) (e :: rest)
      have hjudges : Judges (searchBranches b answers members (e :: rest) s') _ _ :=
        tryAll_judges hmembers s'
      dsimp only
      rw [ExceptT.run_mk, select_run, bind_assoc, run_bind, Event.elements]
      generalize (tryAll b (candidates members (e :: rest)) (e :: rest)).run answers s' = t
        at hjudges
      cases hjudges with
      | found first =>
        refine .bound ?_
        rw [firstStop_within, first]
        rfl
      | @fatal error _ first isFatal =>
        have hrefusal : Refusal.ofError .within error = .fatal error := by
          rw [Refusal.ofError, if_pos isFatal]
        change Decides _ (.error (Refusal.ofError .within error), _)
        rw [hrefusal]
        refine .fatal ?_ isFatal
        rw [firstStop_within, first]
        rfl
      | abandoned none named =>
        refine .failed ?_
        rw [firstStop_within, none]
        rfl

/-- Selection comes to the first branch of the search that stops. -/
theorem select_judges (b : Binder ρ) (answers : Answers σ) (hs : List (Handler ρ ε)) (e : Event)
    (s : σ) :
    Judges (searchBranches b answers hs e.elements s) ((candidates hs e.elements).map label)
      ((tryAll b (candidates hs e.elements) e.elements).run answers s) :=
  tryAll_judges (fun h _ => h.attempt_decides e.elements) s

end Search

/-- A search with a branch that stops finds a handler or ends with a fatal error. -/
theorem select_error_fatal {b : Binder ρ} {answers : Answers σ} {kind : String}
    {hs : List (Handler ρ ε)} {e : Event} {s s' : σ} {x : Branch ρ ε σ} {err : Error}
    (hx : x ∈ (searchBranches b answers hs e.elements s).1) (hstops : x.ending.stops = true)
    (hrun : (select b kind hs e).run.run answers s = (.error err, s')) : err.isFatal = true := by
  have hjudges := select_judges b answers hs e s
  rw [select_run, run_bind] at hrun
  generalize (tryAll b (candidates hs e.elements) e.elements).run answers s = t at hjudges hrun
  cases hjudges with
  | found first => cases hrun
  | fatal first isFatal =>
    cases hrun
    exact isFatal
  | abandoned none named =>
    have hfails := firstStop_eq_none.mp none x hx
    rw [hstops] at hfails
    cases hfails

/-! ## Branches where replies are fixed -/

section Fixed

variable {b : Binder ρ} {reply : (c : Call) → c.Reply} {hs : List (Handler ρ ε)}
  {elements : List Event} {h : Handler ρ ε} {x : Branch ρ ε Unit}

theorem mem_sweep {α β : Type} {visit : α → Unit → List β × Unit} {as : List α} {a : α} {y : β}
    (ha : a ∈ as) (hy : y ∈ (visit a ()).1) : y ∈ (sweep visit as ()).1 := by
  induction as with
  | nil => cases ha
  | cons first as ih =>
    rw [sweep, List.mem_append]
    rcases List.mem_cons.mp ha with rfl | ha
    · exact .inl hy
    · exact .inr (ih ha)

/-- Where replies are fixed, what was tried before a candidate does not change its branches. -/
theorem mem_searchBranches (hh : h ∈ candidates hs elements)
    (hx : x ∈ (h.branches b (fixed reply) elements ()).1) :
    x ∈ (searchBranches b (fixed reply) hs elements ()).1 :=
  mem_sweep hh hx

theorem Handler.branch_of_bound {selection : Selection ρ ε}
    (hbound : (h.attempt b elements).run.run (fixed reply) () = (.ok selection, ())) :
    ∃ x ∈ (h.branches b (fixed reply) elements ()).1, x.ending.stops = true := by
  have hdecides : Decides (h.branches b (fixed reply) elements ())
      ((h.attempt b elements).run.run (fixed reply) ()) := h.attempt_decides elements ()
  rw [hbound] at hdecides
  cases hdecides with
  | bound first => exact ⟨_, List.mem_of_find?_eq_some first, rfl⟩

end Fixed

/-! ## Handlers that do not matter -/

/-- Lists of handlers that differ, for the elements of an event, only in where the catch-alls stand
among the named handlers, in named handlers that the event does not name, and in the same way in the
members of a group, whatever the parameters of the group leave. -/
inductive Alike : List Event → List (Handler ρ ε) → List (Handler ρ ε) → Prop where
  | refl (elements : List Event) (hs : List (Handler ρ ε)) : Alike elements hs hs
  | symm {elements : List Event} {hs hs' : List (Handler ρ ε)} (h : Alike elements hs hs') :
      Alike elements hs' hs
  | trans {elements : List Event} {hs mid hs' : List (Handler ρ ε)} (first : Alike elements hs mid)
      (second : Alike elements mid hs') : Alike elements hs hs'
  | move {elements : List Event} (front back : List (Handler ρ ε)) {named catchAll : Handler ρ ε}
      (isNamed : named.signature.isCatchAll = false)
      (isCatchAll : catchAll.signature.isCatchAll = true) :
      Alike elements (front ++ named :: catchAll :: back) (front ++ catchAll :: named :: back)
  | unnamed {elements : List Event} (front back : List (Handler ρ ε)) {named : Handler ρ ε}
      (isNamed : named.signature.isCatchAll = false)
      (notIn : named.signature.isNamedIn elements = false) :
      Alike elements (front ++ named :: back) (front ++ back)
  | members {elements : List Event} (front back : List (Handler ρ ε)) (sig : Signature ρ)
      {ms ms' : List (Handler ρ ε)}
      (inside : ∀ rest, rest <:+ sig.remaining elements → Alike rest ms ms') :
      Alike elements (front ++ .group sig ms :: back) (front ++ .group sig ms' :: back)

theorem candidates_move {elements : List Event} (front back : List (Handler ρ ε))
    {named catchAll : Handler ρ ε} (hnamed : named.signature.isCatchAll = false)
    (hcatch : catchAll.signature.isCatchAll = true) :
    candidates (front ++ named :: catchAll :: back) elements =
      candidates (front ++ catchAll :: named :: back) elements := by
  have hnot := Signature.isNamedIn_catchAll hcatch elements
  simp [candidates, List.filter_cons, hnamed, hcatch, hnot]

theorem candidates_unnamed {elements : List Event} (front back : List (Handler ρ ε))
    {named : Handler ρ ε} (hnamed : named.signature.isCatchAll = false)
    (hnot : named.signature.isNamedIn elements = false) :
    candidates (front ++ named :: back) elements = candidates (front ++ back) elements := by
  simp [candidates, hnamed, hnot]

/-- A handler with a given signature is a candidate at one place, or nowhere. -/
theorem candidates_place (elements : List Event) (front back : List (Handler ρ ε))
    (sig : Signature ρ) :
    (∃ before behind, ∀ h : Handler ρ ε, h.signature = sig →
      candidates (front ++ h :: back) elements = before ++ h :: behind) ∨
    ∀ h : Handler ρ ε, h.signature = sig →
      candidates (front ++ h :: back) elements = candidates (front ++ back) elements := by
  cases hcatch : sig.isCatchAll with
  | true =>
    have hnot := Signature.isNamedIn_catchAll hcatch elements
    refine .inl ⟨(front ++ back).filter (fun h => h.signature.isNamedIn elements) ++
      front.filter (fun h => h.signature.isCatchAll),
      back.filter fun h => h.signature.isCatchAll, ?_⟩
    rintro h rfl
    simp [candidates, hcatch, hnot]
  | false =>
    cases hnamed : sig.isNamedIn elements with
    | true =>
      refine .inl ⟨front.filter fun h => h.signature.isNamedIn elements,
        back.filter (fun h => h.signature.isNamedIn elements) ++
          (front ++ back).filter fun h => h.signature.isCatchAll, ?_⟩
      rintro h rfl
      simp [candidates, hcatch, hnamed]
    | false =>
      refine .inr ?_
      rintro h rfl
      exact candidates_unnamed front back hcatch hnamed

theorem Handler.tryAll_replace {b : Binder ρ} {elements : List Event} {h h' : Handler ρ ε}
    (hlabel : h.label = h'.label) (hattempt : h.attempt b elements = h'.attempt b elements)
    (before behind : List (Handler ρ ε)) :
    tryAll b (before ++ h :: behind) elements = tryAll b (before ++ h' :: behind) elements := by
  rw [tryAll_append, tryAll_append, tryAll_cons, tryAll_cons, hlabel, hattempt]

theorem Alike.tryAll_eq {elements : List Event} {hs hs' : List (Handler ρ ε)}
    (h : Alike elements hs hs') (b : Binder ρ) :
    tryAll b (candidates hs elements) elements = tryAll b (candidates hs' elements) elements := by
  induction h with
  | refl elements hs => rfl
  | symm _ ih => exact ih.symm
  | trans _ _ first second => exact first.trans second
  | move front back isNamed isCatchAll => rw [candidates_move front back isNamed isCatchAll]
  | unnamed front back isNamed notIn => rw [candidates_unnamed front back isNamed notIn]
  | @members elements front back sig ms ms' _ ih =>
    have hattempt : (group sig ms).attempt b elements = (group sig ms').attempt b elements := by
      rw [attempt_group, attempt_group]
      refine exceptBind_congr_of_run fun σ answers s s' r hrun => ?_
      obtain ⟨args, rest⟩ := r
      have hsuffix := Binder.params_suffix hrun
      cases rest with
      | nil => rfl
      | cons e rest =>
        dsimp only
        rw [select_run, select_run, Event.elements, ih (e :: rest) hsuffix]
    rcases candidates_place elements front back sig with ⟨before, behind, hplace⟩ | hplace
    · rw [hplace (group sig ms) rfl, hplace (group sig ms') rfl]
      have hlabel : (group sig ms).label = (group sig ms').label := rfl
      exact tryAll_replace hlabel hattempt before behind
    · rw [hplace (group sig ms) rfl, hplace (group sig ms') rfl]

/-! ## The search -/

/-- Selection is bound where the first branch that stops is bound, ends with a fatal error where that
branch does, and has no match exactly where every branch fails. The attempts of a search without a
match name the candidates in order. Handlers that are never candidates do not matter, nor does where
the catch-alls stand. -/
theorem select_depthFirst (b : Binder ρ) (kind : String) (hs : List (Handler ρ ε)) (e : Event) :
    (∀ (σ : Type) (answers : Answers σ) (s : σ),
      (∀ selection s', (select b kind hs e).run.run answers s = (.ok selection, s') ↔
        StopsAt (searchBranches b answers hs e.elements s).1 ⟨.bound selection, s'⟩) ∧
      (∀ error s', error.isFatal = true ∧
          (select b kind hs e).run.run answers s = (.error error, s') ↔
        StopsAt (searchBranches b answers hs e.elements s).1 ⟨.fatal error, s'⟩) ∧
      ((∃ attempted s',
          (select b kind hs e).run.run answers s = (.error (.noMatch kind e attempted), s')) ↔
        ∀ x ∈ (searchBranches b answers hs e.elements s).1, x.ending.stops = false) ∧
      ∀ attempted s',
        (select b kind hs e).run.run answers s = (.error (.noMatch kind e attempted), s') →
          attempted.map Attempt.handler = (candidates hs e.elements).map label) ∧
    ∀ hs', Alike e.elements hs hs' → select b kind hs e = select b kind hs' e := by
  constructor
  · intro σ answers s
    have hjudges := select_judges b answers hs e s
    simp only [← firstStop_eq_some, ← firstStop_eq_none, select_run, run_bind]
    generalize searchBranches b answers hs e.elements s = found at hjudges ⊢
    generalize (tryAll b (candidates hs e.elements) e.elements).run answers s = t at hjudges ⊢
    cases hjudges with
    | found first =>
      rw [first]
      simp [Trial.conclude]
    | @fatal error s' first isFatal =>
      have hnot : ∀ attempted, error ≠ .noMatch kind e attempted := by
        rintro attempted rfl
        cases isFatal
      rw [first]
      simp [Trial.conclude, isFatal, hnot]
    | @abandoned attempted none named =>
      have hnot : ∀ error : Error, error.isFatal = true → .noMatch kind e attempted ≠ error := by
        rintro error hfatal rfl
        cases hfatal
      rw [none]
      simpa [Trial.conclude, named] using hnot
  · intro hs' halike
    apply ExceptT.ext
    rw [select_run, select_run, halike.tryAll_eq b]

def Handler.phrase : Handler Unit Unit :=
  .catchAll "Phrase" [{ name := "words", source := .element (), variadic := true }] () "any words"

/-- Any words, or a sum of two terms behind a name, or help. -/
def Handler.phrases : List (Handler Unit Unit) :=
  [phrase,
    .namespaced "Math"
      [.named "Add" [.one "first" (), .one "second" ()] () "a sum",
        .catchAll "Term" [.one "term" ()] () "a term"]
      none,
    .named "Help" [] () "help"]

/-- A sum without its second term. -/
def Event.halfSum : Event := .seq [.token "math", .token "add", .token "1"]

theorem select_depthFirst_halfSum :
    (∃ selection, (select Binder.verbatim "Word" Handler.phrases .halfSum).run.run
        MemoryChain.answer (.new 0 0) = (.ok selection, .new 0 0) ∧
      StopsAt (searchBranches Binder.verbatim MemoryChain.answer Handler.phrases
        Event.halfSum.elements (.new 0 0)).1 ⟨.bound selection, .new 0 0⟩) ∧
    (∃ attempted, (select Binder.verbatim "Word" (Handler.phrases.drop 1) .halfSum).run.run
        MemoryChain.answer (.new 0 0) =
          (.error (.noMatch "Word" .halfSum attempted), .new 0 0) ∧
      attempted.map Attempt.handler = ["Math"]) ∧
    select Binder.verbatim "Word" Handler.phrases .halfSum =
      select Binder.verbatim "Word" ((Handler.phrases.drop 1).take 1 ++ Handler.phrases.take 1)
        .halfSum := by
  have hall := select_depthFirst Binder.verbatim "Word" Handler.phrases .halfSum
  refine ⟨?_, ?_, ?_⟩
  · have hrun : (select Binder.verbatim "Word" Handler.phrases .halfSum).run.run
        MemoryChain.answer (.new 0 0) = (.ok ⟨Handler.phrase.signature, (),
          ⟨[("words", .event .halfSum)]⟩⟩, .new 0 0) := by
      with_unfolding_all rfl
    exact ⟨_, hrun, ((hall.1 _ _ _).1 _ _).mp hrun⟩
  · have hnamed := select_depthFirst Binder.verbatim "Word" (Handler.phrases.drop 1) .halfSum
    have hrun : ∃ attempted, (select Binder.verbatim "Word" (Handler.phrases.drop 1)
        .halfSum).run.run MemoryChain.answer (.new 0 0) =
          (.error (.noMatch "Word" .halfSum attempted), .new 0 0) :=
      ⟨_, by with_unfolding_all rfl⟩
    obtain ⟨attempted, hrun⟩ := hrun
    exact ⟨attempted, hrun, (hnamed.1 _ _ _).2.2.2 _ _ hrun⟩
  · refine hall.2 _ (.trans (.unnamed (Handler.phrases.take 2) [] rfl rfl) ?_)
    exact .symm (.move [] [] rfl rfl)

end ChainScript
