import ChainScript.Proofs.Dispatch.Taking

/-! # A selection accounts for every element

The handlers from the top of the search down to the selected one form its path. Each takes its name
out of the elements it is tried on, its parameters take what comes next, and what is left goes to the
members. At the end nothing is left: the elements of the event are the names on the path, each at a
position of its own, and between them, in order, what the parameters handed to their readings.

* `Leads`: the path of a selection and what the parameters on it took.
* `Accounts`: elements are made up of names at given positions and of elements that were used.
* `Tries`: a handler that the search may try, and the elements it is tried on.
-/

namespace ChainScript
set_option autoImplicit false

open Handler

variable {ρ ε σ : Type}

/-! ## Positions -/

/-- The items of a list at the positions that are wanted. -/
def keepAt {α : Type} (wanted : Nat → Bool) (xs : List α) : List α :=
  (xs.zipIdx.filter fun x => wanted x.2).map Prod.fst

section Positions

variable {α : Type}

theorem keepAt_cons (wanted : Nat → Bool) (x : α) (xs : List α) :
    keepAt wanted (x :: xs) =
      (if wanted 0 then [x] else []) ++ keepAt (fun k => wanted (k + 1)) xs := by
  have hshift : keepAt (fun k => wanted (k + 1)) xs =
      ((xs.zipIdx 1).filter fun x => wanted x.2).map Prod.fst := by
    rw [List.zipIdx_succ, List.filter_map, List.map_map]
    rfl
  rw [hshift, keepAt, List.zipIdx_cons, List.filter_cons]
  by_cases h : wanted 0 = true
  · simp [h]
  · simp [h]

theorem keepAt_append (wanted : Nat → Bool) (xs ys : List α) :
    keepAt wanted (xs ++ ys) =
      keepAt wanted xs ++ keepAt (fun k => wanted (k + xs.length)) ys := by
  induction xs generalizing wanted with
  | nil => rfl
  | cons x xs ih =>
    rw [List.cons_append, keepAt_cons, keepAt_cons, ih, List.append_assoc]
    simp only [List.length_cons, Nat.add_assoc]

theorem keepAt_all {wanted : Nat → Bool} {xs : List α}
    (h : ∀ k < xs.length, wanted k = true) : keepAt wanted xs = xs := by
  induction xs generalizing wanted with
  | nil => rfl
  | cons x xs ih =>
    have hzero : wanted 0 = true := h 0 (Nat.zero_lt_succ _)
    have hrest : keepAt (fun k => wanted (k + 1)) xs = xs :=
      ih fun k hk => h (k + 1) (Nat.succ_lt_succ hk)
    rw [keepAt_cons, if_pos hzero, hrest]
    rfl

/-- The position in a list of an item at a position of the list without item `p`. -/
def shift (p k : Nat) : Nat := if k < p then k else k + 1

theorem shift_ne (p k : Nat) : shift p k ≠ p := by
  unfold shift
  split <;> omega

theorem shift_inj {p j k : Nat} (h : shift p j = shift p k) : j = k := by
  unfold shift at h
  split at h <;> split at h <;> omega

theorem getElem?_shift (xs : List α) (p k : Nat) : xs[shift p k]? = (xs.eraseIdx p)[k]? := by
  rw [List.getElem?_eraseIdx, shift]
  split <;> rfl

/-- Items of a list without item `p` are items of the list that are not item `p`. -/
theorem keepAt_eraseIdx (p : Nat) {wanted wanted' : Nat → Bool} (xs : List α)
    (hp : wanted p = false) (hshift : ∀ k, wanted (shift p k) = wanted' k) :
    keepAt wanted xs = keepAt wanted' (xs.eraseIdx p) := by
  induction xs generalizing p wanted wanted' with
  | nil => rfl
  | cons x xs ih =>
    cases p with
    | zero =>
      have hrest : (fun k => wanted (k + 1)) = wanted' := by
        funext k
        rw [← hshift k, shift, if_neg (Nat.not_lt_zero k)]
      rw [keepAt_cons, hp, hrest]
      rfl
    | succ p =>
      have hzero : wanted 0 = wanted' 0 := by
        rw [← hshift 0, shift, if_pos (Nat.succ_pos p)]
      have hsucc : ∀ k, wanted (shift p k + 1) = wanted' (k + 1) := by
        intro k
        rw [← hshift (k + 1)]
        congr 1
        unfold shift
        split <;> split <;> omega
      rw [List.eraseIdx_cons_succ, keepAt_cons, keepAt_cons, hzero, ih p hp hsucc]

end Positions

/-! ## Accounts -/

/-- Elements are names at positions of their own and, in order at all other positions, the elements
that were used. -/
structure Accounts (names : List (String × Nat)) (elements used : List Event) : Prop where
  found : ∀ x ∈ names, ∃ text, elements[x.2]? = some (.token text) ∧
    Text.sameLetters x.1 text = true
  distinct : (names.map Prod.snd).Nodup
  others : keepAt (fun k => k ∉ names.map Prod.snd) elements = used

namespace Accounts

variable {names : List (String × Nat)} {elements rest used : List Event}

theorem all (elements : List Event) : Accounts [] elements elements :=
  ⟨by simp, List.nodup_nil, keepAt_all (by simp)⟩

theorem behind (h : Accounts names rest used) (front : List Event) :
    Accounts (names.map fun x => (x.1, x.2 + front.length)) (front ++ rest) (front ++ used) := by
  have hpositions : (names.map fun x => (x.1, x.2 + front.length)).map Prod.snd =
      (names.map Prod.snd).map (· + front.length) := by
    rw [List.map_map, List.map_map]
    rfl
  refine ⟨?_, ?_, ?_⟩
  · intro x hx
    obtain ⟨y, hy, rfl⟩ := List.mem_map.mp hx
    obtain ⟨text, htext, hletters⟩ := h.found y hy
    refine ⟨text, ?_, hletters⟩
    rw [List.getElem?_append_right (Nat.le_add_left ..), Nat.add_sub_cancel]
    exact htext
  · rw [hpositions]
    exact List.Pairwise.map _ (fun j k hne hjk => hne (Nat.add_right_cancel hjk)) h.distinct
  · have hfront : keepAt (fun k => decide (k ∉ (names.map Prod.snd).map (· + front.length)))
        front = front := by
      apply keepAt_all
      intro k hk
      rw [decide_eq_true_iff]
      intro hmem
      obtain ⟨j, -, rfl⟩ := List.mem_map.mp hmem
      omega
    have hrest : ∀ k, decide (k + front.length ∉ (names.map Prod.snd).map (· + front.length)) =
        decide (k ∉ names.map Prod.snd) := by
      intro k
      refine decide_eq_decide.mpr (not_congr (List.mem_map.trans ?_))
      constructor
      · rintro ⟨j, hj, hjk⟩
        exact Nat.add_right_cancel hjk ▸ hj
      · intro hk
        exact ⟨k, hk, rfl⟩
    rw [hpositions, keepAt_append, hfront, funext hrest, h.others]

/-- A name may stand anywhere among the elements. -/
theorem named {position : Nat} {name text : String}
    (hname : elements[position]? = some (.token text)) (hletters : Text.sameLetters name text = true)
    (h : Accounts names (elements.eraseIdx position) used) :
    Accounts ((name, position) :: names.map fun x => (x.1, shift position x.2)) elements used := by
  have hpositions : (names.map fun x => (x.1, shift position x.2)).map Prod.snd =
      (names.map Prod.snd).map (shift position) := by
    rw [List.map_map, List.map_map]
    rfl
  have hne : position ∉ (names.map Prod.snd).map (shift position) := by
    intro hmem
    obtain ⟨k, -, hk⟩ := List.mem_map.mp hmem
    exact shift_ne position k hk
  refine ⟨?_, ?_, ?_⟩
  · intro x hx
    rcases List.mem_cons.mp hx with rfl | hx
    · exact ⟨text, hname, hletters⟩
    · obtain ⟨y, hy, rfl⟩ := List.mem_map.mp hx
      obtain ⟨text, htext, hletters⟩ := h.found y hy
      exact ⟨text, by rw [getElem?_shift]; exact htext, hletters⟩
  · rw [List.map_cons, hpositions, List.nodup_cons]
    exact ⟨hne, List.Pairwise.map _ (fun j k hjk heq => hjk (shift_inj heq)) h.distinct⟩
  · rw [List.map_cons, hpositions, ← h.others]
    refine keepAt_eraseIdx position elements (by simp) fun k => ?_
    refine decide_eq_decide.mpr (not_congr (List.mem_cons.trans ?_))
    constructor
    · rintro (hk | hmem)
      · exact absurd hk (shift_ne position k)
      · obtain ⟨j, hj, hjk⟩ := List.mem_map.mp hmem
        exact shift_inj hjk ▸ hj
    · intro hk
      exact .inr (List.mem_map.mpr ⟨k, hk, rfl⟩)

/-- A handler takes its name out of the elements it is tried on. -/
theorem of_remaining {sig : Signature ρ}
    (hsig : sig.isNamedIn elements = true ∨ sig.isCatchAll = true)
    (h : Accounts names (sig.remaining elements) used) :
    ∃ all, all.map Prod.fst = sig.name.toList ++ names.map Prod.fst ∧
      Accounts all elements used := by
  unfold Signature.remaining Signature.isCatchAll at h
  unfold Signature.isNamedIn Signature.isCatchAll at hsig
  cases hname : sig.name with
  | none =>
    rw [hname] at h
    exact ⟨names, rfl, h⟩
  | some name =>
    rw [hname] at h hsig
    obtain ⟨text, htext, hletters⟩ : ∃ text, elements[sig.namePosition]? = some (.token text) ∧
        Text.sameLetters name text = true := by
      rcases hsig with hsig | hsig
      · split at hsig
        · rename_i own text heq htext
          cases heq
          exact ⟨text, htext, hsig⟩
        · cases hsig
      · cases hsig
    refine ⟨_, ?_, .named htext hletters h⟩
    rw [List.map_cons, List.map_map]
    rfl

end Accounts

/-! ## The path of a selection -/

/-- A handler on the path of a selection, with the elements it was tried on and what each of its
parameters handed to its reading. -/
structure Step (ρ : Type) where
  signature : Signature ρ
  elements : List Event
  handings : List Handing

def Step.used (step : Step ρ) : List Event := step.handings.flatMap Handing.elements

/-- A path through handlers for the elements of an event, from a candidate at the top to the leaf
selected. Each group passes on what its parameters left, and the leaf leaves nothing. -/
inductive Leads (b : Binder ρ) (answers : Program.Answers σ) :
    List (Handler ρ ε) → List Event → List (Step ρ) → Selection ρ ε → Prop where
  | leaf {hs : List (Handler ρ ε)} {elements : List Event} {sig : Signature ρ} {effect : ε}
      {handings : List Handing} {args : BoundArgs} {s s' : σ}
      (candidate : .leaf sig effect ∈ candidates hs elements)
      (takes : b.TakesAll answers sig.params {} (sig.remaining elements) s handings args [] s') :
      Leads b answers hs elements [⟨sig, elements, handings⟩] ⟨sig, effect, args⟩
  | group {hs members : List (Handler ρ ε)} {elements rest : List Event} {sig : Signature ρ}
      {handings : List Handing} {args : BoundArgs} {s s' : σ} {path : List (Step ρ)}
      {inner : Selection ρ ε}
      (candidate : .group sig members ∈ candidates hs elements)
      (takes : b.TakesAll answers sig.params {} (sig.remaining elements) s handings args rest s')
      (left : rest ≠ []) (member : Leads b answers members rest path inner) :
      Leads b answers hs elements (⟨sig, elements, handings⟩ :: path)
        { inner with args := inner.args.prepend args }

section Paths

variable {b : Binder ρ} {answers : Program.Answers σ} {s s' : σ} {selection : Selection ρ ε}
  {elements : List Event} {hs : List (Handler ρ ε)}

theorem Handler.attempt_leads (h : Handler ρ ε) (hh : h ∈ candidates hs elements)
    (hrun : (h.attempt b elements).run.run answers s = (.ok selection, s')) :
    ∃ path, Leads b answers hs elements path selection := by
  induction h using Handler.tree generalizing hs elements s s' selection with
  | leaf sig effect =>
    obtain ⟨args, hp, rfl⟩ := attempt_leaf_ok.mp hrun
    obtain ⟨handings, htakes⟩ := Binder.params_iff_takesAll.mp hp
    exact ⟨_, .leaf hh htakes⟩
  | group sig members ih =>
    obtain ⟨args, rest, s₁, inner, hp, hrest, hsel, rfl⟩ := attempt_group_ok.mp hrun
    obtain ⟨handings, htakes⟩ := Binder.params_iff_takesAll.mp hp
    obtain ⟨k, hk, s₀, hbound⟩ := select_ok hsel
    obtain ⟨path, hpath⟩ := ih k (mem_of_mem_candidates hk) hk hbound
    exact ⟨_, .group hh htakes hrest hpath⟩

/-- The names on a path and what its parameters used make up the elements at its top. -/
theorem Leads.accounts {path : List (Step ρ)} (h : Leads b answers hs elements path selection) :
    ∃ names, names.map Prod.fst = path.flatMap (fun step => step.signature.name.toList) ∧
      Accounts names elements (path.flatMap Step.used) := by
  induction h with
  | @leaf hs elements sig effect handings args s s' candidate takes =>
    have hused : sig.remaining elements = handings.flatMap Handing.elements := by
      rw [takes.elements_eq, List.append_nil]
    obtain ⟨names, hnames, haccounts⟩ :=
      Accounts.of_remaining (named_or_catchAll candidate) (.all (sig.remaining elements))
    refine ⟨names, ?_, ?_⟩
    · rw [hnames, List.flatMap_singleton]
      exact List.append_nil _
    · rw [List.flatMap_singleton, Step.used, ← hused]
      exact haccounts
  | @group hs members elements rest sig handings args s s' path inner candidate takes _ _ ih =>
    obtain ⟨names, hnames, haccounts⟩ := ih
    have hbehind := haccounts.behind (handings.flatMap Handing.elements)
    rw [← takes.elements_eq] at hbehind
    obtain ⟨all, hall, haccounts⟩ := Accounts.of_remaining (named_or_catchAll candidate) hbehind
    refine ⟨all, ?_, haccounts⟩
    rw [hall, List.map_map, List.flatMap_cons, ← hnames]
    rfl

end Paths

/-! ## The search -/

/-- A handler that the search for elements may try, and the elements it is tried on: a candidate at
the top, or one among the members of a group that was bound and left elements. -/
inductive Tries (b : Binder ρ) (answers : Program.Answers σ) (hs : List (Handler ρ ε))
    (elements : List Event) : Handler ρ ε → List Event → Prop where
  | top {h : Handler ρ ε} (candidate : h ∈ candidates hs elements) :
      Tries b answers hs elements h elements
  | member {sig : Signature ρ} {members : List (Handler ρ ε)} {tried rest : List Event}
      {args : BoundArgs} {s s' : σ} {k : Handler ρ ε}
      (outer : Tries b answers hs elements (.group sig members) tried)
      (bound : (b.params sig.params {} (sig.remaining tried)).run.run answers s =
        (.ok (args, rest), s'))
      (left : rest ≠ []) (candidate : k ∈ candidates members rest) :
      Tries b answers hs elements k rest

theorem Tries.named_or_catchAll {b : Binder ρ} {answers : Program.Answers σ}
    {hs : List (Handler ρ ε)} {elements tried : List Event} {h : Handler ρ ε}
    (ht : Tries b answers hs elements h tried) :
    h.signature.isNamedIn tried = true ∨ h.signature.isCatchAll = true := by
  cases ht with
  | top candidate => exact Handler.named_or_catchAll candidate
  | member _ _ _ candidate => exact Handler.named_or_catchAll candidate

/-- Wherever the search tries a handler, the position of its name is one of the elements, and however
many of its parameters have been bound, the cursor is at most at their end. A selection has a path on
which the names and what the parameters handed to their readings make up the whole event. -/
theorem select_accounts (b : Binder ρ) (answers : Program.Answers σ) (hs : List (Handler ρ ε))
    (e : Event) :
    (∀ h tried, Tries b answers hs e.elements h tried →
      (h.signature.isCatchAll = false → h.signature.namePosition < tried.length) ∧
      ∀ n s args left s', (b.params (h.signature.params.take n) {}
          (h.signature.remaining tried)).run.run answers s = (.ok (args, left), s') →
        ∃ cursor ≤ (h.signature.remaining tried).length,
          left = (h.signature.remaining tried).drop cursor) ∧
    ∀ kind s selection s', (select b kind hs e).run.run answers s = (.ok selection, s') →
      ∃ path names, Leads b answers hs e.elements path selection ∧
        names.map Prod.fst = path.flatMap (fun step => step.signature.name.toList) ∧
        Accounts names e.elements (path.flatMap Step.used) := by
  refine ⟨fun h tried ht => ⟨fun hnamed => ?_, ?_⟩, ?_⟩
  · rcases ht.named_or_catchAll with hn | hcatch
    · exact Signature.namePosition_lt hn
    · rw [hnamed] at hcatch
      cases hcatch
  · intro n s args left s' hrun
    obtain ⟨used, hused⟩ := Binder.params_suffix hrun
    refine ⟨used.length, ?_, ?_⟩
    · rw [← hused, List.length_append]
      exact Nat.le_add_right ..
    · rw [← hused, List.drop_left]
  · intro kind s selection s' hrun
    obtain ⟨h, hh, s₀, hbound⟩ := select_ok hrun
    obtain ⟨path, hpath⟩ := h.attempt_leads hh hbound
    obtain ⟨names, hnames, haccounts⟩ := hpath.accounts
    exact ⟨path, names, hpath, hnames, haccounts⟩

/-- A handler whose name stands between its parts. -/
def Handler.plus : Handler Unit Unit :=
  .leaf
    { name := some "plus"
      label := "plus"
      namePosition := 1
      params := [.one "first" (), { name := "unit", source := .slot "Unit" },
        { name := "others", source := .element (), variadic := true }] }
    ()

def Handler.sums : List (Handler Unit Unit) :=
  [.group { name := some "Within", label := "Within", params := [.one "place" ()] } [plus]]

/-- A sum inside the group, with the names in other letter case. -/
def Event.sum : Event :=
  .seq [.token "within", .token "x", .token "1", .token "PLUS", .token "2", .token "3"]

theorem select_accounts_sum :
    (∃ h tried, Tries Binder.verbatim MemoryChain.answer Handler.sums Event.sum.elements h tried ∧
      h.signature.isCatchAll = false ∧ h.signature.namePosition < tried.length) ∧
    ∃ selection, (select Binder.verbatim "Sum" Handler.sums .sum).run.run MemoryChain.answer
        (.new 0 0) = (.ok selection, .new 0 0) ∧
      ∃ path names, Leads Binder.verbatim MemoryChain.answer Handler.sums Event.sum.elements path
          selection ∧
        names.map Prod.fst = path.flatMap (fun step => step.signature.name.toList) ∧
        Accounts names Event.sum.elements (path.flatMap Step.used) := by
  have haccounts := select_accounts Binder.verbatim MemoryChain.answer Handler.sums .sum
  constructor
  · have hbound : (Binder.verbatim.params [.one "place" ()] {} (Event.sum.elements.drop 1)).run.run
        MemoryChain.answer (.new 0 0) =
        (.ok (⟨[("place", .event (.token "x"))]⟩, Event.sum.elements.drop 2), .new 0 0) := by
      with_unfolding_all rfl
    have htries : Tries Binder.verbatim MemoryChain.answer Handler.sums Event.sum.elements
        Handler.plus (Event.sum.elements.drop 2) :=
      .member (.top (List.mem_singleton.mpr rfl)) hbound (List.cons_ne_nil _ _)
        (List.mem_singleton.mpr rfl)
    exact ⟨_, _, htries, rfl, (haccounts.1 _ _ htries).1 rfl⟩
  · have hrun : (select Binder.verbatim "Sum" Handler.sums .sum).run.run MemoryChain.answer
        (.new 0 0) = (.ok ⟨Handler.plus.signature, (), ⟨[("place", .event (.token "x")),
          ("first", .event (.token "1")), ("unit", .nothing),
          ("others", .event (.seq [.token "2", .token "3"]))]⟩⟩, .new 0 0) := by
      with_unfolding_all rfl
    exact ⟨_, hrun, haccounts.2 _ _ _ _ hrun⟩

end ChainScript
