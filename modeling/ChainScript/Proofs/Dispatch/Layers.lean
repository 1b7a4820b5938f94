import Mathlib.Data.List.Nodup
import ChainScript.Proofs.Dispatch.Accounting

/-! # Bound arguments in layers

Bound arguments are an ordered map: binding a name again keeps its place, a new name goes last, and
arguments put in front keep their order and give way to what is bound already. So the arguments of a
selection are those of the handlers on its path, one layer on the other, and for each name the
innermost handler that declares it decides.

* `BoundArgs.get?_insert`, `BoundArgs.get?_prepend`: what is bound after each operation.
* `BoundArgs.names_insert`, `BoundArgs.names_prepend`: in which order.
* `BoundArgs.Making`: how bound arguments came about. `BoundArgs.Lawful` is what all of them have.
* `Leads.layers`: the path of a selection and what each handler on it has bound.
* `select_layered`: what the handler selected sees.
-/

namespace ChainScript
set_option autoImplicit false

variable {ρ ε σ : Type}

namespace BoundArgs

/-- The names bound, in order. -/
def names (args : BoundArgs) : List String := args.entries.map Prod.fst

theorem get?_eq_none_iff {args : BoundArgs} {name : String} :
    args.get? name = none ↔ name ∉ args.names := by
  unfold get? names
  induction args.entries with
  | nil => simp
  | cons entry rest ih =>
    obtain ⟨k, v⟩ := entry
    by_cases hname : name = k
    · simp [hname]
    · simp [List.lookup_cons, beq_false_of_ne hname, hname, ih]

theorem mem_names_iff {args : BoundArgs} {name : String} :
    name ∈ args.names ↔ ∃ v, args.get? name = some v := by
  rw [← Option.isSome_iff_exists, ← not_iff_not, Option.not_isSome_iff_eq_none, get?_eq_none_iff]

/-! ## Binding a name -/

theorem lookup_insertEntry (name : String) (value : Value) (entries : List (String × Value))
    (other : String) :
    (insertEntry name value entries).lookup other =
      if other = name then some value else entries.lookup other := by
  induction entries with
  | nil =>
    by_cases hother : other = name
    · simp [insertEntry, hother]
    · simp [insertEntry, List.lookup_cons, beq_false_of_ne hother, hother]
  | cons entry rest ih =>
    obtain ⟨k, v⟩ := entry
    unfold insertEntry
    by_cases hkey : k = name
    · subst hkey
      by_cases hother : other = k
      · simp [hother]
      · simp [List.lookup_cons, beq_false_of_ne hother, hother]
    · rw [if_neg hkey, List.lookup_cons, List.lookup_cons, ih]
      by_cases hother : other = k
      · subst hother
        simp [hkey]
      · simp [beq_false_of_ne hother]

theorem get?_insert (args : BoundArgs) (name : String) (value : Value) (other : String) :
    (args.insert name value).get? other = if other = name then some value else args.get? other :=
  lookup_insertEntry name value args.entries other

theorem map_insertEntry (name : String) (value : Value) (entries : List (String × Value)) :
    (insertEntry name value entries).map Prod.fst =
      if name ∈ entries.map Prod.fst then entries.map Prod.fst
      else entries.map Prod.fst ++ [name] := by
  induction entries with
  | nil => rfl
  | cons entry rest ih =>
    obtain ⟨k, v⟩ := entry
    unfold insertEntry
    by_cases hkey : k = name
    · simp [hkey]
    · rw [if_neg hkey, List.map_cons, ih]
      by_cases hmem : name ∈ rest.map Prod.fst
      · rw [if_pos hmem, List.map_cons, if_pos (List.mem_cons_of_mem _ hmem)]
      · have hnot : name ∉ k :: rest.map Prod.fst := by simp [Ne.symm hkey, hmem]
        rw [if_neg hmem, List.map_cons, if_neg hnot]
        rfl

/-- Binding a name again keeps its place, and a new name goes last. -/
theorem names_insert (args : BoundArgs) (name : String) (value : Value) :
    (args.insert name value).names =
      if name ∈ args.names then args.names else args.names ++ [name] :=
  map_insertEntry name value args.entries

/-! ## Arguments in front -/

theorem lookup_filter (keep : String → Bool) (name : String) (entries : List (String × Value)) :
    (entries.filter fun entry => keep entry.1).lookup name =
      if keep name then entries.lookup name else none := by
  induction entries with
  | nil => simp
  | cons entry rest ih =>
    obtain ⟨k, v⟩ := entry
    rw [List.filter_cons]
    by_cases hname : name = k
    · subst hname
      by_cases hkeep : keep name = true
      · simp [hkeep]
      · simp [hkeep, ih]
    · by_cases hkeep : keep k = true
      · simp [hkeep, List.lookup_cons, beq_false_of_ne hname, ih]
      · simp [hkeep, List.lookup_cons, beq_false_of_ne hname, ih]

/-- What is bound already hides what is put in front. -/
theorem get?_prepend (args outer : BoundArgs) (name : String) :
    (args.prepend outer).get? name = (args.get? name).or (outer.get? name) := by
  unfold prepend
  rw [get?, List.lookup_append, lookup_filter fun name => (args.get? name).isNone]
  change (if (args.get? name).isNone then outer.get? name else none).or (args.get? name) = _
  cases args.get? name with
  | none => simp
  | some v => simp

/-- Arguments put in front keep their order, without the names that are bound already. -/
theorem names_prepend (args outer : BoundArgs) :
    (args.prepend outer).names =
      (outer.names.filter fun name => name ∉ args.names) ++ args.names := by
  have hfree : (fun entry : String × Value => (args.get? entry.1).isNone) =
      (fun name => decide (name ∉ args.names)) ∘ Prod.fst := by
    funext entry
    rw [Function.comp_apply, Bool.eq_iff_iff, Option.isNone_iff_eq_none, get?_eq_none_iff,
      decide_eq_true_iff]
  unfold prepend
  rw [hfree, names, List.map_append, names, names, List.filter_map]

theorem prepend_empty (args : BoundArgs) : ({} : BoundArgs).prepend args = args := by
  have hfree : ∀ entry ∈ args.entries, ((({} : BoundArgs).get? entry.1).isNone) = true :=
    fun _ _ => rfl
  unfold prepend
  rw [List.filter_eq_self.mpr hfree, List.append_nil]

/-! ## How bound arguments come about -/

/-- A way to make bound arguments of none: binding names, and putting arguments in front that were
made in such a way themselves. -/
inductive Making where
  | empty
  | insert (before : Making) (name : String) (value : Value)
  | prepend (before outer : Making)

namespace Making

def args : Making → BoundArgs
  | empty => {}
  | insert before name value => before.args.insert name value
  | prepend before outer => before.args.prepend outer.args

/-- The value that was bound to a name last, other than by putting arguments in front. -/
def lastInsert? (name : String) : Making → Option Value
  | empty => none
  | insert before bound value => if name = bound then some value else before.lastInsert? name
  | prepend before _ => before.lastInsert? name

/-- The value that a name had in the first arguments put in front that bound it when it was not bound
here. -/
def firstOffer? (name : String) : Making → Option Value
  | empty => none
  | insert before _ _ => before.firstOffer? name
  | prepend before outer =>
    (before.firstOffer? name).or
      (if (before.args.get? name).isNone then outer.args.get? name else none)

theorem nodup_names (m : Making) : m.args.names.Nodup := by
  induction m with
  | empty => exact List.nodup_nil
  | insert before name value ih =>
    rw [args, names_insert]
    split
    · exact ih
    · rename_i hnew
      exact List.nodup_append'.mpr ⟨ih, List.nodup_singleton name, by simpa using hnew⟩
  | prepend before outer ihBefore ihOuter =>
    rw [args, names_prepend]
    refine List.nodup_append'.mpr ⟨ihOuter.filter _, ihBefore, fun name hfront hback => ?_⟩
    simpa [hback] using (List.mem_filter.mp hfront).2

theorem get?_args (m : Making) (name : String) :
    m.args.get? name = (m.lastInsert? name).or (m.firstOffer? name) := by
  induction m with
  | empty => rfl
  | insert before bound value ih =>
    rw [args, get?_insert, lastInsert?, firstOffer?, ih]
    split
    · rfl
    · rfl
  | prepend before outer ih _ =>
    rw [args, get?_prepend, lastInsert?, firstOffer?, ← Option.or_assoc, ← ih]
    cases before.args.get? name <;> rfl

end Making

/-- Bound arguments that came about in some way are an ordered map. -/
structure Lawful (m : Making) : Prop where
  unique : m.args.names.Nodup
  get : ∀ name, m.args.get? name = (m.lastInsert? name).or (m.firstOffer? name)
  again : ∀ name value, name ∈ m.args.names → (m.args.insert name value).names = m.args.names
  fresh : ∀ name value, name ∉ m.args.names →
    (m.args.insert name value).names = m.args.names ++ [name]
  front : ∀ outer : Making, (m.args.prepend outer.args).names =
    (outer.args.names.filter fun name => name ∉ m.args.names) ++ m.args.names

theorem Making.lawful (m : Making) : Lawful m where
  unique := m.nodup_names
  get := m.get?_args
  again name value hmem := by rw [names_insert, if_pos hmem]
  fresh name value hnew := by rw [names_insert, if_neg hnew]
  front outer := names_prepend m.args outer.args

/-! ## Layers -/

/-- Bound arguments one on the other, the outermost first. -/
def overlay : List BoundArgs → BoundArgs
  | [] => {}
  | outer :: inner => (overlay inner).prepend outer

end BoundArgs

open BoundArgs

/-- What a list of parameters binds are their names, besides those bound before. -/
theorem Binder.TakesAll.mem_names {b : Binder ρ} {answers : Program.Answers σ} {ps : List (Param ρ)}
    {bound args : BoundArgs} {elements rest : List Event} {s s' : σ} {handings : List Handing}
    (h : b.TakesAll answers ps bound elements s handings args rest s') (name : String) :
    name ∈ args.names ↔ name ∈ ps.map Param.name ∨ name ∈ bound.names := by
  induction h with
  | nil => simp
  | @cons p ps bound args es mid rest s s₁ s' handing handings v head tail ih =>
    have hbound : name ∈ (bound.insert p.name v).names ↔ name = p.name ∨ name ∈ bound.names := by
      rw [names_insert]
      split
      · rename_i hmem
        exact ⟨.inr, fun h => h.elim (fun heq => heq ▸ hmem) id⟩
      · rw [List.mem_append, List.mem_singleton, or_comm]
    rw [ih, hbound, List.map_cons, List.mem_cons, or_left_comm, or_assoc]

theorem Binder.TakesAll.making {b : Binder ρ} {answers : Program.Answers σ} {ps : List (Param ρ)}
    {bound args : BoundArgs} {elements rest : List Event} {s s' : σ} {handings : List Handing}
    (h : b.TakesAll answers ps bound elements s handings args rest s')
    (hbound : ∃ m : Making, bound = m.args) : ∃ m : Making, args = m.args := by
  induction h with
  | nil => exact hbound
  | @cons p ps bound args es mid rest s s₁ s' handing handings v head tail ih =>
    obtain ⟨m, rfl⟩ := hbound
    exact ih ⟨.insert m p.name v, rfl⟩

/-- A handler on the path of a selection, and what its own parameters were bound to. -/
structure Layer (ρ : Type) where
  step : Step ρ
  own : BoundArgs

namespace Layer

def declares (layer : Layer ρ) (name : String) : Bool :=
  name ∈ layer.step.signature.params.map Param.name

/-- The parameters of the handler were bound to its elements with this outcome. -/
def Bound (b : Binder ρ) (answers : Program.Answers σ) (layer : Layer ρ) : Prop :=
  ∃ s rest s', b.TakesAll answers layer.step.signature.params {}
    (layer.step.signature.remaining layer.step.elements) s layer.step.handings layer.own rest s'

/-- The innermost handler that declares a name. -/
def innermost? (layers : List (Layer ρ)) (name : String) : Option (Layer ρ) :=
  (layers.filter (·.declares name)).getLast?

variable {b : Binder ρ} {answers : Program.Answers σ} {layer : Layer ρ} {layers : List (Layer ρ)}

theorem Bound.declares_iff (h : layer.Bound b answers) (name : String) :
    layer.declares name = true ↔ ∃ v, layer.own.get? name = some v := by
  obtain ⟨s, rest, s', htakes⟩ := h
  rw [← mem_names_iff, htakes.mem_names, declares, decide_eq_true_iff]
  exact (or_iff_left List.not_mem_nil).symm

theorem Bound.making (h : layer.Bound b answers) : ∃ m : Making, layer.own = m.args := by
  obtain ⟨s, rest, s', htakes⟩ := h
  exact htakes.making ⟨.empty, rfl⟩

theorem overlay_making (h : ∀ layer ∈ layers, layer.Bound b answers) :
    ∃ m : Making, overlay (layers.map own) = m.args := by
  induction layers with
  | nil => exact ⟨.empty, rfl⟩
  | cons outer inner ih =>
    obtain ⟨houter, hinner⟩ := List.forall_mem_cons.mp h
    obtain ⟨front, hfront⟩ := houter.making
    obtain ⟨m, hm⟩ := ih hinner
    exact ⟨.prepend m front, by rw [List.map_cons, overlay, hm, hfront]; rfl⟩

/-- In an overlay the innermost handler that declares a name decides: it has bound the name, so that
nothing further out is seen. -/
theorem get?_overlay (h : ∀ layer ∈ layers, layer.Bound b answers) (name : String) :
    (overlay (layers.map own)).get? name =
      (innermost? layers name).bind fun layer => layer.own.get? name := by
  induction layers with
  | nil => rfl
  | cons outer inner ih =>
    obtain ⟨houter, hinner⟩ := List.forall_mem_cons.mp h
    rw [List.map_cons, overlay, get?_prepend, ih hinner, innermost?, innermost?]
    by_cases hdeclares : outer.declares name = true
    · have hfilter : (outer :: inner).filter (·.declares name) =
          outer :: inner.filter (·.declares name) := List.filter_cons_of_pos hdeclares
      rw [hfilter, List.getLast?_cons]
      cases hlast : (inner.filter (·.declares name)).getLast? with
      | none => rfl
      | some layer =>
        have hmem := List.mem_filter.mp (List.mem_of_getLast? hlast)
        obtain ⟨v, hv⟩ := ((hinner layer hmem.1).declares_iff name).mp hmem.2
        simp [hv]
    · have hnone : outer.own.get? name = none := by
        rw [Option.eq_none_iff_forall_ne_some]
        intro v hv
        exact hdeclares ((houter.declares_iff name).mpr ⟨v, hv⟩)
      have hfilter : (outer :: inner).filter (·.declares name) = inner.filter (·.declares name) :=
        List.filter_cons_of_neg hdeclares
      rw [hfilter, hnone, Option.or_none]

end Layer

/-! ## The handler selected -/

theorem Leads.layers {b : Binder ρ} {answers : Program.Answers σ} {hs : List (Handler ρ ε)}
    {elements : List Event} {path : List (Step ρ)} {selection : Selection ρ ε}
    (h : Leads b answers hs elements path selection) :
    ∃ layers : List (Layer ρ), layers.map Layer.step = path ∧
      (∀ layer ∈ layers, layer.Bound b answers) ∧
      selection.args = overlay (layers.map Layer.own) := by
  induction h with
  | @leaf hs elements sig effect handings args s s' candidate takes =>
    refine ⟨[⟨⟨sig, elements, handings⟩, args⟩], rfl, ?_, ?_⟩
    · intro layer hlayer
      cases List.mem_singleton.mp hlayer
      exact ⟨s, [], s', takes⟩
    · exact (prepend_empty args).symm
  | @group hs members elements rest sig handings args s s' path inner candidate takes _ _ ih =>
    obtain ⟨layers, hpath, hbound, hargs⟩ := ih
    refine ⟨⟨⟨sig, elements, handings⟩, args⟩ :: layers, ?_, ?_, ?_⟩
    · rw [List.map_cons, hpath]
    · exact List.forall_mem_cons.mpr ⟨⟨s, rest, s', takes⟩, hbound⟩
    · rw [List.map_cons, overlay, ← hargs]

/-- However bound arguments came about, they are an ordered map. A handler that is selected sees
those of the handlers on its path, and for each name what the innermost one that declares it has
bound. -/
theorem select_layered (b : Binder ρ) (answers : Program.Answers σ) (hs : List (Handler ρ ε))
    (e : Event) :
    (∀ m : Making, Lawful m) ∧
    ∀ kind s selection s', (select b kind hs e).run.run answers s = (.ok selection, s') →
      (∃ m : Making, selection.args = m.args) ∧
      ∃ layers : List (Layer ρ),
        Leads b answers hs e.elements (layers.map Layer.step) selection ∧
        (∀ layer ∈ layers, layer.Bound b answers ∧
          ∀ name, layer.declares name = true ↔ ∃ v, layer.own.get? name = some v) ∧
        ∀ name, selection.args.get? name =
          (Layer.innermost? layers name).bind fun layer => layer.own.get? name := by
  refine ⟨Making.lawful, fun kind s selection s' hrun => ?_⟩
  obtain ⟨h, hh, s₀, hattempt⟩ := select_ok hrun
  obtain ⟨path, hpath⟩ := h.attempt_leads hh hattempt
  obtain ⟨layers, rfl, hbound, hargs⟩ := hpath.layers
  rw [hargs]
  refine ⟨Layer.overlay_making hbound, layers, hpath, ?_, Layer.get?_overlay hbound⟩
  intro layer hlayer
  exact ⟨hbound layer hlayer, (hbound layer hlayer).declares_iff⟩

/-- Handlers one inside the other, with names that more than one of them declares. -/
def Handler.nested : List (Handler Unit Unit) :=
  [.group { name := some "Send", label := "Send", params := [.one "who" (), .one "what" ()] }
    [.group { name := some "Via", label := "Via", params := [.one "what" (), .one "how" ()] }
      [.named "To" [.one "who" ()] () "a receiver"]]]

def Event.nested : Event :=
  .seq [.token "send", .token "a", .token "b", .token "via", .token "c", .token "d", .token "to",
    .token "e"]

theorem select_layered_nested :
    ∃ selection, (select Binder.verbatim "Line" Handler.nested .nested).run.run MemoryChain.answer
        (.new 0 0) = (.ok selection, .new 0 0) ∧
      selection.args.names = ["what", "how", "who"] ∧
      selection.args.get? "who" = some (.event (.token "e")) ∧
      (∃ m : Making, selection.args = m.args) ∧
      ∃ layers : List (Layer Unit),
        Leads Binder.verbatim MemoryChain.answer Handler.nested Event.nested.elements
          (layers.map Layer.step) selection ∧
        (∀ layer ∈ layers, layer.Bound Binder.verbatim MemoryChain.answer ∧
          ∀ name, layer.declares name = true ↔ ∃ v, layer.own.get? name = some v) ∧
        ∀ name, selection.args.get? name =
          (Layer.innermost? layers name).bind fun layer => layer.own.get? name := by
  have hrun : (select Binder.verbatim "Line" Handler.nested .nested).run.run MemoryChain.answer
      (.new 0 0) = (.ok ⟨(Handler.named "To" [.one "who" ()] () "a receiver").signature, (),
        ⟨[("what", .event (.token "c")), ("how", .event (.token "d")),
          ("who", .event (.token "e"))]⟩⟩, .new 0 0) := by
    with_unfolding_all rfl
  have hlayered := select_layered Binder.verbatim MemoryChain.answer Handler.nested .nested
  exact ⟨_, hrun, rfl, rfl, hlayered.2 _ _ _ _ hrun⟩

end ChainScript
