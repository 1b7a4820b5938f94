import Mathlib.Data.List.InsertIdx
import ChainScript.Expr.Resolve
import ChainScript.Proofs.Contract.Addressable

/-! # Worlds that remember their registry

Worlds are updated, cloned and asked for values, in any order. The first value asked for makes a
world remember its registry; clones and most updates carry it on, and a new contract drops it. What
is carried on is never out of date: a session of worlds that remember has the values of the same
session of worlds that build their registry at every level of every resolution.

* `World.UpToDate`: what is remembered is what would be built.
* `Session.Mirrors`: a session of worlds that remember, beside one of worlds that do not.
* `Session.Mirrors.step`, `Session.Mirrors.run`: it stays so, deed by deed.
-/

namespace ChainScript
set_option autoImplicit false

/-! ## Registries built anew -/

namespace World

/-- The registry of the core and of the contracts known now. -/
def currentRegistry (w : World) : List Fetcher :=
  Fetcher.registry Fetcher.core w.contracts.names fun name =>
    ((w.contracts.get? name).map Fetcher.ofContract).toList

/-- The value of an event by a registry that is built at every level. -/
def resolveAnew (w : World) (e : Event) : Action Value :=
  let inside inner :=
    if inner.size < e.size then w.resolveAnew inner else throw (.invalid (.selfReference inner))
  fetchValue (w.binder inside) (fun f args => f.run inside w args) coreKind w.currentRegistry e
termination_by e.size

/-- Ways to resolve that agree on smaller events are alike below an event. -/
theorem below_congr {f g : Event → Action Value} {e : Event}
    (h : ∀ inner, inner.size < e.size → f inner = g inner) :
    (fun inner : Event => if inner.size < e.size then f inner
        else throw (.invalid (.selfReference inner))) =
      fun inner => if inner.size < e.size then g inner
        else throw (.invalid (.selfReference inner)) := by
  funext inner
  by_cases hsize : inner.size < e.size
  · rw [if_pos hsize, if_pos hsize, h inner hsize]
  · rw [if_neg hsize, if_neg hsize]

theorem resolve_eq_anew {w : World} (h : w.registry = w.currentRegistry) (e : Event) :
    w.resolve e = w.resolveAnew e := by
  rw [resolve, resolveAnew, resolveStep, h, below_congr fun inner _ => resolve_eq_anew h inner]
termination_by e.size

/-! ## What is remembered -/

/-- The world without the registry that it may remember. -/
def forget (w : World) : World := { w with remembered := none }

/-- A registry built anew does not look at the one remembered. -/
theorem resolveAnew_forget (w : World) (e : Event) : w.forget.resolveAnew e = w.resolveAnew e := by
  have hbinder : ∀ f, w.forget.binder f = w.binder f := fun _ => rfl
  have hrun : ∀ resolve args (f : Fetch), f.run resolve w.forget args = f.run resolve w args := by
    intro resolve args f
    cases f with
    | compute formula => cases formula <;> rfl
    | firstOf | call | view target => rfl
  rw [resolveAnew, resolveAnew, below_congr fun inner _ => resolveAnew_forget w inner]
  simp only [hbinder, hrun]
  rfl
termination_by e.size

/-- The standard synthesizer is in use, and nothing is remembered. -/
structure Fresh (w : World) : Prop where
  synthesizer : w.synthesizer = .standard
  remembered : w.remembered = none

theorem new_fresh {unlocked : List Address} {settings : Settings} {w : World}
    (h : World.new unlocked settings = .ok w) : w.Fresh := by
  obtain ⟨accounts, aliases, actor, rfl⟩ := new_ok h
  exact ⟨rfl, rfl⟩

/-- The standard synthesizer is in use, and a registry that is remembered is the current one. -/
structure UpToDate (w : World) : Prop where
  synthesizer : w.synthesizer = .standard
  remembered : ∀ r, w.remembered = some r → r = w.currentRegistry

theorem builtRegistry_eq_current {w : World} (h : w.synthesizer = .standard) :
    w.builtRegistry = w.currentRegistry := by
  rw [builtRegistry, synthesize_eq h, currentRegistry]

namespace UpToDate

variable {w : World}

theorem registry_eq (h : w.UpToDate) : w.registry = w.currentRegistry := by
  rw [registry]
  cases hr : w.remembered with
  | none => exact builtRegistry_eq_current h.synthesizer
  | some r => exact h.remembered r hr

theorem remember (h : w.UpToDate) : w.remember.UpToDate := by
  refine ⟨h.synthesizer, fun r hr => ?_⟩
  cases hr
  exact h.registry_eq

theorem resolve_remember (h : w.UpToDate) (e : Event) : w.remember.resolve e = w.resolveAnew e := by
  rw [resolve_eq_anew h.remember.registry_eq, ← resolveAnew_forget, ← resolveAnew_forget w]
  rfl

end UpToDate

end World

/-! ## Updates -/

/-- An update of a world that leaves the synthesizer and the look-up of slots as they are. -/
inductive Update where
  | withAlias (name : String) (address : Address)
  | withVar (key : String) (value : Value)
  | withSlot (name : String) (value : Value)
  | withContract (name artifact : String) (address : Address)
  | withInvocation (made : Invocation)
  | withAllowFailures (allow : Bool)
  | withDefaultFrom (actor : Address)
  | withOutput (line : String)
  | settle (made : Invocation)

namespace Update

/-- The updated world; an invocation that failed may not be settled. -/
def apply (w : World) : Update → Except Error World
  | .withAlias name address => .ok (w.withAlias name address)
  | .withVar key value => .ok (w.withVar key value)
  | .withSlot name value => .ok (w.withSlot name value)
  | .withContract name artifact address => .ok (w.withContract name artifact address)
  | .withInvocation made => .ok (w.withInvocation made)
  | .withAllowFailures allow => .ok (w.withAllowFailures allow)
  | .withDefaultFrom actor => .ok (w.withDefaultFrom actor)
  | .withOutput line => .ok (w.withOutput line)
  | .settle made => w.settle made

variable {w next : World}

theorem apply_upToDate {u : Update} (h : u.apply w = .ok next) (hw : w.UpToDate) :
    next.UpToDate := by
  cases u with
  | withContract name artifact address =>
    cases h
    exact ⟨hw.synthesizer, nofun⟩
  | settle made =>
    rw [World.settle_ok h]
    exact ⟨hw.synthesizer, hw.remembered⟩
  | withAlias | withVar | withSlot | withInvocation | withAllowFailures | withDefaultFrom
  | withOutput =>
    cases h
    exact ⟨hw.synthesizer, hw.remembered⟩

/-- An update does not look at what is remembered. -/
theorem apply_forget (w : World) (u : Update) :
    u.apply w.forget = (u.apply w).map World.forget := by
  cases u with
  | settle made =>
    simp only [apply, World.settle]
    cases made.outcome with
    | ok receipt => rfl
    | error cause =>
      change (if w.allowFailures = true then _ else _) = _
      split <;> rfl
  | withAlias | withVar | withSlot | withContract | withInvocation | withAllowFailures
  | withDefaultFrom | withOutput => rfl

end Update

/-! ## Sessions -/

/-- What is done with the worlds at hand: one of them is updated, cloned, or asked for the value of
an event. -/
inductive Deed where
  | update (place : Nat) (u : Update)
  | clone (place : Nat)
  | resolve (place : Nat) (e : Event)

/-- How a world is asked for a value: the world afterwards, and the value. -/
abbrev Resolver : Type := World → Event → World × Action Value

/-- The world remembers its registry, and resolves by what it remembers. -/
def Resolver.remembering : Resolver := fun w e => (w.remember, w.remember.resolve e)

/-- The world builds its registry at every level and remembers nothing. -/
def Resolver.rebuilding : Resolver := fun w e => (w, w.resolveAnew e)

/-- The worlds at hand, and the values they were asked for so far. -/
structure Session where
  worlds : List World
  values : List (Action Value) := []

namespace Session

/-- A world that cannot be updated is lost. -/
def step (resolver : Resolver) (s : Session) : Deed → Session
  | .update place u =>
    match s.worlds[place]? with
    | none => s
    | some w =>
      match u.apply w with
      | .ok next => { s with worlds := s.worlds.set place next }
      | .error _ => { s with worlds := s.worlds.eraseIdx place }
  | .clone place => { s with worlds := s.worlds ++ s.worlds[place]?.toList }
  | .resolve place e =>
    match s.worlds[place]? with
    | none => s
    | some w => ⟨s.worlds.set place (resolver w e).1, s.values ++ [(resolver w e).2]⟩

def run (resolver : Resolver) (s : Session) (deeds : List Deed) : Session :=
  deeds.foldl (step resolver) s

/-- A session of worlds that remember current registries, beside one of the same worlds that
remember nothing, with the same values so far. -/
structure Mirrors (s t : Session) : Prop where
  upToDate : ∀ w ∈ s.worlds, w.UpToDate
  worlds : t.worlds = s.worlds.map World.forget
  values : t.values = s.values

namespace Mirrors

variable {s t : Session}

theorem getElem? (h : Mirrors s t) (place : Nat) :
    t.worlds[place]? = s.worlds[place]?.map World.forget := by
  rw [h.worlds, List.getElem?_map]

/-- One world of the session is exchanged for another that is up to date. -/
theorem set (h : Mirrors s t) (place : Nat) {w : World} (hw : w.UpToDate)
    (vs : List (Action Value)) :
    Mirrors ⟨s.worlds.set place w, vs⟩ ⟨t.worlds.set place w.forget, vs⟩ := by
  refine ⟨fun other hother => ?_, ?_, rfl⟩
  · rcases List.mem_or_eq_of_mem_set hother with hother | rfl
    · exact h.upToDate other hother
    · exact hw
  · rw [h.worlds, List.map_set]

theorem step (h : Mirrors s t) (deed : Deed) :
    Mirrors (s.step .remembering deed) (t.step .rebuilding deed) := by
  cases deed with
  | update place u =>
    simp only [Session.step, h.getElem?]
    cases hw : s.worlds[place]? with
    | none => exact h
    | some w =>
      have hcurrent := h.upToDate w (List.mem_of_getElem? hw)
      simp only [Option.map_some, Update.apply_forget]
      cases hnext : u.apply w with
      | ok next =>
        have hset := h.set place (Update.apply_upToDate hnext hcurrent) s.values
        simpa [Except.map, h.values] using hset
      | error err =>
        refine ⟨fun other hother => ?_, ?_, h.values⟩
        · exact h.upToDate other (List.mem_of_mem_eraseIdx hother)
        · simp only [Except.map, h.worlds, List.eraseIdx_map]
  | clone place =>
    refine ⟨fun other hother => ?_, ?_, h.values⟩
    · rcases List.mem_append.mp hother with hother | hother
      · exact h.upToDate other hother
      · exact h.upToDate other (List.mem_of_getElem? (Option.mem_toList.mp hother))
    · simp only [Session.step, h.getElem?]
      rw [h.worlds, List.map_append]
      cases s.worlds[place]? <;> rfl
  | resolve place e =>
    simp only [Session.step, h.getElem?]
    cases hw : s.worlds[place]? with
    | none => exact h
    | some w =>
      have hcurrent := h.upToDate w (List.mem_of_getElem? hw)
      have hvalue : (Resolver.rebuilding w.forget e).2 = (Resolver.remembering w e).2 := by
        rw [Resolver.rebuilding, Resolver.remembering, World.resolveAnew_forget,
          hcurrent.resolve_remember]
      simp only [Option.map_some, hvalue, h.values]
      exact h.set place hcurrent.remember _

theorem run (h : Mirrors s t) (deeds : List Deed) :
    Mirrors (s.run .remembering deeds) (t.run .rebuilding deeds) := by
  induction deeds generalizing s t with
  | nil => exact h
  | cons deed deeds ih => exact ih (h.step deed)

end Mirrors

theorem Mirrors.start {worlds : List World} (h : ∀ w ∈ worlds, w.Fresh) :
    Mirrors ⟨worlds, []⟩ ⟨worlds, []⟩ := by
  have hforget : ∀ w ∈ worlds, w.forget = id w := by
    intro w hw
    rw [World.forget, ← (h w hw).remembered]
    rfl
  refine ⟨fun w hw => ⟨(h w hw).synthesizer, fun r hr => ?_⟩, ?_, rfl⟩
  · rw [(h w hw).remembered] at hr
    cases hr
  · rw [List.map_congr_left hforget, List.map_id]

/-- Fresh worlds never come to remember a registry that is out of date, whatever is done with them.
A value asked for on the way, or afterwards, is the one by a registry built anew at every level. -/
theorem remembering_upToDate (worlds : List World) (hfresh : ∀ w ∈ worlds, w.Fresh)
    (deeds : List Deed) :
    (∀ w ∈ (run .remembering ⟨worlds, []⟩ deeds).worlds,
      (∀ r, w.remembered = some r → r = w.currentRegistry) ∧
      ∀ e, (Resolver.remembering w e).2 = (Resolver.rebuilding w e).2) ∧
    (run .remembering ⟨worlds, []⟩ deeds).values = (run .rebuilding ⟨worlds, []⟩ deeds).values := by
  have hend := (Mirrors.start hfresh).run deeds
  refine ⟨fun w hw => ?_, hend.values.symm⟩
  have hcurrent := hend.upToDate w hw
  exact ⟨hcurrent.remembered, hcurrent.resolve_remember⟩

/-- A contract is registered and asked for, the world is cloned, and the name is registered again. -/
def redeployment : List Deed :=
  [.update 0 (.withContract "Token" "Erc20" (.uniform 0x11)),
   .resolve 0 (.seq [.token "Token", .token "Address"]),
   .clone 0,
   .update 0 (.withContract "Token" "Erc20" (.uniform 0x22)),
   .resolve 0 (.seq [.token "Token", .token "Address"]),
   .resolve 1 (.seq [.token "Token", .token "Address"])]

theorem remembering_upToDate_redeployment :
    (∀ w ∈ [World.blank], w.Fresh) ∧
    (run .remembering ⟨[World.blank], []⟩ redeployment).worlds.map (·.remembered.isSome) =
      [true, true] ∧
    (run .remembering ⟨[World.blank], []⟩ redeployment).values.map ExceptT.run =
      [.done (.ok (.address (.uniform 0x11))), .done (.ok (.address (.uniform 0x22))),
       .done (.ok (.address (.uniform 0x11)))] := by
  have hfresh : ∀ w ∈ [World.blank], w.Fresh := by
    intro w hw
    rw [List.mem_singleton.mp hw]
    exact World.new_fresh World.new_blank
  refine ⟨hfresh, rfl, ?_⟩
  rw [(remembering_upToDate _ hfresh redeployment).2]
  with_unfolding_all rfl

end Session

end ChainScript
