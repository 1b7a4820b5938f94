import ChainScript.Proofs.Registry

/-! # Worlds that are built

A world is built when it comes from its creation by updates other than those that exchange the
synthesizer or the look-up of slots. The registry may be remembered at any moment. What such worlds
share is `World.Standard`: the registry is the table of the core followed by the known contracts,
and a world that knows a contract knows which one was the last.
-/

namespace ChainScript
set_option autoImplicit false

namespace World

/-- The worlds that creation and updates give, with the standard synthesizer and slots. -/
inductive Built : World → Prop where
  | new {unlocked : List Address} {settings : Settings} {w : World}
      (h : World.new unlocked settings = .ok w) : Built w
  | withAlias {w : World} (h : Built w) (name : String) (address : Address) :
      Built (w.withAlias name address)
  | withVar {w : World} (h : Built w) (key : String) (value : Value) : Built (w.withVar key value)
  | withSlot {w : World} (h : Built w) (slot : String) (value : Value) :
      Built (w.withSlot slot value)
  | withContract {w : World} (h : Built w) (name artifact : String) (address : Address) :
      Built (w.withContract name artifact address)
  | withInvocation {w : World} (h : Built w) (invocation : Invocation) :
      Built (w.withInvocation invocation)
  | withAllowFailures {w : World} (h : Built w) (allow : Bool) : Built (w.withAllowFailures allow)
  | withDefaultFrom {w : World} (h : Built w) (actor : Address) : Built (w.withDefaultFrom actor)
  | withOutput {w : World} (h : Built w) (line : String) : Built (w.withOutput line)
  | settle {w next : World} (h : Built w) {invocation : Invocation}
      (hs : w.settle invocation = .ok next) : Built next
  | remember {w : World} (h : Built w) : Built w.remember

/-- What built worlds have in common. -/
structure Standard (w : World) : Prop where
  synthesizer : w.synthesizer = .standard
  slotLookup : w.slotLookup = .standard
  remembered : w.registry = w.builtRegistry
  lastContract : w.contracts.instances ≠ [] → w.lastContract ≠ none

theorem settle_ok {w next : World} {invocation : Invocation}
    (h : w.settle invocation = .ok next) : next = w.withInvocation invocation := by
  unfold settle at h
  split at h
  · cases h
    rfl
  · split at h
    · cases h
      rfl
    · cases h

/-- A world that is created has accounts, aliases and an actor, and is otherwise as it is by
default. -/
theorem new_ok {unlocked : List Address} {settings : Settings} {w : World}
    (h : World.new unlocked settings = .ok w) :
    ∃ accounts aliases actor, w = { settings, accounts, aliases, defaultFrom := actor } := by
  unfold World.new at h
  cases haliases : readAliases settings.aliases with
  | error err =>
    rw [haliases] at h
    cases h
  | ok aliases =>
    rw [haliases] at h
    cases h
    exact ⟨_, aliases, _, rfl⟩

theorem new_standard {unlocked : List Address} {settings : Settings} {w : World}
    (h : World.new unlocked settings = .ok w) : w.Standard := by
  obtain ⟨accounts, aliases, actor, rfl⟩ := new_ok h
  exact ⟨rfl, rfl, rfl, fun hne => absurd rfl hne⟩

theorem Built.standard {w : World} (h : w.Built) : w.Standard := by
  induction h with
  | new h => exact new_standard h
  | withContract _ name artifact address ih =>
    exact ⟨ih.synthesizer, ih.slotLookup, rfl, fun _ => by simp [World.withContract]⟩
  | settle _ hs ih =>
    rw [settle_ok hs]
    exact ⟨ih.synthesizer, ih.slotLookup, ih.remembered, ih.lastContract⟩
  | withAlias _ _ _ ih | withVar _ _ _ ih | withSlot _ _ _ ih | withInvocation _ _ ih
  | withAllowFailures _ _ ih | withDefaultFrom _ _ ih | withOutput _ _ ih | remember _ ih =>
    exact ⟨ih.synthesizer, ih.slotLookup, ih.remembered, ih.lastContract⟩

theorem synthesize_eq {w : World} (h : w.synthesizer = .standard) :
    w.synthesize = fun name => ((w.contracts.get? name).map Fetcher.ofContract).toList := by
  funext name
  rw [synthesize, h]

theorem builtRegistry_eq {w : World} (h : w.synthesizer = .standard) :
    w.builtRegistry = Fetcher.core ++ w.contracts.known.map Fetcher.ofContract := by
  rw [builtRegistry, Fetcher.registry, synthesize_eq h, w.contracts.flatMap_names]

namespace Standard

variable {w : World}

theorem registry_eq (h : w.Standard) :
    w.registry = Fetcher.core ++ w.contracts.known.map Fetcher.ofContract := by
  rw [h.remembered, builtRegistry_eq h.synthesizer]

theorem lastContract_of_known (h : w.Standard) {i : ContractInstance}
    (hi : i ∈ w.contracts.known) : ∃ a, w.lastContract = some a := by
  have hne : w.contracts.instances ≠ [] := by
    intro hnil
    simp [ContractIndex.known, ContractIndex.names, hnil, Dict.keys] at hi
  exact Option.ne_none_iff_exists'.mp (h.lastContract hne)

end Standard

end World

end ChainScript
