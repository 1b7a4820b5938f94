import ChainScript.Proofs.Dict.Entries
import ChainScript.Proofs.World.Built

/-! # The index of contracts

The index of a built world is ordered: its names stand in increasing order, and each leads to a
contract of that very name. So the known contracts are the entries of the index in the order of their
names, and every contract known is the one registered under its name.
-/

namespace ChainScript
set_option autoImplicit false

/-! ## The index -/

namespace ContractIndex

/-- Names in increasing order, each of which leads to a contract of that name. -/
structure Ordered (index : ContractIndex) : Prop where
  sorted : index.instances.Sorted
  named : ∀ entry ∈ index.instances, entry.2.name = entry.1

variable {index : ContractIndex} {i j : ContractInstance} {name : String}

theorem Ordered.insert (h : index.Ordered) (name artifact : String) (address : Address) :
    (index.insert name artifact address).Ordered := by
  refine ⟨h.sorted.insert, fun entry hentry => ?_⟩
  rcases Dict.mem_of_mem_insert hentry with rfl | hentry
  · rfl
  · exact h.named entry hentry

theorem Ordered.name_of_get? (h : index.Ordered) (hi : index.get? name = some i) :
    i.name = name :=
  h.named (name, i) (h.sorted.find?_eq_some_iff.mp hi)

theorem Ordered.known_eq (h : index.Ordered) : index.known = index.toList := by
  have hentries : ∀ entries : Dict ContractInstance,
      (∀ entry ∈ entries, index.get? entry.1 = some entry.2) →
        entries.keys.filterMap index.get? = entries.values := by
    intro entries
    induction entries with
    | nil => intro _; rfl
    | cons entry rest ih =>
      intro hget
      have hrest := ih fun other hother => hget other (List.mem_cons_of_mem entry hother)
      rw [Dict.keys, List.map_cons, List.filterMap_cons_some (hget entry (List.mem_cons_self ..))]
      exact congrArg (entry.2 :: ·) hrest
  exact hentries index.instances fun entry hentry => h.sorted.find?_eq_some_iff.mpr hentry

theorem Ordered.mem_known (h : index.Ordered) : i ∈ index.known ↔ index.get? i.name = some i := by
  rw [h.known_eq, toList, Dict.values, List.mem_map]
  constructor
  · rintro ⟨⟨name, _⟩, hentry, rfl⟩
    rw [h.named _ hentry]
    exact h.sorted.find?_eq_some_iff.mpr hentry
  · intro hi
    exact ⟨(i.name, i), h.sorted.find?_eq_some_iff.mp hi, rfl⟩

theorem Ordered.known_sorted (h : index.Ordered) :
    index.known.Pairwise fun a b => a.name < b.name := by
  rw [h.known_eq, toList, Dict.values, List.pairwise_map]
  refine List.Pairwise.imp_of_mem (fun {a b} ha hb hlt => ?_) h.sorted
  rw [h.named a ha, h.named b hb]
  exact hlt

end ContractIndex

theorem World.new_contracts {unlocked : List Address} {settings : Settings} {w : World}
    (h : World.new unlocked settings = .ok w) : w.contracts = {} := by
  obtain ⟨accounts, aliases, actor, rfl⟩ := new_ok h
  rfl

theorem World.Built.ordered {w : World} (h : w.Built) : w.contracts.Ordered := by
  induction h with
  | new h =>
    rw [new_contracts h]
    exact ⟨.nil, nofun⟩
  | withContract _ name artifact address ih => exact ih.insert name artifact address
  | settle _ hs ih =>
    rw [settle_ok hs]
    exact ih
  | withAlias _ _ _ ih | withVar _ _ _ ih | withSlot _ _ _ ih | withInvocation _ _ ih
  | withAllowFailures _ _ ih | withDefaultFrom _ _ ih | withOutput _ _ ih | remember _ ih =>
    exact ih

/-- A built world has no last contract exactly when it knows no contract. -/
theorem World.Built.lastContract_eq_none_iff {w : World} (h : w.Built) :
    w.lastContract = none ↔ w.contracts.names = [] := by
  induction h with
  | new h =>
    obtain ⟨accounts, aliases, actor, rfl⟩ := new_ok h
    exact ⟨fun _ => rfl, fun _ => rfl⟩
  | @withContract w _ name artifact address _ =>
    have hset := (Dict.oneSet_insert w.contracts.instances name
      ⟨name, artifact, address, w.contracts.nextSequence⟩).set
    have hmem : name ∈ (w.withContract name artifact address).contracts.names :=
      Dict.mem_keys.mpr ⟨_, hset⟩
    exact ⟨nofun, fun hnil => absurd hmem (by rw [hnil]; exact List.not_mem_nil)⟩
  | settle _ hs ih =>
    rw [settle_ok hs]
    exact ih
  | withAlias _ _ _ ih | withVar _ _ _ ih | withSlot _ _ _ ih | withInvocation _ _ ih
  | withAllowFailures _ _ ih | withDefaultFrom _ _ ih | withOutput _ _ ih | remember _ ih =>
    exact ih

end ChainScript
