import Mathlib.Data.List.Induction
import ChainScript.Proofs.Command.Course
import ChainScript.Proofs.Contract.Index
import ChainScript.Proofs.Text.ByteOrder

/-! # The history of registrations

An index made by registrations answers from their history. The contracts registered are numbered by
their positions, so their numbers differ and lie below the count of registrations, and a contract
stands as long as no later one takes its name.

* `ContractIndex.get?_ofHistory`: a name leads to the last contract registered under it.
* `ContractIndex.mem_toList_ofHistory`: the contracts of the index are those that stand.
* `ContractIndex.newest_eq_getLast?`: of contracts in the order of their numbers the newest is the
  last.
-/

namespace ChainScript
set_option autoImplicit false

/-- A contract to be registered. -/
structure Registration where
  name : String
  artifact : String
  address : Address
  deriving DecidableEq

namespace ContractIndex

/-- The index that registrations make of the empty one. -/
def ofHistory (history : List Registration) : ContractIndex :=
  history.foldl (fun index r => index.insert r.name r.artifact r.address) {}

/-- The contracts registered, each numbered by its position. -/
def registered (history : List Registration) : List ContractInstance :=
  history.mapIdx fun position r => ⟨r.name, r.artifact, r.address, position⟩

/-- The contracts whose names no later one takes. -/
def standing : List ContractInstance → List ContractInstance
  | [] => []
  | i :: later => if ∀ j ∈ later, j.name ≠ i.name then i :: standing later else standing later

variable {history : List Registration} {i : ContractInstance}

/-! ## The contracts registered -/

theorem registered_append (history : List Registration) (r : Registration) :
    registered (history ++ [r]) =
      registered history ++ [⟨r.name, r.artifact, r.address, history.length⟩] := by
  rw [registered, List.mapIdx_append, registered]
  simp

theorem registered_sorted (history : List Registration) :
    (registered history).Pairwise fun i j => i.sequence < j.sequence := by
  rw [List.pairwise_iff_getElem]
  intro k l hk hl hkl
  simpa [registered] using hkl

theorem sequence_lt_of_mem (h : i ∈ registered history) : i.sequence < history.length := by
  obtain ⟨k, hk, rfl⟩ := List.mem_mapIdx.mp h
  exact hk

theorem exists_name_registered {name : String} :
    (∃ i ∈ registered history, i.name = name) ↔ ∃ r ∈ history, r.name = name := by
  constructor
  · rintro ⟨i, hi, rfl⟩
    obtain ⟨k, hk, rfl⟩ := List.mem_mapIdx.mp hi
    exact ⟨history[k], List.getElem_mem hk, rfl⟩
  · rintro ⟨r, hr, rfl⟩
    obtain ⟨k, hk, rfl⟩ := List.mem_iff_getElem.mp hr
    exact ⟨_, List.mem_mapIdx.mpr ⟨k, hk, rfl⟩, rfl⟩

theorem standing_sublist (l : List ContractInstance) : (standing l).Sublist l := by
  induction l with
  | nil => exact List.Sublist.refl []
  | cons i later ih =>
    rw [standing]
    split
    · exact ih.cons_cons i
    · exact ih.cons i

/-- A contract stands exactly when it is the last one of its name. -/
theorem mem_standing {l : List ContractInstance} :
    i ∈ standing l ↔ (l.filter (·.name = i.name)).getLast? = some i := by
  induction l with
  | nil => simp [standing]
  | cons j later ih =>
    by_cases hname : j.name = i.name
    · have hlater : (∀ k ∈ later, k.name ≠ j.name) ↔ later.filter (·.name = i.name) = [] := by
        simp [hname]
      rw [List.filter_cons_of_pos (by simpa using hname), standing]
      split
      · rename_i hnone
        have hnil := hlater.mp hnone
        have hnot : i ∉ standing later := by simp [ih, hnil]
        rw [hnil, List.mem_cons, or_iff_left hnot, List.getLast?_singleton, Option.some_inj]
        exact eq_comm
      · rename_i hsome
        have hne := mt hlater.mpr hsome
        rw [ih, List.getLast?_cons_of_ne_nil hne]
    · rw [List.filter_cons_of_neg (by simpa using hname), ← ih, standing]
      split
      · have hne : i ≠ j := fun heq => hname (congrArg ContractInstance.name heq.symm)
        rw [List.mem_cons, or_iff_right hne]
      · rfl

/-! ## The newest contract -/

theorem newest_mem {l : List ContractInstance} (h : newest l = some i) : i ∈ l := by
  induction l generalizing i with
  | nil => exact absurd h nofun
  | cons j rest ih =>
    rw [newest] at h
    split at h
    · cases h
      exact List.mem_cons_self ..
    · rename_i k hk
      split at h
      · cases h
        exact List.mem_cons_of_mem _ (ih hk)
      · cases h
        exact List.mem_cons_self ..

theorem newest_eq_some {l : List ContractInstance} (hi : i ∈ l)
    (hmax : ∀ j ∈ l, j ≠ i → j.sequence < i.sequence) : newest l = some i := by
  induction l with
  | nil => exact absurd hi List.not_mem_nil
  | cons j rest ih =>
    rw [newest]
    by_cases hji : j = i
    · subst hji
      split
      · rfl
      · rename_i k hk
        by_cases hkj : k = j
        · rw [hkj, ite_self]
        · have hlt := hmax k (List.mem_cons_of_mem _ (newest_mem hk)) hkj
          rw [if_neg (Nat.not_le.mpr hlt)]
    · have hrest : i ∈ rest := List.mem_of_ne_of_mem (Ne.symm hji) hi
      have hlt := hmax j (List.mem_cons_self ..) hji
      rw [ih hrest fun k hk => hmax k (List.mem_cons_of_mem _ hk)]
      exact if_pos (Nat.le_of_lt hlt)

/-- Of contracts in the order of their numbers the newest is the last, wherever they stand. -/
theorem newest_eq_getLast? {l sorted : List ContractInstance} (hmem : ∀ i, i ∈ l ↔ i ∈ sorted)
    (hsorted : sorted.Pairwise fun i j => i.sequence < j.sequence) :
    newest l = sorted.getLast? := by
  rcases List.eq_nil_or_concat sorted with rfl | ⟨front, i, rfl⟩
  · have hnil : l = [] := List.eq_nil_iff_forall_not_mem.mpr fun i hi =>
      List.not_mem_nil ((hmem i).mp hi)
    rw [hnil]
    rfl
  · rw [List.concat_eq_append] at *
    obtain ⟨-, -, hlast⟩ := List.pairwise_append.mp hsorted
    rw [List.getLast?_concat]
    refine newest_eq_some ((hmem i).mpr (by simp)) fun j hj hne => ?_
    rcases List.mem_append.mp ((hmem j).mp hj) with hj | hj
    · exact hlast j hj i (List.mem_singleton_self i)
    · exact absurd (List.mem_singleton.mp hj) hne

/-! ## The index -/

theorem ofHistory_append (history : List Registration) (r : Registration) :
    ofHistory (history ++ [r]) = (ofHistory history).insert r.name r.artifact r.address := by
  rw [ofHistory, List.foldl_append]
  rfl

theorem nextSequence_ofHistory (history : List Registration) :
    (ofHistory history).nextSequence = history.length := by
  induction history using List.reverseRecOn with
  | nil => rfl
  | append_singleton history r ih =>
    rw [ofHistory_append, List.length_append]
    exact congrArg (· + 1) ih

theorem ordered_ofHistory (history : List Registration) : (ofHistory history).Ordered := by
  induction history using List.reverseRecOn with
  | nil => exact ⟨.nil, nofun⟩
  | append_singleton history r ih =>
    rw [ofHistory_append]
    exact ih.insert r.name r.artifact r.address

theorem get?_insert (index : ContractIndex) (name artifact : String) (address : Address)
    (other : String) :
    (index.insert name artifact address).get? other =
      if name = other then some ⟨name, artifact, address, index.nextSequence⟩
      else index.get? other := by
  split
  · rename_i heq
    subst heq
    exact Dict.find?_insert_self ..
  · rename_i hne
    exact Dict.find?_insert_of_ne (Ne.symm hne)

/-- A name leads to the last contract registered under it. -/
theorem get?_ofHistory (history : List Registration) (name : String) :
    (ofHistory history).get? name = ((registered history).filter (·.name = name)).getLast? := by
  induction history using List.reverseRecOn with
  | nil => rfl
  | append_singleton history r ih =>
    rw [ofHistory_append, get?_insert, nextSequence_ofHistory, registered_append,
      List.filter_append]
    split
    · rename_i heq
      rw [List.filter_cons_of_pos (by simpa using heq), List.filter_nil, List.getLast?_concat]
    · rename_i hne
      rw [List.filter_cons_of_neg (by simpa using hne), List.filter_nil, List.append_nil, ih]

/-- The contracts of the index are those that stand. -/
theorem mem_toList_ofHistory :
    i ∈ (ofHistory history).toList ↔ i ∈ standing (registered history) := by
  have hordered := ordered_ofHistory history
  rw [← hordered.known_eq, hordered.mem_known, get?_ofHistory, mem_standing]

theorem mem_names_ofHistory {name : String} :
    name ∈ (ofHistory history).names ↔ ∃ r ∈ history, r.name = name := by
  have hget := get?_ofHistory history name
  rw [get?] at hget
  rw [names, Dict.mem_keys, hget, ← Option.isSome_iff_exists, List.getLast?_isSome,
    ← exists_name_registered]
  simp

theorem names_ofHistory_sorted (history : List Registration) :
    (ofHistory history).names.Pairwise fun m n => Text.bytes m < Text.bytes n := by
  rw [names, Dict.keys, List.pairwise_map]
  exact (ordered_ofHistory history).sorted.imp Text.lt_iff_bytes_lt.mp

theorem latestByArtifact_ofHistory (history : List Registration) (artifact : String) :
    (ofHistory history).latestByArtifact artifact =
      ((standing (registered history)).filter (·.artifact = artifact)).getLast? := by
  refine newest_eq_getLast? (fun i => ?_) ?_
  · simp [mem_toList_ofHistory]
  · exact ((registered_sorted history).sublist (standing_sublist _)).filter _

/-- The last contract registered is in the index, and every other one has a lesser number. -/
theorem last_newest (h : history ≠ []) :
    ∃ i ∈ (ofHistory history).toList,
      history.getLast?.map (·.address) = some i.address ∧
        ∀ j ∈ (ofHistory history).toList, j ≠ i → j.sequence < i.sequence := by
  obtain ⟨front, r, rfl⟩ := (List.eq_nil_or_concat history).resolve_left h
  rw [List.concat_eq_append]
  refine ⟨⟨r.name, r.artifact, r.address, front.length⟩, ?_, ?_, fun j hj hne => ?_⟩
  · rw [mem_toList_ofHistory, mem_standing, registered_append, List.filter_append]
    simp
  · rw [List.getLast?_concat]
    rfl
  · have hmem := (standing_sublist _).subset (mem_toList_ofHistory.mp hj)
    rw [registered_append] at hmem
    rcases List.mem_append.mp hmem with hfront | hlast
    · exact sequence_lt_of_mem hfront
    · exact absurd (List.mem_singleton.mp hlast) hne

/-- What an index answers, read off the registrations that made it. -/
structure AnswersFrom (history : List Registration) (index : ContractIndex) : Prop where
  count : index.nextSequence = history.length
  get : ∀ name, index.get? name = ((registered history).filter (·.name = name)).getLast?
  ascending : index.names.Pairwise fun m n => Text.bytes m < Text.bytes n
  named : ∀ name, name ∈ index.names ↔ ∃ r ∈ history, r.name = name
  latest : ∀ artifact, index.latestByArtifact artifact =
    ((standing (registered history)).filter (·.artifact = artifact)).getLast?

end ContractIndex

/-! ## The world -/

open ContractIndex

/-- The world after the registrations of a history. -/
def World.withContracts (w : World) (history : List Registration) : World :=
  history.foldl (fun w r => w.withContract r.name r.artifact r.address) w

namespace World

theorem withContracts_append (w : World) (history : List Registration) (r : Registration) :
    w.withContracts (history ++ [r]) =
      (w.withContracts history).withContract r.name r.artifact r.address := by
  rw [withContracts, List.foldl_append]
  rfl

theorem lastContract_withContracts {w : World} (h : w.lastContract = none)
    (history : List Registration) :
    (w.withContracts history).lastContract = history.getLast?.map (·.address) := by
  induction history using List.reverseRecOn with
  | nil => exact h
  | append_singleton history r _ =>
    rw [withContracts_append, List.getLast?_concat]
    rfl

theorem contracts_withContracts {w : World} (h : w.contracts = {})
    (history : List Registration) :
    (w.withContracts history).contracts = ofHistory history := by
  induction history using List.reverseRecOn with
  | nil => exact h
  | append_singleton history r ih =>
    rw [withContracts_append, ofHistory_append, ← ih]
    rfl

theorem new_lastContract {unlocked : List Address} {settings : Settings} {w : World}
    (h : World.new unlocked settings = .ok w) : w.lastContract = none := by
  obtain ⟨accounts, aliases, actor, rfl⟩ := new_ok h
  rfl

end World

/-- An index answers from the registrations that made it. In a world made by the same registrations
the index is this one, and the last contract is the one last registered, which has the greatest
number of all that the index holds. -/
theorem World.answers_from_history (history : List Registration) :
    (ofHistory history).AnswersFrom history ∧
      ∀ unlocked settings w, World.new unlocked settings = .ok w →
        (w.withContracts history).contracts = ofHistory history ∧
        (w.withContracts history).lastContract = history.getLast?.map (·.address) ∧
        (history ≠ [] → ∃ i ∈ (w.withContracts history).contracts.toList,
          (w.withContracts history).lastContract = some i.address ∧
          ∀ j ∈ (w.withContracts history).contracts.toList,
            j ≠ i → j.sequence < i.sequence) := by
  refine ⟨⟨nextSequence_ofHistory history, get?_ofHistory history,
    names_ofHistory_sorted history, fun _ => mem_names_ofHistory,
    latestByArtifact_ofHistory history⟩, fun unlocked settings w hw => ?_⟩
  have hcontracts := w.contracts_withContracts (new_contracts hw) history
  have hlast := w.lastContract_withContracts (new_lastContract hw) history
  refine ⟨hcontracts, hlast, fun hne => ?_⟩
  rw [hcontracts, hlast]
  exact last_newest hne

/-- The name of a token, taken again by a contract from another artifact. -/
def ContractIndex.renewed : List Registration :=
  [⟨"Token", "Erc20", Address.zero⟩, ⟨"Vault", "Erc4626", Address.zero⟩,
    ⟨"Token", "Erc721", Address.ofFn fun _ => 1⟩]

theorem World.answers_from_history_renewed :
    World.new [] { aliases := [] } = .ok World.blank ∧
      (ofHistory renewed).get? "Token" =
        some ⟨"Token", "Erc721", Address.ofFn fun _ => 1, 2⟩ ∧
      (ofHistory renewed).latestByArtifact "Erc20" = none ∧
      (World.blank.withContracts renewed).lastContract = some (Address.ofFn fun _ => 1) ∧
      ∃ i ∈ (World.blank.withContracts renewed).contracts.toList,
        (World.blank.withContracts renewed).lastContract = some i.address ∧
        ∀ j ∈ (World.blank.withContracts renewed).contracts.toList,
          j ≠ i → j.sequence < i.sequence := by
  obtain ⟨hindex, hworld⟩ := World.answers_from_history ContractIndex.renewed
  obtain ⟨-, hlast, hnewest⟩ := hworld [] { aliases := [] } World.blank World.new_blank
  refine ⟨World.new_blank, ?_, ?_, hlast, hnewest (by decide)⟩
  · rw [hindex.get]
    rfl
  · rw [hindex.latest]
    rfl

end ChainScript
