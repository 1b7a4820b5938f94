import Mathlib.Data.List.Perm.Subperm
import ChainScript.Dict

/-! # Entries of dictionaries

An insertion sets the entry of one key and keeps those of the others, in order. In an ordered
dictionary an entry is found exactly when it stands in it, and each key has one entry.

* `Dict.OneSet`: a dictionary in which one entry was set.
* `Dict.Sorted.find?_eq_some_iff`: what is found in an ordered dictionary.
-/

namespace ChainScript.Dict
set_option autoImplicit false

variable {α : Type} {d d' : Dict α} {key : String} {value : α}

theorem mem_of_mem_insert {entry : String × α} (h : entry ∈ insert d key value) :
    entry = (key, value) ∨ entry ∈ d := by
  induction d with
  | nil => exact .inl (List.mem_singleton.mp h)
  | cons first rest ih =>
    obtain ⟨k, v⟩ := first
    unfold insert at h
    split at h
    · rcases List.mem_cons.mp h with rfl | h
      · exact .inl rfl
      · exact .inr (List.mem_cons_of_mem _ h)
    · split at h
      · exact List.mem_cons.mp h
      · rcases List.mem_cons.mp h with rfl | h
        · exact .inr (List.mem_cons_self ..)
        · exact (ih h).imp_right (List.mem_cons_of_mem _)

theorem find?_insert_of_ne {other : String} (h : other ≠ key) :
    (d.insert key value).find? other = d.find? other := by
  have hother : (other == key) = false := beq_false_of_ne h
  induction d with
  | nil => simp [Dict.insert, find?, List.lookup_cons, hother]
  | cons first rest ih =>
    obtain ⟨k, v⟩ := first
    rw [Dict.insert]
    split
    · rename_i hkey
      simp [find?, List.lookup_cons, hkey, hother]
    · split
      · simp [find?, List.lookup_cons, hother]
      · rw [find?, find?] at ih
        rw [find?, find?, List.lookup_cons, List.lookup_cons, ih]

theorem Sorted.insert (h : d.Sorted) : Sorted (d.insert key value) := by
  induction d with
  | nil => exact List.pairwise_singleton _ _
  | cons first rest ih =>
    obtain ⟨k, v⟩ := first
    obtain ⟨hfirst, hrest⟩ := List.pairwise_cons.mp h
    unfold Dict.insert
    split
    · rename_i heq
      rw [← heq]
      exact List.pairwise_cons.mpr ⟨hfirst, hrest⟩
    · rename_i hne
      split
      · rename_i hlt
        refine List.pairwise_cons.mpr ⟨fun entry hentry => ?_, h⟩
        rcases List.mem_cons.mp hentry with rfl | hentry
        · exact hlt
        · exact String.lt_trans hlt (hfirst entry hentry)
      · rename_i hnot
        have hlt : k < key := by
          rw [← String.not_le]
          intro hle
          exact hne (String.le_antisymm (String.not_lt.mp hnot) hle)
        refine List.pairwise_cons.mpr ⟨fun entry hentry => ?_, ih hrest⟩
        rcases mem_of_mem_insert hentry with rfl | hentry
        · exact hlt
        · exact hfirst entry hentry

/-- In an ordered dictionary the entry of a key is the only one under it. -/
theorem Sorted.find?_eq_some_iff (h : d.Sorted) :
    d.find? key = some value ↔ (key, value) ∈ d := by
  induction d with
  | nil => simp [find?]
  | cons first rest ih =>
    obtain ⟨k, v⟩ := first
    obtain ⟨hfirst, hrest⟩ := List.pairwise_cons.mp h
    rw [find?, List.lookup_cons]
    by_cases hkey : key = k
    · subst hkey
      have hnot : (key, value) ∉ rest :=
        fun hmem => String.lt_irrefl key (hfirst (key, value) hmem)
      simp [hnot, eq_comm]
    · have hlookup := ih hrest
      rw [find?] at hlookup
      simp [beq_false_of_ne hkey, hkey, hlookup]

theorem Sorted.nodup_keys (h : d.Sorted) : d.keys.Nodup := by
  rw [keys, List.nodup_iff_pairwise_ne, List.pairwise_map]
  refine h.imp fun {a b} hlt heq => ?_
  rw [heq] at hlt
  exact String.lt_irrefl _ hlt

/-- Of two dictionaries of one length, the first of which has no key besides those of the other, both
have the same keys. -/
theorem Sorted.keys_subset (h : d.Sorted) (hlength : d.length = d'.length)
    (hsubset : d.keys ⊆ d'.keys) : d'.keys ⊆ d.keys := by
  have hlengths : d'.keys.length = d.keys.length := by
    rw [keys, keys, List.length_map, List.length_map, hlength]
  exact ((h.nodup_keys.subperm hsubset).perm_of_length_le (Nat.le_of_eq hlengths)).symm.subset

instance : Decidable d.Sorted := inferInstanceAs (Decidable (List.Pairwise _ _))

/-! ## One entry set -/

/-- The entry of one key was set; those of the others are as they were. -/
structure OneSet (d d' : Dict α) (key : String) (value : α) : Prop where
  set : d'.find? key = some value
  others : ∀ other, other ≠ key → d'.find? other = d.find? other

theorem find?_insert_self (d : Dict α) (key : String) (value : α) :
    (d.insert key value).find? key = some value := by
  induction d with
  | nil => simp [Dict.insert, find?]
  | cons first rest ih =>
    obtain ⟨k, v⟩ := first
    rw [Dict.insert]
    split
    · simp [find?]
    · rename_i hne
      have hkey : (key == k) = false := beq_false_of_ne (Ne.symm hne)
      split
      · simp [find?]
      · rw [find?] at ih
        rw [find?, List.lookup_cons, hkey]
        exact ih

theorem oneSet_insert (d : Dict α) (key : String) (value : α) :
    OneSet d (d.insert key value) key value :=
  ⟨find?_insert_self d key value, fun _ hother => find?_insert_of_ne hother⟩

theorem mem_keys : key ∈ d.keys ↔ ∃ v, d.find? key = some v := by
  induction d with
  | nil => simp [keys, find?]
  | cons first rest ih =>
    obtain ⟨k, v⟩ := first
    rw [find?, List.lookup_cons]
    by_cases hkey : key = k
    · simp [keys, hkey]
    · have hbeq : (key == k) = false := beq_false_of_ne hkey
      rw [keys, find?] at ih
      simp [keys, hkey, hbeq, ih]

theorem OneSet.mem_keys (h : OneSet d d' key value) {other : String} (hother : other ∈ d.keys) :
    other ∈ d'.keys := by
  obtain ⟨v, hv⟩ := Dict.mem_keys.mp hother
  by_cases hkey : other = key
  · subst hkey
    exact Dict.mem_keys.mpr ⟨value, h.set⟩
  · have hkept := h.others other hkey
    exact Dict.mem_keys.mpr ⟨v, hkept.trans hv⟩

end ChainScript.Dict
