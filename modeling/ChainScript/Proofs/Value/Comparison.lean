import ChainScript.Proofs.Dict.Entries
import ChainScript.Value.Compare

/-! # Comparison of lists, of maps, and of a value with itself

Two lists are equal when they are equal element by element as far as both go and only `anything`
stands behind that. Two maps are equal when they have as many entries and each entry on the left
equals the one under its key on the right. A value equals itself unless `nothing` occurs in it.

* `Value.parts`, `Value.occurring`: the values in a value, one level down and at any depth.
* `Value.inside_induction`: what passes from the parts of a value to it holds of every value.
* `Value.compareList_eq_true_iff`, `Value.compareEntries_eq_true_iff`: lists and maps.
* `Value.compare_self`: a value and itself.
-/

namespace ChainScript
set_option autoImplicit false

namespace Value

/-! ## The values in a value -/

/-- The items of a list or an array, and the values of a map. -/
def parts : Value → List Value
  | .list items => items
  | .array items => items
  | .map entries => Dict.values entries
  | _ => []

theorem sizeOf_lt_of_mem_parts {u v : Value} (h : u ∈ v.parts) : sizeOf u < sizeOf v := by
  cases v with
  | list items | array items =>
    have hlt : sizeOf u < sizeOf items := List.sizeOf_lt_of_mem h
    simp only [list.sizeOf_spec, array.sizeOf_spec]
    omega
  | map entries =>
    obtain ⟨⟨key, _⟩, hentry, rfl⟩ := List.mem_map.mp h
    have hlt := List.sizeOf_lt_of_mem hentry
    simp only [Prod.mk.sizeOf_spec, map.sizeOf_spec] at hlt ⊢
    omega
  | bool | string | address | number | precise | event | anything | nothing => cases h

/-- What passes from the parts of a value to it holds of every value. -/
@[elab_as_elim]
theorem inside_induction {motive : Value → Prop}
    (inside : ∀ v, (∀ u ∈ v.parts, motive u) → motive v) (v : Value) : motive v :=
  inside v fun u _ => inside_induction inside u
termination_by sizeOf v
decreasing_by exact sizeOf_lt_of_mem_parts ‹_›

mutual

/-- A value and all values in it, at any depth. -/
def occurring : Value → List Value
  | .list items => .list items :: occurringIn items
  | .array items => .array items :: occurringIn items
  | .map entries => .map entries :: occurringUnder entries
  | v => [v]

def occurringIn : List Value → List Value
  | [] => []
  | v :: vs => v.occurring ++ occurringIn vs

def occurringUnder : List (String × Value) → List Value
  | [] => []
  | (_, v) :: entries => v.occurring ++ occurringUnder entries

end

theorem occurringIn_eq (vs : List Value) : occurringIn vs = vs.flatMap occurring := by
  induction vs with
  | nil => rfl
  | cons v vs ih => rw [occurringIn, ih, List.flatMap_cons]

theorem occurringUnder_eq (entries : List (String × Value)) :
    occurringUnder entries = (Dict.values entries).flatMap occurring := by
  induction entries with
  | nil => rfl
  | cons entry entries ih =>
    rw [occurringUnder, ih]
    rfl

theorem occurring_eq (v : Value) : v.occurring = v :: v.parts.flatMap occurring := by
  cases v with
  | list items | array items => rw [occurring, occurringIn_eq, parts]
  | map entries => rw [occurring, occurringUnder_eq, parts]
  | bool | string | address | number | precise | event | anything | nothing => rfl

/-- Whether a value of this kind occurs in a value. -/
def holds (v : Value) (kind : Kind) : Bool := v.occurring.any fun u => u.kind == kind

theorem holds_eq (v : Value) (kind : Kind) :
    v.holds kind = (v.kind == kind || v.parts.any (holds · kind)) := by
  rw [holds, occurring_eq, List.any_cons, List.any_flatMap]
  rfl

theorem holds_part {u v : Value} {kind : Kind} (h : v.holds kind = false) (hu : u ∈ v.parts) :
    u.holds kind = false := by
  rw [holds_eq, Bool.or_eq_false_iff, List.any_eq_false] at h
  exact Bool.eq_false_iff.mpr (h.2 u hu)

theorem kind_ne_of_holds {v : Value} {kind : Kind} (h : v.holds kind = false) : v.kind ≠ kind := by
  rw [holds_eq, Bool.or_eq_false_iff] at h
  exact beq_eq_false_iff_ne.mp h.1

/-- The keys of a map are in order. -/
def InOrder : Value → Prop
  | .map entries => Dict.Sorted entries
  | _ => True

/-- The keys of every map that occurs in a value are in order. -/
def Keyed (v : Value) : Prop := ∀ u ∈ v.occurring, u.InOrder

instance : DecidablePred InOrder
  | .map entries => inferInstanceAs (Decidable (Dict.Sorted entries))
  | .bool _ | .string _ | .address _ | .number _ | .precise _ | .list _ | .array _ | .event _
  | .anything | .nothing => inferInstanceAs (Decidable True)

instance : DecidablePred Keyed := fun v =>
  inferInstanceAs (Decidable (∀ u ∈ v.occurring, u.InOrder))

theorem keyed_iff {v : Value} : v.Keyed ↔ v.InOrder ∧ ∀ u ∈ v.parts, u.Keyed := by
  unfold Keyed
  rw [occurring_eq, List.forall_mem_cons]
  simp only [List.mem_flatMap]
  grind

theorem Keyed.part {u v : Value} (h : v.Keyed) (hu : u ∈ v.parts) : u.Keyed :=
  (keyed_iff.mp h).2 u hu

theorem Keyed.sorted {entries : List (String × Value)} (h : (Value.map entries).Keyed) :
    Dict.Sorted entries :=
  (keyed_iff.mp h).1

/-! ## Lists -/

theorem isAnything_iff {v : Value} : v.isAnything = true ↔ v = .anything := by
  cases v <;> simp [isAnything]

theorem compareList_eq_true_iff {xs ys : List Value} :
    compareList xs ys = .ok true ↔
      (∀ pair ∈ xs.zip ys, pair.1.compare pair.2 = .ok true) ∧
        (∀ x ∈ xs.drop ys.length, x = .anything) ∧ ∀ y ∈ ys.drop xs.length, y = .anything := by
  induction xs generalizing ys with
  | nil => simp [compareList, isAnything_iff]
  | cons x xs ih =>
    cases ys with
    | nil => simp [compareList, isAnything_iff]
    | cons y ys =>
      rw [compareList, List.zip_cons_cons, List.forall_mem_cons]
      cases hxy : x.compare y with
      | error e => simp
      | ok equal => cases equal <;> simp [ih]

theorem parts_of_asList? {v : Value} {vs : List Value} (h : v.asList? = some vs) : v.parts = vs := by
  cases v <;> cases h <;> rfl

/-- Lists and arrays are compared by their items. -/
theorem compare_of_asList? {a b : Value} {xs ys : List Value} (ha : a.asList? = some xs)
    (hb : b.asList? = some ys) : a.compare b = compareList xs ys := by
  cases a <;> cases ha <;> cases b <;> cases hb <;> rfl

theorem compareList_self {vs : List Value} {p : Value → Bool}
    (h : ∀ v ∈ vs, v.compare v = .ok (!p v)) : compareList vs vs = .ok (!vs.any p) := by
  induction vs with
  | nil => rfl
  | cons v vs ih =>
    obtain ⟨hv, hvs⟩ := List.forall_mem_cons.mp h
    rw [compareList, hv, ih hvs, List.any_cons]
    cases p v <;> rfl

/-! ## Maps -/

theorem compare_map (xs ys : List (String × Value)) :
    (Value.map xs).compare (.map ys) =
      if xs.length = ys.length then compareEntries xs ys else .ok false := rfl

theorem compareEntries_eq_true_iff {xs ys : List (String × Value)} :
    compareEntries xs ys = .ok true ↔
      ∀ entry ∈ xs, ∃ y, Dict.find? entry.1 ys = some y ∧ entry.2.compare y = .ok true := by
  induction xs with
  | nil => simp [compareEntries]
  | cons entry xs ih =>
    obtain ⟨key, x⟩ := entry
    rw [compareEntries, List.forall_mem_cons]
    cases hfind : Dict.find? key ys with
    | none => simp
    | some y =>
      cases hxy : x.compare y with
      | error e => simp [hxy]
      | ok equal => cases equal <;> simp [hxy, ih]

theorem compareEntries_self {xs ys : List (String × Value)} {p : Value → Bool}
    (h : ∀ entry ∈ xs, Dict.find? entry.1 ys = some entry.2 ∧
      entry.2.compare entry.2 = .ok (!p entry.2)) :
    compareEntries xs ys = .ok (!(Dict.values xs).any p) := by
  induction xs with
  | nil => rfl
  | cons entry xs ih =>
    obtain ⟨key, x⟩ := entry
    obtain ⟨⟨hfind, hx⟩, hxs⟩ := List.forall_mem_cons.mp h
    rw [compareEntries, hfind]
    dsimp only at hx ⊢
    rw [hx, ih hxs, Dict.values, Dict.values, List.map_cons, List.any_cons]
    cases p x <;> rfl

/-! ## A value and itself -/

/-- A value equals itself as far as its parts do, so what one of them holds ends the comparison. -/
theorem compare_self {v : Value} (hv : v.Keyed) : v.compare v = .ok (!v.holds .nothing) := by
  induction v using inside_induction with
  | inside v ih =>
    have hparts : ∀ u ∈ v.parts, u.compare u = .ok (!u.holds .nothing) :=
      fun u hu => ih u hu (hv.part hu)
    rw [holds_eq]
    cases v with
    | list items | array items => exact compareList_self hparts
    | map entries =>
      have hentries : ∀ entry ∈ entries, Dict.find? entry.1 entries = some entry.2 ∧
          entry.2.compare entry.2 = .ok (!entry.2.holds .nothing) :=
        fun entry hentry => ⟨hv.sorted.find?_eq_some_iff.mpr hentry,
          hparts entry.2 (List.mem_map_of_mem hentry)⟩
      rw [compare_map, if_pos rfl]
      exact compareEntries_self hentries
    | precise p => simp [compare, parts, kind, Precise.agrees]
    | number n => simp [compare, parts, kind, Number.sameValue]
    | bool | string | address | event => simp [compare, parts, kind]
    | anything | nothing => rfl

/-- A value is compared with itself without a mismatch, and equals itself exactly when `nothing` does
not occur in it. Lists and arrays are equal exactly when their items are, pair by pair up to the end of
the shorter one, and all items of the longer one behind that are `anything`. -/
theorem comparison_exact {v a b : Value} {xs ys : List Value} (hv : v.Keyed)
    (ha : a.asList? = some xs) (hb : b.asList? = some ys) :
    (∃ equal, v.compare v = .ok equal) ∧
    (v.compare v = .ok true ↔ v.holds .nothing = false) ∧
    (a.compare b = .ok true ↔
      (∀ pair ∈ xs.zip ys, pair.1.compare pair.2 = .ok true) ∧
        (∀ x ∈ xs.drop ys.length, x = .anything) ∧ ∀ y ∈ ys.drop xs.length, y = .anything) := by
  refine ⟨⟨_, compare_self hv⟩, ?_, ?_⟩
  · rw [compare_self hv, Except.ok.injEq, Bool.not_eq_true']
  · rw [compare_of_asList? ha hb]
    exact compareList_eq_true_iff

/-- A receipt with an empty field below a list. -/
def receipt : Value :=
  .map [("logs", .list [.string "Transfer", .map [("data", .nothing), ("topic", .anything)]]),
    ("status", .bool true)]

theorem comparison_exact_receipt :
    receipt.Keyed ∧ receipt.holds .nothing = true ∧ receipt.compare receipt = .ok false ∧
      (Value.list [receipt]).compare (.array [.anything, .anything]) = .ok true := by
  have hkeyed : receipt.Keyed := by decide
  have hholds : receipt.holds .nothing = true := by decide
  obtain ⟨⟨equal, hequal⟩, hself, hlists⟩ := comparison_exact (a := .list [receipt])
    (b := .array [.anything, .anything]) hkeyed rfl rfl
  refine ⟨hkeyed, hholds, ?_, hlists.mpr ?_⟩
  · cases equal with
    | false => exact hequal
    | true => exact absurd (hself.mp hequal) (by simp [hholds])
  · simp [receipt, compare]

end Value

end ChainScript
