import Mathlib.Data.List.Zip
import ChainScript.Proofs.Value.Comparison

/-! # Comparison from either side

Whether two values are equal does not depend on which of them is the expected one, unless precise
numbers occur on both sides. Without maps the two comparisons are mirror images, mismatches included.
With maps only equality is the same from both sides: the entries are compared in the order of the keys
on the left, so a missing key may be met before or after a mismatch.

* `Value.compare_mirror_of_whole`: values that are compared as a whole.
* `Value.compare_mirror`: values without maps.
* `Value.compare_comm`: all values.
-/

namespace ChainScript
set_option autoImplicit false

/-- The mismatch seen from the other side. -/
def Mismatch.swap (m : Mismatch) : Mismatch := ⟨m.right, m.left⟩

theorem Mismatch.swap_inj {m n : Mismatch} : m.swap = n.swap ↔ m = n :=
  ⟨congrArg swap, congrArg swap⟩

namespace Value

/-- The result of a comparison seen from the other side. -/
def mirror (result : Except Mismatch Bool) : Except Mismatch Bool := result.mapError .swap

@[simp] theorem mirror_ok (equal : Bool) : mirror (.ok equal) = .ok equal := rfl

@[simp] theorem mirror_error (m : Mismatch) : mirror (.error m) = .error m.swap := rfl

theorem mirror_eq_ok_iff {result : Except Mismatch Bool} {equal : Bool} :
    mirror result = .ok equal ↔ result = .ok equal := by
  cases result <;> simp

theorem mirror_eq_error_iff {result : Except Mismatch Bool} {m : Mismatch} :
    mirror result = .error m.swap ↔ result = .error m := by
  cases result <;> simp [Mismatch.swap_inj]

/-! ## Values compared as a whole -/

/-- Every row of the table stands there from either side, but for two precise numbers: these are
compared to the figures of the left one. -/
theorem compare_mirror_of_whole {a b : Value} (hlist : a.asList? = none ∨ b.asList? = none)
    (hmap : a.kind ≠ .map ∨ b.kind ≠ .map) (hprecise : a.kind ≠ .precise ∨ b.kind ≠ .precise) :
    b.compare a = mirror (a.compare b) := by
  cases a <;> cases b <;>
    simp_all [asList?, kind, compare, Mismatch.swap, Number.sameValue, Bool.beq_comm]

/-- Two precise numbers are compared to the figures of the expected one. -/
example : (Value.precise ⟨⟨3 / 2, .plain⟩, 2⟩).compare (.precise ⟨⟨38 / 25, .plain⟩, 3⟩) = .ok true ∧
    (Value.precise ⟨⟨38 / 25, .plain⟩, 3⟩).compare (.precise ⟨⟨3 / 2, .plain⟩, 2⟩) = .ok false := by
  decide +kernel

/-! ## Lists -/

theorem compareList_mirror {xs ys : List Value}
    (h : ∀ x ∈ xs, ∀ y ∈ ys, y.compare x = mirror (x.compare y)) :
    compareList ys xs = mirror (compareList xs ys) := by
  induction xs generalizing ys with
  | nil => cases ys <;> rfl
  | cons x xs ih =>
    cases ys with
    | nil => rfl
    | cons y ys =>
      have hfirst := h x (List.mem_cons_self ..) y (List.mem_cons_self ..)
      have hrest : compareList ys xs = mirror (compareList xs ys) :=
        ih fun x hx y hy => h x (List.mem_cons_of_mem _ hx) y (List.mem_cons_of_mem _ hy)
      rw [compareList, compareList, hfirst]
      cases x.compare y with
      | error e => rfl
      | ok equal =>
        cases equal with
        | false => rfl
        | true => exact hrest

theorem compareList_comm {xs ys : List Value}
    (h : ∀ x ∈ xs, ∀ y ∈ ys, x.compare y = .ok true → y.compare x = .ok true)
    (hxs : compareList xs ys = .ok true) : compareList ys xs = .ok true := by
  obtain ⟨hpairs, hbehind, hbehind'⟩ := compareList_eq_true_iff.mp hxs
  refine compareList_eq_true_iff.mpr ⟨fun pair hpair => ?_, hbehind', hbehind⟩
  have hswapped : pair.swap ∈ xs.zip ys := by
    rw [← List.zip_swap]
    exact List.mem_map_of_mem hpair
  obtain ⟨hx, hy⟩ := List.of_mem_zip hswapped
  exact h pair.2 hx pair.1 hy (hpairs pair.swap hswapped)

/-! ## Maps -/

/-- With equally many keys, those of the left map are all that there are on the right. -/
theorem compareEntries_comm {xs ys : Dict Value} (hxs : xs.Sorted) (hys : ys.Sorted)
    (hlength : xs.length = ys.length)
    (h : ∀ x ∈ xs.values, ∀ y ∈ ys.values, x.compare y = .ok true → y.compare x = .ok true)
    (hequal : compareEntries xs ys = .ok true) : compareEntries ys xs = .ok true := by
  rw [compareEntries_eq_true_iff] at hequal ⊢
  have hsubset : xs.keys ⊆ ys.keys := by
    intro key hkey
    obtain ⟨x, hx⟩ := Dict.mem_keys.mp hkey
    obtain ⟨y, hy, -⟩ := hequal (key, x) (hxs.find?_eq_some_iff.mp hx)
    exact Dict.mem_keys.mpr ⟨y, hy⟩
  intro ⟨key, y⟩ hentry
  have hkey : key ∈ xs.keys :=
    hxs.keys_subset hlength hsubset (List.mem_map_of_mem hentry)
  obtain ⟨x, hx⟩ := Dict.mem_keys.mp hkey
  have hmem : (key, x) ∈ xs := hxs.find?_eq_some_iff.mp hx
  obtain ⟨y', hy', hxy⟩ := hequal (key, x) hmem
  rw [hys.find?_eq_some_iff.mpr hentry, Option.some.injEq] at hy'
  subst hy'
  exact ⟨x, hx, h x (List.mem_map_of_mem hmem) y (List.mem_map_of_mem hentry) hxy⟩

/-! ## Values -/

/-- One of two values has no precise number in it. -/
def OnePlain (a b : Value) : Prop := a.holds .precise = false ∨ b.holds .precise = false

theorem OnePlain.kind_ne {a b : Value} (h : OnePlain a b) :
    a.kind ≠ .precise ∨ b.kind ≠ .precise :=
  h.imp kind_ne_of_holds kind_ne_of_holds

theorem OnePlain.parts {a b x y : Value} (h : OnePlain a b) (hx : x ∈ a.parts) (hy : y ∈ b.parts) :
    OnePlain x y :=
  h.imp (holds_part · hx) (holds_part · hy)

/-- Two values are both sequences, both maps, or compared as a whole. -/
theorem both_or_whole (a b : Value) :
    (∃ xs ys, a.asList? = some xs ∧ b.asList? = some ys) ∨
      (∃ xs ys, a = .map xs ∧ b = .map ys) ∨
      (a.asList? = none ∨ b.asList? = none) ∧ (a.kind ≠ .map ∨ b.kind ≠ .map) := by
  cases a <;> cases b <;> simp [asList?, kind]

/-- Values without maps are compared alike from either side, mismatches included. -/
theorem compare_mirror {a b : Value} (hone : OnePlain a b) (ha : a.holds .map = false)
    (hb : b.holds .map = false) : b.compare a = mirror (a.compare b) := by
  induction a using inside_induction generalizing b with
  | inside a ih =>
    have hparts : ∀ x ∈ a.parts, ∀ y ∈ b.parts, y.compare x = mirror (x.compare y) :=
      fun x hx y hy => ih x hx (hone.parts hx hy) (holds_part ha hx) (holds_part hb hy)
    rcases both_or_whole a b with ⟨xs, ys, hxs, hys⟩ | ⟨xs, ys, rfl, rfl⟩ | ⟨hlist, hmap⟩
    · rw [parts_of_asList? hxs, parts_of_asList? hys] at hparts
      rw [compare_of_asList? hxs hys, compare_of_asList? hys hxs]
      exact compareList_mirror hparts
    · exact absurd rfl (kind_ne_of_holds ha)
    · exact compare_mirror_of_whole hlist hmap hone.kind_ne

theorem compare_comm {a b : Value} (ha : a.Keyed) (hb : b.Keyed) (hone : OnePlain a b)
    (hequal : a.compare b = .ok true) : b.compare a = .ok true := by
  induction a using inside_induction generalizing b with
  | inside a ih =>
    have hparts : ∀ x ∈ a.parts, ∀ y ∈ b.parts,
        x.compare y = .ok true → y.compare x = .ok true :=
      fun x hx y hy => ih x hx (ha.part hx) (hb.part hy) (hone.parts hx hy)
    rcases both_or_whole a b with ⟨xs, ys, hxs, hys⟩ | ⟨xs, ys, rfl, rfl⟩ | ⟨hlist, hmap⟩
    · rw [parts_of_asList? hxs, parts_of_asList? hys] at hparts
      rw [compare_of_asList? hxs hys] at hequal
      rw [compare_of_asList? hys hxs]
      exact compareList_comm hparts hequal
    · rw [compare_map] at hequal ⊢
      by_cases hlength : xs.length = ys.length
      · rw [if_pos hlength] at hequal
        rw [if_pos hlength.symm]
        exact compareEntries_comm ha.sorted hb.sorted hlength hparts hequal
      · rw [if_neg hlength] at hequal
        cases hequal
    · rw [compare_mirror_of_whole hlist hmap hone.kind_ne, hequal, mirror_ok]

/-- Of two values at most one of which has precise numbers in it, each equals the other or neither
does. Where both comparisons have a result it is the same. Without maps in the values the comparisons
are mirror images: the same result, or the same mismatch with its sides exchanged. -/
theorem compare_either_side {a b : Value} (ha : a.Keyed) (hb : b.Keyed)
    (hprecise : a.holds .precise = false ∨ b.holds .precise = false) :
    (a.compare b = .ok true ↔ b.compare a = .ok true) ∧
    (∀ x y, a.compare b = .ok x → b.compare a = .ok y → x = y) ∧
    (a.holds .map = false → b.holds .map = false →
      (∀ x, a.compare b = .ok x ↔ b.compare a = .ok x) ∧
      ∀ l r, a.compare b = .error ⟨l, r⟩ ↔ b.compare a = .error ⟨r, l⟩) := by
  have hequal : a.compare b = .ok true ↔ b.compare a = .ok true :=
    ⟨compare_comm ha hb hprecise, compare_comm hb ha hprecise.symm⟩
  refine ⟨hequal, fun x y hx hy => ?_, fun hamap hbmap => ?_⟩
  · rw [hx, hy, Except.ok.injEq, Except.ok.injEq] at hequal
    exact Bool.eq_iff_iff.mpr hequal
  · have hmirror : b.compare a = mirror (a.compare b) := compare_mirror hprecise hamap hbmap
    constructor
    · intro x
      rw [hmirror, mirror_eq_ok_iff]
    · intro l r
      rw [hmirror]
      exact mirror_eq_error_iff.symm

/-- An order with a price to two figures and any second fill. -/
def limitOrder : Value :=
  .map [("fills", .list [.number (.ofInt 1), .anything]), ("price", .precise ⟨⟨3 / 2, .plain⟩, 2⟩)]

def filledOrder : Value :=
  .map [("fills", .array [.bool true]), ("price", .string "1.52")]

theorem compare_either_side_fill :
    limitOrder.Keyed ∧ filledOrder.Keyed ∧ filledOrder.holds .precise = false ∧
      filledOrder.compare limitOrder = .ok true ∧
      (Value.array [.string "1", .event (.token "Mint")]).compare
        (.list [.number (.ofInt 1), .bool true]) = .error ⟨.event, .bool⟩ := by
  have horder : limitOrder.Keyed := by decide
  have hfilled : filledOrder.Keyed := by decide
  have hprecise : filledOrder.holds .precise = false := by decide
  have hequal : limitOrder.compare filledOrder = .ok true := by with_unfolding_all rfl
  have hmismatch : (Value.list [.number (.ofInt 1), .bool true]).compare
      (.array [.string "1", .event (.token "Mint")]) = .error ⟨.bool, .event⟩ := by
    with_unfolding_all rfl
  obtain ⟨hiff, -, -⟩ := compare_either_side horder hfilled (.inr hprecise)
  obtain ⟨-, -, hmirrors⟩ := compare_either_side (a := .list [.number (.ofInt 1), .bool true])
    (b := .array [.string "1", .event (.token "Mint")]) (by decide) (by decide) (.inl (by decide))
  obtain ⟨-, herrors⟩ := hmirrors (by decide) (by decide)
  exact ⟨horder, hfilled, hprecise, hiff.mp hequal, (herrors _ _).mp hmismatch⟩

end Value

end ChainScript
