import Mathlib.Data.Sign.Basic
import ChainScript.Proofs.Number.Significant

/-! # Truncation to significant figures

Within the reach of a shift the search for the leading digit ends at its place. A value cut after so
many figures is the one multiple of the last place that lies toward zero from it, less than one such
place away, and to cut it once more comes to cutting the value at once.

* `Decimal.settles_leading_iff`: the end of the search.
* `Decimal.CutTo`, `Decimal.CutTo.unique`: a value cut to multiples of a unit.
* `Decimal.truncateSignificant_cutTo`, `Decimal.truncateSignificant_twice`: cutting once and twice.
* `Decimal.truncation_exact`: truncation as far as a shift reaches.
-/

namespace ChainScript.Decimal
set_option autoImplicit false

variable {v : Rat}

/-! ## The search for the leading digit -/

theorem settles_leading_iff (hv : v ≠ 0) (h : Ordinary v) (final : Int) :
    Settles v (guess v) final ↔ final = leading v := by
  have hexponent := exponent_eq hv h
  have hnear := guess_near hv
  unfold Ordinary at h
  rw [settles_guess_iff hv (by omega) (by omega), hexponent]

/-- Fewer than `2 ^ 31` digits above and below the line keep the leading digit near the point. -/
theorem ordinary_of_digitCounts (hv : v ≠ 0) (hnum : digitCount v.num.natAbs < 2 ^ 31)
    (hden : digitCount v.den < 2 ^ 31) : Ordinary v := by
  have hnear := guess_near hv
  have hsize : UInt32.size = 2 ^ 32 := rfl
  unfold guess at hnear
  unfold Ordinary
  omega

/-! ## Cut values -/

/-- A multiple of `u` with the sign of `v`, toward zero from `v` and less than `u` away. -/
structure CutTo (v u t : Rat) : Prop where
  multiple : ∃ k : Int, t = k * u
  sign : SignType.sign t = SignType.sign v
  toward : |t| ≤ |v|
  near : |v| - |t| < u

/-- Of two cut values neither has more units than the other. -/
theorem CutTo.unique {u t t' : Rat} (hu : 0 < u) (h : CutTo v u t) (h' : CutTo v u t') :
    t = t' := by
  obtain ⟨k, rfl⟩ := h.multiple
  obtain ⟨k', rfl⟩ := h'.multiple
  have habs : ∀ n : Int, |(n : Rat) * u| = ((|n| : Int) : Rat) * u := by
    intro n
    rw [abs_mul, abs_of_pos hu, Int.cast_abs]
  have hbelow : ∀ {m n : Int}, CutTo v u (m * u) → CutTo v u (n * u) → |m| ≤ |n| := by
    intro m n hm hn
    have htoward := hm.toward
    have hnear := hn.near
    rw [habs] at htoward hnear
    have hlt : ((|m| : Int) : Rat) * u < ((|n| + 1 : Int) : Rat) * u := by
      push_cast at htoward hnear ⊢
      linarith
    have hlt : |m| < |n| + 1 := by exact_mod_cast lt_of_mul_lt_mul_right hlt hu.le
    omega
  have heq : |k| = |k'| := le_antisymm (hbelow h h') (hbelow h' h)
  rw [← sign_mul_abs ((k : Rat) * u), ← sign_mul_abs ((k' : Rat) * u), h.sign, h'.sign, habs, habs,
    heq]

section Truncate

variable {p q : Nat}

theorem sign_unit (hv : v ≠ 0) : SignType.sign (unit v : Rat) = SignType.sign v := by
  unfold unit
  split
  · rename_i hneg
    rw [sign_neg hneg, sign_neg (by norm_num)]
  · rename_i hpos
    rw [sign_pos (lt_of_le_of_ne (not_lt.mp hpos) hv.symm), sign_pos (by norm_num)]

theorem sign_truncateSignificant (hv : v ≠ 0) (h : Ordinary v) (hp : 0 < p)
    (hfits : (p : Int) - 1 - leading v < UInt32.size) :
    SignType.sign (truncateSignificant v p) = SignType.sign v := by
  have hunit : (0 : Rat) < 10 ^ (leading v + 1 - p) := by positivity
  rw [truncateSignificant_eq hv h hp hfits, sign_mul, sign_mul, sign_pos (figures_pos hv hp),
    sign_pos hunit, mul_one, mul_one, sign_unit hv]

theorem truncateSignificant_cutTo (hv : v ≠ 0) (h : Ordinary v) (hp : 0 < p)
    (hfits : (p : Int) - 1 - leading v < UInt32.size) :
    CutTo v (10 ^ (leading v + 1 - p)) (truncateSignificant v p) := by
  have hten : (10 : Rat) ≠ 0 := by norm_num
  have hunit : (0 : Rat) < 10 ^ (leading v + 1 - p) := by positivity
  have hscaled : |v| * 10 ^ ((p : Int) - 1 - leading v) * 10 ^ (leading v + 1 - p) = |v| := by
    rw [mul_assoc, ← zpow_add₀ hten]
    ring_nf
    rw [zpow_zero, mul_one]
  have habs := abs_truncateSignificant hv h hp hfits
  refine ⟨⟨unit v * figures p v, ?_⟩, sign_truncateSignificant hv h hp hfits, ?_, ?_⟩
  · rw [truncateSignificant_eq hv h hp hfits, Int.cast_mul]
  · calc |truncateSignificant v p| = figures p v * 10 ^ (leading v + 1 - p) := habs
      _ ≤ |v| * 10 ^ ((p : Int) - 1 - leading v) * 10 ^ (leading v + 1 - p) := by
          gcongr
          exact Int.floor_le _
      _ = |v| := hscaled
  · have hlt : |v| < (figures p v + 1) * 10 ^ (leading v + 1 - p) := by
      calc |v| = |v| * 10 ^ ((p : Int) - 1 - leading v) * 10 ^ (leading v + 1 - p) := hscaled.symm
        _ < (figures p v + 1) * 10 ^ (leading v + 1 - p) := by
            gcongr
            exact Int.lt_floor_add_one _
    rw [habs]
    linarith

/-- Fewer figures are what is left of more figures without the last ones. -/
theorem figures_coarser (v : Rat) (hpq : p ≤ q) : figures p v = figures q v / 10 ^ (q - p) := by
  have hten : (10 : Rat) ≠ 0 := by norm_num
  have hscale : |v| * 10 ^ ((p : Int) - 1 - leading v) =
      |v| * 10 ^ ((q : Int) - 1 - leading v) / ((10 ^ (q - p) : Nat) : Rat) := by
    rw [Nat.cast_pow, Nat.cast_ofNat, ← zpow_natCast, mul_div_assoc, ← zpow_sub₀ hten,
      Nat.cast_sub hpq]
    ring_nf
  rw [figures, hscale, Int.floor_div_natCast, figures]
  norm_cast

/-- The figures of a cut value, at the precision of the cut, are those of the value. -/
theorem truncateSignificant_twice (hv : v ≠ 0) (h : Ordinary v) (hp : 0 < p) (hpq : p ≤ q)
    (hfits : (q : Int) - 1 - leading v < UInt32.size) :
    truncateSignificant (truncateSignificant v q) p = truncateSignificant v p := by
  have hten : (10 : Rat) ≠ 0 := by norm_num
  have hq : 0 < q := hp.trans_le hpq
  have hpfits : (p : Int) - 1 - leading v < UInt32.size := by omega
  have hleading := leading_truncateSignificant hv h hq hfits
  have hsign := sign_truncateSignificant hv h hq hfits
  have hne := truncateSignificant_ne_zero hv h hq hfits
  have habs := abs_truncateSignificant hv h hq hfits
  generalize truncateSignificant v q = t at hleading hsign hne habs
  have hordinary : Ordinary t := by rwa [Ordinary, hleading]
  have hunit : unit t = unit v := by
    have hneg : t < 0 ↔ v < 0 := by rw [← sign_eq_neg_one_iff, hsign, sign_eq_neg_one_iff]
    simp only [unit, hneg]
  have hsame : figures q t = figures q v := by
    have hscaled : |t| * 10 ^ ((q : Int) - 1 - leading v) = (figures q v : Rat) := by
      rw [habs, mul_assoc, ← zpow_add₀ hten]
      ring_nf
      rw [zpow_zero, mul_one]
    rw [figures, hleading, hscaled, Int.floor_intCast]
  rw [truncateSignificant_eq hne hordinary hp (hleading ▸ hpfits),
    truncateSignificant_eq hv h hp hpfits, hunit, hleading, figures_coarser t hpq, hsame,
    ← figures_coarser v hpq]

/-- No figures at all are cut as one. -/
theorem truncateSignificant_max (v : Rat) (p : Nat) :
    truncateSignificant v (max p 1) = truncateSignificant v p := by
  unfold truncateSignificant
  rw [max_eq_left (le_max_right p 1)]

end Truncate

/-! ## As far as a shift reaches -/

/-- The shift of a truncation takes less than `2 ^ 32` places. -/
def Reaches (precision : Nat) (v : Rat) : Prop :=
  |((max precision 1 : Nat) : Int) - 1 - exponent v| < 2 ^ 32

/-- For a value of fewer than `2 ^ 31` digits above and below the line the search for the leading
digit ends at its place. To as many figures as a shift reaches the value is cut to the last of them,
keeps its place, and is cut once for all. -/
theorem truncation_exact (v : Rat) (hv : v ≠ 0) (hnum : digitCount v.num.natAbs < 2 ^ 31)
    (hden : digitCount v.den < 2 ^ 31) :
    (∀ final, Settles v (guess v) final ↔ final = exponent v) ∧
    (∀ e : Int, ((10 : Rat) ^ e ≤ |v| ∧ |v| < 10 ^ (e + 1)) ↔ e = exponent v) ∧
    ∀ p, Reaches p v →
      (∀ t, CutTo v (10 ^ (exponent v + 1 - (max p 1 : Nat))) t ↔ t = truncateSignificant v p) ∧
      truncateSignificant v p ≠ 0 ∧
      exponent (truncateSignificant v p) = exponent v ∧
      (∀ final, Settles (truncateSignificant v p) (guess (truncateSignificant v p)) final ↔
        final = exponent v) ∧
      truncateSignificant (truncateSignificant v p) p = truncateSignificant v p ∧
      ∀ q, p ≤ q → Reaches q v →
        truncateSignificant (truncateSignificant v q) p = truncateSignificant v p := by
  have hordinary := ordinary_of_digitCounts hv hnum hden
  have hexponent := exponent_eq hv hordinary
  have hfits : ∀ {p}, Reaches p v → ((max p 1 : Nat) : Int) - 1 - leading v < UInt32.size := by
    intro p hp
    rw [Reaches, hexponent] at hp
    exact (le_abs_self _).trans_lt hp
  have htwice : ∀ {p q}, p ≤ q → Reaches q v →
      truncateSignificant (truncateSignificant v q) p = truncateSignificant v p := by
    intro p q hpq hq
    rw [← truncateSignificant_max v q, ← truncateSignificant_max _ p, ← truncateSignificant_max v p]
    exact truncateSignificant_twice hv hordinary (by omega) (by omega) (hfits hq)
  refine ⟨?_, fun e => ?_, fun p hp => ?_⟩
  · rw [hexponent]
    exact settles_leading_iff hv hordinary
  · rw [hexponent]
    constructor
    · rintro ⟨hlow, hhigh⟩
      exact (leading_eq hlow hhigh).symm
    · rintro rfl
      exact ⟨leading_le hv, lt_leading v⟩
  · have hone : 0 < max p 1 := by omega
    have hcut := truncateSignificant_cutTo hv hordinary hone (hfits hp)
    have hne := truncateSignificant_ne_zero hv hordinary hone (hfits hp)
    have hleading := leading_truncateSignificant hv hordinary hone (hfits hp)
    rw [truncateSignificant_max] at hcut hne hleading
    have hordinary' : Ordinary (truncateSignificant v p) := by rwa [Ordinary, hleading]
    rw [hexponent]
    refine ⟨fun t => ⟨fun ht => ht.unique (by positivity) hcut, ?_⟩, hne, ?_, fun final => ?_,
      htwice le_rfl hp, fun q hpq hq => htwice hpq hq⟩
    · rintro rfl
      exact hcut
    · rw [exponent_eq hne hordinary', hleading]
    · rw [settles_leading_iff hne hordinary', hleading]

/-- A negative value cut to four figures and then to three. -/
theorem truncation_exact_negative :
    (-98765 : Rat) ≠ 0 ∧ digitCount (-98765 : Rat).num.natAbs < 2 ^ 31 ∧
      digitCount (-98765 : Rat).den < 2 ^ 31 ∧ Reaches 3 (-98765) ∧ Reaches 4 (-98765) ∧
      Settles (-98765) (guess (-98765)) 4 ∧
      CutTo (-98765) (10 ^ (exponent (-98765) + 1 - (max 3 1 : Nat))) (-98700) ∧
      truncateSignificant (truncateSignificant (-98765) 4) 3 = -98700 := by
  have hnum : digitCount (-98765 : Rat).num.natAbs < 2 ^ 31 := by decide +kernel
  have hden : digitCount (-98765 : Rat).den < 2 ^ 31 := by decide +kernel
  have hexponent : exponent (-98765) = 4 := by decide +kernel
  have hcut : truncateSignificant (-98765) 3 = -98700 := by decide +kernel
  have hthree : Reaches 3 (-98765) := by
    rw [Reaches, hexponent]
    decide
  have hfour : Reaches 4 (-98765) := by
    rw [Reaches, hexponent]
    decide
  obtain ⟨hsettles, -, htruncate⟩ := truncation_exact (-98765) (by norm_num) hnum hden
  obtain ⟨hcutTo, -, -, -, -, htwice⟩ := htruncate 3 hthree
  refine ⟨by norm_num, hnum, hden, hthree, hfour, ?_, (hcutTo _).mpr hcut.symm, ?_⟩
  · rw [hsettles, hexponent]
  · rw [htwice 4 (by decide) hfour, hcut]

end ChainScript.Decimal
