import Mathlib.Algebra.Order.Field.Power
import Mathlib.Data.Int.Log
import Mathlib.Data.Rat.Floor
import Mathlib.Tactic.FieldSimp
import Mathlib.Tactic.Linarith
import Mathlib.Tactic.Ring
import ChainScript.Proofs.Number.Digits
import ChainScript.Proofs.Number.Grammar

/-! # Significant figures

The digit counts of a reduced fraction give the place of its leading digit up to one, and a comparison
settles it. Cut after so many figures a value is its sign, its figures and a power of ten, and keeps
the place of its leading digit: so two values with one cut have one sign, one place and the same
figures. A shift of `2 ^ 32` places or more is reduced modulo `2 ^ 32` and leaves nothing but zero,
so all values whose last figure is that far behind the point agree.

* `Decimal.exponent_eq`: the place of the leading digit.
* `Decimal.truncateSignificant_eq`, `Decimal.truncateSignificant_lost`: the cut value.
* `Precise.agrees_exact`: when a precise number agrees with a number.
-/

namespace ChainScript
set_option autoImplicit false

namespace Decimal

/-! ## The place of the leading digit -/

/-- The exponent of the leading digit: the greatest `e` with `10 ^ e ≤ |v|`. -/
def leading (v : Rat) : Int := Int.log 10 |v|

section Leading

variable {v : Rat}

theorem leading_le (hv : v ≠ 0) : (10 : Rat) ^ leading v ≤ |v| := by
  have h := Int.zpow_log_le_self (b := 10) (by decide) (abs_pos.mpr hv)
  exact_mod_cast h

theorem lt_leading (v : Rat) : |v| < (10 : Rat) ^ (leading v + 1) := by
  have h := Int.lt_zpow_succ_log_self (b := 10) (by decide) |v|
  exact_mod_cast h

theorem leading_eq {e : Int} (hlow : (10 : Rat) ^ e ≤ |v|) (hhigh : |v| < (10 : Rat) ^ (e + 1)) :
    leading v = e := by
  have hpos : 0 < |v| := lt_of_lt_of_le (by positivity) hlow
  have hge : e ≤ leading v :=
    (Int.zpow_le_iff_le_log (b := 10) (by decide) hpos).mp (by exact_mod_cast hlow)
  have hlt : leading v < e + 1 :=
    (Int.lt_zpow_iff_log_lt (b := 10) (by decide) hpos).mp (by exact_mod_cast hhigh)
  omega

/-- The digit counts of numerator and denominator give the place of the leading digit up to one. -/
theorem guess_bounds (hv : v ≠ 0) :
    (10 : Rat) ^ (guess v - 1) ≤ |v| ∧ |v| < (10 : Rat) ^ (guess v + 1) := by
  have hten : (10 : Rat) ≠ 0 := by norm_num
  have habs : |v| = (v.num.natAbs : Rat) / v.den := by rw [← abs_eq, abs_eq_div]
  have hnum : 0 < v.num.natAbs := Int.natAbs_pos.mpr (Rat.num_ne_zero.mpr hv)
  have hden : (0 : Rat) < v.den := by exact_mod_cast v.den_pos
  obtain ⟨hnumLow, hnumHigh⟩ := digitCount_bounds hnum
  obtain ⟨hdenLow, hdenHigh⟩ := digitCount_bounds v.den_pos
  have hnumCount : 0 < digitCount v.num.natAbs := Nat.length_toDigits_pos
  have hdenCount : 0 < digitCount v.den := Nat.length_toDigits_pos
  unfold guess
  generalize digitCount v.num.natAbs = m at *
  generalize digitCount v.den = k at *
  have hnumLow : (10 : Rat) ^ (m - 1) ≤ v.num.natAbs := by exact_mod_cast hnumLow
  have hnumHigh : (v.num.natAbs : Rat) < 10 ^ m := by exact_mod_cast hnumHigh
  have hdenLow : (10 : Rat) ^ (k - 1) ≤ v.den := by exact_mod_cast hdenLow
  have hdenHigh : (v.den : Rat) < 10 ^ k := by exact_mod_cast hdenHigh
  rw [habs]
  constructor
  · rw [le_div_iff₀ hden]
    calc (10 : Rat) ^ ((m : Int) - k - 1) * v.den
        ≤ 10 ^ ((m : Int) - k - 1) * 10 ^ k := by gcongr
      _ = 10 ^ (m - 1) := by
          rw [← zpow_natCast, ← zpow_natCast, ← zpow_add₀ hten]
          congr 1
          omega
      _ ≤ v.num.natAbs := hnumLow
  · rw [div_lt_iff₀ hden]
    calc (v.num.natAbs : Rat) < 10 ^ m := hnumHigh
      _ = 10 ^ ((m : Int) - k + 1) * 10 ^ (k - 1) := by
          rw [← zpow_natCast, ← zpow_natCast, ← zpow_add₀ hten]
          congr 1
          omega
      _ ≤ 10 ^ ((m : Int) - k + 1) * v.den := by gcongr

theorem guess_near (hv : v ≠ 0) : guess v = leading v ∨ guess v = leading v + 1 := by
  have hten : (1 : Rat) < 10 := by norm_num
  obtain ⟨hlow, hhigh⟩ := guess_bounds hv
  have hge : (10 : Rat) ^ (guess v - 1) < 10 ^ (leading v + 1) := hlow.trans_lt (lt_leading v)
  have hle : (10 : Rat) ^ leading v < 10 ^ (guess v + 1) := (leading_le hv).trans_lt hhigh
  rw [zpow_lt_zpow_iff_right₀ hten] at hge hle
  omega

/-- The leading digit stands less than `2 ^ 32 - 1` places from the point. -/
def Ordinary (v : Rat) : Prop := (leading v).natAbs + 1 < UInt32.size

theorem exponent_eq (hv : v ≠ 0) (h : Ordinary v) : exponent v = leading v := by
  obtain ⟨hlow, hhigh⟩ := guess_bounds hv
  have hnear := guess_near hv
  have hshift : (-guess v).natAbs < UInt32.size := by
    unfold Ordinary at h
    omega
  have hless : shift v.abs (-guess v) < 1 ↔ |v| < 10 ^ guess v := by
    rw [shift_eq_zpow _ hshift, abs_eq, zpow_neg, ← div_eq_mul_inv,
      div_lt_one (zpow_pos (by norm_num) (guess v))]
  unfold exponent
  by_cases hsmall : |v| < 10 ^ guess v
  · rw [if_pos (hless.mpr hsmall)]
    refine (leading_eq hlow ?_).symm
    rwa [sub_add_cancel]
  · rw [if_neg (hless.not.mpr hsmall)]
    exact (leading_eq (not_lt.mp hsmall) hhigh).symm

end Leading

/-! ## Cutting a value -/

/-- Plus or minus one. -/
def unit (v : Rat) : Int := if v < 0 then -1 else 1

theorem unit_mul_pos {v : Rat} {c : Rat} (hc : 0 < c) : unit (v * c) = unit v := by
  unfold unit
  simp only [Rat.mul_neg_iff_of_pos_right hc]

theorem unit_mul_inj {a b : Rat} {m n : Int} (hm : 0 < m) (hn : 0 < n) :
    unit a * m = unit b * n ↔ (a < 0 ↔ b < 0) ∧ m = n := by
  unfold unit
  by_cases ha : a < 0
  · by_cases hb : b < 0
    · simp [ha, hb]
    · simp only [ha, hb, if_true, if_false, iff_false, not_true, false_and, iff_false]
      omega
  · by_cases hb : b < 0
    · simp only [ha, hb, if_true, if_false, iff_true, false_and, iff_false]
      omega
    · simp [ha, hb]

theorem truncate_eq (v : Rat) : truncate v = unit v * ⌊|v|⌋ := by
  have hnonneg : ∀ u : Rat, 0 ≤ u → truncate u = ⌊u⌋ := by
    intro u hu
    rw [truncate_of_nonneg hu, Int.natCast_floor_eq_floor hu]
  have hneg : truncate (-v) = -truncate v := by
    rw [truncate, truncate, Rat.num_neg_eq_neg_num, Rat.neg_den, Int.neg_tdiv]
  unfold unit
  split
  · rename_i hv
    rw [abs_of_neg hv, ← hnonneg (-v) (by linarith), hneg]
    ring
  · rename_i hv
    rw [abs_of_nonneg (not_lt.mp hv), ← hnonneg v (not_lt.mp hv), one_mul]

/-- The significant figures of a value, as an integer. -/
def figures (precision : Nat) (v : Rat) : Int :=
  ⌊|v| * 10 ^ ((precision : Int) - 1 - leading v)⌋

section Cut

variable {v : Rat} {p : Nat}

theorem figures_bounds (hv : v ≠ 0) (hp : 0 < p) :
    (10 : Rat) ^ ((p : Int) - 1) ≤ figures p v ∧ (figures p v : Rat) < 10 ^ (p : Int) := by
  have hten : (10 : Rat) ≠ 0 := by norm_num
  have hpos : (0 : Rat) < 10 ^ ((p : Int) - 1 - leading v) := zpow_pos (by norm_num) _
  have hlow : (10 : Rat) ^ ((p : Int) - 1) ≤ |v| * 10 ^ ((p : Int) - 1 - leading v) := by
    calc (10 : Rat) ^ ((p : Int) - 1)
        = 10 ^ leading v * 10 ^ ((p : Int) - 1 - leading v) := by
          rw [← zpow_add₀ hten]
          congr 1
          omega
      _ ≤ |v| * 10 ^ ((p : Int) - 1 - leading v) := by
          gcongr
          exact leading_le hv
  have hhigh : |v| * 10 ^ ((p : Int) - 1 - leading v) < (10 : Rat) ^ (p : Int) := by
    calc |v| * 10 ^ ((p : Int) - 1 - leading v)
        < 10 ^ (leading v + 1) * 10 ^ ((p : Int) - 1 - leading v) := by
          gcongr
          exact lt_leading v
      _ = 10 ^ (p : Int) := by
          rw [← zpow_add₀ hten]
          congr 1
          omega
  constructor
  · have hwhole : (10 : Rat) ^ ((p : Int) - 1) = ((10 ^ (p - 1) : Int) : Rat) := by
      rw [Int.cast_pow, Int.cast_ofNat, ← zpow_natCast, Nat.cast_pred hp]
    rw [hwhole] at hlow ⊢
    exact_mod_cast Int.le_floor.mpr hlow
  · exact (Int.floor_le _).trans_lt hhigh

theorem truncateSignificant_eq (hv : v ≠ 0) (h : Ordinary v) (hp : 0 < p)
    (hfits : (p : Int) - 1 - leading v < UInt32.size) :
    truncateSignificant v p = unit v * figures p v * 10 ^ (leading v + 1 - p) := by
  have hshift : ((p : Int) - 1 - leading v).natAbs < UInt32.size := by
    unfold Ordinary at h
    omega
  have hback : (-((p : Int) - 1 - leading v)).natAbs < UInt32.size := by
    rwa [Int.natAbs_neg]
  have hpos : (0 : Rat) < 10 ^ ((p : Int) - 1 - leading v) := zpow_pos (by norm_num) _
  rw [truncateSignificant, if_neg hv, exponent_eq hv h, Nat.max_eq_left hp]
  dsimp only
  rw [shift_eq_zpow _ hback, shift_eq_zpow _ hshift, truncate_eq, unit_mul_pos hpos, abs_mul,
    abs_of_pos hpos, ← figures, Int.cast_mul]
  congr 2
  ring

theorem shift_zero (s : Int) : shift 0 s = 0 := by
  unfold shift
  split <;> simp

/-- Figures further behind the point than a shift reaches are lost altogether: the shift falls short
by a multiple of `2 ^ 32` places. -/
theorem truncateSignificant_lost (hv : v ≠ 0) (h : Ordinary v) (hp : 0 < p) (hsize : p < UInt32.size)
    (hlost : (UInt32.size : Int) ≤ p - 1 - leading v) : truncateSignificant v p = 0 := by
  rw [truncateSignificant, if_neg hv, exponent_eq hv h, Nat.max_eq_left hp]
  dsimp only
  generalize hs : (p : Int) - 1 - leading v = s at hlost
  obtain ⟨k, hk, hshift⟩ : ∃ k : Nat, k + UInt32.size ≤ s ∧ shift v s = v * 10 ^ k := by
    refine ⟨s.natAbs % UInt32.size, ?_, ?_⟩
    · have hquotient : 0 < s.natAbs / UInt32.size := Nat.div_pos (by omega) (by decide)
      have hmod := Nat.div_add_mod s.natAbs UInt32.size
      have hmultiple := Nat.le_mul_of_pos_right UInt32.size hquotient
      omega
    · rw [shift, if_pos (by omega)]
      norm_cast
  have hsmall : |v * 10 ^ k| < 1 := by
    have hten : (10 : Rat) ≠ 0 := by norm_num
    calc |v * 10 ^ k| = |v| * 10 ^ (k : Int) := by
          rw [abs_mul, abs_of_pos (by positivity : (0 : Rat) < 10 ^ k), zpow_natCast]
      _ < 10 ^ (leading v + 1) * 10 ^ (k : Int) := by
          gcongr
          exact lt_leading v
      _ = 10 ^ (leading v + 1 + k) := (zpow_add₀ hten _ _).symm
      _ ≤ 1 := zpow_le_one_of_nonpos₀ (by norm_num) (by omega)
  have hzero : truncate (shift v s) = 0 := by
    rw [hshift, truncate_eq, Int.floor_eq_zero_iff.mpr ⟨abs_nonneg _, hsmall⟩, mul_zero]
  rw [hzero, Int.cast_zero, shift_zero]

theorem figures_pos (hv : v ≠ 0) (hp : 0 < p) : (0 : Rat) < figures p v :=
  lt_of_lt_of_le (by positivity) (figures_bounds hv hp).1

theorem abs_truncateSignificant (hv : v ≠ 0) (h : Ordinary v) (hp : 0 < p)
    (hfits : (p : Int) - 1 - leading v < UInt32.size) :
    |truncateSignificant v p| = figures p v * 10 ^ (leading v + 1 - p) := by
  have hunit : |(unit v : Rat)| = 1 := by
    unfold unit
    split <;> simp
  rw [truncateSignificant_eq hv h hp hfits, abs_mul, abs_mul, hunit, one_mul,
    abs_of_pos (figures_pos hv hp), abs_of_pos (by positivity)]

theorem leading_truncateSignificant (hv : v ≠ 0) (h : Ordinary v) (hp : 0 < p)
    (hfits : (p : Int) - 1 - leading v < UInt32.size) :
    leading (truncateSignificant v p) = leading v := by
  have hten : (10 : Rat) ≠ 0 := by norm_num
  obtain ⟨hlow, hhigh⟩ := figures_bounds hv hp
  have habs := abs_truncateSignificant hv h hp hfits
  apply leading_eq
  · calc (10 : Rat) ^ leading v = 10 ^ ((p : Int) - 1) * 10 ^ (leading v + 1 - p) := by
          rw [← zpow_add₀ hten]
          congr 1
          omega
      _ ≤ |truncateSignificant v p| := by
          rw [habs]
          gcongr
  · calc |truncateSignificant v p| < 10 ^ (p : Int) * 10 ^ (leading v + 1 - p) := by
          rw [habs]
          gcongr
      _ = 10 ^ (leading v + 1) := by
          rw [← zpow_add₀ hten]
          congr 1
          omega

theorem truncateSignificant_ne_zero (hv : v ≠ 0) (h : Ordinary v) (hp : 0 < p)
    (hfits : (p : Int) - 1 - leading v < UInt32.size) : truncateSignificant v p ≠ 0 := by
  have hfigures : (figures p v : Rat) ≠ 0 := (figures_pos hv hp).ne'
  have hunit : (unit v : Rat) ≠ 0 := by
    unfold unit
    split <;> simp
  rw [truncateSignificant_eq hv h hp hfits]
  exact mul_ne_zero (mul_ne_zero hunit hfigures) (by positivity)

end Cut

/-! ## Agreement -/

/-- Both values are zero; or they have one sign, their leading digits at one place, and the same
figures from there on. -/
def SameFigures (precision : Nat) (a b : Rat) : Prop :=
  (a = 0 ∧ b = 0) ∨
    (a ≠ 0 ∧ b ≠ 0 ∧ (a < 0 ↔ b < 0) ∧ leading a = leading b ∧
      ⌊|a| * 10 ^ ((precision : Int) - 1 - leading a)⌋ =
        ⌊|b| * 10 ^ ((precision : Int) - 1 - leading a)⌋)

/-- A value is zero, or its last figure is `2 ^ 32` places or more behind the point. -/
def Lost (precision : Nat) (v : Rat) : Prop :=
  v = 0 ∨ (UInt32.size : Int) ≤ precision - 1 - leading v

section Agreement

variable {a b v : Rat} {p : Nat}

theorem truncateSignificant_eq_zero_iff (h : Ordinary v) (hp : 0 < p) (hsize : p < UInt32.size) :
    truncateSignificant v p = 0 ↔ Lost p v := by
  by_cases hv : v = 0
  · rw [truncateSignificant, if_pos hv]
    exact ⟨.inl, fun _ => hv⟩
  · constructor
    · intro hzero
      by_contra hlost
      have hfits : (p : Int) - 1 - leading v < UInt32.size := by
        by_contra hfar
        exact hlost (.inr (not_lt.mp hfar))
      exact truncateSignificant_ne_zero hv h hp hfits hzero
    · rintro (hzero | hlost)
      · exact absurd hzero hv
      · exact truncateSignificant_lost hv h hp hsize hlost

/-- Cut values that are not lost are equal only when all that makes them up is: with the leading
digits at one place, only sign and figures are left to compare. -/
theorem truncateSignificant_inj (ha : Ordinary a) (hb : Ordinary b) (hp : 0 < p)
    (halost : ¬ Lost p a) (hblost : ¬ Lost p b) :
    truncateSignificant a p = truncateSignificant b p ↔ SameFigures p a b := by
  obtain ⟨hazero, hafits⟩ := not_or.mp halost
  obtain ⟨hbzero, hbfits⟩ := not_or.mp hblost
  have hafits := not_le.mp hafits
  have hbfits := not_le.mp hbfits
  have hfigures : ∀ {v : Rat}, v ≠ 0 → 0 < figures p v := by
    intro v hv
    exact_mod_cast figures_pos hv hp
  have hone : leading a = leading b →
      (truncateSignificant a p = truncateSignificant b p ↔
        (a < 0 ↔ b < 0) ∧ figures p a = figures p b) := by
    intro hleading
    rw [truncateSignificant_eq hazero ha hp hafits, truncateSignificant_eq hbzero hb hp hbfits,
      hleading, mul_left_inj' (by positivity), ← unit_mul_inj (hfigures hazero) (hfigures hbzero)]
    exact_mod_cast Iff.rfl
  constructor
  · intro heq
    have hleading : leading a = leading b := by
      rw [← leading_truncateSignificant hazero ha hp hafits, heq,
        leading_truncateSignificant hbzero hb hp hbfits]
    obtain ⟨hsign, hsame⟩ := (hone hleading).mp heq
    rw [figures, figures, ← hleading] at hsame
    exact .inr ⟨hazero, hbzero, hsign, hleading, hsame⟩
  · rintro (⟨hzero, -⟩ | ⟨-, -, hsign, hleading, hsame⟩)
    · exact absurd hzero hazero
    · refine (hone hleading).mpr ⟨hsign, ?_⟩
      rw [figures, figures, ← hleading]
      exact hsame

theorem SameFigures.lost_iff (h : SameFigures p a b) : Lost p a ↔ Lost p b := by
  rcases h with ⟨rfl, rfl⟩ | ⟨hazero, hbzero, -, hleading, -⟩
  · rfl
  · simp only [Lost, hazero, hbzero, hleading]

end Agreement

end Decimal

/-- A precise number agrees with a number exactly when both have the same significant figures, or when
the figures of both are out of the reach of a shift. -/
theorem Precise.agrees_exact (a b : Number) (p : Nat) (hp : 0 < p) (hsize : p < UInt32.size)
    (ha : Decimal.Ordinary a.value) (hb : Decimal.Ordinary b.value) :
    (⟨a, p⟩ : Precise).agrees b = true ↔
      Decimal.SameFigures p a.value b.value ∨
        Decimal.Lost p a.value ∧ Decimal.Lost p b.value := by
  have hazero := Decimal.truncateSignificant_eq_zero_iff ha hp hsize
  have hbzero := Decimal.truncateSignificant_eq_zero_iff hb hp hsize
  rw [agrees, beq_iff_eq]
  by_cases halost : Decimal.Lost p a.value
  · rw [hazero.mpr halost, eq_comm, hbzero]
    refine ⟨fun hblost => .inr ⟨halost, hblost⟩, ?_⟩
    rintro (hsame | ⟨-, hblost⟩)
    · exact hsame.lost_iff.mp halost
    · exact hblost
  · by_cases hblost : Decimal.Lost p b.value
    · rw [hbzero.mpr hblost, hazero]
      refine ⟨fun h => absurd h halost, ?_⟩
      rintro (hsame | ⟨h, -⟩)
      · exact hsame.lost_iff.mpr hblost
      · exact h
    · rw [Decimal.truncateSignificant_inj ha hb hp halost hblost]
      exact ⟨.inl, fun h => h.resolve_right fun hboth => halost hboth.1⟩

theorem Precise.agrees_exact_negative :
    Decimal.Ordinary (-98765) ∧ Decimal.Ordinary (-98799) ∧
      (⟨⟨-98765, .plain⟩, 3⟩ : Precise).agrees ⟨-98799, .plain⟩ = true ∧
      Decimal.SameFigures 3 (-98765) (-98799) := by
  have hleading : Decimal.leading (-98765) = 4 := Decimal.leading_eq (by norm_num) (by norm_num)
  have hleading' : Decimal.leading (-98799) = 4 := Decimal.leading_eq (by norm_num) (by norm_num)
  have ha : Decimal.Ordinary (-98765) := by
    rw [Decimal.Ordinary, hleading]
    decide
  have hb : Decimal.Ordinary (-98799) := by
    rw [Decimal.Ordinary, hleading']
    decide
  have hagrees : (⟨⟨-98765, .plain⟩, 3⟩ : Precise).agrees ⟨-98799, .plain⟩ = true := by
    decide +kernel
  have hnear : ¬ Decimal.Lost 3 (-98765) := by
    rw [Decimal.Lost, hleading]
    decide
  refine ⟨ha, hb, hagrees, ?_⟩
  have hexact := agrees_exact ⟨-98765, .plain⟩ ⟨-98799, .plain⟩ 3 (by decide) (by decide) ha hb
  exact (hexact.mp hagrees).resolve_right fun hboth => hnear hboth.1

/-- One hundredth and one fiftieth differ in their first figure, and yet agree to `2 ^ 32 - 1`
figures. -/
theorem Precise.agrees_beyond_reach :
    (⟨⟨1 / 100, .plain⟩, 4294967295⟩ : Precise).agrees ⟨1 / 50, .plain⟩ = true ∧
      ¬ Decimal.SameFigures 4294967295 (1 / 100) (1 / 50) := by
  have hleading : Decimal.leading (1 / 100) = -2 :=
    Decimal.leading_eq (by norm_num) (by norm_num)
  have hfloor : ∀ k : Nat, ⌊|(1 / 100 : Rat)| * 10 ^ ((k + 1 : Nat) + 1 : Int)⌋ ≠
      ⌊|(1 / 50 : Rat)| * 10 ^ ((k + 1 : Nat) + 1 : Int)⌋ := by
    intro k
    have hfirst : |(1 / 100 : Rat)| * 10 ^ ((k + 1 : Nat) + 1 : Int) = ((10 ^ k : Int) : Rat) := by
      rw [abs_of_pos (by norm_num)]
      push_cast
      rw [zpow_add₀ (by norm_num), zpow_add₀ (by norm_num), zpow_natCast]
      ring
    have hsecond : |(1 / 50 : Rat)| * 10 ^ ((k + 1 : Nat) + 1 : Int) =
        ((2 * 10 ^ k : Int) : Rat) := by
      rw [abs_of_pos (by norm_num)]
      push_cast
      rw [zpow_add₀ (by norm_num), zpow_add₀ (by norm_num), zpow_natCast]
      ring
    rw [hfirst, hsecond, Int.floor_intCast, Int.floor_intCast]
    have hpos : (0 : Int) < 10 ^ k := by positivity
    omega
  refine ⟨by decide +kernel, ?_⟩
  rintro (⟨hzero, -⟩ | ⟨-, -, -, -, hsame⟩)
  · norm_num at hzero
  · rw [hleading] at hsame
    exact hfloor 4294967294 hsame

end ChainScript
