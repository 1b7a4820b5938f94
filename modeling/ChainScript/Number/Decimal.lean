import ChainScript.Text.Case

/-! # Decimal places of rational numbers

* `shift v s`: the value times `10 ^ s`. The amount of a shift is a 32-bit quantity.
* `exponent v`: the place of the leading digit of a non-zero value. `Settles` is the search for it,
  step by step, and `settles_guess_iff` says that it ends there.
* `truncateSignificant v p`: the value cut toward zero after `p` significant figures.
* `render v`: the decimal text of a value, cut toward zero after `places` digits behind the point.
-/

namespace ChainScript.Decimal
set_option autoImplicit false

/-! ## Shifting and truncation -/

/-- The value times `10 ^ s`; a negative `s` divides. The amount of the shift is taken modulo
`2 ^ 32`. -/
def shift (v : Rat) (s : Int) : Rat :=
  let factor : Rat := (Nat.pow 10 (s.natAbs % UInt32.size) : Rat)
  if 0 ≤ s then v * factor else v / factor

/-- The integer part, toward zero. -/
def truncate (v : Rat) : Int :=
  v.num.tdiv v.den

/-! ## The place of the leading digit -/

/-- The number of decimal digits of a natural number; 0 has one. -/
def digitCount (n : Nat) : Nat :=
  (Nat.toDigits 10 n).length

/-- The place that the digit counts of numerator and denominator give. -/
def guess (v : Rat) : Int :=
  (digitCount v.num.natAbs : Int) - digitCount v.den

/-- The exponent of the leading digit of a non-zero value: the guess, which is never too low, or the
place below it. This is where the search of `Settles` ends. -/
def exponent (v : Rat) : Int :=
  if shift v.abs (-guess v) < 1 then guess v - 1 else guess v

/-- From a place the search ends at another one: it goes one step up or down until the value, shifted
there, has one digit before the point. -/
inductive Settles (v : Rat) : Int → Int → Prop
  | up {place final : Int} (low : 10 ≤ shift v.abs (-place)) (rest : Settles v (place + 1) final) :
      Settles v place final
  | down {place final : Int} (reached : ¬ 10 ≤ shift v.abs (-place))
      (high : shift v.abs (-place) < 1) (rest : Settles v (place - 1) final) : Settles v place final
  | here {place : Int} (reached : ¬ 10 ≤ shift v.abs (-place))
      (kept : ¬ shift v.abs (-place) < 1) : Settles v place place

/-- Each step of the search is forced. -/
theorem Settles.unique {v : Rat} {place final final' : Int} (h : Settles v place final)
    (h' : Settles v place final') : final = final' := by
  induction h with
  | up low _ ih =>
    cases h' with
    | up _ rest => exact ih rest
    | down reached _ _ => exact absurd low reached
    | here reached _ => exact absurd low reached
  | down reached high _ ih =>
    cases h' with
    | up low _ => exact absurd low reached
    | down _ _ rest => exact ih rest
    | here _ kept => exact absurd high kept
  | here reached kept =>
    cases h' with
    | up low _ => exact absurd low reached
    | down _ high _ => exact absurd high kept
    | here _ _ => rfl

theorem digitCount_bounds {n : Nat} (h : 0 < n) :
    Nat.pow 10 (digitCount n - 1) ≤ n ∧ n < Nat.pow 10 (digitCount n) := by
  have hpos : 0 < digitCount n := Nat.length_toDigits_pos
  have hle : ∀ k, 0 < k → (digitCount n ≤ k ↔ n < Nat.pow 10 k) :=
    fun k hk => Nat.length_toDigits_le_iff (by decide) hk
  refine ⟨?_, (hle _ hpos).mp (Nat.le_refl _)⟩
  by_cases hone : digitCount n = 1
  · rw [hone]
    exact h
  · have hnot := (not_congr (hle (digitCount n - 1) (by omega))).mp (by omega)
    omega

theorem abs_eq_div (v : Rat) : v.abs = (v.num.natAbs : Rat) / v.den := by
  have hnum : v.abs.num = v.num.natAbs := by
    unfold Rat.abs
    split
    · rename_i h
      have := Rat.num_nonneg.mpr h
      omega
    · rename_i h
      have := mt Rat.num_nonneg.mp h
      rw [Rat.neg_num]
      omega
  have hden : v.abs.den = v.den := by
    unfold Rat.abs
    split <;> rfl
  rw [← Rat.mkRat_self v.abs, hnum, hden, Rat.mkRat_eq_div]
  rfl

/-- The comparison of a shifted value, without fractions. -/
theorem shift_lt_iff {v : Rat} {place : Int} (hplace : place.natAbs < UInt32.size) (bound : Nat) :
    shift v.abs (-place) < bound ↔
      v.num.natAbs * Nat.pow 10 (-place).toNat < bound * v.den * Nat.pow 10 place.toNat := by
  have hden : (0 : Rat) < v.den := Rat.natCast_pos.mpr v.den_pos
  have hmod : (-place).natAbs % UInt32.size = place.natAbs := by
    rw [Int.natAbs_neg, Nat.mod_eq_of_lt hplace]
  unfold shift
  rw [hmod, abs_eq_div, Rat.div_def]
  simp only [Nat.pow_eq]
  by_cases hsign : 0 ≤ -place
  · have hup : (-place).toNat = place.natAbs := by omega
    have hdown : place.toNat = 0 := by omega
    rw [if_pos hsign, hup, hdown, Nat.pow_zero, Nat.mul_one, Rat.mul_assoc, Rat.mul_comm _⁻¹,
      ← Rat.mul_assoc, ← Rat.div_def, Rat.div_lt_iff hden, ← Rat.natCast_lt_natCast]
    simp
  · have hup : (-place).toNat = 0 := by omega
    have hdown : place.toNat = place.natAbs := by omega
    have hfactor : (0 : Rat) < (10 ^ place.natAbs : Nat) :=
      Rat.natCast_pos.mpr (Nat.pow_pos (by decide))
    rw [if_neg hsign, hup, hdown, Nat.pow_zero, Nat.mul_one, Rat.div_lt_iff hfactor, ← Rat.div_def,
      Rat.div_lt_iff hden, ← Rat.natCast_lt_natCast, Rat.mul_assoc,
      Rat.mul_comm _ (v.den : Rat), ← Rat.mul_assoc]
    simp

/-- The value has at most one digit before the point when it is shifted to the guess. -/
theorem guess_reached {v : Rat} (hv : v ≠ 0) (hplace : (guess v).natAbs < UInt32.size) :
    shift v.abs (-guess v) < 10 := by
  have hdenCount : 0 < digitCount v.den := Nat.length_toDigits_pos
  have hnum := (digitCount_bounds (Int.natAbs_pos.mpr (mt Rat.num_eq_zero.mp hv))).2
  have hden : 10 ^ digitCount v.den ≤ 10 * v.den := by
    calc 10 ^ digitCount v.den = 10 * 10 ^ (digitCount v.den - 1) := by
          rw [← Nat.pow_succ', Nat.succ_eq_add_one, Nat.sub_add_cancel hdenCount]
      _ ≤ 10 * v.den := Nat.mul_le_mul_left 10 (digitCount_bounds v.den_pos).1
  refine (shift_lt_iff hplace 10).mpr ?_
  unfold guess
  generalize digitCount v.num.natAbs = m at *
  generalize digitCount v.den = k at *
  have hplaces : m + (-((m : Int) - k)).toNat = k + ((m : Int) - k).toNat := by omega
  calc v.num.natAbs * 10 ^ (-((m : Int) - k)).toNat
      < 10 ^ m * 10 ^ (-((m : Int) - k)).toNat :=
        Nat.mul_lt_mul_of_pos_right hnum (Nat.pow_pos (by decide))
    _ = 10 ^ k * 10 ^ ((m : Int) - k).toNat := by rw [← Nat.pow_add, hplaces, Nat.pow_add]
    _ ≤ 10 * v.den * 10 ^ ((m : Int) - k).toNat := Nat.mul_le_mul_right _ hden

/-- One place below the guess it has at least one. -/
theorem below_guess_kept {v : Rat} (hv : v ≠ 0) (hplace : (guess v - 1).natAbs < UInt32.size) :
    ¬ shift v.abs (-(guess v - 1)) < 1 := by
  have hnumCount : 0 < digitCount v.num.natAbs := Nat.length_toDigits_pos
  have hnum := (digitCount_bounds (Int.natAbs_pos.mpr (mt Rat.num_eq_zero.mp hv))).1
  have hden := (digitCount_bounds v.den_pos).2
  refine (not_congr (shift_lt_iff hplace 1)).mpr (Nat.not_lt.mpr ?_)
  unfold guess
  generalize digitCount v.num.natAbs = m at *
  generalize digitCount v.den = k at *
  have hplaces : k + ((m : Int) - k - 1).toNat = m - 1 + (-((m : Int) - k - 1)).toNat := by omega
  calc 1 * v.den * 10 ^ ((m : Int) - k - 1).toNat
      ≤ 10 ^ k * 10 ^ ((m : Int) - k - 1).toNat :=
        Nat.mul_le_mul_right _ (Nat.one_mul _ ▸ Nat.le_of_lt hden)
    _ = 10 ^ (m - 1) * 10 ^ (-((m : Int) - k - 1)).toNat := by
        rw [← Nat.pow_add, hplaces, Nat.pow_add]
    _ ≤ v.num.natAbs * 10 ^ (-((m : Int) - k - 1)).toNat := Nat.mul_le_mul_right _ hnum

/-- A value below one has at most one digit before the point when it is shifted one place further. -/
theorem below_reached {v : Rat} {place : Int} (hplace : place.natAbs < UInt32.size)
    (hbelow : (place - 1).natAbs < UInt32.size) (h : shift v.abs (-place) < 1) :
    shift v.abs (-(place - 1)) < 10 := by
  have hless := (shift_lt_iff hplace 1).mp h
  refine (shift_lt_iff hbelow 10).mpr ?_
  rw [Nat.one_mul, Nat.pow_eq, Nat.pow_eq] at hless
  rw [Nat.pow_eq, Nat.pow_eq]
  by_cases hsign : 0 < place
  · have hup : place.toNat = (place - 1).toNat + 1 := by omega
    have hdown : (-(place - 1)).toNat = (-place).toNat := by omega
    rw [hup, Nat.pow_succ', ← Nat.mul_assoc, Nat.mul_comm v.den] at hless
    rwa [hdown]
  · have hup : (place - 1).toNat = place.toNat := by omega
    have hdown : (-(place - 1)).toNat = (-place).toNat + 1 := by omega
    rw [hup, hdown, Nat.pow_succ', Nat.mul_left_comm, Nat.mul_assoc 10]
    exact Nat.mul_lt_mul_of_pos_left hless (by decide)

/-- The search that starts from the guess ends at the exponent, as long as both are within the reach
of a shift. -/
theorem settles_guess_iff {v : Rat} (hv : v ≠ 0) (hguess : (guess v).natAbs < UInt32.size)
    (hexponent : (exponent v).natAbs < UInt32.size) (final : Int) :
    Settles v (guess v) final ↔ final = exponent v := by
  have hreached := Rat.not_le.mpr (guess_reached hv hguess)
  have hends : Settles v (guess v) (exponent v) := by
    unfold exponent at hexponent ⊢
    by_cases hhigh : shift v.abs (-guess v) < 1
    · rw [if_pos hhigh] at hexponent ⊢
      have hnext := below_reached hguess hexponent hhigh
      exact .down hreached hhigh (.here (Rat.not_le.mpr hnext) (below_guess_kept hv hexponent))
    · rw [if_neg hhigh]
      exact .here hreached hhigh
  constructor
  · exact fun hfinal => hfinal.unique hends
  · rintro rfl
    exact hends

/-! ## Significant figures -/

/-- The value cut toward zero after `precision` significant figures, at least one. -/
def truncateSignificant (v : Rat) (precision : Nat) : Rat :=
  if v = 0 then v
  else
    let s : Int := (max precision 1 : Nat) - 1 - exponent v
    shift (truncate (shift v s) : Rat) (-s)

/-! ## Text -/

/-- Digits behind the point in the text of a value. -/
def places : Nat := 18

/-- The lowest `count` decimal digits of a number, leading zeros included. -/
def lowDigits : Nat → Nat → List Char
  | 0, _ => []
  | count + 1, n => lowDigits count (n / 10) ++ [Nat.digitChar (n % 10)]

/-- Digits without the zeros at their end. -/
def dropTrailingZeros (digits : List Char) : List Char :=
  (digits.reverse.dropWhile (· == '0')).reverse

/-- The digits behind the point of a value below one, taken one at a time until nothing is left of it
or there are `count` of them. -/
def digitsBehind : Nat → Rat → List Char
  | 0, _ => []
  | count + 1, rest =>
    if rest = 0 then []
    else
      let shifted := rest * 10
      Nat.toDigits 10 (truncate shifted).natAbs ++ digitsBehind count (shifted - truncate shifted)

/-- The decimal text of a value, cut toward zero after `places` digits behind the point, with no
zeros at the end of these, and with no sign for what is cut to zero. -/
def renderChars (v : Rat) : List Char :=
  let whole := truncate v.abs
  let fraction := dropTrailingZeros (digitsBehind places (v.abs - whole))
  let digits := Nat.toDigits 10 whole.natAbs
  let unsigned := if fraction.isEmpty then digits else digits ++ '.' :: fraction
  if v < 0 ∧ unsigned ≠ ['0'] then '-' :: unsigned else unsigned

def render (v : Rat) : String :=
  String.ofList (renderChars v)

end ChainScript.Decimal
