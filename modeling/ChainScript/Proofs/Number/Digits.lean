import Mathlib.Algebra.Order.Floor.Semifield
import Mathlib.Data.Rat.Floor
import Mathlib.Tactic.Linarith
import Mathlib.Tactic.Ring
import ChainScript.Number.Decimal

/-! # Digits behind the point

The digits behind the point are taken one at a time, and the search for more of them stops when
nothing is left. They are the digits of the value that is shifted by as many places and cut, without
zeros at the end.

* `Decimal.lowDigits_value`, `Decimal.lowDigits_succ`: the lowest digits of a number.
* `Decimal.digitsBehind_append`: the digits taken, with the zeros that are not taken.
* `Decimal.dropTrailingZeros_digitsBehind`: the digits taken, without zeros at the end.
-/

namespace ChainScript.Decimal
set_option autoImplicit false

/-! ## Lowest digits -/

theorem lowDigits_isDigit {count n : Nat} : ∀ c ∈ lowDigits count n, c.isDigit = true := by
  induction count generalizing n with
  | zero => nofun
  | succ count ih =>
    intro c hc
    rcases List.mem_append.mp hc with hc | hc
    · exact ih c hc
    · rw [List.mem_singleton.mp hc, Nat.isDigit_digitChar]
      exact decide_eq_true (Nat.mod_lt n (by decide))

theorem length_lowDigits (count n : Nat) : (lowDigits count n).length = count := by
  induction count generalizing n with
  | zero => rfl
  | succ count ih => simp [lowDigits, ih]

theorem lowDigits_value (count n : Nat) :
    Nat.ofDigitChars 10 (lowDigits count n) 0 = n % 10 ^ count := by
  induction count generalizing n with
  | zero => simp [lowDigits, Nat.mod_one]
  | succ count ih =>
    have hlast : (Nat.digitChar (n % 10)).toNat - '0'.toNat = n % 10 := by
      rw [Nat.toNat_digitChar_of_lt_ten (Nat.mod_lt n (by decide))]
      exact Nat.add_sub_cancel_left ..
    rw [lowDigits, Nat.ofDigitChars_append, ih, Nat.ofDigitChars_cons, Nat.ofDigitChars_nil, hlast,
      pow_succ', Nat.mod_mul, Nat.add_comm]

theorem lowDigits_zero (count : Nat) : lowDigits count 0 = List.replicate count '0' := by
  induction count with
  | zero => rfl
  | succ count ih => rw [lowDigits, Nat.zero_div, ih, List.replicate_succ']; rfl

/-- The first of the lowest digits. -/
theorem lowDigits_succ (count n : Nat) :
    lowDigits (count + 1) n = Nat.digitChar (n / 10 ^ count % 10) :: lowDigits count n := by
  induction count generalizing n with
  | zero => simp [lowDigits]
  | succ count ih =>
    rw [lowDigits, ih, Nat.div_div_eq_div_mul, ← pow_succ']
    rfl

theorem lowDigits_mod (count n : Nat) : lowDigits count (n % 10 ^ count) = lowDigits count n := by
  induction count generalizing n with
  | zero => rfl
  | succ count ih =>
    have hlast : n % 10 ^ (count + 1) % 10 = n % 10 :=
      Nat.mod_mod_of_dvd n (dvd_pow_self 10 (Nat.succ_ne_zero count))
    have hfront : n % 10 ^ (count + 1) / 10 = n / 10 % 10 ^ count := by
      rw [pow_succ', Nat.mod_mul_right_div_self]
    rw [lowDigits, lowDigits, hlast, hfront, ih]

/-! ## Zeros at the end -/

theorem dropTrailingZeros_append (digits : List Char) :
    ∃ k, digits = dropTrailingZeros digits ++ List.replicate k '0' := by
  have hsplit : digits.reverse.takeWhile (· == '0') ++ digits.reverse.dropWhile (· == '0') =
      digits.reverse := List.takeWhile_append_dropWhile
  have hzeros : digits.reverse.takeWhile (· == '0') =
      List.replicate (digits.reverse.takeWhile (· == '0')).length '0' :=
    List.eq_replicate_of_mem
      fun c hc => eq_of_beq (List.all_eq_true.mp List.all_takeWhile c hc)
  refine ⟨(digits.reverse.takeWhile (· == '0')).length, ?_⟩
  calc digits = (digits.reverse.takeWhile (· == '0') ++
        digits.reverse.dropWhile (· == '0')).reverse := by rw [hsplit, List.reverse_reverse]
    _ = dropTrailingZeros digits ++ (digits.reverse.takeWhile (· == '0')).reverse :=
        List.reverse_append ..
    _ = dropTrailingZeros digits ++
          List.replicate (digits.reverse.takeWhile (· == '0')).length '0' := by
        rw [hzeros, List.reverse_replicate, List.length_replicate]

theorem dropTrailingZeros_zeros (digits : List Char) (count : Nat) :
    dropTrailingZeros (digits ++ List.replicate count '0') = dropTrailingZeros digits := by
  unfold dropTrailingZeros
  rw [List.reverse_append, List.reverse_replicate, List.dropWhile_append_of_pos]
  simp

/-! ## Digits one at a time -/

section DigitsBehind

variable {v : Rat}

theorem abs_eq (v : Rat) : v.abs = |v| := by
  unfold Rat.abs
  split
  · exact (abs_of_nonneg ‹0 ≤ v›).symm
  · exact (abs_of_neg (not_le.mp ‹¬ 0 ≤ v›)).symm

theorem truncate_of_nonneg (hv : 0 ≤ v) : truncate v = ⌊v⌋₊ := by
  rw [truncate, Int.tdiv_eq_ediv_of_nonneg (Rat.num_nonneg.mpr hv), ← Rat.floor_def',
    Int.natCast_floor_eq_floor hv]

theorem floor_shifted_div (v : Rat) (count : Nat) : ⌊v * 10 ^ count⌋₊ / 10 ^ count = ⌊v⌋₊ := by
  have hunit : (10 : Rat) ^ count ≠ 0 := by positivity
  have hdiv := Nat.floor_div_natCast (v * 10 ^ count) (10 ^ count)
  rw [Nat.cast_pow, Nat.cast_ofNat, mul_div_cancel_right₀ _ hunit] at hdiv
  exact hdiv.symm

theorem floor_shifted_mod (v : Rat) (count : Nat) :
    ⌊v * 10 ^ count⌋₊ % 10 ^ count = ⌊(v - ⌊v⌋₊) * 10 ^ count⌋₊ := by
  have hrest : (v - ⌊v⌋₊) * 10 ^ count = v * 10 ^ count - (⌊v⌋₊ * 10 ^ count : Nat) := by
    push_cast
    ring
  have hsplit := Nat.div_add_mod ⌊v * 10 ^ count⌋₊ (10 ^ count)
  rw [floor_shifted_div, Nat.mul_comm] at hsplit
  rw [hrest, Nat.floor_sub_natCast]
  omega

/-- The digits taken are the lowest ones of the shifted value, without some of the zeros at the
end. -/
theorem digitsBehind_append (count : Nat) (hv : 0 ≤ v) (hless : v < 1) :
    ∃ k, lowDigits count ⌊v * 10 ^ count⌋₊ = digitsBehind count v ++ List.replicate k '0' := by
  induction count generalizing v with
  | zero => exact ⟨0, rfl⟩
  | succ count ih =>
    by_cases hzero : v = 0
    · refine ⟨count + 1, ?_⟩
      rw [digitsBehind, if_pos hzero, hzero, zero_mul, Nat.floor_zero, lowDigits_zero,
        List.nil_append]
    · have hshifted : 0 ≤ v * 10 := by linarith
      have hdigit : ⌊v * 10⌋₊ < 10 := (Nat.floor_lt hshifted).mpr (by norm_num; linarith)
      have hrest : 0 ≤ v * 10 - ⌊v * 10⌋₊ := sub_nonneg.mpr (Nat.floor_le hshifted)
      have hrestLess : v * 10 - ⌊v * 10⌋₊ < 1 := by
        linarith [Nat.lt_floor_add_one (v * 10)]
      obtain ⟨k, hk⟩ := ih hrest hrestLess
      refine ⟨k, ?_⟩
      have hplaces : v * 10 ^ (count + 1) = v * 10 * 10 ^ count := by ring
      rw [digitsBehind, if_neg hzero, hplaces, lowDigits_succ, floor_shifted_div,
        ← lowDigits_mod count, floor_shifted_mod, hk]
      dsimp only
      rw [truncate_of_nonneg hshifted, Int.natAbs_natCast, Int.cast_natCast,
        Nat.toDigits_of_lt_base hdigit, Nat.mod_eq_of_lt hdigit]
      rfl

/-- Without zeros at the end the digits behind the point are those of the value that is shifted by
as many places and cut. -/
theorem dropTrailingZeros_digitsBehind (count : Nat) (hv : 0 ≤ v) :
    dropTrailingZeros (digitsBehind count (v - truncate v)) =
      dropTrailingZeros (lowDigits count (⌊v * 10 ^ count⌋₊ % 10 ^ count)) := by
  have hrest : 0 ≤ v - ⌊v⌋₊ := sub_nonneg.mpr (Nat.floor_le hv)
  have hless : v - ⌊v⌋₊ < 1 := by linarith [Nat.lt_floor_add_one v]
  obtain ⟨k, hk⟩ := digitsBehind_append count hrest hless
  rw [truncate_of_nonneg hv, Int.cast_natCast, floor_shifted_mod, hk, dropTrailingZeros_zeros]

end DigitsBehind

end ChainScript.Decimal
