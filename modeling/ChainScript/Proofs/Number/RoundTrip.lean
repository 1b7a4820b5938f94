import Mathlib.Algebra.Order.Floor.Semifield
import Mathlib.Data.Rat.Floor
import Mathlib.Tactic.FieldSimp
import Mathlib.Tactic.Ring
import ChainScript.Proofs.Expr.Reading
import ChainScript.Proofs.Number.Digits
import ChainScript.Proofs.Number.Grammar

/-! # The text of a number read back

The text of a value is a form of the grammar: whole digits, and behind a point at most 18 digits
without a zero at their end. So it is read back as the value cut toward zero after 18 places, and two
values have one text exactly when they are cut to the same value. A scaled number is shown as what was
scaled, so its text under the reading of its scale is the scaled cut.

* `Decimal.cut`: a value cut toward zero after 18 places.
* `Decimal.shown`: the form of a text, `Decimal.shown_value`: what it stands for.
* `Decimal.render_cut`: a value and its cut have one text.
* `Number.text_readBack`: texts of numbers read back.
-/

namespace ChainScript
set_option autoImplicit false

namespace Decimal

/-! ## The value that is shown -/

/-- The value cut toward zero after 18 places behind the point. -/
def cut (v : Rat) : Rat :=
  (if v < 0 then -1 else 1) * (⌊|v| * 10 ^ 18⌋₊ : Rat) / 10 ^ 18

/-- The digits that are shown, as an integer. -/
def scaled (v : Rat) : Nat := ⌊|v| * 10 ^ 18⌋₊

/-- The digits behind the point. -/
def fractionDigits (v : Rat) : List Char :=
  dropTrailingZeros (lowDigits places (scaled v % 10 ^ places))

theorem fractionDigits_append (v : Rat) :
    ∃ k, lowDigits places (scaled v % 10 ^ places) =
      fractionDigits v ++ List.replicate k '0' :=
  dropTrailingZeros_append _

theorem fractionDigits_isDigit (v : Rat) : ∀ c ∈ fractionDigits v, c.isDigit = true := by
  obtain ⟨k, hk⟩ := fractionDigits_append v
  intro c hc
  exact lowDigits_isDigit c (hk ▸ List.mem_append_left _ hc)

/-- The digits behind the point, if a point is shown. -/
def fraction? (v : Rat) : Option (List Char) :=
  if (fractionDigits v).isEmpty then none else some (fractionDigits v)

theorem fraction?_getD (v : Rat) : (fraction? v).getD [] = fractionDigits v := by
  by_cases hempty : fractionDigits v = []
  · rw [fraction?, hempty]
    rfl
  · rw [fraction?, if_neg (by simpa using hempty), Option.getD_some]

/-- The form of the text of a value. -/
def shown (v : Rat) : Number.Form where
  sign := if v < 0 ∧ scaled v ≠ 0 then .minus else .none
  whole := Nat.toDigits 10 (scaled v / 10 ^ places)
  fraction := fraction? v
  scale := none
  ne_nil := by simp [Nat.toDigits_ne_nil]
  isDigit := by
    intro c hc
    rw [fraction?_getD] at hc
    rcases List.mem_append.mp hc with hc | hc
    · exact Nat.isDigit_of_mem_toDigits (by decide) (by decide) hc
    · exact fractionDigits_isDigit v c hc

@[simp] theorem shown_sign (v : Rat) :
    (shown v).sign = if v < 0 ∧ scaled v ≠ 0 then .minus else .none := by rw [shown]

@[simp] theorem shown_whole (v : Rat) :
    (shown v).whole = Nat.toDigits 10 (scaled v / 10 ^ places) := by rw [shown]

@[simp] theorem shown_fraction (v : Rat) : (shown v).fraction = fraction? v := by rw [shown]

@[simp] theorem shown_scale (v : Rat) : (shown v).scale = none := by rw [shown]

theorem pointed_chars (whole behind : List Char) :
    whole ++ (if behind.isEmpty then none else some behind).elim [] ('.' :: ·) =
      if behind.isEmpty then whole else whole ++ '.' :: behind := by
  cases behind <;> simp

/-- The text without a sign is that of zero only where the value is cut to zero. -/
theorem unsigned_eq_zero_iff (v : Rat) :
    (if (fractionDigits v).isEmpty then Nat.toDigits 10 (scaled v / 10 ^ places)
      else Nat.toDigits 10 (scaled v / 10 ^ places) ++ '.' :: fractionDigits v) = ['0'] ↔
      scaled v = 0 := by
  obtain ⟨k, hk⟩ := fractionDigits_append v
  by_cases hempty : fractionDigits v = []
  · have hmod : scaled v % 10 ^ places = 0 := by
      have hlow := lowDigits_value places (scaled v % 10 ^ places)
      rw [hk, hempty, List.nil_append, Nat.ofDigitChars_replicate_zero, Nat.mul_zero,
        Nat.mod_mod] at hlow
      exact hlow.symm
    have hsplit := Nat.div_add_mod (scaled v) (10 ^ places)
    rw [hmod, Nat.add_zero] at hsplit
    rw [hempty, List.isEmpty_nil, if_pos rfl]
    constructor
    · intro hdigits
      have hwhole := Nat.ofDigitChars_ten_toDigits (n := scaled v / 10 ^ places)
      rw [hdigits] at hwhole
      rw [← hsplit, ← hwhole]
      rfl
    · intro hzero
      rw [hzero, Nat.zero_div, Nat.toDigits_zero]
  · have hne : scaled v ≠ 0 := by
      intro hzero
      apply hempty
      rw [fractionDigits, hzero, Nat.zero_mod, lowDigits_zero]
      exact dropTrailingZeros_zeros [] places
    rw [if_neg (by simpa using hempty)]
    refine iff_of_false (fun hdigits => ?_) hne
    have hlength := congrArg List.length hdigits
    have hpos := Nat.length_toDigits_pos (b := 10) (n := scaled v / 10 ^ places)
    rw [List.length_append, List.length_cons, List.length_singleton] at hlength
    omega

theorem renderChars_eq (v : Rat) : renderChars v = (shown v).chars := by
  have hwhole : (truncate |v|).natAbs = scaled v / 10 ^ places := by
    rw [truncate_of_nonneg (abs_nonneg v), Int.natAbs_natCast, scaled]
    exact (floor_shifted_div |v| places).symm
  have hfraction : dropTrailingZeros (digitsBehind places (|v| - truncate |v|)) =
      fractionDigits v := by
    rw [dropTrailingZeros_digitsBehind places (abs_nonneg v), fractionDigits, scaled]
    rfl
  unfold renderChars
  dsimp only
  rw [abs_eq, hwhole, hfraction, Number.Form.chars, Number.Form.mantissa, Number.Form.scaleChars,
    shown_sign, shown_whole, shown_fraction, shown_scale, fraction?, pointed_chars,
    Option.elim_none, List.append_nil]
  simp only [ne_eq, unsigned_eq_zero_iff]
  by_cases hminus : v < 0 ∧ scaled v ≠ 0
  · rw [if_pos hminus, if_pos hminus, Number.Sign.chars, List.singleton_append]
  · rw [if_neg hminus, if_neg hminus, Number.Sign.chars, List.nil_append]

/-- All digits of the text, with the zeros dropped behind them, are those of the cut value. -/
theorem shown_digits (v : Rat) :
    ∃ k, (fractionDigits v).length + k = places ∧
      Nat.ofDigitChars 10 (shown v).digits 0 * 10 ^ k = scaled v := by
  obtain ⟨k, hk⟩ := fractionDigits_append v
  have hlength : (fractionDigits v).length + k = places := by
    have hcount := length_lowDigits places (scaled v % 10 ^ places)
    rw [hk, List.length_append, List.length_replicate] at hcount
    exact hcount
  have hvalue : Nat.ofDigitChars 10 (fractionDigits v) 0 * 10 ^ k = scaled v % 10 ^ places := by
    have hlow := lowDigits_value places (scaled v % 10 ^ places)
    rw [hk, Nat.ofDigitChars_append, Nat.ofDigitChars_replicate_zero, Nat.mod_mod] at hlow
    rw [Nat.mul_comm, hlow]
  refine ⟨k, hlength, ?_⟩
  rw [Number.Form.digits, shown_whole, shown_fraction, fraction?_getD, Nat.ofDigitChars_append,
    Nat.ofDigitChars_eq_ofDigitChars_zero, Nat.add_mul, hvalue, Nat.ofDigitChars_ten_toDigits,
    Nat.mul_right_comm, ← pow_add, hlength, Nat.div_add_mod]

@[simp] theorem shown_exponent (v : Rat) : (shown v).exponent = 0 := by
  rw [Number.Form.exponent, shown_scale, Option.elim_none]

theorem shown_place (v : Rat) : (shown v).place = -((fractionDigits v).length : Int) := by
  rw [Number.Form.place, shown_exponent, shown_fraction, fraction?_getD, Int.zero_sub]

theorem shown_inRange (v : Rat) : (shown v).InRange := by
  obtain ⟨k, hlength, -⟩ := shown_digits v
  have hplaces : places = 18 := rfl
  rw [Number.Form.InRange, shown_exponent, shown_place, abs_le, abs_le]
  omega

theorem shown_value (v : Rat) : (shown v).value = cut v := by
  obtain ⟨k, hlength, hdigits⟩ := shown_digits v
  have hcut : (Nat.ofDigitChars 10 (shown v).digits 0 : Rat) * 10 ^ (shown v).place =
      (scaled v : Rat) / 10 ^ 18 := by
    have hlength : (fractionDigits v).length + k = 18 := hlength
    rw [shown_place, zpow_neg, zpow_natCast, ← hdigits, ← hlength, pow_add]
    push_cast
    field_simp
  rw [Number.Form.value, cut, ← scaled, mul_div_assoc, ← hcut, shown_sign]
  by_cases hnegative : v < 0
  · by_cases hzero : scaled v = 0
    · have hnone : (Nat.ofDigitChars 10 (shown v).digits 0 : Rat) * 10 ^ (shown v).place = 0 := by
        rw [hcut, hzero]
        simp
      simp [hzero, Number.Sign.apply, hnone]
    · simp [hnegative, hzero, Number.Sign.apply]
  · simp [hnegative, Number.Sign.apply]

theorem pads_render (v : Rat) : Text.Pads (render v).toList (shown v).chars := by
  rw [render, String.toList_ofList, renderChars_eq]
  exact .refl _

theorem parse?_render (v : Rat) : Number.parse? (render v) = some ⟨cut v, .plain⟩ := by
  rw [(shown v).parse?_chars (pads_render v), if_pos (shown_inRange v), shown_value]

/-! ## Values with one text -/

theorem cut_eq (v : Rat) : cut v = (if v < 0 then -1 else 1) * (scaled v : Rat) / 10 ^ 18 :=
  rfl

theorem abs_cut (v : Rat) : |cut v| = (scaled v : Rat) / 10 ^ 18 := by
  have hnonneg : (0 : Rat) ≤ (scaled v : Rat) / 10 ^ 18 := by positivity
  rw [cut_eq, mul_div_assoc, abs_mul, abs_of_nonneg hnonneg]
  split <;> simp

theorem scaled_cut (v : Rat) : scaled (cut v) = scaled v := by
  have hunit : (10 : Rat) ^ 18 ≠ 0 := by positivity
  rw [scaled, abs_cut, div_mul_cancel₀ _ hunit, Nat.floor_natCast]

/-- What is cut to zero has no sign. -/
theorem cut_neg_iff (v : Rat) : cut v < 0 ↔ v < 0 ∧ scaled v ≠ 0 := by
  have hunit : (0 : Rat) < 10 ^ 18 := by positivity
  rw [cut_eq, div_lt_iff₀ hunit, zero_mul]
  by_cases hnegative : v < 0
  · simp [hnegative, Nat.pos_iff_ne_zero]
  · simp [hnegative]

theorem shown_congr {a b : Rat} (hscaled : scaled a = scaled b)
    (hsign : (a < 0 ∧ scaled a ≠ 0) ↔ (b < 0 ∧ scaled b ≠ 0)) : shown a = shown b := by
  rw [hscaled] at hsign
  unfold shown fraction? fractionDigits
  simp only [hscaled, hsign]

theorem render_cut (v : Rat) : render (cut v) = render v := by
  have hsign : (cut v < 0 ∧ scaled (cut v) ≠ 0) ↔ (v < 0 ∧ scaled v ≠ 0) := by
    rw [cut_neg_iff, scaled_cut]
    exact and_iff_left_of_imp fun h => h.2
  rw [render, render, renderChars_eq, renderChars_eq, shown_congr (scaled_cut v) hsign]

theorem render_eq_iff (a b : Rat) : render a = render b ↔ cut a = cut b := by
  constructor
  · intro h
    have hread := parse?_render a
    rw [h, parse?_render] at hread
    injection hread with hread
    exact (congrArg Number.value hread).symm
  · intro h
    rw [← render_cut a, h, render_cut]

theorem shift_shift_neg (v : Rat) {s : Int} (h : s.natAbs < UInt32.size) :
    shift (shift v s) (-s) = v := by
  have hneg : (-s).natAbs < UInt32.size := by rwa [Int.natAbs_neg]
  rw [shift_eq_zpow _ hneg, shift_eq_zpow _ h, mul_assoc, ← zpow_add₀ (by decide),
    Int.add_right_neg, zpow_zero, mul_one]

end Decimal

/-! ## Reading back -/

theorem Literal.dropPercent_append (text : String) : dropPercent (text ++ "%") = text := by
  have hlast : (text ++ "%").toList.reverse = '%' :: text.toList.reverse := by simp
  rw [dropPercent, hlast]
  simp

namespace Number

/-- The number that the text of a number stands for. -/
def readBack (n : Number) : Number := ⟨Decimal.cut n.value, .plain⟩

theorem literal_plainText (n : Number) : Literal.number n.plainText = .ok n.readBack := by
  rw [Literal.number, plainText, Decimal.parse?_render]
  rfl

theorem display_exp (n : Number) : n.exp.display = n.plainText := by
  change Decimal.render (Decimal.shift (Decimal.shift n.value 18) (-18)) = _
  rw [Decimal.shift_shift_neg _ (by decide), plainText]

theorem display_percent (n : Number) : n.percent.display = n.plainText ++ "%" := by
  change Decimal.render (Decimal.shift (Decimal.shift n.value 16) (-16)) ++ "%" = _
  rw [Decimal.shift_shift_neg _ (by decide), plainText]

/-- The plain text of a number is read back as its cut after 18 places, and only numbers with one cut
have one text. A number scaled by `10 ^ 18` or taken as a percentage is shown as it was before, and
its text is read back as the cut in its scale, in every world and without a call. -/
theorem text_readBack (n m : Number) (w : World) :
    Literal.number n.plainText = .ok n.readBack ∧
    (n.plainText = m.plainText ↔ n.readBack = m.readBack) ∧
    n.exp.display = n.plainText ∧
    n.percent.display = n.plainText ++ "%" ∧
    w.read .exp (.token n.exp.display) = pure (.number n.readBack.exp) ∧
    w.read .percent (.token n.percent.display) = pure (.number n.readBack.percent) := by
  refine ⟨n.literal_plainText, ?_, n.display_exp, n.display_percent, ?_, ?_⟩
  · rw [plainText, plainText, Decimal.render_eq_iff]
    simp [readBack]
  · rw [display_exp, World.read, Reading.read]
    apply Reading.typed_literal
    rw [literal_plainText]
    rfl
  · rw [display_percent, World.read, Reading.read]
    apply Reading.typed_literal
    rw [Literal.dropPercent_append, literal_plainText]
    rfl

end Number

end ChainScript
