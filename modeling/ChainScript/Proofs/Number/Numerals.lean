import ChainScript.Expr.Reading

/-! # The characters of a numeral

A text that is read as a number holds a digit, and besides digits only blanks, signs, points and
marks of an exponent. So it is no word of letters, and it does not end in a percent sign.

* `Number.chars_of_parse?`: the characters of a numeral.
* `Number.dropPercent_of_parse?`: a numeral has no percent sign to drop.
* `Decimal.shift_eq`: a shift to the left is a product.
-/

namespace ChainScript
set_option autoImplicit false

/-! ## Trimming -/

theorem Text.mem_dropWhile_blank {cs : List Char} {c : Char} (h : c ∈ cs) :
    c ∈ cs.dropWhile isBlank ∨ isBlank c = true := by
  rw [← List.takeWhile_append_dropWhile (p := isBlank) (l := cs), List.mem_append] at h
  rcases h with h | h
  · exact .inr (List.all_eq_true.mp List.all_takeWhile c h)
  · exact .inl h

theorem Text.mem_trimChars_or {cs : List Char} {c : Char} (h : c ∈ cs) :
    c ∈ trimChars cs ∨ isBlank c = true := by
  rcases mem_dropWhile_blank h with h | h
  · rcases mem_dropWhile_blank (List.mem_reverse.mpr h) with h | h
    · exact .inl (List.mem_reverse.mpr h)
    · exact .inr h
  · exact .inr h

theorem Text.mem_of_mem_trimChars {cs : List Char} {c : Char} (h : c ∈ trimChars cs) : c ∈ cs := by
  have hreversed := (List.dropWhile_sublist isBlank).subset (List.mem_reverse.mp h)
  exact (List.dropWhile_sublist isBlank).subset (List.mem_reverse.mp hreversed)

/-! ## Numerals -/

namespace Number

/-- A character that a numeral may hold besides blanks. -/
def Writes (c : Char) : Prop :=
  Text.isDigit c = true ∨ c = '-' ∨ c = '+' ∨ c = '.' ∨ marksExponent c = true

theorem mem_splitSign {cs : List Char} {c : Char} (h : c ∈ cs) :
    c ∈ (splitSign cs).2 ∨ c = '-' ∨ c = '+' := by
  unfold splitSign
  split
  · rcases List.mem_cons.mp h with rfl | h
    · exact .inr (.inl rfl)
    · exact .inl h
  · rcases List.mem_cons.mp h with rfl | h
    · exact .inr (.inr rfl)
    · exact .inl h
  · exact .inl h

theorem splitSign_subset {cs : List Char} {c : Char} (h : c ∈ (splitSign cs).2) : c ∈ cs := by
  unfold splitSign at h
  split at h
  · exact List.mem_cons_of_mem _ h
  · exact List.mem_cons_of_mem _ h
  · exact h

theorem writes_of_splitSign {cs : List Char} (hrest : ∀ c ∈ (splitSign cs).2, Writes c) :
    ∀ c ∈ cs, Writes c := by
  intro c hc
  rcases mem_splitSign hc with hc | rfl | rfl
  · exact hrest c hc
  · exact .inr (.inl rfl)
  · exact .inr (.inr (.inl rfl))

theorem writes_of_readInteger? {cs : List Char} {x : Int} (h : readInteger? cs = some x) :
    ∀ c ∈ cs, Writes c := by
  refine writes_of_splitSign fun c hc => ?_
  have hdigits : (splitSign cs).2.all Text.isDigit = true := by
    unfold readInteger? at h
    by_cases hdigits : (splitSign cs).2.all Text.isDigit = true
    · exact hdigits
    · simp [hdigits] at h
  exact .inl (List.all_eq_true.mp hdigits c hc)

theorem writes_of_readExponent? {cs : List Char} {x : Int} (h : readExponent? cs = some x)
    (hmark : ∀ c ∈ cs.head?, marksExponent c = true) : ∀ c ∈ cs, Writes c := by
  cases cs with
  | nil => nofun
  | cons mark rest =>
    rw [readExponent?] at h
    cases hinteger : readInteger? rest with
    | none => simp [hinteger] at h
    | some y =>
      intro c hc
      rcases List.mem_cons.mp hc with rfl | hc
      · exact .inr (.inr (.inr (.inr (hmark c rfl))))
      · exact writes_of_readInteger? hinteger c hc

/-- The digits of a mantissa: what stands before the point and what stands behind it. -/
theorem digits_of_ofMantissa? {negative : Bool} {mantissa : List Char} {exponent : Int} {n : Number}
    (h : ofMantissa? negative mantissa exponent = some n) :
    let digits := mantissa.takeWhile (· != '.') ++ (mantissa.dropWhile (· != '.')).tail
    digits ≠ [] ∧ ∀ c ∈ digits, Text.isDigit c = true := by
  unfold ofMantissa? at h
  dsimp only at h ⊢
  split at h
  · cases h
  · rename_i hcond
    simp only [Bool.or_eq_true, not_or, Bool.not_eq_true, Bool.not_eq_false',
      List.isEmpty_eq_false_iff] at hcond
    exact ⟨hcond.1.1, List.all_eq_true.mp hcond.1.2⟩

theorem chars_of_ofMantissa? {negative : Bool} {mantissa : List Char} {exponent : Int} {n : Number}
    (h : ofMantissa? negative mantissa exponent = some n) :
    (∀ c ∈ mantissa, Writes c) ∧ ∃ c ∈ mantissa, Text.isDigit c = true := by
  obtain ⟨hne, hdigits⟩ := digits_of_ofMantissa? h
  have hsplit : mantissa.takeWhile (· != '.') ++ mantissa.dropWhile (· != '.') = mantissa :=
    List.takeWhile_append_dropWhile
  generalize mantissa.takeWhile (· != '.') = whole at hne hdigits hsplit
  have hpoint : ∀ c ∈ (mantissa.dropWhile (· != '.')).head?, c = '.' := by
    intro c hc
    have hstop := List.head?_dropWhile_not (· != '.') mantissa
    rw [Option.mem_def.mp hc] at hstop
    simpa using hstop
  generalize mantissa.dropWhile (· != '.') = behind at hne hdigits hsplit hpoint
  subst hsplit
  constructor
  · intro c hc
    rcases List.mem_append.mp hc with hc | hc
    · exact .inl (hdigits c (List.mem_append_left _ hc))
    · cases behind with
      | nil => cases hc
      | cons point fraction =>
        rcases List.mem_cons.mp hc with rfl | hc
        · exact .inr (.inr (.inr (.inl (hpoint c rfl))))
        · exact .inl (hdigits c (List.mem_append_right _ hc))
  · obtain ⟨c, hc⟩ := List.exists_mem_of_ne_nil _ hne
    refine ⟨c, ?_, hdigits c hc⟩
    rcases List.mem_append.mp hc with hc | hc
    · exact List.mem_append_left _ hc
    · exact List.mem_append_right _ (List.mem_of_mem_tail hc)

/-- A text that is read as a number holds blanks and characters of numerals, and a digit. -/
theorem chars_of_parse? {text : String} {n : Number} (h : parse? text = some n) :
    (∀ c ∈ text.toList, Text.isBlank c = true ∨ Writes c) ∧
      ∃ c ∈ text.toList, Text.isDigit c = true := by
  unfold parse? at h
  dsimp only at h
  have hsigned : ∀ c ∈ (splitSign (Text.trimChars text.toList)).2, c ∈ text.toList :=
    fun c hc => Text.mem_of_mem_trimChars (splitSign_subset hc)
  have hunsigned : (∀ c ∈ (splitSign (Text.trimChars text.toList)).2, Writes c) →
      ∀ c ∈ Text.trimChars text.toList, Writes c := writes_of_splitSign
  generalize (splitSign (Text.trimChars text.toList)).2 = body at h hsigned hunsigned
  split at h
  · rename_i exponent hexponent
    obtain ⟨hmantissa, digit, hdigit, hisDigit⟩ := chars_of_ofMantissa? h
    have hmark : ∀ c ∈ (body.dropWhile fun c => !marksExponent c).head?,
        marksExponent c = true := by
      intro c hc
      have hstop := List.head?_dropWhile_not (fun c => !marksExponent c) body
      rw [Option.mem_def.mp hc] at hstop
      simpa using hstop
    have hwrites : ∀ c ∈ body, Writes c := by
      intro c hc
      rw [← List.takeWhile_append_dropWhile (p := fun c => !marksExponent c) (l := body),
        List.mem_append] at hc
      rcases hc with hc | hc
      · exact hmantissa c hc
      · exact writes_of_readExponent? hexponent hmark c hc
    constructor
    · intro c hc
      rcases Text.mem_trimChars_or hc with hc | hc
      · exact .inr (hunsigned hwrites c hc)
      · exact .inl hc
    · have hinBody : digit ∈ body := (List.takeWhile_sublist _).subset hdigit
      exact ⟨digit, hsigned digit hinBody, hisDigit⟩
  · cases h

theorem dropPercent_of_parse? {text : String} {n : Number} (h : parse? text = some n) :
    Literal.dropPercent text = text := by
  unfold Literal.dropPercent
  split
  · rename_i rest hlast
    have hpercent : '%' ∈ text.toList := List.mem_reverse.mp (hlast ▸ List.mem_cons_self ..)
    have hnot : ¬ (Text.isBlank '%' = true ∨ Writes '%') := by
      unfold Writes
      decide
    exact absurd ((chars_of_parse? h).1 '%' hpercent) hnot
  · rfl

end Number

/-! ## Shifts -/

/-- A shift to the left by an amount below `2 ^ 32` is a product. -/
theorem Decimal.shift_eq (v : Rat) {places : Nat} (h : places < UInt32.size) :
    shift v places = v * 10 ^ places := by
  unfold shift
  simp only [Int.natAbs_natCast, Nat.mod_eq_of_lt h, Int.natCast_nonneg, if_true]
  norm_cast

end ChainScript
