import Mathlib.Algebra.Order.Field.Rat
import Mathlib.Algebra.Order.Group.Abs
import ChainScript.Proofs.Number.Numerals

/-! # The grammar of numbers

A number is written as an optional sign, digits with at most one point among them, and optionally an
exponent behind `e` or `E`. Blanks may stand at either end of the text. What is read is exactly that,
as long as neither the exponent nor the place of the last digit leaves its range.

* `Number.Form`: a written number, `Number.Form.chars`: its characters.
* `Number.Form.value`: what it stands for, in terms of its digits.
* `Number.Form.parse?_chars`: a form is read as its value, or as nothing when it is out of range.
* `Number.exists_form`: what is read has a form.
-/

namespace ChainScript
set_option autoImplicit false

/-! ## Blanks at the ends -/

namespace Text

/-- A text and the characters that are left when it is trimmed. -/
def Pads (text core : List Char) : Prop :=
  ∃ before after, (∀ c ∈ before, isBlank c = true) ∧ (∀ c ∈ after, isBlank c = true) ∧
    text = before ++ core ++ after

theorem Pads.refl (cs : List Char) : Pads cs cs :=
  ⟨[], [], nofun, nofun, by simp⟩

theorem pads_trimChars (cs : List Char) : Pads cs (trimChars cs) := by
  have hsplit : ∀ ds : List Char, ds.takeWhile isBlank ++ ds.dropWhile isBlank = ds :=
    fun ds => List.takeWhile_append_dropWhile
  have hblank : ∀ ds : List Char, ∀ c ∈ ds.takeWhile isBlank, isBlank c = true :=
    fun ds => List.all_eq_true.mp List.all_takeWhile
  have htrimmed : trimChars cs ++ ((cs.dropWhile isBlank).reverse.takeWhile isBlank).reverse =
      cs.dropWhile isBlank := by
    rw [trimChars, ← List.reverse_append, hsplit, List.reverse_reverse]
  refine ⟨cs.takeWhile isBlank, ((cs.dropWhile isBlank).reverse.takeWhile isBlank).reverse,
    hblank cs, fun c hc => hblank _ c (List.mem_reverse.mp hc), ?_⟩
  rw [List.append_assoc, htrimmed, hsplit]

theorem dropWhile_of_no_blanks {core : List Char} (hcore : ∀ c ∈ core, isBlank c = false) :
    core.dropWhile isBlank = core := by
  cases core with
  | nil => rfl
  | cons c core => rw [List.dropWhile_cons_of_neg (by simp [hcore c (List.mem_cons_self ..)])]

theorem dropWhile_trailing {core after : List Char} (hcore : ∀ c ∈ core, isBlank c = false)
    (hafter : ∀ c ∈ after, isBlank c = true) :
    ((core ++ after).dropWhile isBlank).reverse.dropWhile isBlank = core.reverse := by
  have hreversed : ∀ c ∈ core.reverse, isBlank c = false :=
    fun c hc => hcore c (List.mem_reverse.mp hc)
  have hblanks : ∀ c ∈ after.reverse, isBlank c = true :=
    fun c hc => hafter c (List.mem_reverse.mp hc)
  rw [List.dropWhile_append, dropWhile_of_no_blanks hcore]
  split
  · rename_i hempty
    rw [List.isEmpty_iff.mp hempty, ← List.append_nil after,
      List.dropWhile_append_of_pos hafter]
    rfl
  · rw [List.reverse_append, List.dropWhile_append_of_pos hblanks,
      dropWhile_of_no_blanks hreversed]

theorem Pads.trimChars_eq {text core : List Char} (h : Pads text core)
    (hcore : ∀ c ∈ core, isBlank c = false) : trimChars text = core := by
  obtain ⟨before, after, hbefore, hafter, rfl⟩ := h
  rw [trimChars, List.append_assoc, List.dropWhile_append_of_pos hbefore,
    dropWhile_trailing hcore hafter, List.reverse_reverse]

/-! ## Digits -/

theorem isDigit_eq (c : Char) : isDigit c = c.isDigit := by
  simp [isDigit, Char.isDigit, Char.le_def]

theorem digitsValue_eq (cs : List Char) : digitsValue cs = Nat.ofDigitChars 10 cs 0 := rfl

theorem all_isDigit {cs : List Char} : cs.all isDigit = true ↔ ∀ c ∈ cs, c.isDigit = true := by
  simp only [List.all_eq_true, isDigit_eq]

end Text

/-! ## Shifts -/

/-- A shift by less than `2 ^ 32` places is a product with a power of ten. -/
theorem Decimal.shift_eq_zpow (v : Rat) {s : Int} (h : s.natAbs < UInt32.size) :
    shift v s = v * 10 ^ s := by
  unfold shift
  rw [Nat.mod_eq_of_lt h]
  dsimp only
  rcases Int.natAbs_eq s with hs | hs
  · rw [if_pos (by omega)]
    nth_rewrite 2 [hs]
    rw [zpow_natCast]
    norm_cast
  · by_cases hzero : s = 0
    · subst hzero
      simp
    · rw [if_neg (by omega)]
      nth_rewrite 2 [hs]
      rw [zpow_neg, zpow_natCast, div_eq_mul_inv]
      norm_cast

namespace Number

/-! ## Forms -/

/-- What may stand before digits. -/
inductive Sign where
  | none
  | plus
  | minus
  deriving DecidableEq

namespace Sign

def chars : Sign → List Char
  | .none => []
  | .plus => ['+']
  | .minus => ['-']

def isMinus : Sign → Bool
  | .none => false
  | .plus => false
  | .minus => true

/-- The number behind a sign. -/
def apply (n : Nat) : Sign → Int
  | .none => n
  | .plus => n
  | .minus => -n

end Sign

/-- A written exponent. -/
structure Scale where
  mark : Char
  sign : Sign
  digits : List Char
  marks : mark = 'e' ∨ mark = 'E'
  ne_nil : digits ≠ []
  isDigit : ∀ c ∈ digits, c.isDigit = true

namespace Scale

def chars (s : Scale) : List Char := s.mark :: (s.sign.chars ++ s.digits)

def exponent (s : Scale) : Int := s.sign.apply (Nat.ofDigitChars 10 s.digits 0)

end Scale

/-- A written number. Without a point there is no fraction, not even an empty one. -/
structure Form where
  sign : Sign
  whole : List Char
  fraction : Option (List Char)
  scale : Option Scale
  ne_nil : whole ++ fraction.getD [] ≠ []
  isDigit : ∀ c ∈ whole ++ fraction.getD [], c.isDigit = true

namespace Form

/-- All digits of the mantissa. -/
def digits (f : Form) : List Char := f.whole ++ f.fraction.getD []

def mantissa (f : Form) : List Char := f.whole ++ f.fraction.elim [] ('.' :: ·)

def scaleChars (f : Form) : List Char := f.scale.elim [] Scale.chars

def chars (f : Form) : List Char := f.sign.chars ++ (f.mantissa ++ f.scaleChars)

/-- The exponent, 0 when none is written. -/
def exponent (f : Form) : Int := f.scale.elim 0 Scale.exponent

/-- The exponent of the last digit of the mantissa. -/
def place (f : Form) : Int := f.exponent - (f.fraction.getD []).length

/-- The number that is written. -/
def value (f : Form) : Rat :=
  (f.sign.apply (Nat.ofDigitChars 10 f.digits 0) : Rat) * 10 ^ f.place

/-- Neither the exponent nor the place of the last digit is beyond 4096. -/
def InRange (f : Form) : Prop := |f.exponent| ≤ 4096 ∧ |f.place| ≤ 4096

instance (f : Form) : Decidable f.InRange :=
  inferInstanceAs (Decidable (_ ∧ _))

end Form

/-! ## Characters of a form -/

theorem isBlank_of_isDigit {c : Char} (h : c.isDigit = true) : Text.isBlank c = false := by
  have hbounds : 48 ≤ c.toNat ∧ c.toNat ≤ 57 := by
    simp only [Char.isDigit, Bool.and_eq_true, decide_eq_true_eq, ge_iff_le,
      UInt32.le_iff_toNat_le] at h
    exact h
  simp only [Text.isBlank, Bool.or_eq_false_iff, Bool.and_eq_false_imp, decide_eq_true_eq,
    decide_eq_false_iff_not, beq_eq_false_iff_ne]
  omega

theorem isDigit_ne {c d : Char} (h : c.isDigit = true) (hd : d.isDigit = false) : c ≠ d := by
  rintro rfl
  rw [h] at hd
  cases hd

theorem marksExponent_iff {c : Char} : marksExponent c = true ↔ c = 'e' ∨ c = 'E' := by
  simp [marksExponent]

theorem marksExponent_of_isDigit {c : Char} (h : c.isDigit = true) : marksExponent c = false := by
  rw [← Bool.not_eq_true, marksExponent_iff, not_or]
  exact ⟨isDigit_ne h (by decide), isDigit_ne h (by decide)⟩

namespace Form

variable (f : Form)

theorem whole_isDigit : ∀ c ∈ f.whole, c.isDigit = true :=
  fun c hc => f.isDigit c (List.mem_append_left _ hc)

theorem mem_mantissa {c : Char} (hc : c ∈ f.mantissa) : c.isDigit = true ∨ c = '.' := by
  have hdigit := f.isDigit
  rcases List.mem_append.mp hc with hc | hc
  · exact .inl (f.whole_isDigit c hc)
  · cases hfraction : f.fraction with
    | none =>
      rw [hfraction] at hc
      cases hc
    | some behind =>
      rw [hfraction] at hc hdigit
      rcases List.mem_cons.mp hc with rfl | hc
      · exact .inr rfl
      · exact .inl (hdigit c (List.mem_append_right _ hc))

theorem mantissa_ne_nil : f.mantissa ≠ [] := by
  have hne := f.ne_nil
  unfold mantissa
  cases hfraction : f.fraction with
  | none => simpa [hfraction] using hne
  | some behind => simp

end Form

theorem Sign.mem_chars {s : Sign} {c : Char} (hc : c ∈ s.chars) : c = '-' ∨ c = '+' := by
  cases s with
  | none => cases hc
  | plus => exact .inr (List.mem_singleton.mp hc)
  | minus => exact .inl (List.mem_singleton.mp hc)

theorem Form.chars_no_blanks (f : Form) : ∀ c ∈ f.chars, Text.isBlank c = false := by
  have hsign : ∀ {s : Sign} {c : Char}, c ∈ s.chars → Text.isBlank c = false := by
    intro s c hc
    rcases Sign.mem_chars hc with rfl | rfl <;> rfl
  intro c hc
  rcases List.mem_append.mp hc with hc | hc
  · exact hsign hc
  · rcases List.mem_append.mp hc with hc | hc
    · rcases f.mem_mantissa hc with hc | rfl
      · exact isBlank_of_isDigit hc
      · rfl
    · unfold scaleChars at hc
      cases hscale : f.scale with
      | none =>
        rw [hscale] at hc
        cases hc
      | some s =>
        rw [hscale] at hc
        rcases List.mem_cons.mp hc with rfl | hc
        · rcases s.marks with hmark | hmark <;> rw [hmark] <;> rfl
        · rcases List.mem_append.mp hc with hc | hc
          · exact hsign hc
          · exact isBlank_of_isDigit (s.isDigit c hc)

/-! ## Reading a form -/

theorem splitSign_chars (s : Sign) {cs : List Char} (h : ∀ c ∈ cs.head?, c ≠ '-' ∧ c ≠ '+') :
    splitSign (s.chars ++ cs) = (s.isMinus, cs) := by
  cases s with
  | none =>
    cases cs with
    | nil => rfl
    | cons c cs =>
      obtain ⟨hminus, hplus⟩ := h c rfl
      simp only [Sign.chars, List.nil_append, Sign.isMinus]
      unfold splitSign
      split
      · rename_i heq
        cases heq
        exact absurd rfl hminus
      · rename_i heq
        cases heq
        exact absurd rfl hplus
      · rfl
  | plus => rfl
  | minus => rfl

theorem Sign.apply_eq (s : Sign) (n : Nat) :
    (if s.isMinus then -(n : Int) else (n : Int)) = s.apply n := by
  cases s <;> rfl

theorem withinExponents_iff {x : Int} : withinExponents x = true ↔ |x| ≤ 4096 := by
  rw [withinExponents, Bool.and_eq_true, decide_eq_true_iff, decide_eq_true_iff, abs_le]
  rfl

theorem readInteger?_chars (s : Sign) {digits : List Char} (hne : digits ≠ [])
    (hdigits : ∀ c ∈ digits, c.isDigit = true) :
    readInteger? (s.chars ++ digits) = some (s.apply (Nat.ofDigitChars 10 digits 0)) := by
  have hhead : ∀ c ∈ digits.head?, c ≠ '-' ∧ c ≠ '+' := by
    intro c hc
    have hdigit := hdigits c (List.mem_of_mem_head? hc)
    exact ⟨isDigit_ne hdigit (by decide), isDigit_ne hdigit (by decide)⟩
  have hempty : digits.isEmpty = false := List.isEmpty_eq_false_iff.mpr hne
  unfold readInteger?
  rw [splitSign_chars s hhead]
  simp only [hempty, Text.all_isDigit.mpr hdigits, Bool.not_true, Bool.or_self, Bool.false_eq_true,
    if_false, Text.digitsValue_eq]
  rw [← s.apply_eq]
  split <;> rfl

namespace Form

variable (f : Form)

theorem readExponent?_scaleChars :
    readExponent? f.scaleChars = if |f.exponent| ≤ 4096 then some f.exponent else none := by
  unfold scaleChars exponent
  cases f.scale with
  | none => rfl
  | some s =>
    rw [Option.elim_some, Scale.chars, readExponent?,
      readInteger?_chars s.sign s.ne_nil s.isDigit]
    simp only [withinExponents_iff]
    rfl

theorem mantissa_split :
    f.mantissa.takeWhile (· != '.') = f.whole ∧
      (f.mantissa.dropWhile (· != '.')).tail = f.fraction.getD [] := by
  have hwhole : ∀ c ∈ f.whole, (c != '.') = true :=
    fun c hc => bne_iff_ne.mpr (isDigit_ne (f.whole_isDigit c hc) (by decide))
  unfold mantissa
  rw [List.takeWhile_append_of_pos hwhole, List.dropWhile_append_of_pos hwhole]
  cases f.fraction with
  | none => simp
  | some behind => simp

theorem ofMantissa?_mantissa :
    ofMantissa? f.sign.isMinus f.mantissa f.exponent =
      if |f.place| ≤ 4096 then some ⟨f.value, .plain⟩ else none := by
  have hempty : (f.whole ++ f.fraction.getD []).isEmpty = false :=
    List.isEmpty_eq_false_iff.mpr f.ne_nil
  have hdigits := Text.all_isDigit.mpr f.isDigit
  obtain ⟨hwhole, hbehind⟩ := f.mantissa_split
  unfold ofMantissa?
  simp only [hwhole, hbehind, hempty, hdigits, Bool.not_true, Bool.or_self, Bool.false_or,
    Text.digitsValue_eq, Sign.apply_eq]
  rw [← place, ← digits]
  by_cases hplace : |f.place| ≤ 4096
  · have hshift : f.place.natAbs < UInt32.size := by
      have hbound : f.place.natAbs ≤ 4096 := by
        rw [Int.abs_eq_natAbs] at hplace
        omega
      exact Nat.lt_of_le_of_lt hbound (by decide)
    rw [withinExponents_iff.mpr hplace, if_pos hplace, value, Decimal.shift_eq_zpow _ hshift]
    rfl
  · have hout : withinExponents f.place = false := by
      rw [← Bool.not_eq_true, withinExponents_iff]
      exact hplace
    rw [hout, if_neg hplace]
    rfl

theorem mark_split :
    (f.mantissa ++ f.scaleChars).takeWhile (fun c => !marksExponent c) = f.mantissa ∧
      (f.mantissa ++ f.scaleChars).dropWhile (fun c => !marksExponent c) = f.scaleChars := by
  have hmantissa : ∀ c ∈ f.mantissa, (!marksExponent c) = true := by
    intro c hc
    rcases f.mem_mantissa hc with hc | rfl
    · simp [marksExponent_of_isDigit hc]
    · rfl
  rw [List.takeWhile_append_of_pos hmantissa, List.dropWhile_append_of_pos hmantissa]
  unfold scaleChars
  cases f.scale with
  | none => simp
  | some s =>
    have hmark : marksExponent s.mark = true := marksExponent_iff.mpr s.marks
    simp [Scale.chars, hmark]

theorem parse?_chars {text : String} (h : Text.Pads text.toList f.chars) :
    parse? text = if f.InRange then some ⟨f.value, .plain⟩ else none := by
  have hhead : ∀ c ∈ (f.mantissa ++ f.scaleChars).head?, c ≠ '-' ∧ c ≠ '+' := by
    intro c hc
    have hmem : c ∈ f.mantissa := by
      obtain ⟨d, rest, hmantissa⟩ := List.exists_cons_of_ne_nil f.mantissa_ne_nil
      rw [hmantissa, List.cons_append, List.head?_cons, Option.mem_some_iff] at hc
      rw [hmantissa, hc]
      exact List.mem_cons_self ..
    rcases f.mem_mantissa hmem with hc | rfl
    · exact ⟨isDigit_ne hc (by decide), isDigit_ne hc (by decide)⟩
    · decide
  unfold parse?
  rw [h.trimChars_eq f.chars_no_blanks, chars, splitSign_chars f.sign hhead]
  dsimp only
  rw [f.mark_split.1, f.mark_split.2, f.readExponent?_scaleChars]
  by_cases hexponent : |f.exponent| ≤ 4096
  · rw [if_pos hexponent]
    dsimp only
    rw [f.ofMantissa?_mantissa]
    simp only [InRange, hexponent, true_and]
  · simp only [hexponent, if_false, InRange, false_and]

end Form

/-! ## The form of what is read -/

theorem exists_sign (cs : List Char) : ∃ s : Sign, cs = s.chars ++ (splitSign cs).2 := by
  unfold splitSign
  split
  · exact ⟨.minus, rfl⟩
  · exact ⟨.plus, rfl⟩
  · exact ⟨.none, rfl⟩

theorem exists_scale {cs : List Char} {x : Int} (h : readExponent? cs = some x)
    (hmark : ∀ c ∈ cs.head?, marksExponent c = true) :
    ∃ scale : Option Scale, cs = scale.elim [] Scale.chars := by
  cases cs with
  | nil => exact ⟨none, rfl⟩
  | cons mark rest =>
    obtain ⟨sign, hsign⟩ := exists_sign rest
    have hdigits : (splitSign rest).2 ≠ [] ∧ (splitSign rest).2.all Text.isDigit = true := by
      rw [readExponent?, readInteger?] at h
      by_cases hgood : (splitSign rest).2 ≠ [] ∧ (splitSign rest).2.all Text.isDigit = true
      · exact hgood
      · have hbad : ((splitSign rest).2.isEmpty || !(splitSign rest).2.all Text.isDigit) = true := by
          simpa [or_iff_not_imp_left] using hgood
        simp [hbad] at h
    refine ⟨some ⟨mark, sign, (splitSign rest).2, marksExponent_iff.mp (hmark mark rfl), hdigits.1,
      Text.all_isDigit.mp hdigits.2⟩, ?_⟩
    rw [Option.elim_some, Scale.chars, ← hsign]

/-- A mantissa is its digits with at most one point among them. -/
theorem exists_fraction (mantissa : List Char) :
    ∃ fraction : Option (List Char),
      fraction.getD [] = (mantissa.dropWhile (· != '.')).tail ∧
      mantissa = mantissa.takeWhile (· != '.') ++ fraction.elim [] ('.' :: ·) := by
  have hsplit : mantissa.takeWhile (· != '.') ++ mantissa.dropWhile (· != '.') = mantissa :=
    List.takeWhile_append_dropWhile
  have hstop := List.head?_dropWhile_not (· != '.') mantissa
  cases hrest : mantissa.dropWhile (· != '.') with
  | nil =>
    rw [hrest] at hsplit
    exact ⟨none, rfl, hsplit.symm⟩
  | cons point behind =>
    rw [hrest] at hstop hsplit
    obtain rfl : point = '.' := by simpa using hstop
    exact ⟨some behind, rfl, hsplit.symm⟩

theorem exists_form {text : String} {n : Number} (h : parse? text = some n) :
    ∃ f : Form, Text.Pads text.toList f.chars := by
  unfold parse? at h
  dsimp only at h
  obtain ⟨sign, hsign⟩ := exists_sign (Text.trimChars text.toList)
  generalize (splitSign (Text.trimChars text.toList)).2 = body at h hsign
  have hbody : body.takeWhile (fun c => !marksExponent c) ++
      body.dropWhile (fun c => !marksExponent c) = body := List.takeWhile_append_dropWhile
  have hmark : ∀ c ∈ (body.dropWhile fun c => !marksExponent c).head?, marksExponent c = true := by
    intro c hc
    have hstop := List.head?_dropWhile_not (fun c => !marksExponent c) body
    rw [Option.mem_def.mp hc] at hstop
    simpa using hstop
  split at h
  · rename_i x hx
    obtain ⟨hne, hdigits⟩ := digits_of_ofMantissa? h
    obtain ⟨fraction, hbehind, hmantissa⟩ :=
      exists_fraction (body.takeWhile fun c => !marksExponent c)
    rw [← hbehind] at hne hdigits
    have hisDigit := fun c hc => (Text.isDigit_eq c).symm.trans (hdigits c hc)
    have hpads := Text.pads_trimChars text.toList
    rw [hsign, ← hbody] at hpads
    obtain ⟨scale, hscale⟩ := exists_scale hx hmark
    refine ⟨⟨sign, _, fraction, scale, hne, hisDigit⟩, ?_⟩
    rw [Form.chars, Form.mantissa, ← hmantissa, Form.scaleChars, ← hscale]
    exact hpads
  · cases h

/-- A text is read as a number exactly when it is a form between blanks, within the range of
exponents. The number is then the one that is written, exactly and in the plain format; every other
text is an invalid value. -/
theorem grammar_exact (text : String) :
    (∀ n, Literal.number text = .ok n ↔
      ∃ f : Form, Text.Pads text.toList f.chars ∧ f.InRange ∧ n = ⟨f.value, .plain⟩) ∧
    ((¬ ∃ f : Form, Text.Pads text.toList f.chars ∧ f.InRange) →
      Literal.number text = .error (.notANumber text)) := by
  have hread : ∀ n, parse? text = some n ↔
      ∃ f : Form, Text.Pads text.toList f.chars ∧ f.InRange ∧ n = ⟨f.value, .plain⟩ := by
    intro n
    constructor
    · intro h
      obtain ⟨f, hpads⟩ := exists_form h
      rw [f.parse?_chars hpads] at h
      by_cases hrange : f.InRange
      · rw [if_pos hrange] at h
        exact ⟨f, hpads, hrange, (Option.some.inj h).symm⟩
      · rw [if_neg hrange] at h
        cases h
    · rintro ⟨f, hpads, hrange, rfl⟩
      rw [f.parse?_chars hpads, if_pos hrange]
  unfold Literal.number
  cases hparse : parse? text with
  | none =>
    rw [hparse] at hread
    exact ⟨fun n => by simpa using hread n, fun _ => rfl⟩
  | some m =>
    rw [hparse] at hread
    obtain ⟨f, hpads, hrange, -⟩ := (hread m).mp rfl
    exact ⟨fun n => by simpa using hread n, fun hnone => absurd ⟨f, hpads, hrange⟩ hnone⟩

/-- The last digit is beyond the range though the exponent is not. -/
example : parse? "1e-4096" ≠ none ∧ parse? "1.5e-4096" = none ∧ parse? "." = none := by
  decide +kernel

end Number

end ChainScript
