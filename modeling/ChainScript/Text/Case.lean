/-! # ASCII letter case

Names are compared without regard to the case of the letters A to Z; every other character, accented
letters included, is compared as it stands.
-/

namespace ChainScript.Text
set_option autoImplicit false

/-- Lower case of A to Z; every other character is kept. -/
def lowerChar (c : Char) : Char :=
  if 'A' ≤ c ∧ c ≤ 'Z' then Char.ofNat (c.toNat + 32) else c

/-- Upper case of a to z; every other character is kept. -/
def upperChar (c : Char) : Char :=
  if 'a' ≤ c ∧ c ≤ 'z' then Char.ofNat (c.toNat - 32) else c

/-- The text with A to Z in lower case. -/
def lower (text : String) : String :=
  String.ofList (text.toList.map lowerChar)

/-- Equality of texts up to the case of A to Z. -/
def sameLetters (s t : String) : Bool :=
  s.toList.map lowerChar == t.toList.map lowerChar

/-- The decimal digits of ASCII. -/
def isDigit (c : Char) : Bool :=
  '0' ≤ c && c ≤ '9'

/-- The number a digit stands for. -/
def digitValue (c : Char) : Nat :=
  c.toNat - 48

/-- The number written by a list of digits, most significant first. -/
def digitsValue (cs : List Char) : Nat :=
  cs.foldl (fun n c => 10 * n + digitValue c) 0

/-! ## Laws of letter case -/

theorem char_le_iff {c d : Char} : c ≤ d ↔ c.toNat ≤ d.toNat := by
  rw [Char.le_def, UInt32.le_iff_toNat_le, Char.toNat_val, Char.toNat_val]

theorem toNat_ofNat_of_lt {n : Nat} (h : n < 0xD800) : (Char.ofNat n).toNat = n := by
  rw [Char.ofNat, dif_pos (.inl h)]
  rfl

theorem toNat_lowerChar (c : Char) :
    (lowerChar c).toNat = if 65 ≤ c.toNat ∧ c.toNat ≤ 90 then c.toNat + 32 else c.toNat := by
  simp only [lowerChar, char_le_iff, Char.reduceToNat]
  split
  · exact toNat_ofNat_of_lt (by omega)
  · rfl

theorem toNat_upperChar (c : Char) :
    (upperChar c).toNat = if 97 ≤ c.toNat ∧ c.toNat ≤ 122 then c.toNat - 32 else c.toNat := by
  simp only [upperChar, char_le_iff, Char.reduceToNat]
  split
  · exact toNat_ofNat_of_lt (by omega)
  · rfl

@[simp] theorem lowerChar_upperChar (c : Char) : lowerChar (upperChar c) = lowerChar c := by
  apply Char.toNat_inj.mp
  simp only [toNat_lowerChar, toNat_upperChar]
  grind

/-- A character is its own lower case, or the capital of it. -/
theorem eq_lower_or_upper (c : Char) : c = lowerChar c ∨ c = upperChar (lowerChar c) := by
  simp only [← Char.toNat_inj, toNat_upperChar, toNat_lowerChar]
  grind

theorem sameLetters_iff {s t : String} :
    sameLetters s t = true ↔ s.toList.map lowerChar = t.toList.map lowerChar := by
  rw [sameLetters, beq_iff_eq]

end ChainScript.Text
