import ChainScript.Value.Compare

/-! # Spellings of an address

A text is read as an address exactly when it is the checksum spelling of that address up to the case
of its letters. The hash of the checksum decides about letter case only, so this holds of every hash.

* `Address.hexValue?_eq_some_iff`: the digits of a half byte, in either case.
* `Address.decode_eq_ok_iff`: the digits of a list of bytes.
* `Address.parse_eq_ok_iff`: the texts of an address.
-/

namespace ChainScript
set_option autoImplicit false

namespace Address

/-! ## Digits -/

theorem toNat_hexDigit {n : Nat} (h : n < 16) :
    (hexDigit n).toNat = if n < 10 then n + 48 else n + 87 := by
  have hall : ∀ n < 16, (hexDigit n).toNat = if n < 10 then n + 48 else n + 87 := by decide
  exact hall n h

/-- A character stands for a half byte when its lower case is the digit of it. -/
theorem hexValue?_eq_some_iff {c : Char} {n : Nat} :
    hexValue? c = some n ↔ n < 16 ∧ Text.lowerChar c = hexDigit n := by
  simp only [hexValue?, Text.char_le_iff, Char.reduceToNat]
  constructor
  · intro h
    have hn : n < 16 := by grind
    refine ⟨hn, Char.toNat_inj.mp ?_⟩
    rw [Text.toNat_lowerChar, toNat_hexDigit hn]
    grind
  · rintro ⟨hn, hdigit⟩
    have htoNat := congrArg Char.toNat hdigit
    rw [Text.toNat_lowerChar, toNat_hexDigit hn] at htoNat
    grind

theorem lowerChar_hexDigit {n : Nat} (h : n < 16) : Text.lowerChar (hexDigit n) = hexDigit n := by
  have hall : ∀ n < 16, Text.lowerChar (hexDigit n) = hexDigit n := by decide
  exact hall n h

/-- The two digits of a byte, in lower case. -/
def digitPair (b : UInt8) : List Char := [hexDigit (b.toNat / 16), hexDigit (b.toNat % 16)]

theorem lowerDigits_eq (a : Address) : a.lowerDigits = a.bytes.flatMap digitPair := rfl

theorem map_lowerChar_digitPair (b : UInt8) : (digitPair b).map Text.lowerChar = digitPair b := by
  have hbyte : b.toNat < 256 := b.toNat_lt
  simp only [digitPair, List.map_cons, List.map_nil]
  rw [lowerChar_hexDigit (by omega), lowerChar_hexDigit (by omega)]

theorem map_lowerChar_lowerDigits (a : Address) :
    a.lowerDigits.map Text.lowerChar = a.lowerDigits := by
  simp only [lowerDigits_eq, List.map_flatMap, map_lowerChar_digitPair]

theorem byte_of_halves {high low : Nat} (hhigh : high < 16) (hlow : low < 16) :
    (16 * high + low).toUInt8.toNat = 16 * high + low := by
  rw [Nat.toUInt8_eq, UInt8.toNat_ofNat']
  omega

/-- Two characters spell a byte when they stand for its halves. -/
theorem digitPair_eq_iff {c d : Char} {b : UInt8} :
    [Text.lowerChar c, Text.lowerChar d] = digitPair b ↔
      hexValue? c = some (b.toNat / 16) ∧ hexValue? d = some (b.toNat % 16) := by
  have hbyte : b.toNat < 256 := b.toNat_lt
  have hhigh : b.toNat / 16 < 16 := by omega
  have hlow : b.toNat % 16 < 16 := by omega
  simp [digitPair, hexValue?_eq_some_iff, hhigh, hlow]

/-- Digits spell one byte more when the first two spell it and the others the rest. -/
theorem spells_cons_iff {c d : Char} {rest : List Char} {b : UInt8} {bytes : List UInt8} :
    (c :: d :: rest).map Text.lowerChar = (b :: bytes).flatMap digitPair ↔
      (hexValue? c = some (b.toNat / 16) ∧ hexValue? d = some (b.toNat % 16)) ∧
        rest.map Text.lowerChar = bytes.flatMap digitPair := by
  rw [← digitPair_eq_iff]
  simp [digitPair, and_assoc]

theorem spells_of_decode {position : Nat} {digits : List Char} {bytes : List UInt8}
    (h : decode position digits = .ok bytes) :
    digits.map Text.lowerChar = bytes.flatMap digitPair := by
  fun_induction decode position digits generalizing bytes with
  | case1 =>
    cases h
    rfl
  | case2 | case3 | case4 | case6 => cases h
  | case5 position c d rest high low hd hc bytes' hr ih =>
    cases h
    have hhigh : high < 16 := (hexValue?_eq_some_iff.mp hc).1
    have hlow : low < 16 := (hexValue?_eq_some_iff.mp hd).1
    rw [spells_cons_iff, byte_of_halves hhigh hlow, hc, hd]
    refine ⟨⟨congrArg some ?_, congrArg some ?_⟩, ih hr⟩ <;> omega

/-- Digits are read in pairs, and every byte is spelled by a pair. -/
theorem decode_of_spells {digits : List Char} {bytes : List UInt8}
    (h : digits.map Text.lowerChar = bytes.flatMap digitPair) (position : Nat) :
    decode position digits = .ok bytes := by
  induction bytes generalizing digits position with
  | nil =>
    rw [List.map_eq_nil_iff.mp h]
    rfl
  | cons b bytes ih =>
    match digits with
    | [] => cases h
    | [c] => simp [digitPair] at h
    | c :: d :: rest =>
      obtain ⟨⟨hc, hd⟩, hrest⟩ := spells_cons_iff.mp h
      have hbyte : (16 * (b.toNat / 16) + b.toNat % 16).toUInt8 = b := by
        rw [Nat.div_add_mod]
        exact UInt8.ofNat_toNat
      simp only [decode, hc, hd, ih hrest, hbyte]

/-- Digits are decoded to the bytes that they spell. -/
theorem decode_eq_ok_iff (position : Nat) {digits : List Char} {bytes : List UInt8} :
    decode position digits = .ok bytes ↔ digits.map Text.lowerChar = bytes.flatMap digitPair :=
  ⟨spells_of_decode, fun h => decode_of_spells h position⟩

/-! ## Texts -/

theorem ofDigits_eq_ok_iff {digits : List Char} {a : Address} :
    ofDigits digits = .ok a ↔ digits.map Text.lowerChar = a.lowerDigits := by
  rw [lowerDigits_eq, ← decode_eq_ok_iff 0, ofDigits]
  constructor
  · intro h
    split at h
    · split at h
      · rename_i bytes hdecode
        cases h
        exact hdecode
      · cases h
    · cases h
  · intro hdecode
    have hlength : Text.utf8Length digits = 40 := by
      rw [utf8Length_of_decode hdecode, a.length_bytes]
    rw [dif_pos hlength]
    split
    · rename_i bytes hbytes
      rw [hdecode] at hbytes
      cases hbytes
      rfl
    · rename_i e herror
      rw [hdecode] at herror
      cases herror

/-- A capital is chosen for some of the letters, so the text is the same but for its case. -/
theorem map_lowerChar_capitalize (hash : List UInt8) (i : Nat) (cs : List Char) :
    (capitalize hash i cs).map Text.lowerChar = cs.map Text.lowerChar := by
  induction cs generalizing i with
  | nil => rfl
  | cons c cs ih =>
    rw [capitalize, List.map_cons, List.map_cons, ih]
    split
    · rw [Text.lowerChar_upperChar]
    · rfl

theorem lower_checksumWith (hash : List UInt8 → List UInt8) (a : Address) :
    (a.checksumWith hash).toList.map Text.lowerChar = '0' :: 'x' :: a.lowerDigits := by
  rw [checksumWith, String.toList_ofList, List.map_cons, List.map_cons, map_lowerChar_capitalize,
    map_lowerChar_lowerDigits]
  rfl

/-- The mark in front of the digits, in either case. -/
theorem parse_eq_ok_iff_digits {text : String} {a : Address} :
    parse text = .ok a ↔ ∃ x digits, (x = 'x' ∨ x = 'X') ∧ text.toList = '0' :: x :: digits ∧
      ofDigits digits = .ok a := by
  rw [parse]
  constructor
  · intro h
    split at h
    · rename_i digits htext
      exact ⟨'x', digits, .inl rfl, htext, h⟩
    · rename_i digits htext
      exact ⟨'X', digits, .inr rfl, htext, h⟩
    · cases h
  · rintro ⟨x, digits, rfl | rfl, htext, hdigits⟩ <;> simpa only [htext] using hdigits

/-- A text is read as an address exactly when it is its spelling, up to the case of letters. -/
theorem parse_eq_ok_iff (hash : List UInt8 → List UInt8) {text : String} {a : Address} :
    parse text = .ok a ↔ Text.sameLetters text (a.checksumWith hash) = true := by
  rw [Text.sameLetters_iff, lower_checksumWith, parse_eq_ok_iff_digits]
  constructor
  · rintro ⟨x, digits, hx, htext, hdigits⟩
    have hmark : Text.lowerChar x = 'x' := by rcases hx with rfl | rfl <;> rfl
    have hzero : Text.lowerChar '0' = '0' := rfl
    rw [htext, List.map_cons, List.map_cons, hmark, hzero, ofDigits_eq_ok_iff.mp hdigits]
  · intro h
    obtain ⟨zero, marked, htext, hzero, hmarked⟩ := List.map_eq_cons_iff.mp h
    obtain ⟨x, digits, rfl, hx, hdigits⟩ := List.map_eq_cons_iff.mp hmarked
    have hzero : zero = '0' := by
      have hcases := Text.eq_lower_or_upper zero
      rw [hzero] at hcases
      rcases hcases with hcase | hcase <;> exact hcase
    have hmark : x = 'x' ∨ x = 'X' := by
      have hcases := Text.eq_lower_or_upper x
      rwa [hx] at hcases
    rw [hzero] at htext
    exact ⟨x, digits, hmark, htext, ofDigits_eq_ok_iff.mpr hdigits⟩

theorem parse_checksumWith (hash : List UInt8 → List UInt8) (a : Address) :
    parse (a.checksumWith hash) = .ok a :=
  (parse_eq_ok_iff hash).mpr (Text.sameLetters_iff.mpr rfl)

theorem checksumWith_inj (hash : List UInt8 → List UInt8) {a b : Address} :
    a.checksumWith hash = b.checksumWith hash ↔ a = b := by
  constructor
  · intro h
    have hread := parse_checksumWith hash a
    rw [h, parse_checksumWith] at hread
    cases hread
    rfl
  · intro h
    rw [h]

theorem textMatchesAddress_iff {text : String} {a : Address} :
    Value.textMatchesAddress text a = true ↔ parse text = .ok a := by
  unfold Value.textMatchesAddress
  cases parse text with
  | error e => simp
  | ok parsed => simp

/-- Whatever the hash of the checksum: a text is read as an address exactly when it is the spelling of
the address up to the case of letters; the spelling of an address is read back as it, and no other
address has that spelling; and an address equals exactly those texts, on either side. -/
theorem spelling_exact (hash : List UInt8 → List UInt8) (text : String) (a b : Address) :
    (parse text = .ok a ↔ Text.sameLetters text (a.checksumWith hash) = true) ∧
    parse (a.checksumWith hash) = .ok a ∧
    (a.checksumWith hash = b.checksumWith hash ↔ a = b) ∧
    parse a.display = .ok a ∧
    (a.display = b.display ↔ a = b) ∧
    ((Value.address a).compare (.string text) = .ok true ↔
      Text.sameLetters text (a.checksumWith hash) = true) ∧
    ((Value.string text).compare (.address a) = .ok true ↔
      Text.sameLetters text (a.checksumWith hash) = true) := by
  have hmatches : (.ok (Value.textMatchesAddress text a) : Except Mismatch Bool) = .ok true ↔
      Text.sameLetters text (a.checksumWith hash) = true := by
    rw [Except.ok.injEq, textMatchesAddress_iff, parse_eq_ok_iff hash]
  exact ⟨parse_eq_ok_iff hash, parse_checksumWith hash a, checksumWith_inj hash,
    parse_checksumWith _ a, checksumWith_inj _, hmatches, hmatches⟩

end Address

end ChainScript
