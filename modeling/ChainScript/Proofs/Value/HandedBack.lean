import ChainScript.Proofs.Address.Spelling
import ChainScript.Proofs.Number.RoundTrip
import ChainScript.Value.Raw

/-! # Values handed back

A raw result is read as a value, and handing that value back gives a raw result that is read as the
same value, but for the digits of its numbers behind the 18th place. Addresses and numbers travel as
texts, and the three readings of a text do not get in each other's way: no numeral is the text of an
address, a spelled address is read as it, and a text that is neither comes back as it is.

* `Value.cutNumbers`: a value without the digits behind the 18th place.
* `Value.ofText_handedBack`: the value of a text.
* `Value.handedBack_same`: the value of a raw result.
-/

namespace ChainScript
set_option autoImplicit false

/-! ## Readings of a text -/

namespace Number

theorem format_of_ofMantissa? {negative : Bool} {mantissa : List Char} {exponent : Int} {n : Number}
    (h : ofMantissa? negative mantissa exponent = some n) : n.format = .plain := by
  unfold ofMantissa? at h
  dsimp only at h
  split at h
  · cases h
  · cases h
    rfl

theorem format_of_parse? {text : String} {n : Number} (h : parse? text = some n) :
    n.format = .plain := by
  unfold parse? at h
  dsimp only at h
  split at h
  · exact format_of_ofMantissa? h
  · cases h

/-- The mark of an address stands in no numeral. -/
theorem not_address_of_parse? {text : String} {n : Number} (h : parse? text = some n)
    (a : Address) : Address.parse text ≠ .ok a := by
  intro haddress
  obtain ⟨x, digits, hx, htext, -⟩ := Address.parse_eq_ok_iff_digits.mp haddress
  have hmem : x ∈ text.toList := by simp [htext]
  have hnot : ∀ x, x = 'x' ∨ x = 'X' → ¬ (Text.isBlank x = true ∨ Writes x) := by
    unfold Writes
    rintro x (rfl | rfl) <;> decide
  exact hnot x hx ((chars_of_parse? h).1 x hmem)

end Number

namespace Value

theorem ofText_of_address {text : String} {a : Address} (h : Address.parse text = .ok a) :
    ofText text = .address a := by
  rw [ofText, h]

theorem ofText_of_number {text : String} {n : Number} (h : Number.parse? text = some n) :
    ofText text = .number n := by
  unfold ofText
  split
  · rename_i a haddress
    exact absurd haddress (Number.not_address_of_parse? h a)
  · rw [h]

/-! ## Cutting all numbers -/

mutual

/-- The value with every number in it cut toward zero after 18 places. -/
def cutNumbers : Value → Value
  | .number n => .number { n with value := Decimal.cut n.value }
  | .list items => .list (cutNumbersIn items)
  | .array items => .array (cutNumbersIn items)
  | .map entries => .map (cutNumbersUnder entries)
  | v => v

def cutNumbersIn : List Value → List Value
  | [] => []
  | v :: vs => v.cutNumbers :: cutNumbersIn vs

def cutNumbersUnder : List (String × Value) → List (String × Value)
  | [] => []
  | (key, v) :: entries => (key, v.cutNumbers) :: cutNumbersUnder entries

end

end Value

mutual

/-- Every number in a raw result is written as a numeral. -/
def Json.Numeric : Json → Prop
  | .number literal => (Number.parse? literal).isSome
  | .array items => NumericIn items
  | .object entries => NumericUnder entries
  | _ => True

def Json.NumericIn : List Json → Prop
  | [] => True
  | j :: js => j.Numeric ∧ NumericIn js

def Json.NumericUnder : List (String × Json) → Prop
  | [] => True
  | (_, j) :: entries => j.Numeric ∧ NumericUnder entries

end

/-! ## Handing back -/

namespace Value

variable (hash : List UInt8 → List UInt8)

theorem number_handedBack {n : Number} (hplain : n.format = .plain) :
    ofJson (toJsonWith hash (.number n)) = cutNumbers (.number n) := by
  have hread : Number.parse? n.plainText = some ⟨Decimal.cut n.value, .plain⟩ :=
    Decimal.parse?_render n.value
  rw [toJsonWith, ofJson, ofText_of_number hread, cutNumbers, hplain]

/-- The text that is handed back has the reading that the first text had. -/
theorem ofText_handedBack (text : String) :
    ofJson (toJsonWith hash (ofText text)) = (ofText text).cutNumbers := by
  cases haddress : Address.parse text with
  | ok a =>
    rw [ofText_of_address haddress, toJsonWith, ofJson,
      ofText_of_address (Address.parse_checksumWith hash a)]
    rfl
  | error e =>
    cases hnumber : Number.parse? text with
    | some n =>
      rw [ofText_of_number hnumber]
      exact number_handedBack hash (Number.format_of_parse? hnumber)
    | none =>
      have htext : ofText text = .string text := by rw [ofText, haddress, hnumber]
      rw [htext, toJsonWith, ofJson, htext]
      rfl

theorem ofLiteral_handedBack {literal : String} (h : (Number.parse? literal).isSome = true) :
    ofJson (toJsonWith hash (ofLiteral literal)) = (ofLiteral literal).cutNumbers := by
  obtain ⟨n, hn⟩ := Option.isSome_iff_exists.mp h
  rw [ofLiteral, hn]
  exact number_handedBack hash (Number.format_of_parse? hn)

mutual

theorem ofJson_handedBack : ∀ raw : Json, raw.Numeric →
    ofJson (toJsonWith hash (ofJson raw)) = (ofJson raw).cutNumbers
  | .null, _ | .bool _, _ => rfl
  | .number _, h => ofLiteral_handedBack hash h
  | .string text, _ => ofText_handedBack hash text
  | .array items, h => congrArg Value.list (ofJsonList_handedBack items h)
  | .object entries, h => congrArg Value.map (ofJsonEntries_handedBack entries h)

theorem ofJsonList_handedBack : ∀ items : List Json, Json.NumericIn items →
    ofJsonList (toJsonListWith hash (ofJsonList items)) = cutNumbersIn (ofJsonList items)
  | [], _ => rfl
  | j :: js, h => by
    rw [ofJsonList, toJsonListWith, ofJsonList, cutNumbersIn, ofJson_handedBack j h.1,
      ofJsonList_handedBack js h.2]

theorem ofJsonEntries_handedBack : ∀ entries : List (String × Json), Json.NumericUnder entries →
    ofJsonEntries (toJsonEntriesWith hash (ofJsonEntries entries)) =
      cutNumbersUnder (ofJsonEntries entries)
  | [], _ => rfl
  | (key, j) :: entries, h => by
    rw [ofJsonEntries, toJsonEntriesWith, ofJsonEntries, cutNumbersUnder, ofJson_handedBack j h.1,
      ofJsonEntries_handedBack entries h.2]

end

/-- A raw result whose numbers are numerals is read as a value, and that value, handed back and read
again, is the same but for its numbers, each of which is cut toward zero after 18 places. This holds
whatever the hash is under which addresses are spelled. -/
theorem handedBack_same {raw : Json} (h : raw.Numeric) :
    ofJson (toJsonWith hash (ofJson raw)) = (ofJson raw).cutNumbers ∧
      ofJson (ofJson raw).toJson = (ofJson raw).cutNumbers :=
  ⟨ofJson_handedBack hash raw h, ofJson_handedBack Keccak.digest raw h⟩

/-- An amount below zero with 20 places, a number with 19 places, and an address in capitals. -/
def rawTransfer : Json :=
  .object [("amount", .string " -1.00000000000000000019 "),
    ("fees", .array [.null, .number "1e-19",
      .string "0XABABABABABABABABABABABABABABABABABABABAB"])]

theorem handedBack_same_transfer :
    rawTransfer.Numeric ∧ ofJson (ofJson rawTransfer).toJson =
      .map [("amount", .number (.ofInt (-1))),
        ("fees", .list [.nothing, .number (.ofInt 0), .address (.ofFn fun _ => 0xAB)])] := by
  have hnumeric : rawTransfer.Numeric := by
    have hliteral : (Number.parse? "1e-19").isSome = true := by decide +kernel
    exact ⟨trivial, ⟨trivial, hliteral, trivial, trivial⟩, trivial⟩
  have hread : ofJson rawTransfer = .map
      [("amount", .number ⟨-100000000000000000019 / 10 ^ 20, .plain⟩),
        ("fees", .list [.nothing, .number ⟨1 / 10 ^ 19, .plain⟩,
          .address (.ofFn fun _ => 0xAB)])] := by
    with_unfolding_all rfl
  have hamount : Decimal.cut (-100000000000000000019 / 10 ^ 20) = -1 := by
    norm_num [Decimal.cut]
  have hfee : Decimal.cut (1 / 10 ^ 19) = 0 := by
    norm_num [Decimal.cut]
  refine ⟨hnumeric, ?_⟩
  rw [(handedBack_same Keccak.digest hnumeric).2, hread]
  simp only [cutNumbers, cutNumbersUnder, cutNumbersIn, hamount, hfee]
  rfl

end Value

end ChainScript
