import Mathlib.Tactic.SplitIfs

/-! # The order of bytes

Texts are compared code point by code point. This is the order of their UTF-8 bytes: the first byte
of a code point tells how many follow, more of them with a greater code point, and the bytes of one
length hold the digits of the code point in base 64, the highest first.
-/

namespace ChainScript.Text
set_option autoImplicit false

/-- The UTF-8 bytes of a text. -/
def bytes (text : String) : List UInt8 := text.toUTF8.data.toList

theorem bytes_eq (text : String) : bytes text = text.toList.flatMap String.utf8EncodeChar := by
  have hbytes : text.toUTF8 = (String.ofList text.toList).toByteArray := by
    rw [String.ofList_toList]
    rfl
  rw [bytes, hbytes, String.toByteArray_ofList, List.utf8Encode, List.data_toByteArray]

/-! ## One code point -/

theorem ofNat_cons_lt {n m : Nat} (hn : n < 256) (hm : m < 256) {x y : List UInt8} :
    UInt8.ofNat n :: x < UInt8.ofNat m :: y ↔ n < m ∨ n = m ∧ x < y := by
  rw [List.cons_lt_cons_iff, UInt8.lt_iff_toNat_lt, ← UInt8.toNat_inj,
    UInt8.toNat_ofNat_of_lt' hn, UInt8.toNat_ofNat_of_lt' hm]

theorem val_lt (c : Char) : c.val.toNat < 0x110000 := by
  rcases c.valid with h | ⟨-, h⟩
  · exact Nat.lt_trans h (by decide)
  · exact h

/-- Of two numbers the lesser has the lesser quotient or, with the same quotient, the lesser
remainder. -/
theorem div_lt_or_mod_lt {a b : Nat} (h : a < b) (n : Nat) :
    a / n < b / n ∨ a / n = b / n ∧ a % n < b % n := by
  have ha := Nat.div_add_mod a n
  have hb := Nat.div_add_mod b n
  have hle : a / n ≤ b / n := Nat.div_le_div_right (Nat.le_of_lt h)
  rcases Nat.lt_or_eq_of_le hle with hq | hq
  · exact .inl hq
  · rw [hq] at ha
    exact .inr ⟨hq, by omega⟩

/-- The digits of two code points, as they stand in four bytes: the highest one in which the two
differ decides. -/
theorem digits_lt {a b : Nat} (h : a < b) (hb : b < 0x110000) (p : Prop) :
    a / 262144 % 8 + 240 < b / 262144 % 8 + 240 ∨
      a / 262144 % 8 + 240 = b / 262144 % 8 + 240 ∧
        (a / 4096 % 64 + 128 < b / 4096 % 64 + 128 ∨
          a / 4096 % 64 + 128 = b / 4096 % 64 + 128 ∧
            (a / 64 % 64 + 128 < b / 64 % 64 + 128 ∨
              a / 64 % 64 + 128 = b / 64 % 64 + 128 ∧
                (a % 64 + 128 < b % 64 + 128 ∨ a % 64 + 128 = b % 64 + 128 ∧ p))) := by
  have second (v : Nat) : v / 4096 = v / 64 / 64 := (Nat.div_div_eq_div_mul v 64 64).symm
  have third (v : Nat) : v / 262144 = v / 64 / 64 / 64 := by omega
  have ha8 : a / 262144 < 8 := by omega
  have hb8 : b / 262144 < 8 := by omega
  rw [Nat.mod_eq_of_lt ha8, Nat.mod_eq_of_lt hb8, third, third, second, second]
  rcases div_lt_or_mod_lt h 64 with h₁ | ⟨heq, hlt⟩
  · rcases div_lt_or_mod_lt h₁ 64 with h₂ | ⟨heq, hlt⟩
    · rcases div_lt_or_mod_lt h₂ 64 with h₃ | ⟨heq, hlt⟩
      · omega
      · omega
    · rw [heq]
      omega
  · rw [heq]
    omega

theorem encode_lt {c d : Char} (h : c < d) (x y : List UInt8) :
    String.utf8EncodeChar c ++ x < String.utf8EncodeChar d ++ y := by
  have hlt : c.val.toNat < d.val.toNat := h
  have hd := val_lt d
  unfold String.utf8EncodeChar
  generalize c.val.toNat = a at *
  generalize d.val.toNat = b at *
  dsimp only
  split_ifs
  all_goals simp only [List.cons_append, List.nil_append]
  all_goals simp (disch := omega) only [ofNat_cons_lt]
  any_goals omega
  exact digits_lt hlt hd _

/-! ## A text -/

theorem flatMap_encode_lt {s t : List Char} (h : s < t) :
    s.flatMap String.utf8EncodeChar < t.flatMap String.utf8EncodeChar := by
  induction s generalizing t with
  | nil =>
    cases t with
    | nil => exact absurd h (List.lt_irrefl _)
    | cons d t =>
      obtain ⟨first, rest, hd⟩ :=
        List.exists_cons_of_ne_nil (String.utf8EncodeChar_ne_nil : String.utf8EncodeChar d ≠ [])
      rw [List.flatMap_cons, hd]
      exact List.nil_lt_cons first _
  | cons c s ih =>
    cases t with
    | nil => exact absurd h (List.not_lt_nil _)
    | cons d t =>
      rw [List.flatMap_cons, List.flatMap_cons]
      rcases List.cons_lt_cons_iff.mp h with hcd | ⟨rfl, hst⟩
      · exact encode_lt hcd _ _
      · exact List.append_left_lt (ih hst)

/-- Texts stand in the order of their UTF-8 bytes. Both orders are total, so that one direction gives
the other. -/
theorem lt_iff_bytes_lt {s t : String} : s < t ↔ bytes s < bytes t := by
  have hlt {s t : String} (h : s < t) : bytes s < bytes t := by
    rw [bytes_eq, bytes_eq]
    exact flatMap_encode_lt h
  refine ⟨hlt, fun h => ?_⟩
  rcases Decidable.em (s < t) with hst | hst
  · exact hst
  · rcases Decidable.em (t < s) with hts | hts
    · exact absurd h (List.lt_asymm (hlt hts))
    · have heq : s = t := String.le_antisymm (String.not_lt.mp hts) (String.not_lt.mp hst)
      rw [heq] at h
      exact absurd h (List.lt_irrefl _)

end ChainScript.Text
