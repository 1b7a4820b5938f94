import ChainScript.Hash.Keccak
import ChainScript.Text.Blank
import ChainScript.Text.Case

/-! # Addresses

An address is 20 bytes. It is read from `0x` and 40 hexadecimal digits in either case, and written
in the checksum spelling: a letter is a capital when the matching half byte of a hash of the
lower-case digits is at least 8.
-/

namespace ChainScript
set_option autoImplicit false

structure Address where
  bytes : List UInt8
  length_bytes : bytes.length = 20
  deriving DecidableEq

namespace Address

/-- The address with these 20 bytes. -/
def ofFn (byte : Nat → UInt8) : Address :=
  ⟨(List.range 20).map byte, by simp⟩

def zero : Address := ofFn fun _ => 0

instance : Inhabited Address := ⟨zero⟩

def isZero (a : Address) : Bool := a == zero

/-! ## Spelling -/

def hexDigit (n : Nat) : Char := (Nat.digitChar n)

/-- The 40 digits of an address, in lower case. -/
def lowerDigits (a : Address) : List Char :=
  a.bytes.flatMap fun b => [hexDigit (b.toNat / 16), hexDigit (b.toNat % 16)]

/-- Half byte `i` of a hash. -/
def halfByte (hash : List UInt8) (i : Nat) : Nat :=
  let byte := (hash.getD (i / 2) 0).toNat
  if i % 2 = 0 then byte / 16 else byte % 16

/-- The digits from place `i` on, with a capital wherever the half byte of the hash is at least 8.
-/
def capitalize (hash : List UInt8) : Nat → List Char → List Char
  | _, [] => []
  | i, c :: cs =>
    (if 8 ≤ halfByte hash i then Text.upperChar c else c) :: capitalize hash (i + 1) cs

/-- The checksum spelling of an address under a hash of its lower-case digits. -/
def checksumWith (hash : List UInt8 → List UInt8) (a : Address) : String :=
  let digits := a.lowerDigits
  String.ofList ('0' :: 'x' :: capitalize (hash (digits.map fun c => c.toNat.toUInt8)) 0 digits)

/-- The text of an address. -/
def display (a : Address) : String := a.checksumWith Keccak.digest

/-! ## Reading -/

/-- Why a text is no address. -/
inductive Fault where
  | unmarked
  | wrongLength
  | badDigit (found : Char) (position : Nat)
  deriving DecidableEq, Inhabited

def hexValue? (c : Char) : Option Nat :=
  if '0' ≤ c ∧ c ≤ '9' then some (c.toNat - 48)
  else if 'a' ≤ c ∧ c ≤ 'f' then some (c.toNat - 87)
  else if 'A' ≤ c ∧ c ≤ 'F' then some (c.toNat - 55)
  else none

/-- The number that digits write in a base. -/
def valueInBase (base : Nat) (digits : List Char) : Nat :=
  digits.foldl (fun n c => base * n + (hexValue? c).getD 0) 0

theorem valueInBase_zeros (base count : Nat) (digits : List Char) :
    valueInBase base (List.replicate count '0' ++ digits) = valueInBase base digits := by
  induction count with
  | zero => rfl
  | succ count ih => exact ih

theorem hexValue?_digitChar {n : Nat} (h : n < 16) : hexValue? (Nat.digitChar n) = some n := by
  have hall : ∀ n < 16, hexValue? (Nat.digitChar n) = some n := by decide
  exact hall n h

theorem valueInBase_toDigits {base : Nat} (hlow : 1 < base) (hhigh : base ≤ 16) (n : Nat) :
    valueInBase base (Nat.toDigits base n) = n := by
  induction n using Nat.strongRecOn with
  | ind n ih =>
    rw [Nat.toDigits_eq_if hlow]
    by_cases hless : n < base
    · rw [if_pos hless, valueInBase, List.foldl_cons, List.foldl_nil,
        hexValue?_digitChar (by omega), Option.getD_some, Nat.mul_zero, Nat.zero_add]
    · have hmod : n % base < base := Nat.mod_lt n (by omega)
      have hdiv : n / base < n := Nat.div_lt_self (by omega) hlow
      rw [if_neg hless, valueInBase, List.foldl_append, ← valueInBase, ih _ hdiv, List.foldl_cons,
        List.foldl_nil, hexValue?_digitChar (by omega), Option.getD_some, Nat.div_add_mod]

/-- The bytes of digits taken in pairs; `position` is the byte offset of the first. -/
def decode (position : Nat) : List Char → Except Fault (List UInt8)
  | [] => .ok []
  | [c] => .error (.badDigit c position)
  | c :: d :: rest =>
    match hexValue? c, hexValue? d with
    | none, _ => .error (.badDigit c position)
    | some _, none => .error (.badDigit d (position + 1))
    | some high, some low =>
      match decode (position + 2) rest with
      | .ok bytes => .ok ((16 * high + low).toUInt8 :: bytes)
      | .error e => .error e

theorem utf8Size_of_hexValue {c : Char} {n : Nat} (h : hexValue? c = some n) : c.utf8Size = 1 := by
  have hc : c.toNat ≤ 127 := by
    simp only [hexValue?, Text.char_le_iff, Char.reduceToNat] at h
    grind
  exact Char.utf8Size_eq_one_iff.mpr (UInt32.le_iff_toNat_le.mpr hc)

/-- Decoded digits take one byte each, two for every decoded byte. -/
theorem utf8Length_of_decode {position : Nat} {digits : List Char} {bytes : List UInt8}
    (h : decode position digits = .ok bytes) : Text.utf8Length digits = 2 * bytes.length := by
  fun_induction decode position digits generalizing bytes with
  | case1 => cases h; rfl
  | case2 => exact absurd h (by simp)
  | case3 => exact absurd h (by simp)
  | case4 => exact absurd h (by simp)
  | case5 position c d rest high low hc hd bytes' hr ih =>
    cases h
    simp only [Text.utf8Length, utf8Size_of_hexValue hc, utf8Size_of_hexValue hd, ih hr,
      List.length_cons]
    omega
  | case6 => exact absurd h (by simp)

/-- The address of 40 digits. -/
def ofDigits (digits : List Char) : Except Fault Address :=
  if hl : Text.utf8Length digits = 40 then
    match h : decode 0 digits with
    | .ok bytes => .ok ⟨bytes, by have := utf8Length_of_decode h; omega⟩
    | .error e => .error e
  else .error .wrongLength

/-- The address written by a text. -/
def parse (text : String) : Except Fault Address :=
  match text.toList with
  | '0' :: 'x' :: digits => ofDigits digits
  | '0' :: 'X' :: digits => ofDigits digits
  | _ => .error .unmarked

/-- Whether a text writes an address. -/
def looksLike (text : String) : Bool :=
  match parse text with
  | .ok _ => true
  | .error _ => false

/-! ## Faults in words -/

/-- The first byte of a character in UTF-8. -/
def leadByte (c : Char) : Nat :=
  let n := c.toNat
  if n < 0x80 then n
  else if n < 0x800 then 0xC0 + n / 0x40
  else if n < 0x10000 then 0xE0 + n / 0x1000
  else 0xF0 + n / 0x40000

/-- A byte as the character of that number between apostrophes, with controls, the apostrophe and
the backslash escaped. -/
def showByte (n : Nat) : String :=
  let body :=
    if n = 0 then "\\0"
    else if n = 9 then "\\t"
    else if n = 10 then "\\n"
    else if n = 13 then "\\r"
    else if n = 39 then "\\'"
    else if n = 92 then "\\\\"
    else if n < 32 ∨ n = 127 then "\\u\x7b" ++ String.ofList (Nat.toDigits 16 n) ++ "\x7d"
    else String.ofList [Char.ofNat n]
  "'" ++ body ++ "'"

def Fault.message : Fault → String
  | .unmarked => "missing 0x prefix"
  | .wrongLength => "expected 40 hex digits"
  | .badDigit c position =>
    "Invalid character " ++ showByte (leadByte c) ++ " at position " ++ toString position

end Address

end ChainScript
