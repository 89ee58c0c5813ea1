import Mathlib.Tactic.Basic

/-!
# Hexadecimal text

Two lower-case digits for each byte, as bytes themselves.
-/

namespace Hex

/-- The digit of a number below 16. -/
def digit (n : UInt8) : UInt8 := if n < 10 then 48 + n else 87 + n

/-- The number of a digit. -/
def value (b : UInt8) : Option UInt8 :=
  if 48 ≤ b ∧ b ≤ 57 then some (b - 48) else if 97 ≤ b ∧ b ≤ 102 then some (b - 87) else none

def encode (bytes : List UInt8) : List UInt8 :=
  bytes.flatMap fun b : UInt8 => [digit (b >>> (4 : UInt8)), digit (b &&& 15)]

/-- Only an even number of lower-case digits is decoded. -/
def decode : List UInt8 → Option (List UInt8)
  | [] => some []
  | [_] => none
  | a :: b :: text => do
    let high ← value a
    let low ← value b
    let bytes ← decode text
    some ((high <<< 4 ||| low) :: bytes)

theorem encode_cons (b : UInt8) (bytes : List UInt8) :
    encode (b :: bytes) = digit (b >>> 4) :: digit (b &&& 15) :: encode bytes := rfl

/-- Each byte has its two digits. -/
theorem value_digit (b : UInt8) : ∃ high low, value (digit (b >>> 4)) = some high ∧
    value (digit (b &&& 15)) = some low ∧ high <<< 4 ||| low = b := by
  have hall : ∀ n : Fin 256, value (digit (UInt8.ofFin n >>> 4)) = some (UInt8.ofFin n >>> 4) ∧
      value (digit (UInt8.ofFin n &&& 15)) = some (UInt8.ofFin n &&& 15) ∧
      (UInt8.ofFin n >>> 4) <<< 4 ||| (UInt8.ofFin n &&& 15) = UInt8.ofFin n := by
    decide +kernel
  exact ⟨b >>> 4, b &&& 15, hall b.toFin⟩

theorem decode_encode (bytes : List UInt8) : decode (encode bytes) = some bytes := by
  induction bytes with
  | nil => rfl
  | cons b bytes ih =>
    obtain ⟨high, low, hhigh, hlow, hb⟩ := value_digit b
    rw [encode_cons, decode, hhigh, hlow, ih]
    simp [hb]

theorem length_encode (bytes : List UInt8) : (encode bytes).length = 2 * bytes.length := by
  induction bytes with
  | nil => rfl
  | cons b bytes ih =>
    rw [encode_cons, List.length_cons, List.length_cons, List.length_cons, ih]
    omega

/-- A text of digits holds no other byte. -/
theorem ne_of_mem_encode {bytes : List UInt8} {b c : UInt8} (h : b ∈ encode bytes)
    (hc : value c = none) : b ≠ c := by
  obtain ⟨a, -, ha⟩ := List.mem_flatMap.mp h
  obtain ⟨high, low, hhigh, hlow, -⟩ := value_digit a
  rintro rfl
  rcases List.mem_cons.mp ha with rfl | ha
  · rw [hhigh] at hc
    cases hc
  · rw [List.mem_singleton.mp ha, hlow] at hc
    cases hc

end Hex
