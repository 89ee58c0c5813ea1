import Mathlib.Data.List.TakeWhile
import Mathlib.Data.Nat.Digits.Defs
import Mathlib.Data.Rat.Cast.Order
import Mathlib.Tactic.FieldSimp
import Mathlib.Tactic.Linarith
import Mathlib.Tactic.Ring

/-!
# Decimals

A decimal is a mantissa over a power of ten. A reduced one has no trailing zero after its point,
so it is determined by its value. The plain text of a natural mantissa shows every digit and at
least one before the point.
-/

structure Decimal where
  mantissa : Int
  scale : Nat
deriving DecidableEq, Repr

namespace Decimal

/-- The number that a decimal stands for. -/
def value (d : Decimal) : ℚ := d.mantissa / 10 ^ d.scale

/-- There is no trailing zero after the point. -/
def Reduced (d : Decimal) : Prop := d.scale = 0 ∨ ¬(10 : Int) ∣ d.mantissa

/-- Drop the trailing zeros after the point. -/
def trim (m : Int) : Nat → Decimal
  | 0 => ⟨m, 0⟩
  | s + 1 => if m % 10 = 0 then trim (m / 10) s else ⟨m, s + 1⟩

variable {a b d : Decimal} {m : Int} {n s : Nat}

theorem value_trim : (trim m s).value = m / 10 ^ s := by
  induction s generalizing m with
  | zero => rfl
  | succ s ih =>
    rw [trim]
    split
    · next hm =>
      obtain ⟨k, rfl⟩ := Int.dvd_of_emod_eq_zero hm
      rw [ih, Int.mul_ediv_cancel_left _ (by decide), pow_succ]
      push_cast
      field_simp
    · rfl

theorem reduced_trim : (trim m s).Reduced := by
  induction s generalizing m with
  | zero => exact .inl rfl
  | succ s ih =>
    rw [trim]
    split
    · exact ih
    · next hm => exact .inr fun hdvd => hm (Int.emod_eq_zero_of_dvd hdvd)

theorem scale_trim_le : (trim m s).scale ≤ s := by
  induction s generalizing m with
  | zero => exact le_rfl
  | succ s ih =>
    rw [trim]
    split
    · exact ih.trans (Nat.le_succ s)
    · exact le_rfl

theorem mantissa_trim_nonneg (h : 0 ≤ m) : 0 ≤ (trim m s).mantissa := by
  induction s generalizing m with
  | zero => exact h
  | succ s ih =>
    rw [trim]
    split
    · exact ih (Int.ediv_nonneg h (by decide))
    · exact h

theorem mantissa_trim_le (h : 0 ≤ m) : (trim m s).mantissa ≤ m := by
  induction s generalizing m with
  | zero => exact le_rfl
  | succ s ih =>
    rw [trim]
    split
    · exact (ih (Int.ediv_nonneg h (by decide))).trans (Int.ediv_le_self _ h)
    · exact le_rfl

theorem Reduced.trim_eq (h : d.Reduced) : trim d.mantissa d.scale = d := by
  obtain ⟨m, s⟩ := d
  cases s with
  | zero => rfl
  | succ s =>
    obtain h | h := h
    · cases h
    · rw [trim, if_neg fun hm => h (Int.dvd_of_emod_eq_zero hm)]

/-- Zeros after the point do not matter. -/
theorem trim_mul_pow (k : Nat) : trim (m * 10 ^ k) (s + k) = trim m s := by
  induction k with
  | zero => rw [pow_zero, mul_one, Nat.add_zero]
  | succ k ih =>
    have hm : m * 10 ^ (k + 1) = 10 * (m * 10 ^ k) := by ring
    rw [← Nat.add_assoc, trim, hm, if_pos (Int.mul_emod_right ..),
      Int.mul_ediv_cancel_left _ (by decide), ih]

theorem trim_eq_of_le {m' : Int} {s' : Nat} (h : (m : ℚ) / 10 ^ s = m' / 10 ^ s') (hle : s ≤ s') :
    trim m s = trim m' s' := by
  obtain ⟨k, rfl⟩ := Nat.exists_eq_add_of_le hle
  have hm : m' = m * 10 ^ k := by
    rw [pow_add] at h
    field_simp at h
    exact_mod_cast h.symm
  rw [hm, trim_mul_pow]

/-- Equal numbers trim to the same decimal. -/
theorem trim_eq_trim {m' : Int} {s' : Nat} (h : (m : ℚ) / 10 ^ s = m' / 10 ^ s') :
    trim m s = trim m' s' := by
  rcases Nat.le_total s s' with hle | hle
  · exact trim_eq_of_le h hle
  · exact (trim_eq_of_le h.symm hle).symm

/-- A reduced decimal is the trimmed form of every fraction of its value. -/
theorem Reduced.eq_trim (h : d.Reduced) (hv : d.value = m / 10 ^ s) : d = trim m s := by
  rw [← h.trim_eq]
  exact trim_eq_trim hv

theorem Reduced.ext_value (ha : a.Reduced) (hb : b.Reduced) (h : a.value = b.value) : a = b := by
  rw [← hb.trim_eq]
  exact ha.eq_trim h

/-! ## Plain text -/

/-- Fill up with zeros on the left. -/
def padStart (width : Nat) (digits : List Char) : List Char :=
  List.replicate (width - digits.length) '0' ++ digits

/-- The digits of a mantissa, with at least one before the point. -/
def digits (n s : Nat) : List Char := padStart (s + 1) (Nat.toDigits 10 n)

theorem length_digits : (digits n s).length = max (Nat.toDigits 10 n).length (s + 1) := by
  rw [digits, padStart, List.length_append, List.length_replicate]
  omega

theorem digits_isDigit {c : Char} (h : c ∈ digits n s) : c.isDigit = true := by
  rcases List.mem_append.mp h with h | h
  · rw [List.eq_of_mem_replicate h]
    decide
  · exact Nat.isDigit_of_mem_toDigits (by decide) (by decide) h

theorem ofDigitChars_digits : Nat.ofDigitChars 10 (digits n s) 0 = n := by
  rw [digits, padStart, Nat.ofDigitChars_append, Nat.ofDigitChars_replicate_zero, Nat.mul_zero]
  exact Nat.ofDigitChars_ten_toDigits

/-- The digits are few when the mantissa and the scale are small. -/
theorem length_digits_le_iff {k : Nat} (hk : 0 < k) :
    (digits n s).length ≤ k ↔ n < 10 ^ k ∧ s < k := by
  rw [length_digits, max_le_iff, Nat.length_toDigits_le_iff (by decide) hk]
  rfl

theorem ofDigitChars_lt {l : List Char} (h : ∀ c ∈ l, c.isDigit = true) (init : Nat) :
    Nat.ofDigitChars 10 l init < 10 ^ l.length * (init + 1) := by
  induction l generalizing init with
  | nil => simp
  | cons c l ih =>
    have hc := h c List.mem_cons_self
    have hdigit : c.toNat - '0'.toNat ≤ 9 := by
      rw [Char.isDigit, Bool.and_eq_true, decide_eq_true_eq, decide_eq_true_eq] at hc
      have hle : c.toNat ≤ '9'.toNat := hc.2
      have hnine : '9'.toNat = 57 := rfl
      have hzero : '0'.toNat = 48 := rfl
      omega
    rw [Nat.ofDigitChars_cons, List.length_cons]
    refine (ih (fun c hc => h c (List.mem_cons_of_mem _ hc)) _).trans_le ?_
    rw [pow_succ, Nat.mul_assoc]
    refine Nat.mul_le_mul_left _ ?_
    omega

/-- Write the point before the last `s` digits. -/
def point (digits : List Char) (s : Nat) : List Char :=
  if s = 0 then digits
  else digits.take (digits.length - s) ++ '.' :: digits.drop (digits.length - s)

/-- `split_once('.')`, without the point when there is none. -/
def splitPoint (text : List Char) : List Char × Option (List Char) :=
  (text.takeWhile (· ≠ '.'), (text.dropWhile (· ≠ '.')).tail?)

theorem splitPoint_of_not_mem {text : List Char} (h : '.' ∉ text) : splitPoint text = (text, none) := by
  have hall : ∀ c ∈ text, decide (c ≠ '.') = true := by
    intro c hc
    exact decide_eq_true fun he => h (he ▸ hc)
  rw [splitPoint, List.takeWhile_eq_self_iff.mpr hall, List.dropWhile_eq_nil_iff.mpr hall]
  rfl

theorem splitPoint_append {whole fraction : List Char} (h : '.' ∉ whole) :
    splitPoint (whole ++ '.' :: fraction) = (whole, some fraction) := by
  have hall : ∀ c ∈ whole, decide (c ≠ '.') = true := by
    intro c hc
    exact decide_eq_true fun he => h (he ▸ hc)
  rw [splitPoint, List.takeWhile_append_of_pos hall, List.dropWhile_append_of_pos hall]
  simp

/-- The digits before the point and after it. -/
theorem splitPoint_point {l : List Char} (h : '.' ∉ l) :
    splitPoint (point l s) = if s = 0 then (l, none)
      else (l.take (l.length - s), some (l.drop (l.length - s))) := by
  unfold point
  split
  · exact splitPoint_of_not_mem h
  · exact splitPoint_append fun hmem => h (List.mem_of_mem_take hmem)

end Decimal
