import Mathlib.Data.List.TakeWhile
import Mathlib.Data.Nat.Digits.Defs
import Mathlib.Data.Rat.Lemmas
import Mathlib.Tactic.FieldSimp

/-!
# Texts of fractions

A nonnegative rational is written as its reduced numerator, with `/` and the reduced denominator
behind it unless it is an integer. Reading the text gives the rational again.
-/

namespace Fraction

/-- The text of a reduced fraction. -/
def text (q : ℚ) : String :=
  if q.den = 1 then s!"{q.num}" else s!"{q.num}/{q.den}"

/-- `split_once`: the characters before a separator, and those behind it. -/
def splitOnce (separator : Char) (chars : List Char) : List Char × Option (List Char) :=
  (chars.takeWhile (· ≠ separator), (chars.dropWhile (· ≠ separator)).tail?)

/-- The value of a text `n` or `n/d`. -/
def read (text : String) : ℚ :=
  match splitOnce '/' text.toList with
  | (n, none) => Nat.ofDigitChars 10 n 0
  | (n, some d) => Nat.ofDigitChars 10 n 0 / Nat.ofDigitChars 10 d 0

variable {separator : Char} {chars behind : List Char} {n d : Nat} {q : ℚ}

theorem splitOnce_of_not_mem (h : separator ∉ chars) : splitOnce separator chars = (chars, none) := by
  have hall : ∀ c ∈ chars, decide (c ≠ separator) = true := by
    intro c hc
    exact decide_eq_true fun he => h (he ▸ hc)
  rw [splitOnce, List.takeWhile_eq_self_iff.mpr hall, List.dropWhile_eq_nil_iff.mpr hall]
  rfl

theorem splitOnce_append (h : separator ∉ chars) :
    splitOnce separator (chars ++ separator :: behind) = (chars, some behind) := by
  have hall : ∀ c ∈ chars, decide (c ≠ separator) = true := by
    intro c hc
    exact decide_eq_true fun he => h (he ▸ hc)
  rw [splitOnce, List.takeWhile_append_of_pos hall, List.dropWhile_append_of_pos hall]
  simp

theorem slash_not_mem_digits : '/' ∉ Nat.toDigits 10 n := fun h =>
  absurd (Nat.isDigit_of_mem_toDigits (by decide) (by decide) h) (by decide)

theorem read_nat : read s!"{n}" = n := by
  have hchars : (s!"{n}").toList = Nat.toDigits 10 n := Nat.toList_repr
  rw [read, hchars, splitOnce_of_not_mem slash_not_mem_digits]
  dsimp only
  rw [Nat.ofDigitChars_ten_toDigits]

theorem read_div : read s!"{n}/{d}" = n / d := by
  have hchars : (s!"{n}/{d}").toList = Nat.toDigits 10 n ++ '/' :: Nat.toDigits 10 d := by
    change (n.repr ++ "/" ++ d.repr).toList = _
    rw [String.toList_append, String.toList_append, Nat.toList_repr, Nat.toList_repr,
      List.append_assoc]
    rfl
  rw [read, hchars, splitOnce_append slash_not_mem_digits]
  dsimp only
  rw [Nat.ofDigitChars_ten_toDigits, Nat.ofDigitChars_ten_toDigits]

/-- The numerator of a nonnegative rational is written as a natural number. -/
theorem text_of_nonneg (h : 0 ≤ q) :
    text q = if q.den = 1 then s!"{q.num.toNat}" else s!"{q.num.toNat}/{q.den}" := by
  obtain ⟨n, hn⟩ := Int.eq_ofNat_of_zero_le (Rat.num_nonneg.mpr h)
  rw [text, hn]
  rfl

/-- **The text of a fraction reads back.** -/
theorem read_text (h : 0 ≤ q) : read (text q) = q := by
  have hnum : ((q.num.toNat : ℕ) : ℚ) = q.num := by
    exact_mod_cast Int.toNat_of_nonneg (Rat.num_nonneg.mpr h)
  rw [text_of_nonneg h]
  split
  · next hden =>
    rw [read_nat, hnum]
    exact Rat.coe_int_num_of_den_eq_one hden
  · rw [read_div, hnum]
    exact Rat.num_div_den q

/-- Reducing a fraction by the greatest common divisor of its parts gives the rational's own
numerator and denominator. -/
theorem text_div (hd : d ≠ 0) :
    text ((n : ℚ) / d) =
      if d / n.gcd d = 1 then s!"{n / n.gcd d}" else s!"{n / n.gcd d}/{d / n.gcd d}" := by
  have hq : (n : ℚ) / d = Rat.divInt n d := (Rat.divInt_eq_div ..).symm
  have hnum : ((n : ℚ) / d).num = ((n / n.gcd d : ℕ) : ℤ) := by
    rw [hq, Rat.num_divInt, Int.sign_natCast_of_ne_zero hd, one_mul, Int.gcd_natCast_natCast,
      Nat.gcd_comm, Int.natCast_ediv]
  have hden : ((n : ℚ) / d).den = d / n.gcd d := by
    rw [hq, Rat.den_divInt, if_neg (by exact_mod_cast hd), Int.gcd_natCast_natCast, Nat.gcd_comm]
    rfl
  rw [text, hnum, hden]
  rfl

end Fraction
