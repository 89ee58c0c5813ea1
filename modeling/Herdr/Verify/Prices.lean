import Mathlib.Algebra.BigOperators.Group.List.Basic
import Mathlib.Algebra.Order.BigOperators.Group.List
import Mathlib.Tactic.NormNum
import Herdr.Telemetry.Price

/-!
# Priced amounts

What `price` computes is the exact sum of its rates and tokens, and nothing in it overflows. The
stored text of an amount is read back as long as it has at most 36 digits.
-/

namespace Herdr.Cost

open Decimal (point splitPoint trim value Reduced)

/-! ## Results -/

theorem ensure_bind {p : Prop} [Decidable p] {message : String} {α : Type} {x : Except Fault α}
    {a : α} : (ensure p message >>= fun _ => x) = .ok a ↔ p ∧ x = .ok a := by
  unfold ensure
  split
  · next h => exact ⟨fun hx => ⟨h, hx⟩, And.right⟩
  · next h => exact ⟨nofun, fun hx => absurd hx.1 h⟩

theorem ensure_not_overflow {p : Prop} [Decidable p] {message : String} {α : Type}
    {x : Except Fault α} (hx : x ≠ .error .overflow) :
    (ensure p message >>= fun _ => x) ≠ .error .overflow := by
  unfold ensure
  split
  · exact hx
  · exact nofun

theorem inI128_iff {n : Int} : inI128 n = true ↔ -2 ^ 127 ≤ n ∧ n < 2 ^ 127 := by
  simp only [inI128, Bool.and_eq_true, decide_eq_true_eq]
  omega

theorem i128_ok {n : Int} (hlow : 0 ≤ n) (hhigh : n < 2 ^ 127) : i128 n = .ok n := by
  rw [i128, if_pos (inI128_iff.mpr ⟨by omega, hhigh⟩)]

theorem checked_some {n m : Int} (h : checked n = some m) : m = n ∧ n < 2 ^ 127 := by
  unfold checked at h
  split at h
  · next hin =>
    cases h
    exact ⟨rfl, (inI128_iff.mp hin).2⟩
  · cases h

/-! ## Amounts -/

/-- An amount that `i128` holds. -/
structure Held (d : Dec) : Prop where
  reduced : Decimal.Reduced d
  nonneg : 0 ≤ d.mantissa
  bounded : d.mantissa < 2 ^ 127

theorem held_zero : Held Dec.zero := ⟨.inl rfl, le_rfl, by norm_num [Dec.zero]⟩

theorem held_trim {m : Int} {s : Nat} (hlow : 0 ≤ m) (hhigh : m < 2 ^ 127) : Held (trim m s) :=
  ⟨Decimal.reduced_trim, Decimal.mantissa_trim_nonneg hlow,
    (Decimal.mantissa_trim_le hlow).trans_lt hhigh⟩

theorem widen_ok {d : Dec} {scale : Nat} {m : Int} (hle : d.scale ≤ scale)
    (h : d.widen scale = some m) : (m : ℚ) / 10 ^ scale = value d ∧ (0 ≤ d.mantissa → 0 ≤ m) := by
  simp only [Dec.widen, Option.bind_eq_bind, Option.bind_eq_some_iff] at h
  obtain ⟨power, hpower, hm⟩ := h
  obtain ⟨rfl, -⟩ := checked_some hpower
  obtain ⟨rfl, -⟩ := checked_some hm
  obtain ⟨k, rfl⟩ := Nat.exists_eq_add_of_le hle
  refine ⟨?_, fun hd => Int.mul_nonneg hd (by positivity)⟩
  rw [Nat.add_sub_cancel_left, Decimal.value, pow_add]
  push_cast
  field_simp

/-- **Addition** is exact. -/
theorem add_ok {a b c : Dec} (ha : Held a) (hb : Held b) (h : a.add b = .ok c) :
    Held c ∧ value c = value a + value b := by
  unfold Dec.add at h
  cases hsum : a.sumMantissa b with
  | none =>
    rw [hsum] at h
    cases h
  | some m =>
    rw [hsum] at h
    cases h
    simp only [Dec.sumMantissa, Option.bind_eq_bind, Option.bind_eq_some_iff] at hsum
    obtain ⟨x, hx, y, hy, hm⟩ := hsum
    obtain ⟨hxv, hx⟩ := widen_ok (le_max_left ..) hx
    obtain ⟨hyv, hy⟩ := widen_ok (le_max_right ..) hy
    obtain ⟨rfl, hlt⟩ := checked_some hm
    refine ⟨held_trim (Int.add_nonneg (hx ha.nonneg) (hy hb.nonneg)) hlt, ?_⟩
    rw [Decimal.value_trim, ← hxv, ← hyv]
    push_cast
    ring

theorem add_not_overflow {a b : Dec} : a.add b ≠ .error .overflow := by
  unfold Dec.add
  cases a.sumMantissa b <;> exact nofun

/-- What `rate` accepts. -/
structure Rated (d : Dec) : Prop where
  reduced : Decimal.Reduced d
  nonneg : 0 ≤ d.mantissa
  bounded : d.mantissa < 10 ^ 18
  places : d.scale ≤ 12

/-- **Multiplication** by tokens stays in `i128`. -/
theorem times_ok {d : Dec} {tokens : Int} {places : Nat} (h : Rated d) (hlow : 0 ≤ tokens)
    (hhigh : tokens < 2 ^ 63) : ∃ a, d.times tokens places = .ok a ∧ Held a ∧
      value a = value d * tokens / 10 ^ places := by
  have hnonneg : 0 ≤ d.mantissa * tokens := Int.mul_nonneg h.nonneg hlow
  have hlt : d.mantissa * tokens < 2 ^ 127 :=
    calc d.mantissa * tokens ≤ 10 ^ 18 * 2 ^ 63 :=
          mul_le_mul h.bounded.le hhigh.le hlow (by norm_num)
      _ < 2 ^ 127 := by norm_num
  refine ⟨_, ?_, held_trim (s := d.scale + places) hnonneg hlt, ?_⟩
  · rw [Dec.times, i128_ok hnonneg hlt]
    rfl
  · rw [Decimal.value_trim, Decimal.value, pow_add]
    push_cast
    field_simp

/-! ## Texts -/

/-- The text of an amount. -/
def plainText (d : Dec) : String :=
  String.ofList (point (Decimal.digits d.mantissa.toNat d.scale) d.scale)

theorem text_ok {d : Dec} (h : Held d) : d.text = .ok (plainText d) := by
  rw [Dec.text, Dec.rounded, if_neg (not_lt.mpr h.nonneg), Dec.roundedPlain, if_pos le_rfl,
    Dec.atScale, Nat.sub_self, pow_zero, i128_ok (by norm_num) (by norm_num)]
  change ((i128 (d.mantissa * 1)) >>= _) = _
  rw [mul_one, i128_ok h.nonneg h.bounded]
  rfl

theorem byteLen_digits {l : List Char} (h : ∀ c ∈ l, c.isDigit = true) : Dec.byteLen l = l.length := by
  induction l with
  | nil => rfl
  | cons c l ih =>
    have hsize : c.utf8Size = 1 := by
      have hc := h c List.mem_cons_self
      rw [Char.isDigit, Bool.and_eq_true, decide_eq_true_eq, decide_eq_true_eq] at hc
      exact Char.utf8Size_eq_one_iff.mpr (UInt32.le_trans hc.2 (by decide))
    have hrest := ih fun c hc => h c (List.mem_cons_of_mem _ hc)
    rw [Dec.byteLen, List.map_cons, List.sum_cons, hsize, ← Dec.byteLen, hrest, List.length_cons,
      Nat.add_comm]

/-- The parts of a plain text. -/
theorem splitPoint_parts {l : List Char} {s : Nat} (hpoint : '.' ∉ l) (hlen : s < l.length) :
    ∃ whole rest, splitPoint (point l s) = (whole, rest) ∧ whole ≠ [] ∧
      whole ++ rest.getD [] = l ∧ (rest.getD []).length = s ∧
      (rest.isSome = true → rest.getD [] ≠ []) := by
  rw [Decimal.splitPoint_point hpoint]
  split
  · next hs =>
    subst hs
    exact ⟨_, _, rfl, List.ne_nil_of_length_pos hlen, List.append_nil l, rfl, nofun⟩
  · next hs =>
    have hdrop : (l.drop (l.length - s)).length = s := by
      rw [List.length_drop]
      omega
    refine ⟨_, _, rfl, List.ne_nil_of_length_pos ?_, List.take_append_drop .., hdrop, fun _ => ?_⟩
    · rw [List.length_take]
      omega
    · exact List.ne_nil_of_length_pos (by rw [Option.getD_some, hdrop]; omega)

/-- Reading back a plain text: few enough digits give the trimmed mantissa. -/
theorem parse_point {l : List Char} {s : Nat} (hdigits : ∀ c ∈ l, c.isDigit = true)
    (hlen : s < l.length) : Dec.parse (String.ofList (point l s)) =
      if l.length ≤ 36 then .ok (trim (Nat.ofDigitChars 10 l 0) s)
      else .error (.refused
        (Dec.quoted (String.ofList (point l s)) ++ " is not a plain non-negative decimal")) := by
  have hpoint : '.' ∉ l := by
    intro hmem
    have hdigit := hdigits '.' hmem
    revert hdigit
    decide
  obtain ⟨whole, rest, hsplit, hwhole, happend, hfraction, hrest⟩ := splitPoint_parts hpoint hlen
  have hall : (whole ++ rest.getD []).all Char.isDigit = true := by
    rw [happend]
    exact List.all_eq_true.mpr hdigits
  have hbytes : Dec.byteLen whole + Dec.byteLen (rest.getD []) = l.length := by
    rw [← byteLen_digits hdigits, ← happend]
    simp [Dec.byteLen]
  rw [Dec.parse, String.toList_ofList, hsplit]
  dsimp only
  simp only [hfraction, hbytes, hall, ensure, ne_eq, hwhole, not_false_eq_true, true_and]
  rw [happend]
  by_cases hfits : l.length ≤ 36
  · rw [if_pos ⟨hrest, hfits⟩, if_pos hfits]
    rfl
  · rw [if_neg fun h => hfits h.2, if_neg hfits]
    rfl

/-- **The text of an amount** is read back when it has at most 36 digits. -/
theorem parse_plainText {d : Dec} (h : Held d) : Dec.parse (plainText d) =
    if d.mantissa < 10 ^ 36 ∧ d.scale < 36 then .ok d
    else .error (.refused
      (Dec.quoted (plainText d) ++ " is not a plain non-negative decimal")) := by
  have hdigits : ∀ c ∈ Decimal.digits d.mantissa.toNat d.scale, c.isDigit = true :=
    fun c hc => Decimal.digits_isDigit hc
  have hlen : d.scale < (Decimal.digits d.mantissa.toNat d.scale).length := by
    rw [Decimal.length_digits]
    omega
  have hmantissa : ((d.mantissa.toNat : Nat) : Int) = d.mantissa := Int.toNat_of_nonneg h.nonneg
  have hiff : (Decimal.digits d.mantissa.toNat d.scale).length ≤ 36 ↔
      d.mantissa < 10 ^ 36 ∧ d.scale < 36 := by
    rw [Decimal.length_digits_le_iff (by decide)]
    omega
  rw [plainText, parse_point hdigits hlen, Decimal.ofDigitChars_digits, hmantissa,
    h.reduced.trim_eq]
  simp only [hiff]

/-! ## Digits -/

/-- The number can be written with at most 36 digits, one of them before the point. -/
def Fits (x : ℚ) : Prop := ∃ n s : Nat, n < 10 ^ 36 ∧ s < 36 ∧ x = n / 10 ^ s

theorem fits_iff {d : Dec} (h : Held d) :
    Fits (value d) ↔ d.mantissa < 10 ^ 36 ∧ d.scale < 36 := by
  constructor
  · rintro ⟨n, s, hn, hs, hv⟩
    have hd : d = trim n s := h.reduced.eq_trim (by rw [hv, Int.cast_natCast])
    have hle : (trim (n : Int) s).mantissa ≤ n := Decimal.mantissa_trim_le (by omega)
    have hscale : (trim (n : Int) s).scale ≤ s := Decimal.scale_trim_le
    rw [hd]
    omega
  · rintro ⟨hm, hs⟩
    have hnonneg := h.nonneg
    refine ⟨d.mantissa.toNat, d.scale, by omega, hs, ?_⟩
    have hmantissa : ((d.mantissa.toNat : Nat) : Int) = d.mantissa := Int.toNat_of_nonneg hnonneg
    rw [Decimal.value, ← hmantissa]
    rfl

/-- Reading back an amount, by its value. -/
theorem parse_iff {d : Dec} (h : Held d) :
    (∃ c, Dec.parse (plainText d) = .ok c) ↔ Fits (value d) := by
  rw [fits_iff h, parse_plainText h]
  split
  · next hfits => exact ⟨fun _ => hfits, fun _ => ⟨d, rfl⟩⟩
  · next hfits => exact ⟨nofun, fun hf => absurd hf hfits⟩

theorem i128_isOk {n : Int} (hlow : 0 ≤ n) : (∃ m, i128 n = .ok m) ↔ n < 2 ^ 127 := by
  constructor
  · rintro ⟨m, h⟩
    unfold i128 at h
    split at h
    · next hin => exact (inI128_iff.mp hin).2
    · cases h
  · exact fun h => ⟨n, i128_ok hlow h⟩

theorem map_isOk {α β : Type} {x : Except Fault α} {f : α → β} :
    (∃ b, (x >>= fun a => pure (f a)) = .ok b) ↔ ∃ a, x = .ok a := by
  cases x with
  | error e => exact ⟨fun ⟨_, h⟩ => (nomatch h), fun ⟨_, h⟩ => (nomatch h)⟩
  | ok a => exact ⟨fun _ => ⟨a, rfl⟩, fun _ => ⟨f a, rfl⟩⟩

/-- Few decimals are filled up to six. -/
theorem atScale_six {d : Dec} (h : Held d) (hs : d.scale ≤ 6) :
    (∃ n, d.atScale 6 = .ok n) ↔ value d * 10 ^ 6 < 2 ^ 127 := by
  have hpower : (10 : Int) ^ (6 - d.scale) ≤ 10 ^ 6 := pow_le_pow_right₀ (by norm_num) (by omega)
  have hpow : i128 (10 ^ (6 - d.scale)) = .ok (10 ^ (6 - d.scale)) :=
    i128_ok (by positivity) (hpower.trans_lt (by norm_num))
  have hvalue : value d * 10 ^ 6 = ((d.mantissa * 10 ^ (6 - d.scale) : Int) : ℚ) := by
    obtain ⟨k, hk⟩ := Nat.exists_eq_add_of_le hs
    rw [Decimal.value, hk, Nat.add_sub_cancel_left, pow_add]
    push_cast
    field_simp
  rw [Dec.atScale, hpow, hvalue]
  change (∃ n, i128 (d.mantissa * 10 ^ (6 - d.scale)) = .ok n) ↔ _
  rw [i128_isOk (Int.mul_nonneg h.nonneg (by positivity))]
  exact_mod_cast Iff.rfl

/-- Six places of an amount that can be read back stay in `i128` below the bound. -/
theorem rounded_iff {d : Dec} (h : Held d) (hfits : Fits (value d)) :
    (∃ text, d.rounded textPlaces = .ok text) ↔ value d * 10 ^ 6 < 2 ^ 127 := by
  obtain ⟨hm, hs⟩ := (fits_iff h).mp hfits
  rw [Dec.rounded, if_neg (not_lt.mpr h.nonneg), Dec.roundedPlain, textPlaces]
  split
  · next hle =>
    rw [map_isOk]
    exact atScale_six h hle
  · next hlt =>
    have hpower : (10 : Int) ^ (d.scale - 6) ≤ 10 ^ 30 :=
      pow_le_pow_right₀ (by norm_num) (by omega)
    have hpositive : (0 : Int) < 10 ^ (d.scale - 6) := by positivity
    have hhalf : (10 : Int) ^ (d.scale - 6) / 2 ≤ 10 ^ (d.scale - 6) :=
      Int.ediv_le_self _ hpositive.le
    have hnonneg := h.nonneg
    have hsum : d.mantissa + 10 ^ (d.scale - 6) / 2 < 2 ^ 127 := by
      have : (10 : Int) ^ 36 + 10 ^ 30 < 2 ^ 127 := by norm_num
      omega
    have hsum_nonneg : 0 ≤ d.mantissa + 10 ^ (d.scale - 6) / 2 :=
      Int.add_nonneg hnonneg (Int.ediv_nonneg hpositive.le (by decide))
    rw [i128_ok hpositive.le (hpower.trans_lt (by norm_num))]
    change (∃ text, (i128 (d.mantissa + 10 ^ (d.scale - 6) / 2) >>= _) = Except.ok text) ↔ _
    rw [i128_ok hsum_nonneg hsum]
    refine ⟨fun _ => ?_, fun _ => ⟨_, rfl⟩⟩
    have hscale : (10 : ℚ) ^ 6 ≤ 10 ^ d.scale := pow_le_pow_right₀ (by norm_num) (by omega)
    have hmantissa : (d.mantissa : ℚ) < 10 ^ 36 := by exact_mod_cast hm
    have hcast : (0 : ℚ) ≤ d.mantissa := by exact_mod_cast hnonneg
    calc value d * 10 ^ 6 = (d.mantissa : ℚ) * (10 ^ 6 / 10 ^ d.scale) := by
          rw [Decimal.value]
          ring
      _ ≤ (d.mantissa : ℚ) * 1 := by
          refine mul_le_mul_of_nonneg_left ?_ hcast
          exact div_le_one_of_le₀ hscale (by positivity)
      _ < 2 ^ 127 := by
          rw [mul_one]
          exact hmantissa.trans (by norm_num)

/-! ## Rates -/

theorem parse_ok {text : String} {d : Dec} {whole : List Char} {rest : Option (List Char)}
    (hsplit : splitPoint text.toList = (whole, rest)) (h : Dec.parse text = .ok d) :
    (∀ c ∈ whole ++ rest.getD [], c.isDigit = true) ∧
      d = trim (Nat.ofDigitChars 10 (whole ++ rest.getD []) 0) (rest.getD []).length := by
  rw [Dec.parse, hsplit] at h
  obtain ⟨⟨-, hall, -⟩, h⟩ := ensure_bind.mp h
  cases h
  exact ⟨List.all_eq_true.mp hall, rfl⟩

theorem mapError_ok {x : Except Fault Dec} {f : Fault → Fault} {d : Dec}
    (h : x.mapError f = .ok d) : x = .ok d := by
  cases x with
  | error e => cases h
  | ok c =>
    cases h
    rfl

/-- **What `rate` accepts** has at most 18 digits. -/
theorem rate_ok {text : String} {d : Dec} (h : Dec.rate text = .ok d) : Rated d := by
  obtain ⟨whole, rest, hsplit⟩ : ∃ whole rest, splitPoint text.toList = (whole, rest) := ⟨_, _, rfl⟩
  rw [Dec.rate, hsplit] at h
  obtain ⟨⟨hfraction, hdigits⟩, h⟩ := ensure_bind.mp h
  obtain ⟨hall, rfl⟩ := parse_ok hsplit (mapError_ok h)
  have hwhole := byteLen_digits fun c hc => hall c (List.mem_append_left _ hc)
  have hrest := byteLen_digits fun c hc => hall c (List.mem_append_right _ hc)
  rw [hrest] at hfraction hdigits
  rw [hwhole] at hdigits
  have hlt := Decimal.ofDigitChars_lt hall 0
  have hpow : 10 ^ (whole ++ rest.getD []).length ≤ 10 ^ 18 := by
    refine Nat.pow_le_pow_right (by decide) ?_
    rw [List.length_append]
    exact hdigits
  have hmantissa := Decimal.mantissa_trim_le (s := (rest.getD []).length)
    (Int.natCast_nonneg (Nat.ofDigitChars 10 (whole ++ rest.getD []) 0))
  exact ⟨Decimal.reduced_trim, Decimal.mantissa_trim_nonneg (Int.natCast_nonneg _), by omega,
    Decimal.scale_trim_le.trans hfraction⟩

theorem Rated.held {d : Dec} (h : Rated d) : Held d :=
  ⟨h.reduced, h.nonneg, h.bounded.trans (by norm_num)⟩

/-- The canonical text of a rate is a rate, the same one. -/
theorem rate_plainText {d : Dec} (h : Rated d) : Dec.rate (plainText d) = .ok d := by
  have hdigits : ∀ c ∈ Decimal.digits d.mantissa.toNat d.scale, c.isDigit = true :=
    fun c hc => Decimal.digits_isDigit hc
  have hpoint : '.' ∉ Decimal.digits d.mantissa.toNat d.scale := by
    intro hmem
    have hdigit := hdigits '.' hmem
    revert hdigit
    decide
  have hlen : d.scale < (Decimal.digits d.mantissa.toNat d.scale).length := by
    rw [Decimal.length_digits]
    omega
  have hshort : (Decimal.digits d.mantissa.toNat d.scale).length ≤ 18 := by
    have hnonneg := h.nonneg
    have hbounded := h.bounded
    have hplaces := h.places
    rw [Decimal.length_digits_le_iff (by decide)]
    omega
  obtain ⟨whole, rest, hsplit, -, happend, hfraction, -⟩ := splitPoint_parts hpoint hlen
  rw [← happend] at hdigits hshort
  have hwhole := byteLen_digits fun c hc => hdigits c (List.mem_append_left _ hc)
  have hrest := byteLen_digits fun c hc => hdigits c (List.mem_append_right _ hc)
  have hparse : Dec.parse (plainText d) = .ok d := by
    rw [parse_plainText h.held, if_pos]
    exact ⟨h.bounded.trans (by norm_num), h.places.trans_lt (by decide)⟩
  have hsmall : Dec.byteLen (rest.getD []) ≤ 12 ∧
      Dec.byteLen whole + Dec.byteLen (rest.getD []) ≤ 18 := by
    rw [hwhole, hrest, hfraction]
    rw [List.length_append, hfraction] at hshort
    exact ⟨h.places, hshort⟩
  rw [Dec.rate, plainText, String.toList_ofList, hsplit]
  dsimp only
  rw [ensure, if_pos hsmall, ← plainText, hparse]
  rfl

/-! ## Cards -/

/-- The rate that a text stands for. -/
def RateFile.dec (r : RateFile) : Dec :=
  match Dec.rate r.rate with
  | .ok d => d
  | .error _ => Dec.zero

/-- What an accepted card promises. -/
structure Accepted (f : CardFile) : Prop where
  unit : ∃ k : Nat, f.rateUnit = 10 ^ k
  rates : ∀ r ∈ f.rates, Dec.rate r.rate = .ok r.dec ∧ Rated r.dec

theorem RateFile.canonical_ok {r r' : RateFile} (h : r.canonical = .ok r') :
    Dec.rate r'.rate = .ok r'.dec ∧ Rated r'.dec := by
  obtain ⟨-, h⟩ := ensure_bind.mp h
  obtain ⟨-, h⟩ := ensure_bind.mp h
  cases hrate : Dec.rate r.rate with
  | error e =>
    rw [hrate] at h
    cases h
  | ok d =>
    have hd := rate_ok hrate
    rw [hrate] at h
    change (d.text >>= _) = _ at h
    rw [text_ok hd.held] at h
    cases h
    have hback := rate_plainText hd
    have hdec : RateFile.dec { r with rate := plainText d } = d := by
      rw [RateFile.dec, hback]
    rw [hdec]
    exact ⟨hback, hd⟩

theorem mapM_forall {α β : Type} {f : α → Except Fault β} {P : β → Prop}
    (hf : ∀ a b, f a = .ok b → P b) {l : List α} {l' : List β} (h : l.mapM f = .ok l') :
    ∀ b ∈ l', P b := by
  induction l generalizing l' with
  | nil =>
    cases h
    simp
  | cons a l ih =>
    rw [List.mapM_cons] at h
    cases ha : f a with
    | error e =>
      rw [ha] at h
      cases h
    | ok b =>
      rw [ha] at h
      change (l.mapM f >>= _) = _ at h
      cases hl : l.mapM f with
      | error e =>
        rw [hl] at h
        cases h
      | ok bs =>
        rw [hl] at h
        cases h
        intro c hc
        rcases List.mem_cons.mp hc with rfl | hc
        · exact hf a c ha
        · exact ih hl c hc

theorem canonical_ok {raw f : CardFile} (h : canonical raw = .ok f) : Accepted f := by
  simp only [canonical, ensure_bind] at h
  obtain ⟨-, -, -, -, -, ⟨k, -, hunit⟩, -, -, -, h⟩ := h
  cases hrates : raw.rates.mapM RateFile.canonical with
  | error e =>
    rw [hrates] at h
    cases h
  | ok rates =>
    rw [hrates] at h
    obtain ⟨-, h⟩ := ensure_bind.mp h
    cases h
    refine ⟨⟨k, hunit.symm⟩, fun r hr => ?_⟩
    have hmem := (List.destutter_sublist ..).subset hr
    rw [List.mem_insertionSort] at hmem
    exact mapM_forall (fun _ _ => RateFile.canonical_ok) hrates r hmem

theorem mapM_map {α β : Type} {f : α → Except Fault β} {g : α → β} {l : List α}
    (h : ∀ a ∈ l, f a = .ok (g a)) : l.mapM f = .ok (l.map g) := by
  induction l with
  | nil => rfl
  | cons a l ih =>
    rw [List.mapM_cons, h a List.mem_cons_self, ih fun b hb => h b (List.mem_cons_of_mem _ hb)]
    rfl

/-- The card that an accepted file is read back as. -/
def CardFile.card (f : CardFile) : Card where
  id := f.cardId
  version := f.version
  provider := f.provider
  currency := f.currency
  places := Nat.log 10 f.rateUnit.toNat
  effectiveFrom := f.effectiveFromUnixMs
  effectiveTo := f.effectiveToUnixMs
  rates := f.rates.map fun r => (r.category, r.cacheTier, r.dec)

def CardFile.listed (f : CardFile) : Listed := (f.product, f.models, f.card)

/-- **Every accepted card** is read back. -/
theorem Accepted.load {f : CardFile} (h : Accepted f) : f.load = .ok f.listed := by
  have hrates : f.rates.mapM RateFile.load =
      .ok (f.rates.map fun r => (r.category, r.cacheTier, r.dec)) := by
    refine mapM_map fun r hr => ?_
    rw [RateFile.load, (h.rates r hr).1]
    rfl
  rw [CardFile.load, hrates]
  rfl

theorem Accepted.places {f : CardFile} (h : Accepted f) :
    (10 : ℚ) ^ f.card.places = f.rateUnit := by
  obtain ⟨k, hk⟩ := h.unit
  have hlog : f.card.places = k := by
    have hnat : f.rateUnit.toNat = 10 ^ k := by
      rw [hk]
      exact_mod_cast Int.toNat_natCast (10 ^ k)
    rw [CardFile.card, hnat, Nat.log_pow (by decide)]
  rw [hlog, hk]
  push_cast
  rfl

/-! ## Prices -/

/-- The exact amount of a category: its rates times its tokens over the unit of the card. -/
def CardFile.amount (f : CardFile) (b : String × Int) : ℚ :=
  ((f.rates.filter fun r => r.category = b.1).map fun r => value r.dec).sum * b.2 / f.rateUnit

/-- The categories that are billed. -/
def charged (q : Quantities) : List (String × Int) := (billed q).filter fun b => b.2 ≠ 0

/-- The exact sum over the categories. -/
def CardFile.exact (f : CardFile) (q : Quantities) : ℚ := ((charged q).map f.amount).sum

theorem ratesOf_card (f : CardFile) (category : String) : f.card.ratesOf category =
    (f.rates.filter fun r => r.category = category).map RateFile.dec := by
  rw [Card.ratesOf, CardFile.card]
  simp only [List.filter_map, List.map_map]
  rfl

/-- One category of an accepted card. -/
theorem Accepted.amount {f : CardFile} (h : Accepted f) {b : String × Int} {rate : Dec}
    (hrate : f.card.ratesOf b.1 = [rate]) (hlow : 0 ≤ b.2) (hhigh : b.2 < 2 ^ 63) :
    ∃ a, rate.times b.2 f.card.places = .ok a ∧ Held a ∧ value a = f.amount b := by
  rw [ratesOf_card] at hrate
  obtain ⟨r, hr, rfl⟩ := List.map_eq_singleton_iff.mp hrate
  have hmem := (List.mem_filter.mp (hr ▸ List.mem_singleton_self r)).1
  obtain ⟨a, ha, hheld, hvalue⟩ := times_ok (h.rates r hmem).2 hlow hhigh
  refine ⟨a, ha, hheld, ?_⟩
  rw [hvalue, h.places, CardFile.amount, hr, List.map_singleton, List.sum_singleton]

/-- The stored component of a category. -/
def Component (f : CardFile) (b : String × Int) (c : String × String) : Prop :=
  c.1 = b.1 ∧ ∃ a : Dec, Held a ∧ value a = f.amount b ∧ c.2 = plainText a

/-- What the loop over the categories can return. -/
inductive Billed (f : CardFile) (bs : List (String × Int)) (total : Dec)
    (components : List (String × String)) : Except Fault Amounts → Prop
  | refused (message : String) : Billed f bs total components (.error (.refused message))
  | ok (T : Dec) (more : List (String × String)) (hT : Held T)
    (hvalue : value T = value total + ((bs.filter fun b => b.2 ≠ 0).map f.amount).sum)
    (hmore : List.Forall₂ (Component f) (bs.filter fun b => b.2 ≠ 0) more) :
    Billed f bs total components (.ok (T, components ++ more))

/-- **The loop** sums the amounts exactly. -/
theorem Accepted.bill {f : CardFile} (h : Accepted f) {bs : List (String × Int)}
    (hbs : ∀ b ∈ bs, 0 ≤ b.2 ∧ b.2 < 2 ^ 63) {total : Dec} (htotal : Held total)
    (components : List (String × String)) :
    Billed f bs total components (f.card.bill bs (total, components)) := by
  induction bs generalizing total components with
  | nil =>
    have hnil : Billed f [] total components (.ok (total, components ++ [])) :=
      .ok total [] htotal (by simp) .nil
    rwa [List.append_nil] at hnil
  | cons b bs ih =>
    obtain ⟨category, tokens⟩ := b
    obtain ⟨hlow, hhigh⟩ := hbs _ List.mem_cons_self
    have hrest : ∀ b ∈ bs, 0 ≤ b.2 ∧ b.2 < 2 ^ 63 := fun b hb => hbs b (List.mem_cons_of_mem _ hb)
    rw [Card.bill]
    split
    · next hzero =>
      have hskip : ((category, tokens) :: bs).filter (fun b => b.2 ≠ 0) =
          bs.filter fun b => b.2 ≠ 0 := List.filter_cons_of_neg (by simp [hzero])
      cases hbill : f.card.bill bs (total, components) with
      | error e =>
        have hb := ih hrest htotal components
        rw [hbill] at hb
        cases hb with
        | refused message => exact .refused message
      | ok amounts =>
        have hb := ih hrest htotal components
        rw [hbill] at hb
        cases hb with
        | ok T more hT hvalue hmore => exact .ok T more hT (by rwa [hskip]) (by rwa [hskip])
    · next hzero =>
      have htake : ((category, tokens) :: bs).filter (fun b => b.2 ≠ 0) =
          (category, tokens) :: bs.filter fun b => b.2 ≠ 0 :=
        List.filter_cons_of_pos (by simpa using hzero)
      split
      · exact .refused _
      · next rate hrate =>
        obtain ⟨a, ha, hheld, hamount⟩ := h.amount hrate hlow hhigh
        rw [ha]
        change Billed f ((category, tokens) :: bs) total components
          ((total.add a).mapError (fun _ => .refused "amount_overflow") >>= fun sum =>
            a.text >>= fun text => f.card.bill bs (sum, components ++ [(category, text)]))
        cases hadd : total.add a with
        | error e => exact .refused _
        | ok sum =>
          obtain ⟨hsum, hsumvalue⟩ := add_ok htotal hheld hadd
          rw [text_ok hheld]
          change Billed f _ _ _ (f.card.bill bs (sum, components ++ [(category, plainText a)]))
          have hb := ih hrest hsum (components ++ [(category, plainText a)])
          cases hbill : f.card.bill bs (sum, components ++ [(category, plainText a)]) with
          | error e =>
            rw [hbill] at hb
            cases hb with
            | refused message => exact .refused message
          | ok amounts =>
            rw [hbill] at hb
            cases hb with
            | ok T more hT hvalue hmore =>
              rw [List.append_assoc]
              refine .ok T _ hT ?_ ?_
              · rw [hvalue, hsumvalue, hamount, htake, List.map_cons, List.sum_cons, add_assoc]
              · rw [htake]
                exact .cons ⟨rfl, a, hheld, hamount, rfl⟩ hmore
      · exact .refused _

theorem mem_overlapping {cards : List Listed} {product model : String} {usage : Int × Int}
    {card : Card} (h : card ∈ overlapping cards product model usage) : ∃ c ∈ cards, c.2.2 = card := by
  obtain ⟨c, hc, rfl⟩ := List.mem_map.mp h
  exact ⟨c, (List.mem_filter.mp hc).1, rfl⟩

theorem mem_ofProvider {provider : Option String} {found : List Card} {card : Card}
    (h : card ∈ ofProvider provider found) : card ∈ found := by
  cases provider with
  | none => exact h
  | some p => exact (List.mem_filter.mp h).1

/-- What `price` can return. -/
inductive Priced (files : List CardFile) (q : Quantities) : Except Fault (Card × Amounts) → Prop
  | refused (message : String) : Priced files q (.error (.refused message))
  | ok (f : CardFile) (hf : f ∈ files) (amounts : Amounts)
    (hbilled : Billed f (billed q) Dec.zero [] (.ok amounts)) : Priced files q (.ok (f.card, amounts))

theorem Priced.ensure {files : List CardFile} {q : Quantities} {p : Prop} [Decidable p]
    {message : String} {x : Except Fault (Card × Amounts)} (h : Priced files q x) :
    Priced files q (Cost.ensure p message >>= fun _ => x) := by
  unfold Cost.ensure
  split
  · exact h
  · exact .refused message

/-- **The price** of an entry is what the loop gives for the card of one accepted file. -/
theorem price_priced {files : List CardFile} (h : ∀ f ∈ files, Accepted f) {q : Quantities}
    (hq : ∀ b ∈ billed q, 0 ≤ b.2 ∧ b.2 < 2 ^ 63) (product model : String)
    (provider : Option String) (usage : Int × Int) :
    Priced files q (price (files.map CardFile.listed) product model provider usage q) := by
  refine .ensure ?_
  split
  · exact .refused _
  · next card hcard =>
    obtain ⟨listed, hlisted, rfl⟩ := mem_overlapping (mem_ofProvider (maxBy_mem hcard))
    obtain ⟨f, hf, rfl⟩ := List.mem_map.mp hlisted
    refine .ensure (.ensure ?_)
    have hbill := (h f hf).bill hq held_zero []
    change Priced files q (f.card.bill (billed q) (Dec.zero, []) >>= fun amounts =>
      pure (f.card, amounts))
    cases hresult : f.card.bill (billed q) (Dec.zero, []) with
    | error e =>
      rw [hresult] at hbill
      cases hbill with
      | refused message => exact .refused message
    | ok amounts =>
      rw [hresult] at hbill
      exact .ok f hf amounts hbill

/-! ## Sums -/

theorem parse_held {text : String} {d : Dec} (h : Dec.parse text = .ok d) : Held d := by
  obtain ⟨whole, rest, hsplit⟩ : ∃ whole rest, splitPoint text.toList = (whole, rest) := ⟨_, _, rfl⟩
  obtain ⟨hall, rfl⟩ := parse_ok hsplit h
  rw [Dec.parse, hsplit] at h
  obtain ⟨⟨-, -, -, hdigits⟩, -⟩ := ensure_bind.mp h
  have hwhole := byteLen_digits fun c hc => hall c (List.mem_append_left _ hc)
  have hrest := byteLen_digits fun c hc => hall c (List.mem_append_right _ hc)
  rw [hwhole, hrest, ← List.length_append] at hdigits
  have hlt := Decimal.ofDigitChars_lt hall 0
  have hpow : 10 ^ (whole ++ rest.getD []).length ≤ 10 ^ 36 :=
    Nat.pow_le_pow_right (by decide) hdigits
  have hbound : (10 : Int) ^ 36 < 2 ^ 127 := by norm_num
  exact held_trim (Int.natCast_nonneg _) (by omega)

/-- A valuation that is stored as priced, with an amount that is read back. -/
def Valued.Readable (v : Valued) : Prop := v.priced = true →
  ∃ currency text d, v.currency = some currency ∧ v.amount = some text ∧ Dec.parse text = .ok d

/-- The fault of a sum that leaves `i128`. -/
def sumOverflow : Fault := .refused "amount overflows exact arithmetic"

theorem add_error {a b : Dec} {e : Fault} (h : a.add b = .error e) : e = sumOverflow := by
  unfold Dec.add at h
  cases hsum : a.sumMantissa b with
  | none =>
    rw [hsum] at h
    cases h
    rfl
  | some m =>
    rw [hsum] at h
    cases h

/-- Every sum is an amount that `i128` holds. -/
def Sums.Held (s : Sums) : Prop := ∀ sum ∈ s.byCurrency.rows, Cost.Held sum.2

/-- A readable valuation joins the sums, unless the sum overflows. -/
theorem Sums.take_cases {s : Sums} (h : s.Held) {v : Valued} (hv : v.Readable) :
    s.take v = .error sumOverflow ∨ ∃ s', s.take v = .ok s' ∧ s'.Held := by
  by_cases hpriced : v.priced = true
  · obtain ⟨currency, text, d, hcurrency, hamount, hparse⟩ := hv hpriced
    have hold : Cost.Held (((s.byCurrency.find currency).map Prod.snd).getD Dec.zero) := by
      cases hfind : s.byCurrency.find currency with
      | none => exact held_zero
      | some sum => exact h sum (Table.mem_of_find hfind)
    have htake : s.take v =
        (((s.byCurrency.find currency).map Prod.snd).getD Dec.zero).add d >>= fun sum =>
          pure { s with byCurrency := s.byCurrency.upsert (currency, sum) } := by
      rw [Sums.take, if_pos hpriced, hcurrency, hamount]
      change (Dec.parse text >>= _) = _
      rw [hparse]
      rfl
    rw [htake]
    cases hadd : (((s.byCurrency.find currency).map Prod.snd).getD Dec.zero).add d with
    | error e =>
      rw [add_error hadd]
      exact .inl rfl
    | ok sum =>
      refine .inr ⟨_, rfl, fun e he => ?_⟩
      rcases Table.mem_upsert.mp he with rfl | ⟨he, -⟩
      · exact (add_ok hold (parse_held hparse) hadd).1
      · exact h e he
  · rw [Sums.take, if_neg hpriced]
    exact .inr ⟨_, rfl, h⟩

theorem foldlM_take {entries : List Valued} (hread : ∀ v ∈ entries, v.Readable) {s : Sums}
    (h : s.Held) : entries.foldlM Sums.take s = .error sumOverflow ∨
      ∃ s', entries.foldlM Sums.take s = .ok s' ∧ s'.Held := by
  induction entries generalizing s with
  | nil => exact .inr ⟨s, rfl, h⟩
  | cons v entries ih =>
    rw [List.foldlM_cons]
    rcases s.take_cases h (hread v List.mem_cons_self) with htake | ⟨s', htake, hs'⟩
    · rw [htake]
      exact .inl rfl
    · rw [htake]
      exact ih (fun u hu => hread u (List.mem_cons_of_mem _ hu)) hs'

/-- **Sums** over readable valuations fail only when a sum overflows. -/
theorem summarize_readable {entries : List Valued} (hread : ∀ v ∈ entries, v.Readable) {e : Fault}
    (h : summarize entries = .error e) : e = sumOverflow := by
  have hempty : Sums.Held ⟨.empty, .empty⟩ := by
    intro sum hsum
    cases hsum
  unfold summarize at h
  rcases foldlM_take hread hempty with hfold | ⟨s, hfold, hs⟩
  · rw [hfold] at h
    cases h
    rfl
  · have htexts : s.texts = .ok (s.byCurrency.rows.map fun sum => (sum.1, plainText sum.2)) := by
      refine mapM_map fun sum hsum => ?_
      rw [text_ok (hs sum hsum)]
      rfl
    rw [hfold] at h
    change (s.texts >>= _) = _ at h
    rw [htexts] at h
    cases h

/-! ## The claim -/

/-- The priced amounts can be stored, read back and shown. -/
structure Survives (T : Dec) (components : List (String × String)) : Prop where
  total : ∃ text, T.text = .ok text ∧ Dec.parse text = .ok T
  components : ∀ c ∈ components, ∃ d, Dec.parse c.2 = .ok d
  rounded : ∃ text, T.rounded textPlaces = .ok text

/-- The exact amounts have at most 36 digits, and the total is not too large for six places. -/
structure Writable (f : CardFile) (q : Quantities) : Prop where
  total : Fits (f.exact q)
  categories : ∀ b ∈ charged q, Fits (f.amount b)
  bounded : f.exact q * 10 ^ 6 < 2 ^ 127

theorem components_iff {f : CardFile} {bs : List (String × Int)} {components : List (String × String)}
    (h : List.Forall₂ (Component f) bs components) :
    (∀ c ∈ components, ∃ d, Dec.parse c.2 = .ok d) ↔ ∀ b ∈ bs, Fits (f.amount b) := by
  induction h with
  | nil => simp
  | cons hc _ ih =>
    obtain ⟨-, a, hheld, hamount, htext⟩ := hc
    rw [List.forall_mem_cons, List.forall_mem_cons, ih, htext, ← hamount, parse_iff hheld]

theorem survives_iff {f : CardFile} {q : Quantities} {T : Dec} {components : List (String × String)}
    (hT : Held T) (hvalue : value T = f.exact q)
    (hcomponents : List.Forall₂ (Component f) (charged q) components) :
    Survives T components ↔ Writable f q := by
  have hback : (∃ text, T.text = .ok text ∧ Dec.parse text = .ok T) ↔ Fits (f.exact q) := by
    rw [text_ok hT, ← hvalue, fits_iff hT]
    constructor
    · rintro ⟨text, htext, hparse⟩
      cases htext
      exact (fits_iff hT).mp ((parse_iff hT).mp ⟨T, hparse⟩)
    · intro hfits
      exact ⟨_, rfl, by rw [parse_plainText hT, if_pos hfits]⟩
  constructor
  · rintro ⟨htotal, hparts, hrounded⟩
    have hfits := hback.mp htotal
    have hbounded := (rounded_iff hT (hvalue ▸ hfits)).mp hrounded
    exact ⟨hfits, (components_iff hcomponents).mp hparts, hvalue ▸ hbounded⟩
  · rintro ⟨hfits, hparts, hbounded⟩
    refine ⟨hback.mpr hfits, (components_iff hcomponents).mpr hparts, ?_⟩
    exact (rounded_iff hT (hvalue ▸ hfits)).mpr (hvalue ▸ hbounded)

theorem canonical_all {raws files : List CardFile} (h : raws.mapM canonical = .ok files) :
    ∀ f ∈ files, Accepted f := mapM_forall (fun _ _ => canonical_ok) h

/-- **Priced amounts.** Accepted cards are read back; a price over them never overflows and is the
exact sum of its categories; its amounts survive storage if and only if they have at most 36 digits
and the total stays below the bound of its text; and sums over readable amounts fail only when a sum
overflows. -/
theorem priced_amounts_survive (raws files : List CardFile) (h : raws.mapM canonical = .ok files)
    (product model : String) (provider : Option String) (usage : Int × Int) (q : Quantities)
    (hq : ∀ b ∈ billed q, 0 ≤ b.2 ∧ b.2 < 2 ^ 63) :
    (∃ cards, files.mapM CardFile.load = .ok cards ∧
      price cards product model provider usage q ≠ .error .overflow ∧
      ∀ card T components, price cards product model provider usage q = .ok (card, T, components) →
        ∃ f ∈ files, card = f.card ∧ value T = f.exact q ∧
          List.Forall₂ (Component f) (charged q) components ∧
          (Survives T components ↔ Writable f q)) ∧
    ∀ entries e, (∀ v ∈ entries, v.Readable) → summarize entries = .error e → e = sumOverflow := by
  have hfiles := canonical_all h
  have hpriced := price_priced hfiles hq product model provider usage
  refine ⟨⟨files.map CardFile.listed, mapM_map fun f hf => (hfiles f hf).load, ?_, ?_⟩,
    fun entries e hread he => summarize_readable hread he⟩
  · intro hoverflow
    rw [hoverflow] at hpriced
    cases hpriced
  · intro card T components hok
    rw [hok] at hpriced
    cases hpriced with
    | ok f hf _ hbilled =>
      cases hbilled with
      | ok _ more hT hvalue hmore =>
        have hexact : value T = f.exact q := by
          rw [hvalue]
          have hzero : value Dec.zero = 0 := by simp [Decimal.value, Dec.zero]
          rw [hzero, zero_add]
          rfl
        exact ⟨f, hf, rfl, hexact, hmore, survives_iff hT hexact hmore⟩

/-- A card with a rate of twelve decimal places and a rate of eighteen digits. -/
def wideCard : CardFile where
  cardId := "card"
  version := 1
  provider := "provider"
  product := "product"
  models := ["model"]
  currency := "USD"
  rateUnit := 1000000000
  effectiveFromUnixMs := 0
  effectiveToUnixMs := none
  includes := ⟨false, false, false⟩
  source := "list"
  rates := [⟨"input", "", "0.000000000001"⟩, ⟨"output", "", "100000000000000000"⟩]

/-- One input token and ten million output tokens: the total has 37 digits. -/
theorem wide_total_unreadable : ∃ cards T components text,
    [wideCard].mapM canonical = .ok [wideCard] ∧ [wideCard].mapM CardFile.load = .ok cards ∧
      price cards "product" "model" none (1, 2) (1, 0, 0, 10000000) =
        .ok (wideCard.card, T, components) ∧
      T.text = .ok text ∧ ∀ d, Dec.parse text ≠ .ok d := by
  refine ⟨[wideCard.listed], ⟨1000000000000000000000000000000000001, 21⟩,
    [("input", "0.000000000000000000001"), ("output", "1000000000000000")],
    "1000000000000000.000000000000000000001", by decide +kernel, by decide +kernel,
    by decide +kernel, by decide +kernel, ?_⟩
  have hparse : Dec.parse "1000000000000000.000000000000000000001" = .error (.refused
      ("\"1000000000000000.000000000000000000001\"" ++ " is not a plain non-negative decimal")) := by
    decide +kernel
  rw [hparse]
  exact nofun

/-- A small entry of the same card. -/
theorem priced_amounts_survive_small : ∃ cards, [wideCard].mapM CardFile.load = .ok cards ∧
    price cards "product" "model" none (1, 2) (5, 0, 0, 7) ≠ .error .overflow := by
  have hcanonical : [wideCard].mapM canonical = .ok [wideCard] := by decide +kernel
  obtain ⟨⟨cards, hload, hprice, -⟩, -⟩ := priced_amounts_survive [wideCard] [wideCard] hcanonical
    "product" "model" none (1, 2) (5, 0, 0, 7) (by decide +kernel)
  exact ⟨cards, hload, hprice⟩

end Herdr.Cost
