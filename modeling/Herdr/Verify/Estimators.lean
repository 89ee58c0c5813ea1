import Herdr.Telemetry.Estimators
import Mathlib.Data.UInt
import Mathlib.Tactic.Linarith

/-!
# The bootstrap generator is unbiased, and the square root exact

Both multipliers and the increment are odd, so each step of the generator can be undone and one
period of it draws every word once. Newton's iteration starts above the root, never steps below its
floor, and stops at the first value that does not decrease.
-/

namespace Herdr.Estimators

open Generator

/-! ## The bootstrap generator -/

namespace SplitMix64

theorem xor_shift_injective {shift : UInt64} (hshift : 0 < (shift.toBitVec % 64).toNat) :
    Function.Injective fun z : UInt64 => z ^^^ (z >>> shift) := by
  intro a b h
  have hbits := congrArg UInt64.toBitVec h
  simp only [UInt64.toBitVec_xor, UInt64.toBitVec_shiftRight] at hbits
  exact UInt64.toBitVec_inj.mp (xorShift_injective hshift hbits)

theorem mul_injective {a inverse : UInt64} (h : a * inverse = 1) :
    Function.Injective fun z : UInt64 => z * a := by
  intro x y hxy
  have hback := congrArg (· * inverse) hxy
  simpa only [UInt64.mul_assoc, h, UInt64.mul_one] using hback

/-- Every step of the output function can be undone. -/
theorem output_injective : Function.Injective output := by
  have hfirst : Function.Injective fun z : UInt64 => z ^^^ (z >>> 30) :=
    xor_shift_injective (by decide)
  have hsecond : Function.Injective fun z : UInt64 => z ^^^ (z >>> 27) :=
    xor_shift_injective (by decide)
  have hthird : Function.Injective fun z : UInt64 => z ^^^ (z >>> 31) :=
    xor_shift_injective (by decide)
  have hleft : Function.Injective fun z : UInt64 => z * 0xbf58476d1ce4e5b9 :=
    @mul_injective _ 0x96de1b173f119089 (by decide)
  have hright : Function.Injective fun z : UInt64 => z * 0x94d049bb133111eb :=
    @mul_injective _ 0x319642b2d24d8ec3 (by decide)
  exact hthird.comp (hright.comp (hsecond.comp (hleft.comp hfirst)))

theorem output_bijective : Function.Bijective output := by
  have : Finite UInt64 := Finite.of_injective UInt64.toFin fun _ _ => UInt64.toFin_inj.mp
  exact Finite.injective_iff_bijective.mp output_injective

/-! ### The states of a period -/

theorem advance_state (rng : SplitMix64) (n : Nat) :
    (advance nextU64 n rng).state = rng.state + UInt64.ofNat n * 0x9e3779b97f4a7c15 := by
  induction n generalizing rng with
  | zero => simp [advance]
  | succ n ih =>
    rw [advance_succ, ih]
    have hnext : (nextU64 rng).2.state = rng.state + 0x9e3779b97f4a7c15 := rfl
    have hone : UInt64.ofNat 1 * 0x9e3779b97f4a7c15 = 0x9e3779b97f4a7c15 := UInt64.one_mul _
    rw [hnext, UInt64.ofNat_add, UInt64.add_mul, hone, UInt64.add_assoc,
      UInt64.add_comm 0x9e3779b97f4a7c15]

/-- The states repeat after `2 ^ 64` draws, and not before. -/
theorem advance_state_eq (rng : SplitMix64) {i j : Nat} :
    (advance nextU64 i rng).state = (advance nextU64 j rng).state ↔ i ≡ j [MOD 2 ^ 64] := by
  rw [advance_state, advance_state, UInt64.add_right_inj]
  have hincrement : Function.Injective fun z : UInt64 => z * 0x9e3779b97f4a7c15 :=
    @mul_injective _ 0xf1de83e19937733d (by decide)
  rw [hincrement.eq_iff, UInt64.ofNat_eq_iff_mod_eq_toNat, UInt64.toNat_ofNat']
  rfl

theorem drawn_eq (rng : SplitMix64) (n : Nat) :
    drawn nextU64 rng n = output (advance nextU64 (n + 1) rng).state := by
  rw [advance, Function.iterate_succ_apply']
  rfl

/-- The draws of a period are all words, each once. -/
theorem drawn_fullCycle (rng : SplitMix64) :
    FullCycle (fun n => (drawn nextU64 rng n).toNat) (2 ^ 64) where
  injective i hi j hj h := by
    rw [UInt64.toNat_inj, drawn_eq, drawn_eq, output_injective.eq_iff, advance_state_eq] at h
    have hmod := Nat.ModEq.add_right_cancel' 1 h
    rwa [Nat.ModEq, Nat.mod_eq_of_lt hi, Nat.mod_eq_of_lt hj] at hmod
  bounded i _ := (drawn nextU64 rng i).toNat_lt

/-! ### Rejection -/

/-- The limit is the largest multiple of `k` that is a word. -/
theorem limit_toNat {k : UInt64} : (limit k).toNat = k.toNat * ((2 ^ 64 - 1) / k.toNat) := by
  have hmod : ((0xffffffffffffffff : UInt64) % k).toNat = (2 ^ 64 - 1) % k.toNat :=
    UInt64.toNat_mod _ _
  have hle : (0xffffffffffffffff : UInt64) % k ≤ 0xffffffffffffffff := by
    rw [UInt64.le_iff_toNat_le, hmod]
    exact Nat.mod_le _ _
  rw [limit, UInt64.toNat_sub_of_le _ _ hle, hmod]
  have := Nat.div_add_mod (2 ^ 64 - 1) k.toNat
  change 2 ^ 64 - 1 - _ = _
  omega

theorem below_eq_some {k r : UInt64} {draws : Nat} {rng rng' : SplitMix64} :
    below k draws rng = some (r, rng') ↔
      ∃ x, reject nextU64 (fun x => x < limit k) draws rng = some (x, rng') ∧ x % k = r := by
  simp only [below, Option.map_eq_some_iff, Prod.exists, Prod.mk.injEq]
  grind

/-- A period of draws is enough for `below`, and its result is below `k`. -/
theorem below_ok {k : UInt64} (hk : k ≠ 0) (rng : SplitMix64) :
    ∃ r rng', r < k ∧ ∀ draws, 2 ^ 64 ≤ draws → below k draws rng = some (r, rng') := by
  have hpos : 0 < k.toNat := by
    rw [Nat.pos_iff_ne_zero]
    exact fun h => hk (UInt64.toNat_inj.mp h)
  have hlimit : 0 < (limit k).toNat := by
    have hword : k.toNat ≤ 2 ^ 64 - 1 := Nat.le_sub_one_of_lt k.toNat_lt
    rw [limit_toNat]
    exact Nat.mul_pos hpos (Nat.div_pos hword hpos)
  have hcycle := drawn_fullCycle rng
  have hperiod : 0 < 2 ^ 64 := Nat.two_pow_pos 64
  generalize 2 ^ 64 = period at hcycle hperiod ⊢
  obtain ⟨n, hn, hzero⟩ := hcycle.exists_eq hperiod
  have haccept : ∃ n < period, decide (drawn nextU64 rng n < limit k) = true := by
    refine ⟨n, hn, decide_eq_true ?_⟩
    have hless : (drawn nextU64 rng n).toNat < (limit k).toNat := by omega
    exact UInt64.lt_iff_toNat_lt.mpr hless
  obtain ⟨⟨x, rng'⟩, hx⟩ :=
    @exists_reject _ _ nextU64 (fun x => decide (x < limit k)) rng period haccept
  refine ⟨x % k, rng', UInt64.mod_lt _ (UInt64.pos_iff_ne_zero.mpr hk), fun draws hdraws => ?_⟩
  exact below_eq_some.mpr ⟨x, reject_mono hx hdraws, rfl⟩

/-- In every period as many draws are accepted for one residue as for any other. -/
theorem card_accepted {k r : UInt64} (hr : r < k) (rng : SplitMix64) :
    ((Finset.range (2 ^ 64)).filter fun n =>
      drawn nextU64 rng n < limit k ∧ drawn nextU64 rng n % k = r).card =
        (2 ^ 64 - 1) / k.toNat := by
  have hcycle := drawn_fullCycle rng
  have hr' : r.toNat < k.toNat := UInt64.lt_iff_toNat_lt.mp hr
  have hroom : k.toNat * ((2 ^ 64 - 1) / k.toNat) ≤ 2 ^ 64 :=
    (Nat.mul_div_le _ _).trans (Nat.sub_le _ _)
  have hword : ∀ n, (drawn nextU64 rng n < limit k ∧ drawn nextU64 rng n % k = r) ↔
      (drawn nextU64 rng n).toNat < k.toNat * ((2 ^ 64 - 1) / k.toNat) ∧
        (drawn nextU64 rng n).toNat % k.toNat = r.toNat := by
    intro n
    rw [UInt64.lt_iff_toNat_lt, limit_toNat, ← UInt64.toNat_inj, UInt64.toNat_mod]
  simp only [hword]
  generalize (2 ^ 64 - 1) / k.toNat = q at hroom ⊢
  generalize 2 ^ 64 = period at hcycle hroom ⊢
  rw [hcycle.card_filter fun x => x < k.toNat * q ∧ x % k.toNat = r.toNat]
  exact card_residue (Nat.zero_lt_of_lt hr') hr' hroom

/-- **The generator is unbiased.** The output function is a bijection of the states, and the states
of a generator repeat after exactly `2 ^ 64` draws. So `below` ends from every state, with a result
below `k`, and in a period the draws that are accepted are equally many for each result. -/
theorem below_unbiased :
    Function.Bijective output ∧
    (∀ (rng : SplitMix64) (i j : Nat),
      (advance nextU64 i rng).state = (advance nextU64 j rng).state ↔ i ≡ j [MOD 2 ^ 64]) ∧
    ∀ k : UInt64, k ≠ 0 →
      (∀ rng, ∃ r rng', r < k ∧ ∀ draws, 2 ^ 64 ≤ draws → below k draws rng = some (r, rng')) ∧
      ∀ rng, ∀ r < k, ((Finset.range (2 ^ 64)).filter fun n =>
        drawn nextU64 rng n < limit k ∧ drawn nextU64 rng n % k = r).card =
          (2 ^ 64 - 1) / k.toNat :=
  ⟨output_bijective, fun rng _ _ => advance_state_eq rng, fun _ hk =>
    ⟨below_ok hk, fun rng _ hr => card_accepted hr rng⟩⟩

/-- The theorem at the choice of one of six. -/
theorem below_unbiased_six :
    (∃ r rng', r < 6 ∧ ∀ draws, 2 ^ 64 ≤ draws → below 6 draws ⟨7⟩ = some (r, rng')) ∧
    ((Finset.range (2 ^ 64)).filter fun n =>
      drawn nextU64 ⟨7⟩ n < limit 6 ∧ drawn nextU64 ⟨7⟩ n % 6 = 5).card =
        (2 ^ 64 - 1) / (6 : UInt64).toNat :=
  have h := below_unbiased.2.2 6 (by decide)
  ⟨h.1 ⟨7⟩, h.2 ⟨7⟩ 5 (by decide)⟩

end SplitMix64

/-! ## Integer square root -/

/-- Newton's step stays above the root. -/
theorem lt_newton_succ_sq {n x : Nat} (hx : 0 < x) :
    n < ((x + n / x) / 2 + 1) * ((x + n / x) / 2 + 1) := by
  have hquotient : n < x * (n / x + 1) := Nat.lt_mul_div_succ n hx
  have hhalf : x + (n / x + 1) ≤ 2 * ((x + n / x) / 2 + 1) := by omega
  generalize n / x = q at hquotient hhalf ⊢
  generalize (x + q) / 2 = s at hhalf ⊢
  have hsquare : (x + (q + 1)) * (x + (q + 1)) ≤ 2 * (s + 1) * (2 * (s + 1)) :=
    Nat.mul_le_mul hhalf hhalf
  have hmean : 4 * (x * (q + 1)) ≤ (x + (q + 1)) * (x + (q + 1)) := by
    have := four_mul_le_sq_add x (q + 1)
    linarith
  linarith

/-- What the loop keeps: both values are at least the root, and the older one is exact when the loop
ends. -/
structure Newton (n x y : Nat) : Prop where
  pos : 0 < y
  half : y ≤ (n + 1) / 2
  older : n < (x + 1) * (x + 1)
  newer : n < (y + 1) * (y + 1)
  exact : x ≤ y → x * x ≤ n

theorem Newton.sum_le {n x y : Nat} (h : Newton n x y) : y + n / y ≤ max 4 n := by
  have hpos := h.pos
  have hhalf := h.half
  obtain rfl | hy : y = 1 ∨ 2 ≤ y := by omega
  · have := h.newer
    rw [Nat.div_one]
    omega
  · have hquotient : n / y ≤ n / 2 := Nat.div_le_div_left hy (by decide)
    omega

/-- One turn of the loop. -/
theorem Newton.step {n x y : Nat} (h : Newton n x y) : Newton n y ((y + n / y) / 2) where
  pos := by
    have hpos := h.pos
    have hhalf := h.half
    have hquotient : 0 < n / y := Nat.div_pos (by omega) hpos
    omega
  half := by
    have hpos := h.pos
    have hhalf := h.half
    obtain rfl | hy : y = 1 ∨ 2 ≤ y := by omega
    · rw [Nat.div_one]
      omega
    · have hquotient : n / y ≤ n / 2 := Nat.div_le_div_left hy (by decide)
      omega
  older := h.newer
  newer := lt_newton_succ_sq h.pos
  exact hle := (Nat.le_div_iff_mul_le h.pos).mp (by omega)

theorem Newton.start {n : Nat} (hn : 2 ≤ n) : Newton n n (divCeil2 n) := by
  have hceil : divCeil2 n = (n + 1) / 2 := by
    unfold divCeil2
    split <;> omega
  have hdouble : n ≤ 2 * ((n + 1) / 2) := by omega
  rw [hceil]
  generalize hc : (n + 1) / 2 = c at hdouble
  constructor
  · omega
  · omega
  · nlinarith
  · nlinarith
  · omega

theorem isqrtLoop_ok {n x y : Nat} (hn : n < 2 ^ 128) (h : Newton n x y) :
    ∃ r, isqrtLoop n x y = some r ∧ r * r ≤ n ∧ n < (r + 1) * (r + 1) := by
  induction x using Nat.strong_induction_on generalizing y with
  | h x ih =>
    rw [isqrtLoop]
    by_cases hless : y < x
    · have hsum : y + n / y < 2 ^ 128 := by
        have := h.sum_le
        omega
      rw [if_pos hless, div128, if_neg h.pos.ne']
      dsimp only [Option.bind_eq_bind, Option.bind_some]
      rw [add128, if_pos hsum]
      exact ih y hless h.step
    · rw [if_neg hless]
      exact ⟨x, rfl, h.exact (not_lt.mp hless), h.older⟩

/-- **The integer square root is exact.** On every `u128` the loop ends, no addition overflows and
no division is by zero, and the result is the floor of the root. -/
theorem isqrt_exact (n : Nat) (hn : n < 2 ^ 128) :
    ∃ r, isqrt n = some r ∧ r * r ≤ n ∧ n < (r + 1) * (r + 1) := by
  rw [isqrt]
  by_cases hsmall : n < 2
  · rw [if_pos hsmall]
    refine ⟨n, rfl, ?_, ?_⟩
    · nlinarith
    · nlinarith
  · rw [if_neg hsmall]
    exact isqrtLoop_ok hn (Newton.start (not_lt.mp hsmall))

/-- The theorem at the largest `u128`. -/
theorem isqrt_exact_max : ∃ r, isqrt (2 ^ 128 - 1) = some r ∧ r * r ≤ 2 ^ 128 - 1 ∧
    2 ^ 128 - 1 < (r + 1) * (r + 1) :=
  isqrt_exact (2 ^ 128 - 1) (by decide)

end Herdr.Estimators
