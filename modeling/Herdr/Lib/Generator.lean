import Mathlib.Data.BitVec
import Mathlib.Data.Int.CardIntervalMod

/-!
# Generators and rejection

A generator goes through its states one by one and makes an output of each. When the outputs of one
period are the values of a finite type, each once, a loop that draws until an output is accepted
ends within a period, and the number of draws of a period that are accepted with some property is
the number of values that have it.
-/

namespace Generator

/-! ## Mixing -/

section Mixing

variable {w shift : Nat}

/-- Mix the high bits into the low ones. -/
def xorShift (shift : Nat) (x : BitVec w) : BitVec w := x ^^^ (x >>> shift)

/-- A word that equals its own shift has no bit set. -/
theorem eq_zero_of_eq_ushiftRight (hshift : 0 < shift) {x : BitVec w} (h : x = x >>> shift) :
    x = 0#w := by
  have hbit : ∀ gap i, w ≤ i + gap → x.getLsbD i = false := by
    intro gap
    induction gap with
    | zero =>
      intro i hi
      exact BitVec.getLsbD_of_ge x i hi
    | succ gap ih =>
      intro i hi
      rw [h, BitVec.getLsbD_ushiftRight]
      exact ih (shift + i) (by omega)
  apply BitVec.eq_of_getLsbD_eq
  intro i hi
  rw [hbit w i (by omega), BitVec.getLsbD_zero]

/-- Mixing loses nothing. -/
theorem xorShift_injective (hshift : 0 < shift) :
    Function.Injective (xorShift shift : BitVec w → BitVec w) := by
  intro x y h
  have hdiff : x ^^^ y = (x ^^^ y) >>> shift := by
    unfold xorShift at h
    apply BitVec.eq_of_getLsbD_eq
    intro i hi
    have hi := congrArg (fun z => BitVec.getLsbD z i) h
    simp only [BitVec.getLsbD_xor, BitVec.getLsbD_ushiftRight] at hi ⊢
    have hxor : ∀ a b c d : Bool, (a ^^ b) = (c ^^ d) → (a ^^ c) = (b ^^ d) := by decide
    exact hxor _ _ _ _ hi
  exact BitVec.xor_eq_zero_iff.mp (eq_zero_of_eq_ushiftRight hshift hdiff)

end Mixing

/-! ## Drawing until a value is accepted -/

section Draws

variable {σ α : Type} (next : σ → α × σ) (accept : α → Bool)

/-- The state after some draws. -/
def advance (draws : Nat) (s : σ) : σ := (fun s => (next s).2)^[draws] s

/-- The output of the draw after some others. -/
def drawn (s : σ) (draws : Nat) : α := (next (advance next draws s)).1

/-- `loop { let x = next(); if accept(x) { return x } }` for so many draws. -/
def reject : Nat → σ → Option (α × σ)
  | 0, _ => none
  | draws + 1, s =>
    if accept (next s).1 then some (next s) else reject draws (next s).2

variable {next accept} {s : σ} {draws more : Nat} {x : α} {s' : σ}

theorem advance_succ : advance next (draws + 1) s = advance next draws (next s).2 := rfl

theorem drawn_succ : drawn next s (draws + 1) = drawn next (next s).2 draws := rfl

/-- The loop returns the first draw that is accepted. -/
theorem reject_eq_some : reject next accept draws s = some (x, s') ↔
    ∃ n < draws, next (advance next n s) = (x, s') ∧ accept x = true ∧
      ∀ m < n, accept (drawn next s m) = false := by
  induction draws generalizing s with
  | zero => simp [reject]
  | succ draws ih =>
    rw [reject]
    by_cases haccept : accept (next s).1 = true
    · rw [if_pos haccept]
      constructor
      · intro h
        have hdraw : next s = (x, s') := Option.some.inj h
        rw [hdraw] at haccept
        exact ⟨0, Nat.zero_lt_succ _, hdraw, haccept, by simp⟩
      · rintro ⟨n, -, hn, -, hfirst⟩
        cases n with
        | zero => exact congrArg some hn
        | succ n => exact absurd (hfirst 0 (Nat.zero_lt_succ _)) (by simpa [drawn, advance])
    · rw [if_neg haccept, ih]
      constructor
      · rintro ⟨n, hn, hdraw, hx, hfirst⟩
        refine ⟨n + 1, by omega, hdraw, hx, fun m hm => ?_⟩
        cases m with
        | zero => simpa [drawn, advance] using haccept
        | succ m => exact hfirst m (by omega)
      · rintro ⟨n, hn, hdraw, hx, hfirst⟩
        cases n with
        | zero =>
          rw [advance, Function.iterate_zero, id] at hdraw
          exact absurd hx (by rw [← (Prod.mk.inj hdraw).1]; exact haccept)
        | succ n =>
          exact ⟨n, by omega, hdraw, hx, fun m hm => hfirst (m + 1) (by omega)⟩

/-- The loop ends when some draw is accepted. -/
theorem exists_reject (h : ∃ n < draws, accept (drawn next s n) = true) :
    ∃ p, reject next accept draws s = some p := by
  classical
  let n := Nat.find h
  have hn : n < draws ∧ accept (drawn next s n) = true := Nat.find_spec h
  refine ⟨next (advance next n s), reject_eq_some.mpr ⟨n, hn.1, rfl, hn.2, fun m hm => ?_⟩⟩
  have := Nat.find_min h hm
  simpa [hm.trans hn.1] using this

/-- More draws than are needed change nothing. -/
theorem reject_mono (h : reject next accept draws s = some (x, s')) (hmore : draws ≤ more) :
    reject next accept more s = some (x, s') := by
  obtain ⟨n, hn, hrest⟩ := reject_eq_some.mp h
  exact reject_eq_some.mpr ⟨n, hn.trans_le hmore, hrest⟩

end Draws

/-! ## One period -/

section Period

variable {f : Nat → Nat} {period : Nat}

/-- The values of one period are all numbers below it, each once. -/
structure FullCycle (f : Nat → Nat) (period : Nat) : Prop where
  injective : ∀ i < period, ∀ j < period, f i = f j → i = j
  bounded : ∀ i < period, f i < period

theorem FullCycle.image_eq (h : FullCycle f period) :
    (Finset.range period).image f = Finset.range period := by
  apply Finset.eq_of_subset_of_card_le
  · intro x hx
    obtain ⟨n, hn, rfl⟩ := Finset.mem_image.mp hx
    exact Finset.mem_range.mpr (h.bounded n (Finset.mem_range.mp hn))
  · rw [Finset.card_image_of_injOn]
    intro i hi j hj
    exact h.injective i (by simpa using hi) j (by simpa using hj)

/-- Every value is drawn within a period. -/
theorem FullCycle.exists_eq (h : FullCycle f period) {x : Nat} (hx : x < period) :
    ∃ n < period, f n = x := by
  have hmem : x ∈ (Finset.range period).image f := by
    rw [h.image_eq]
    exact Finset.mem_range.mpr hx
  obtain ⟨n, hn, hfn⟩ := Finset.mem_image.mp hmem
  exact ⟨n, Finset.mem_range.mp hn, hfn⟩

/-- As many draws of a period have a property as there are values with it. -/
theorem FullCycle.card_filter (h : FullCycle f period) (p : Nat → Prop) [DecidablePred p] :
    ((Finset.range period).filter fun n => p (f n)).card =
      ((Finset.range period).filter p).card := by
  conv_rhs => rw [← h.image_eq, Finset.filter_image]
  rw [Finset.card_image_of_injOn]
  intro i hi j hj
  have hi := (Finset.mem_filter.mp hi).1
  have hj := (Finset.mem_filter.mp hj).1
  exact h.injective i (Finset.mem_range.mp hi) j (Finset.mem_range.mp hj)

/-- Below a multiple of `k` every residue occurs equally often. -/
theorem card_residue {k q n r : Nat} (hk : 0 < k) (hr : r < k) (hn : k * q ≤ n) :
    ((Finset.range n).filter fun x => x < k * q ∧ x % k = r).card = q := by
  have hsame : ((Finset.range n).filter fun x => x < k * q ∧ x % k = r) =
      (Finset.range (k * q)).filter fun x => x ≡ r [MOD k] := by
    ext x
    simp only [Finset.mem_filter, Finset.mem_range, Nat.ModEq, Nat.mod_eq_of_lt hr]
    constructor
    · exact fun h => h.2
    · exact fun h => ⟨h.1.trans_le hn, h⟩
  rw [hsame, ← Nat.count_eq_card_filter_range, Nat.count_modEq_card _ hk, Nat.mul_mod_right,
    if_neg (Nat.not_lt_zero _), Nat.mul_div_cancel_left _ hk, Nat.add_zero]

end Period

end Generator
