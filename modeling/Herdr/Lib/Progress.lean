import Mathlib.Tactic.Ring

/-!
# Bounded progress

A process waits until it is done. While it waits, it is done within a bounded number of steps or
waits on with a smaller measure. Then it is done within the product of the measure and that bound,
if only the steps up to there are such.
-/

namespace Progress

variable {waiting done : Nat → Prop} {measure : Nat → Nat} {gap : Nat}

/-- **Bounded progress.** -/
theorem bounded (hpos : ∀ n, waiting n → 0 < measure n) {bound n : Nat}
    (hgap : ∀ m, n ≤ m → m + gap < n + bound * (gap + 1) → waiting m →
      ∃ j ≤ gap, done (m + j) ∨ (waiting (m + j + 1) ∧ measure (m + j + 1) < measure m))
    (h : waiting n) (hbound : measure n ≤ bound) :
    ∃ j < bound * (gap + 1), done (n + j) := by
  induction bound generalizing n with
  | zero => exact absurd (hpos n h) (by omega)
  | succ bound ih =>
    have hmul : (bound + 1) * (gap + 1) = (gap + 1) + bound * (gap + 1) := by ring
    rw [hmul] at hgap ⊢
    obtain ⟨j, hj, hdone | ⟨hwait, hlt⟩⟩ := hgap n le_rfl (by omega) h
    · exact ⟨j, by omega, hdone⟩
    · have hlater : ∀ m, n + j + 1 ≤ m → m + gap < n + j + 1 + bound * (gap + 1) → waiting m →
          ∃ i ≤ gap, done (m + i) ∨ (waiting (m + i + 1) ∧ measure (m + i + 1) < measure m) :=
        fun m hm hend => hgap m (by omega) (by omega)
      obtain ⟨i, hi, hdone⟩ := ih hlater hwait (by omega)
      exact ⟨j + 1 + i, by omega, by rwa [← Nat.add_assoc, ← Nat.add_assoc]⟩

end Progress
