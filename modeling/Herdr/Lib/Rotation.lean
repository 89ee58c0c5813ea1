import Mathlib.Data.Finset.Card
import Mathlib.Data.Prod.Lex

/-!
# Rotated orders

A server that takes the keys of a linear order in turn resumes after the last key it took: the
keys after it come first, and those up to it come last. The position of a key that waits is the
number of keys that are not behind it; whatever is taken before it leaves that position lower.
-/

namespace Rotation

variable {α : Type*} [LinearOrder α] {last : Option α} {U : Finset α} {x y z : α}

/-- The key is not after the last one. -/
def passed (last : Option α) (x : α) : Bool := last.any fun l => x ≤ l

/-- The place of a key in the order that resumes after `last`. -/
def rank (last : Option α) (x : α) : Bool ×ₗ α := toLex (passed last x, x)

theorem rank_injective (last : Option α) : Function.Injective (rank last) := by
  intro x y h
  exact congrArg (fun r => (ofLex r).2) h

@[simp] theorem passed_none : passed none x = false := rfl

@[simp] theorem passed_some {l : α} : passed (some l) x = decide (x ≤ l) := rfl

theorem rank_lt_none : rank none x < rank none y ↔ x < y := by
  simp [rank, Prod.Lex.toLex_lt_toLex]

/-- Before comes what is after the last key, unless both are on one side of it. -/
theorem rank_lt_some {l : α} :
    rank (some l) x < rank (some l) y ↔ (l < x ∧ y ≤ l) ∨ ((x ≤ l ↔ y ≤ l) ∧ x < y) := by
  simp [rank, Prod.Lex.toLex_lt_toLex, Bool.lt_iff]

/-- The last key comes after all others. -/
theorem rank_le_last (x : α) : rank (some y) x ≤ rank (some y) y := by
  rw [← not_lt, rank_lt_some]
  rintro (⟨h, -⟩ | ⟨h, hlt⟩)
  · exact lt_irrefl _ h
  · exact absurd (h.mp le_rfl) (not_le.mpr hlt)

/-- Once `y` was taken before `x`, what precedes `x` preceded it before. -/
theorem rank_served (hy : rank last y < rank last x) (hz : rank last x < rank last z) :
    rank (some y) x < rank (some y) z := by
  rw [rank_lt_some]
  cases last with
  | none =>
    rw [rank_lt_none] at hy hz
    grind
  | some l =>
    rw [rank_lt_some] at hy hz
    grind

/-- How many keys of `U` are not behind `x`. -/
def position (last : Option α) (U : Finset α) (x : α) : Nat :=
  (U.filter fun z => rank last z ≤ rank last x).card

theorem position_le : position last U x ≤ U.card := Finset.card_filter_le _ _

theorem position_pos (hx : x ∈ U) : 0 < position last U x :=
  Finset.card_pos.mpr ⟨x, Finset.mem_filter.mpr ⟨hx, le_rfl⟩⟩

/-- **A turn.** A key that is taken before `x` moves `x` forward. -/
theorem position_served (hyU : y ∈ U) (hy : rank last y < rank last x) :
    position (some y) U x < position last U x := by
  apply Finset.card_lt_card
  refine ⟨fun z hz => ?_, fun h => ?_⟩
  · obtain ⟨hzU, hz⟩ := Finset.mem_filter.mp hz
    exact Finset.mem_filter.mpr ⟨hzU, not_lt.mp fun hlt => not_lt.mpr hz (rank_served hy hlt)⟩
  · have hmem := h (Finset.mem_filter.mpr ⟨hyU, hy.le⟩)
    have hle := (Finset.mem_filter.mp hmem).2
    have hxy : x = y := rank_injective _ (le_antisymm (rank_le_last x) hle)
    rw [hxy] at hy
    exact lt_irrefl _ hy

end Rotation
