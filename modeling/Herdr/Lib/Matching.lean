import Mathlib.Logic.Function.Basic

/-!
# Slots and their holders

Two partial maps, from slots to holders and back, that are inverse to each other: each slot has at
most one holder and each holder one slot. Taking a free slot and releasing a held one keep this.
-/

/-- Who holds a slot, and which slot is held. -/
structure Matching (τ α : Type) where
  holder : τ → Option α
  slot : α → Option τ

namespace Matching

variable {τ α : Type}

/-- The two maps are inverse to each other. -/
def Consistent (m : Matching τ α) : Prop := ∀ t a, m.holder t = some a ↔ m.slot a = some t

variable {m n : Matching τ α}

theorem Consistent.empty (hholder : ∀ t, m.holder t = none) (hslot : ∀ a, m.slot a = none) :
    m.Consistent := by
  intro t a
  simp [hholder, hslot]

/-- Two holders of one slot are one. -/
theorem Consistent.unique (h : m.Consistent) {t : τ} {a b : α} (ha : m.slot a = some t)
    (hb : m.slot b = some t) : a = b := by
  have hat := (h t a).mpr ha
  rw [(h t b).mpr hb] at hat
  exact (Option.some.inj hat).symm

variable [DecidableEq τ] [DecidableEq α]

/-- One change of the matching. -/
inductive Step (m n : Matching τ α) : Prop
  | keep (holder : n.holder = m.holder) (slot : n.slot = m.slot)
  | acquire (t : τ) (a : α) (free : m.holder t = none) (fresh : m.slot a = none)
    (holder : n.holder = Function.update m.holder t (some a))
    (slot : n.slot = Function.update m.slot a (some t))
  | release (t : τ) (a : α) (held : m.holder t = some a)
    (holder : n.holder = Function.update m.holder t none)
    (slot : n.slot = Function.update m.slot a none)

/-- Every change keeps the maps inverse to each other. -/
theorem Consistent.step (h : m.Consistent) (hs : Step m n) : n.Consistent := by
  intro u b
  cases hs with
  | keep holder slot =>
    rw [holder, slot]
    exact h u b
  | acquire t a free fresh holder slot =>
    rw [holder, slot]
    by_cases hu : u = t
    · subst hu
      by_cases hb : b = a
      · subst hb
        simp
      · -- the slot was free, so it has no other holder
        have hfree : m.slot b ≠ some u := by
          intro hslot
          rw [(h u b).mpr hslot] at free
          cases free
        simp [hb, hfree, Ne.symm hb]
    · by_cases hb : b = a
      · subst hb
        have hfresh : m.holder u ≠ some b := by
          intro hholder
          rw [(h u b).mp hholder] at fresh
          cases fresh
        simp [hu, hfresh, Ne.symm hu]
      · simpa [hu, hb] using h u b
  | release t a held holder slot =>
    rw [holder, slot]
    by_cases hu : u = t
    · subst hu
      by_cases hb : b = a
      · subst hb
        simp
      · have hother : m.slot b ≠ some u := by
          intro hslot
          have hholder := (h u b).mpr hslot
          rw [held] at hholder
          exact hb (Option.some.inj hholder).symm
        simp [hb, hother]
    · by_cases hb : b = a
      · subst hb
        have hother : m.holder u ≠ some b := by
          intro hholder
          have hslot := (h u b).mp hholder
          rw [(h t b).mp held] at hslot
          exact hu (Option.some.inj hslot).symm
        simp [hu, hother]
      · simpa [hu, hb] using h u b

end Matching
