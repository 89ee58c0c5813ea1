import Mathlib.Data.Int.ConditionallyCompleteOrder
import Mathlib.Algebra.Order.Ring.Int
import Mathlib.Data.Int.Interval
import Mathlib.Data.Set.Card
import Mathlib.Order.Bounds.Basic

/-!
# Windows over a calendar

A calendar gives each of its slots an instant. A reader that stands at an instant asks which slots
are due after it, up to a clock reading, and moves on to the last of them. Whatever the readings
are, the windows it is given share no instant, and they cover all that was due.
-/

namespace Windows

variable {ι : Type*} {f : ι → ℤ} {after now first last : ℤ} {slots : ℕ}

/-- The slots due after an instant, up to a reading. -/
def due (f : ι → ℤ) (after now : ℤ) : Set ι := {i | after < f i ∧ f i ≤ now}

/-- The window names the first and the last instant that is due, and the number of slots. -/
structure Exact (f : ι → ℤ) (after now first last : ℤ) (slots : ℕ) : Prop where
  first : IsLeast (f '' due f after now) first
  last : IsGreatest (f '' due f after now) last
  count : (due f after now).ncard = slots

/-- A reader moves on to the last instant of each window it is given, and stays where it stands
when nothing is due. -/
inductive Chain (f : ι → ℤ) : ℤ → List ℤ → List (ℤ × ℤ) → Prop
  | nil (after : ℤ) : Chain f after [] []
  | none {after now : ℤ} {nows : List ℤ} {windows : List (ℤ × ℤ)} (empty : due f after now = ∅)
    (rest : Chain f after nows windows) : Chain f after (now :: nows) windows
  | some {after now first last : ℤ} {slots : ℕ} {nows : List ℤ} {windows : List (ℤ × ℤ)}
    (exact : Exact f after now first last slots) (rest : Chain f last nows windows) :
    Chain f after (now :: nows) ((first, last) :: windows)

theorem Exact.bounds (h : Exact f after now first last slots) :
    after < first ∧ first ≤ last ∧ last ≤ now := by
  obtain ⟨i, hi, hfirst⟩ := h.first.1
  obtain ⟨j, hj, hlast⟩ := h.last.1
  rw [← hfirst, ← hlast]
  exact ⟨hi.1, hlast ▸ h.last.2 ⟨i, hi, rfl⟩, hj.2⟩

/-- What is due lies in the window. -/
theorem Exact.mem (h : Exact f after now first last slots) {i : ι} (hi : i ∈ due f after now) :
    first ≤ f i ∧ f i ≤ last :=
  ⟨h.first.2 ⟨i, hi, rfl⟩, h.last.2 ⟨i, hi, rfl⟩⟩

theorem ncard_Icc {D : Set ℤ} {first last : ℤ} (hD : Set.Icc first last ⊆ D) :
    {d : D | first ≤ d.1 ∧ d.1 ≤ last}.ncard = (last - first + 1).toNat := by
  have himage : Subtype.val '' {d : D | first ≤ d.1 ∧ d.1 ≤ last} = Set.Icc first last := by
    ext d
    constructor
    · rintro ⟨e, he, rfl⟩
      exact he
    · intro hd
      exact ⟨⟨d, hD hd⟩, hd, rfl⟩
  rw [← Set.ncard_image_of_injective _ Subtype.val_injective, himage, ← Finset.coe_Icc,
    Set.ncard_coe_finset, Int.card_Icc]
  congr 1
  omega

/-- An interval of slots with increasing instants. -/
theorem exact_Icc {f : ℤ → ℤ} {first last : ℤ} (hf : Monotone f) (hle : first ≤ last)
    {D : Set ℤ} {g : D → ℤ} (hg : ∀ d, g d = f d) (hD : Set.Icc first last ⊆ D)
    (hdue : due g after now = {d | first ≤ d.1 ∧ d.1 ≤ last}) :
    Exact g after now (f first) (f last) (last - first + 1).toNat := by
  have hfirst : (⟨first, hD ⟨le_rfl, hle⟩⟩ : D) ∈ due g after now := by
    rw [hdue]
    exact ⟨le_rfl, hle⟩
  have hlast : (⟨last, hD ⟨hle, le_rfl⟩⟩ : D) ∈ due g after now := by
    rw [hdue]
    exact ⟨hle, le_rfl⟩
  refine ⟨⟨⟨_, hfirst, hg _⟩, ?_⟩, ⟨⟨_, hlast, hg _⟩, ?_⟩, ?_⟩
  · rintro _ ⟨d, hd, rfl⟩
    rw [hdue] at hd
    rw [hg]
    exact hf hd.1
  · rintro _ ⟨d, hd, rfl⟩
    rw [hdue] at hd
    rw [hg]
    exact hf hd.2
  · rw [hdue, ncard_Icc hD]

namespace Chain

variable {nows : List ℤ} {windows : List (ℤ × ℤ)}

/-- Every window lies after the instant that the chain started from. -/
theorem after_lt (h : Chain f after nows windows) : ∀ w ∈ windows, after < w.1 ∧ w.1 ≤ w.2 := by
  induction h with
  | nil => simp
  | none _ _ ih => exact ih
  | some hexact _ ih =>
    obtain ⟨hlt, hle, -⟩ := hexact.bounds
    refine List.forall_mem_cons.mpr ⟨⟨hlt, hle⟩, fun w hw => ?_⟩
    have := ih w hw
    exact ⟨by omega, this.2⟩

/-- No instant is in two windows. -/
theorem disjoint (h : Chain f after nows windows) : windows.Pairwise fun v w => v.2 < w.1 := by
  induction h with
  | nil => exact .nil
  | none _ _ ih => exact ih
  | some _ hrest ih => exact .cons (fun w hw => (hrest.after_lt w hw).1) ih

/-- What was due at some reading is in a window. -/
theorem covers (h : Chain f after nows windows) {i : ι} (hafter : after < f i)
    (hnow : ∃ now ∈ nows, f i ≤ now) : ∃ w ∈ windows, w.1 ≤ f i ∧ f i ≤ w.2 := by
  induction h with
  | nil => simp at hnow
  | @none after now _ _ hempty _ ih =>
    have hlate : ¬f i ≤ now := fun hle => by
      have hmem : i ∈ due f after now := ⟨hafter, hle⟩
      rw [hempty] at hmem
      exact hmem
    obtain ⟨now', hmem, hle⟩ := hnow
    rcases List.mem_cons.mp hmem with rfl | hmem
    · exact absurd hle hlate
    · exact ih hafter ⟨now', hmem, hle⟩
  | @some after now first last _ _ _ hexact _ ih =>
    by_cases hle : f i ≤ now
    · exact ⟨_, List.mem_cons_self, hexact.mem ⟨hafter, hle⟩⟩
    · obtain ⟨now', hmem, hle'⟩ := hnow
      rcases List.mem_cons.mp hmem with rfl | hmem
      · exact absurd hle' hle
      · have := hexact.bounds.2.2
        obtain ⟨w, hw, hin⟩ := ih (by omega) ⟨now', hmem, hle'⟩
        exact ⟨w, List.mem_cons_of_mem _ hw, hin⟩

end Chain

end Windows
