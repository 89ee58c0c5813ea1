import Mathlib.Data.Set.Insert
import Mathlib.Logic.Function.Basic

/-!
# Slots with single-use names

A family of slots, each holding at most one current entry, over a set of names that are spent once
and never given back. Putting an entry into a slot that holds another one retires the old entry
and spends the name of the new one; an entry whose name is spent already cannot be put again, also
when the slot has held it before. Putting a list of entries into different slots succeeds exactly
when the names it needs are new and different.
-/

/-- What each slot `κ` holds now, and the names `ι` that are spent. -/
structure Slots (κ ε ι : Type) where
  current : κ → Option ε
  used : Set ι

namespace Slots

variable {κ ε ι : Type} [DecidableEq κ] (name : κ → ε → ι)

open Classical in
/-- Put the entry `r.2` into the slot `r.1`. -/
noncomputable def put (s : Slots κ ε ι) (r : κ × ε) : Option (Slots κ ε ι) :=
  if s.current r.1 = some r.2 then some s
  else if name r.1 r.2 ∈ s.used then none
  else some ⟨Function.update s.current r.1 (some r.2), insert (name r.1 r.2) s.used⟩

/-- Put a list of entries, in order. -/
noncomputable def putAll (s : Slots κ ε ι) (rs : List (κ × ε)) : Option (Slots κ ε ι) :=
  rs.foldlM (put name) s

/-- The entries that need a name have names that are not spent and differ from each other. -/
def Fresh (s : Slots κ ε ι) (rs : List (κ × ε)) : Prop :=
  (∀ r ∈ rs, s.current r.1 ≠ some r.2 → name r.1 r.2 ∉ s.used) ∧
    rs.Pairwise fun r r' =>
      s.current r.1 ≠ some r.2 → s.current r'.1 ≠ some r'.2 → name r.1 r.2 ≠ name r'.1 r'.2

variable {name} {s s' : Slots κ ε ι} {r : κ × ε} {rs : List (κ × ε)}

/-- What a successful put does. -/
theorem put_eq_some (h : put name s r = some s') :
    (s.current r.1 = some r.2 ∧ s' = s) ∨
      (s.current r.1 ≠ some r.2 ∧ name r.1 r.2 ∉ s.used ∧
        s' = ⟨Function.update s.current r.1 (some r.2), insert (name r.1 r.2) s.used⟩) := by
  unfold put at h
  split at h
  · cases h
    exact .inl ⟨‹_›, rfl⟩
  · split at h
    · cases h
    · cases h
      exact .inr ⟨‹_›, ‹_›, rfl⟩

theorem put_current (h : put name s r = some s') : s'.current r.1 = some r.2 := by
  obtain ⟨hc, rfl⟩ | ⟨-, -, rfl⟩ := put_eq_some h
  · exact hc
  · simp

theorem put_current_ne (h : put name s r = some s') {k : κ} (hk : k ≠ r.1) :
    s'.current k = s.current k := by
  obtain ⟨-, rfl⟩ | ⟨-, -, rfl⟩ := put_eq_some h
  · rfl
  · simp [hk]

theorem put_isSome_iff :
    (put name s r).isSome ↔ (s.current r.1 ≠ some r.2 → name r.1 r.2 ∉ s.used) := by
  unfold put
  split
  · simp [*]
  · split <;> simp [*]

theorem putAll_cons : putAll name s (r :: rs) = (put name s r).bind (putAll name · rs) := rfl

/-- A put in one slot changes what another needs only by the name that it spends. -/
theorem fresh_cons (hne : ∀ q ∈ rs, q.1 ≠ r.1) (h : put name s r = some s') :
    Fresh name s (r :: rs) ↔ Fresh name s' rs := by
  have hcur : ∀ q ∈ rs, s'.current q.1 = s.current q.1 := fun q hq => put_current_ne h (hne q hq)
  have hpair : rs.Pairwise (fun q q' => s'.current q.1 ≠ some q.2 →
        s'.current q'.1 ≠ some q'.2 → name q.1 q.2 ≠ name q'.1 q'.2) ↔
      rs.Pairwise fun q q' => s.current q.1 ≠ some q.2 →
        s.current q'.1 ≠ some q'.2 → name q.1 q.2 ≠ name q'.1 q'.2 := by
    apply List.Pairwise.iff_of_mem
    intro q q' hq hq'
    rw [hcur q hq, hcur q' hq']
  unfold Fresh
  rw [hpair, List.pairwise_cons]
  obtain ⟨hc, rfl⟩ | ⟨hc, hused, rfl⟩ := put_eq_some h
  · simp [hc]
  · -- the name of `r` is spent now, so the others must differ from it
    constructor
    · rintro ⟨hall, hfirst, hrest⟩
      refine ⟨fun q hq hn => ?_, hrest⟩
      rw [hcur q hq] at hn
      rintro (he | he)
      · exact hfirst q hq hc hn he.symm
      · exact hall q (List.mem_cons_of_mem _ hq) hn he
    · rintro ⟨hall, hrest⟩
      refine ⟨?_, fun q hq _ hn he => ?_, hrest⟩
      · intro q hq hn
        rcases List.mem_cons.mp hq with rfl | hq
        · exact hused
        · exact fun he => hall q hq (by rwa [hcur q hq]) (.inr he)
      · exact hall q hq (by rwa [hcur q hq]) (.inl he.symm)

/-- **Success of a list of puts.** Entries for different slots can all be put exactly when their
names are fresh. -/
theorem putAll_isSome_iff (hnodup : (rs.map Prod.fst).Nodup) :
    (putAll name s rs).isSome ↔ Fresh name s rs := by
  induction rs generalizing s with
  | nil => simp [putAll, Fresh]
  | cons r rs ih =>
    obtain ⟨hr, hrs⟩ := List.nodup_cons.mp hnodup
    have hne : ∀ q ∈ rs, q.1 ≠ r.1 := fun q hq he => hr (List.mem_map.mpr ⟨q, hq, he⟩)
    rw [putAll_cons]
    cases hput : put name s r with
    | none =>
      have hno : ¬(s.current r.1 ≠ some r.2 → name r.1 r.2 ∉ s.used) := by
        rw [← put_isSome_iff, hput]
        simp
      constructor
      · intro h
        cases h
      · rintro ⟨hall, -⟩
        exact absurd (hall r (by simp)) hno
    | some s₁ =>
      rw [fresh_cons hne hput]
      exact ih hrs

theorem putAll_current_ne (h : putAll name s rs = some s') {k : κ} (hk : k ∉ rs.map Prod.fst) :
    s'.current k = s.current k := by
  induction rs generalizing s with
  | nil =>
    cases h
    rfl
  | cons r rs ih =>
    rw [putAll_cons] at h
    obtain ⟨s₁, h₁, h⟩ := Option.bind_eq_some_iff.mp h
    rw [List.map_cons, List.mem_cons, not_or] at hk
    rw [ih h hk.2, put_current_ne h₁ hk.1]

/-- After the puts, every slot that was named holds its entry. -/
theorem putAll_current (hnodup : (rs.map Prod.fst).Nodup) (h : putAll name s rs = some s')
    (hr : r ∈ rs) : s'.current r.1 = some r.2 := by
  induction rs generalizing s with
  | nil => cases hr
  | cons q rs ih =>
    obtain ⟨hq, hrs⟩ := List.nodup_cons.mp hnodup
    rw [putAll_cons] at h
    obtain ⟨s₁, h₁, h₂⟩ := Option.bind_eq_some_iff.mp h
    rcases List.mem_cons.mp hr with rfl | hr
    · rw [putAll_current_ne h₂ hq, put_current h₁]
    · exact ih hrs h₂ hr

end Slots
