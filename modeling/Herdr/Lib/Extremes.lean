/-!
# Extremes of a comparison

The least and the greatest element of a list under a comparison, as iterators choose them: of
several least ones the first, of several greatest ones the last.
-/

variable {α : Type} {order : α → α → Ordering} {l : List α} {a : α}

/-- `Iterator::min_by`. -/
def minBy (order : α → α → Ordering) : List α → Option α
  | [] => none
  | a :: l => some (l.foldl (fun x y => if order x y = .gt then y else x) a)

/-- `Iterator::max_by`. -/
def maxBy (order : α → α → Ordering) : List α → Option α
  | [] => none
  | a :: l => some (l.foldl (fun x y => if order x y = .gt then x else y) a)

/-- A fold that chooses between two elements ends at one of them. -/
theorem foldl_choose_mem {f : α → α → α} (hf : ∀ x y, f x y = x ∨ f x y = y) (a : α) :
    l.foldl f a ∈ a :: l := by
  induction l generalizing a with
  | nil => exact List.mem_singleton_self a
  | cons b l ih =>
    rw [List.foldl_cons]
    rcases List.mem_cons.mp (ih (f a b)) with he | hmem
    · rw [he]
      rcases hf a b with he | he <;> simp [he]
    · exact List.mem_cons_of_mem _ (List.mem_cons_of_mem _ hmem)

theorem minBy_mem (h : minBy order l = some a) : a ∈ l := by
  cases l with
  | nil => cases h
  | cons b l =>
    cases h
    refine foldl_choose_mem (fun x y => ?_) b
    split
    · exact .inr rfl
    · exact .inl rfl

theorem maxBy_mem (h : maxBy order l = some a) : a ∈ l := by
  cases l with
  | nil => cases h
  | cons b l =>
    cases h
    refine foldl_choose_mem (fun x y => ?_) b
    split
    · exact .inl rfl
    · exact .inr rfl

theorem minBy_eq_none_iff : minBy order l = none ↔ l = [] := by
  cases l <;> simp [minBy]

/-- A fold that keeps the lesser of two elements ends at a lower bound. -/
theorem foldl_lesser_le (hrefl : ∀ a, order a a ≠ .gt)
    (hswap : ∀ a b, order a b = .gt → order b a ≠ .gt)
    (htrans : ∀ a b c, order a b ≠ .gt → order b c ≠ .gt → order a c ≠ .gt) (a : α) :
    ∀ b ∈ a :: l, order (l.foldl (fun x y => if order x y = .gt then y else x) a) b ≠ .gt := by
  induction l generalizing a with
  | nil =>
    intro b hb
    rw [List.mem_singleton.mp hb]
    exact hrefl a
  | cons c l ih =>
    rw [List.foldl_cons]
    have hle : order (if order a c = .gt then c else a) a ≠ .gt ∧
        order (if order a c = .gt then c else a) c ≠ .gt := by
      split
      · next h => exact ⟨hswap a c h, hrefl c⟩
      · next h => exact ⟨hrefl a, h⟩
    have hlast := ih (if order a c = .gt then c else a)
    have hfirst := hlast _ List.mem_cons_self
    intro b hb
    rcases List.mem_cons.mp hb with rfl | hb
    · exact htrans _ _ _ hfirst hle.1
    · rcases List.mem_cons.mp hb with rfl | hb
      · exact htrans _ _ _ hfirst hle.2
      · exact hlast b (List.mem_cons_of_mem _ hb)

/-- The least element under a total order comes before all others. -/
theorem minBy_le (hrefl : ∀ a, order a a ≠ .gt)
    (hswap : ∀ a b, order a b = .gt → order b a ≠ .gt)
    (htrans : ∀ a b c, order a b ≠ .gt → order b c ≠ .gt → order a c ≠ .gt)
    (h : minBy order l = some a) : ∀ b ∈ l, order a b ≠ .gt := by
  cases l with
  | nil => cases h
  | cons c l =>
    cases h
    exact foldl_lesser_le hrefl hswap htrans c
