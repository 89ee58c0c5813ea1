import Mathlib.Algebra.Order.Ring.Int
import Mathlib.Algebra.BigOperators.Group.List.Basic

/-!
# Greedy selection

Go through a list and take every element whose size fits into what is left.
-/

namespace Greedy

variable {α : Type} (size : α → Nat)

/-- The elements taken, in order. -/
def choose : Nat → List α → List α
  | _, [] => []
  | room, a :: as =>
    if size a ≤ room then a :: choose (room - size a) as else choose room as

/-- What the elements take up. -/
def total (as : List α) : Nat := (as.map size).sum

variable {size} {room : Nat} {a : α} {as bs : List α}

@[simp] theorem total_nil : total size [] = 0 := rfl

@[simp] theorem total_cons : total size (a :: as) = size a + total size as := by simp [total]

theorem total_append : total size (as ++ bs) = total size as + total size bs := by simp [total]

@[simp] theorem choose_nil : choose size room [] = [] := rfl

theorem choose_cons_of_le (h : size a ≤ room) :
    choose size room (a :: as) = a :: choose size (room - size a) as := if_pos h

theorem choose_cons_of_lt (h : room < size a) :
    choose size room (a :: as) = choose size room as := if_neg (by omega)

theorem choose_sublist : (choose size room as).Sublist as := by
  induction as generalizing room with
  | nil => exact .slnil
  | cons a as ih =>
    by_cases h : size a ≤ room
    · rw [choose_cons_of_le h]
      exact ih.cons_cons a
    · rw [choose_cons_of_lt (by omega)]
      exact ih.cons a

/-- What is taken fits. -/
theorem total_choose_le : total size (choose size room as) ≤ room := by
  induction as generalizing room with
  | nil => exact Nat.zero_le _
  | cons a as ih =>
    by_cases h : size a ≤ room
    · rw [choose_cons_of_le h, total_cons]
      have := @ih (room - size a)
      omega
    · rw [choose_cons_of_lt (by omega)]
      exact ih

/-- The choice among later elements is made with what the earlier ones left. -/
theorem choose_append : choose size room (as ++ bs) =
    choose size room as ++ choose size (room - total size (choose size room as)) bs := by
  induction as generalizing room with
  | nil => simp
  | cons a as ih =>
    by_cases h : size a ≤ room
    · rw [List.cons_append, choose_cons_of_le h, choose_cons_of_le h, ih, List.cons_append,
        total_cons, Nat.sub_sub]
    · rw [List.cons_append, choose_cons_of_lt (by omega), choose_cons_of_lt (by omega), ih]

/-- **The greedy rule.** An element is taken if and only if it fits into what was left when it was
considered. -/
theorem mem_choose_iff {ranked : List α} (hnodup : ranked.Nodup) (h : ranked = as ++ a :: bs) :
    a ∈ choose size room ranked ↔ total size (choose size room as) + size a ≤ room := by
  subst h
  have hbefore : a ∉ choose size room as := fun hmem =>
    (List.nodup_append.mp hnodup).2.2 a (choose_sublist.subset hmem) a List.mem_cons_self rfl
  have hafter : ∀ room, a ∉ choose size room bs := fun _ hmem =>
    (List.nodup_cons.mp (List.nodup_append.mp hnodup).2.1).1 (choose_sublist.subset hmem)
  have hle := @total_choose_le _ size room as
  rw [choose_append, List.mem_append]
  by_cases hfits : size a ≤ room - total size (choose size room as)
  · rw [choose_cons_of_le hfits]
    exact ⟨fun _ => by omega, fun _ => .inr List.mem_cons_self⟩
  · rw [choose_cons_of_lt (by omega)]
    exact ⟨fun hmem => (hmem.elim hbefore (hafter _)).elim, fun _ => by omega⟩

end Greedy
