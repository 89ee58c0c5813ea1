import Mathlib.Data.List.Nodup
import Mathlib.Data.List.Range
import Mathlib.Data.List.Perm.Subperm
import Mathlib.Logic.Function.Basic
import Mathlib.Logic.Relation
import Mathlib.Order.WellFounded

/-!
# Forests of parents

A partial function gives each node at most one parent. The parents form a forest when every walk
along them ends; a link from a root to a node of another tree keeps that, and so does the removal
of a link. A walk of as many steps as there are links is at its root.
-/

namespace Forest

variable {α : Type} {parent parent' : α → Option α} {a b r s t : α} {m n : Nat}

/-- `b` is the parent of `a`. -/
def Edge (parent : α → Option α) (a b : α) : Prop := parent a = some b

/-- Every walk along the parents ends. -/
def Rooted (parent : α → Option α) : Prop := WellFounded fun b a => Edge parent a b

/-- At most `n` steps along the parents. -/
def walk (parent : α → Option α) : Nat → α → α
  | 0, a => a
  | n + 1, a =>
    match parent a with
    | none => a
    | some b => walk parent n b

/-! ## Cycles -/

theorem Rooted.acyclic (h : Rooted parent) (a : α) : ¬ Relation.TransGen (Edge parent) a a := by
  intro hcycle
  have hwf : WellFounded (Relation.TransGen fun b a => Edge parent a b) := h.transGen
  exact hwf.irrefl.irrefl a (Relation.transGen_swap.mp hcycle)

/-- A node whose walk does not pass `s` keeps its walk when `s` is linked. -/
theorem acc_of_not_reach [DecidableEq α] (h : Rooted parent)
    (hne : ¬ Relation.ReflTransGen (Edge parent) a s) :
    Acc (fun y x => Edge (Function.update parent s (some t)) x y) a := by
  induction a using h.induction with
  | _ a ih =>
    refine .intro a fun b hb => ?_
    have has : a ≠ s := fun he => hne (he ▸ .refl)
    have hold : Edge parent a b := by rwa [Edge, Function.update_of_ne has] at hb
    exact ih b hold fun hreach => hne (.head hold hreach)

/-- Linking a node to one whose walk does not pass it makes no cycle. -/
theorem Rooted.link [DecidableEq α] (h : Rooted parent)
    (hne : ¬ Relation.ReflTransGen (Edge parent) t s) :
    Rooted (Function.update parent s (some t)) := by
  refine ⟨fun a => ?_⟩
  induction a using h.induction with
  | _ a ih =>
    refine .intro a fun b hb => ?_
    by_cases has : a = s
    · subst has
      rw [Edge, Function.update_self] at hb
      cases hb
      exact acc_of_not_reach h hne
    · have hold : Edge parent a b := by rwa [Edge, Function.update_of_ne has] at hb
      exact ih b hold

/-- Fewer links make no cycle. -/
theorem Rooted.unlink (h : Rooted parent) (hsub : ∀ a b, Edge parent' a b → Edge parent a b) :
    Rooted parent' :=
  Subrelation.wf (fun {b a} => hsub a b) h

theorem Rooted.empty : Rooted fun _ : α => none := ⟨fun a => .intro a nofun⟩

/-! ## Walks -/

theorem walk_root (h : parent a = none) : walk parent n a = a := by
  cases n with
  | zero => rfl
  | succ n => rw [walk, h]

theorem walk_step (h : Edge parent a b) : walk parent (n + 1) a = walk parent n b := by
  rw [Edge] at h
  rw [walk, h]

theorem walk_add : walk parent (m + n) a = walk parent n (walk parent m a) := by
  induction m generalizing a with
  | zero => rw [Nat.zero_add, walk]
  | succ m ih =>
    cases h : parent a with
    | none => rw [walk_root h, walk_root h, walk_root h]
    | some b => rw [Nat.succ_add, walk_step h, walk_step h, ih]

/-- A walk that has reached a root stays there. -/
theorem walk_of_le (h : parent (walk parent m a) = none) (hle : m ≤ n) :
    walk parent n a = walk parent m a := by
  obtain ⟨k, rfl⟩ := Nat.exists_eq_add_of_le hle
  rw [walk_add, walk_root h]

theorem walk_reaches (n : Nat) : Relation.ReflTransGen (Edge parent) a (walk parent n a) := by
  induction n generalizing a with
  | zero => exact .refl
  | succ n ih =>
    cases h : parent a with
    | none =>
      rw [walk_root h]
    | some b =>
      rw [walk_step h]
      exact .head h ih

theorem exists_walk (h : Relation.ReflTransGen (Edge parent) a b) : ∃ n, walk parent n a = b := by
  induction h using Relation.ReflTransGen.head_induction_on with
  | refl => exact ⟨0, rfl⟩
  | head hedge _ ih =>
    obtain ⟨n, hn⟩ := ih
    exact ⟨n + 1, by rw [walk_step hedge, hn]⟩

/-- Until it is at a root, every further step of a walk is along a link. -/
theorem walk_lt (h : parent (walk parent n a) ≠ none) (hlt : m < n) :
    Relation.TransGen (Edge parent) (walk parent m a) (walk parent n a) := by
  obtain ⟨k, rfl⟩ := Nat.exists_eq_add_of_lt hlt
  rw [Nat.add_assoc, walk_add] at h ⊢
  cases hp : parent (walk parent m a) with
  | none =>
    rw [walk_root hp] at h
    exact absurd hp h
  | some b =>
    rw [walk_step hp]
    exact .head' hp (walk_reaches k)

/-- **A walk of as many steps as there are links is at its root.** -/
theorem Rooted.walk_length (h : Rooted parent) {keys : List α}
    (hkeys : ∀ a, parent a ≠ none → a ∈ keys) : parent (walk parent keys.length a) = none := by
  by_contra hne
  -- otherwise the nodes of the walk are more than the links
  have hstep : ∀ i ≤ keys.length, parent (walk parent i a) ≠ none := by
    intro i hi hnone
    rw [walk_of_le hnone hi] at hne
    exact hne hnone
  have hinj : ∀ i ∈ List.range (keys.length + 1), ∀ j ∈ List.range (keys.length + 1),
      walk parent i a = walk parent j a → i = j := by
    intro i hi j hj heq
    have hi := hstep i (Nat.le_of_lt_succ (List.mem_range.mp hi))
    have hj := hstep j (Nat.le_of_lt_succ (List.mem_range.mp hj))
    rcases Nat.lt_trichotomy i j with hlt | he | hlt
    · exact absurd (heq ▸ walk_lt hj hlt) (h.acyclic _)
    · exact he
    · exact absurd (heq ▸ walk_lt hi hlt) (h.acyclic _)
  have hnodup : ((List.range (keys.length + 1)).map (walk parent · a)).Nodup :=
    (List.nodup_map_iff_inj_on List.nodup_range).mpr hinj
  have hsub : ((List.range (keys.length + 1)).map (walk parent · a)) ⊆ keys := by
    intro b hb
    obtain ⟨i, hi, rfl⟩ := List.mem_map.mp hb
    exact hkeys _ (hstep i (Nat.le_of_lt_succ (List.mem_range.mp hi)))
  have hle := (List.subperm_of_subset hnodup hsub).length_le
  rw [List.length_map, List.length_range] at hle
  omega

/-- The root that a node reaches is where a long enough walk ends. -/
theorem walk_eq_of_reaches (hroot : parent (walk parent n a) = none)
    (h : Relation.ReflTransGen (Edge parent) a r) (hr : parent r = none) :
    walk parent n a = r := by
  obtain ⟨k, rfl⟩ := exists_walk h
  rcases Nat.le_total k n with hle | hle
  · exact walk_of_le hr hle
  · exact (walk_of_le hroot hle).symm

end Forest
