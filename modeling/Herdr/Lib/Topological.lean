import Mathlib.Logic.Relation
import Herdr.Lib.Log

/-!
# Topological orders

A relation is acyclic when no element reaches itself. A list that meets every element after all of
its predecessors, and meets every element that has a predecessor, is a certificate of acyclicity.
-/

namespace Topological

variable {α : Type} {r : α → α → Prop}

/-- No element reaches itself. -/
def Acyclic (r : α → α → Prop) : Prop := ∀ a, ¬Relation.TransGen r a a

/-- Every element comes after all of its predecessors. -/
def Sorted (r : α → α → Prop) (order : List α) : Prop :=
  Log.Guarded (fun pre a => ∀ p, r p a → p ∈ pre) order

/-- What a sorted list meets is accessible. -/
theorem Sorted.acc {order : List α} (h : Sorted r order) : ∀ a ∈ order, Acc r a := by
  induction order using List.reverseRecOn with
  | nil => simp
  | append_singleton order last ih =>
    have horder : Sorted r order := fun pre a post hpre => h pre a (post ++ [last]) (by simp [hpre])
    intro a ha
    rcases List.mem_append.mp ha with ha | ha
    · exact ih horder a ha
    · obtain rfl := List.mem_singleton.mp ha
      exact ⟨a, fun p hp => ih horder p (h order a [] rfl p hp)⟩

theorem not_rel_self_of_acc {a : α} (h : Acc r a) : ¬r a a := by
  induction h with
  | intro a _ ih => exact fun ha => ih a ha ha

/-- A sorted list that meets every element with a predecessor certifies acyclicity. -/
theorem Sorted.acyclic {order : List α} (h : Sorted r order)
    (hall : ∀ {p a}, r p a → a ∈ order) : Acyclic r := by
  intro a ha
  have hmem : a ∈ order := by
    obtain ⟨p, _, hp⟩ := Relation.TransGen.tail'_iff.mp ha
    exact hall hp
  exact not_rel_self_of_acc (h.acc a hmem).transGen ha

/-- Fewer edges have fewer cycles. -/
theorem Acyclic.mono {s : α → α → Prop} (h : Acyclic r) (hsub : ∀ {p a}, s p a → r p a) :
    Acyclic s := fun a ha => h a (Relation.TransGen.mono (fun _ _ => hsub) _ _ ha)

/-- A relation that differs only in what one element is related to has new cycles only through
that element. -/
theorem Acyclic.of_source {s : α → α → Prop} {root : α} (h : Acyclic r)
    (hsame : ∀ {a b}, a ≠ root → s a b → r a b) (hroot : ¬Relation.TransGen s root root) :
    Acyclic s := by
  have hsplit : ∀ {a b}, Relation.TransGen s a b → Relation.TransGen r a b ∨
      Relation.ReflTransGen s a root ∧ Relation.TransGen s root b := by
    intro a b hab
    induction hab with
    | single hab =>
      by_cases ha : a = root
      · subst ha
        exact .inr ⟨.refl, .single hab⟩
      · exact .inl (.single (hsame ha hab))
    | @tail b c hab hbc ih =>
      rcases ih with ih | ⟨hto, hfrom⟩
      · by_cases hb : b = root
        · subst hb
          exact .inr ⟨hab.to_reflTransGen, .single hbc⟩
        · exact .inl (ih.tail (hsame hb hbc))
      · exact .inr ⟨hto, hfrom.tail hbc⟩
  intro a ha
  rcases hsplit ha with hold | ⟨hto, hfrom⟩
  · exact h a hold
  · exact hroot (hfrom.trans_left hto)

/-- A nonempty list has an element that no other one of it comes before. -/
theorem exists_first_of_trans (hirrefl : ∀ a, ¬r a a) (htrans : ∀ {a b c}, r a b → r b c → r a c)
    {l : List α} (hl : l ≠ []) : ∃ a ∈ l, ∀ p ∈ l, ¬r p a := by
  induction l with
  | nil => exact absurd rfl hl
  | cons a l ih =>
    by_cases hnil : l = []
    · exact ⟨a, List.mem_cons_self, by simp [hnil, hirrefl]⟩
    obtain ⟨b, hb, hfirst⟩ := ih hnil
    by_cases hab : r a b
    · refine ⟨a, List.mem_cons_self, List.forall_mem_cons.mpr ⟨hirrefl a, ?_⟩⟩
      exact fun p hp hpa => hfirst p hp (htrans hpa hab)
    · exact ⟨b, List.mem_cons_of_mem _ hb, List.forall_mem_cons.mpr ⟨hab, hfirst⟩⟩

/-- An acyclic relation has a first element in every nonempty list. -/
theorem Acyclic.exists_first (h : Acyclic r) {l : List α} (hl : l ≠ []) :
    ∃ a ∈ l, ∀ p ∈ l, ¬r p a := by
  obtain ⟨a, ha, hfirst⟩ := exists_first_of_trans h Relation.TransGen.trans hl
  exact ⟨a, ha, fun p hp hpa => hfirst p hp (.single hpa)⟩

/-- **Completeness.** When each element that is left has a predecessor that is left, none is. -/
theorem Acyclic.subset_of_stuck (h : Acyclic r) {nodes done : List α}
    (hstuck : ∀ a ∈ nodes, a ∉ done → ∃ p ∈ nodes, p ∉ done ∧ r p a) : nodes ⊆ done := by
  classical
  intro a ha
  by_contra hleft
  have hmem : ∀ {b}, b ∈ nodes.filter (· ∉ done) ↔ b ∈ nodes ∧ b ∉ done := by simp
  obtain ⟨b, hb, hfirst⟩ := h.exists_first (List.ne_nil_of_mem (hmem.mpr ⟨ha, hleft⟩))
  obtain ⟨p, hp, hpleft, hpb⟩ := hstuck b (hmem.mp hb).1 (hmem.mp hb).2
  exact hfirst p (hmem.mpr ⟨hp, hpleft⟩) hpb

end Topological
