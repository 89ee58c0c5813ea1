import Mathlib.Data.List.Basic

/-!
# Folds of partial steps

A fold in `Option` stops at the first step that fails: it succeeds iff every step does from the
state that the steps before it reach, and then it keeps what every step keeps.
-/

namespace Herdr

variable {σ α : Type} {f : σ → α → Option σ} {s t : σ} {l : List α}

theorem foldlM_invariant {I : σ → Prop} (h : I s)
    (hstep : ∀ s, ∀ a ∈ l, ∀ t, I s → f s a = some t → I t) (hfold : l.foldlM f s = some t) : I t := by
  induction l generalizing s with
  | nil =>
    cases hfold
    exact h
  | cons a l ih =>
    rw [List.foldlM_cons] at hfold
    obtain ⟨u, hu, hrest⟩ := Option.bind_eq_some_iff.mp hfold
    exact ih (hstep s a (List.mem_cons_self ..) u h hu)
      (fun s b hb => hstep s b (List.mem_cons_of_mem _ hb)) hrest

end Herdr
