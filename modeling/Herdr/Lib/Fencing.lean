/-!
# Fencing tokens

A fenced resource has a stamp that never goes back and at most one holder. Issuing a token takes a
larger stamp; releasing the holder may move the stamp as well. Whatever the order of moves, the
stamps of the issued tokens increase, only the token that was issued last can hold the resource,
and a token that lost it never gets it back.
-/

/-- A stamp and the token that holds the resource. -/
structure Fence (τ : Type) where
  stamp : Nat
  holder : Option τ

namespace Fence

variable {τ : Type} (stampOf : τ → Nat)

/-- One move of a fenced resource; the index is the token that it issued. -/
inductive Move (f : Fence τ) : Option τ → Fence τ → Prop
  | keep : Move f none f
  | release {g : Fence τ} (stamp : f.stamp ≤ g.stamp) (free : g.holder = none) : Move f none g
  | issue {g : Fence τ} {t : τ} (fresh : f.stamp < stampOf t) (stamp : g.stamp = stampOf t)
    (held : g.holder = some t) : Move f (some t) g

/-- The tokens issued so far and the resource agree. -/
structure Inv (issued : List τ) (f : Fence τ) : Prop where
  increasing : issued.Pairwise fun t u => stampOf t < stampOf u
  bounded : ∀ t ∈ issued, stampOf t ≤ f.stamp
  holder : ∀ t, f.holder = some t → issued.getLast? = some t

variable {stampOf} {f g : Fence τ} {o : Option τ} {issued : List τ} {t u : τ}

theorem Move.stamp_le (h : Move stampOf f o g) : f.stamp ≤ g.stamp := by
  cases h with
  | keep => exact Nat.le_refl _
  | release stamp _ => exact stamp
  | issue fresh stamp _ => exact stamp ▸ Nat.le_of_lt fresh

namespace Inv

theorem start (free : f.holder = none) : Inv stampOf [] f :=
  ⟨.nil, by simp, by simp [free]⟩

/-- Every move keeps the agreement. -/
theorem move (h : Inv stampOf issued f) (hm : Move stampOf f o g) :
    Inv stampOf (issued ++ o.toList) g := by
  cases hm with
  | keep => simpa using h
  | release stamp free =>
    refine ⟨by simpa using h.increasing, fun t ht => ?_, by simp [free]⟩
    have ht : t ∈ issued := by simpa using ht
    exact Nat.le_trans (h.bounded t ht) stamp
  | @issue _ t fresh stamp held =>
    refine ⟨?_, fun u hu => ?_, fun u hu => ?_⟩
    · -- every earlier stamp is at most the resource's, which is below the new one
      rw [List.pairwise_append]
      refine ⟨h.increasing, by simp, fun u hu v hv => ?_⟩
      have hv : v = t := by simpa using hv
      subst hv
      exact Nat.lt_of_le_of_lt (h.bounded u hu) fresh
    · rw [stamp]
      rcases List.mem_append.mp hu with hu | hu
      · exact Nat.le_of_lt (Nat.lt_of_le_of_lt (h.bounded u hu) fresh)
      · have hu : u = t := by simpa using hu
        exact hu ▸ Nat.le_refl _
    · rw [held] at hu
      cases hu
      simp

/-- A token that does not hold the resource now never holds it again. -/
theorem stale (h : Inv stampOf issued f) (ht : t ∈ issued) (hlost : f.holder ≠ some t)
    (hm : Move stampOf f o g) : g.holder ≠ some t := by
  cases hm with
  | keep => exact hlost
  | release _ free => simp [free]
  | issue fresh _ held =>
    rw [held]
    intro he
    cases he
    have hle := h.bounded t ht
    omega

end Inv

end Fence
