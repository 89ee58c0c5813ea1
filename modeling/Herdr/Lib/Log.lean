import Mathlib.Data.List.Induction

/-!
# Guarded logs

An append-only log in which every entry was guarded when it was appended: `Guarded P l` says that
`P` holds between the entries before an entry and the entry itself. From what the guards say about
single entries follows what holds of the whole log: a kind whose guard excludes itself occurs at
most once, and an entry whose guard asks for another is preceded by it.
-/

namespace Log

variable {ε : Type}

/-- Every entry satisfies its guard over the entries before it. -/
def Guarded (P : List ε → ε → Prop) (l : List ε) : Prop :=
  ∀ pre e post, l = pre ++ e :: post → P pre e

namespace Guarded

variable {P : List ε → ε → Prop} {l l' : List ε} {e : ε}

theorem nil : Guarded P [] := by
  intro pre e post h
  simp at h

/-- Appending an entry whose guard holds. -/
theorem snoc (h : Guarded P l) (he : P l e) : Guarded P (l ++ [e]) := by
  intro pre e' post hl
  rcases List.eq_nil_or_concat post with rfl | ⟨post, last, rfl⟩
  · obtain ⟨rfl, hlast⟩ := List.append_inj' hl rfl
    cases hlast
    exact he
  · rw [List.concat_eq_append, ← List.cons_append, ← List.append_assoc] at hl
    obtain ⟨rfl, -⟩ := List.append_inj' hl rfl
    exact h pre e' post rfl

/-- Appending entries whose guards hold whatever came before. -/
theorem append (h : Guarded P l) (hl' : ∀ e ∈ l', ∀ pre, P pre e) : Guarded P (l ++ l') := by
  induction l' generalizing l with
  | nil => simpa using h
  | cons e l' ih =>
    rw [List.append_cons]
    exact ih (h.snoc (hl' e (by simp) l)) fun e' he' => hl' e' (List.mem_cons_of_mem _ he')

/-- A log of entries whose guards hold whatever came before. -/
theorem of_forall (hl : ∀ e ∈ l, ∀ pre, P pre e) : Guarded P l := nil.append hl

/-- Entries that each exclude the other before them are one entry, at one place. -/
theorem eq_of_mem {p : ε → Prop} (h : Guarded P l)
    (hp : ∀ pre e, P pre e → p e → ∀ e' ∈ pre, ¬p e') {a b : ε} (ha : a ∈ l) (hb : b ∈ l)
    (hpa : p a) (hpb : p b) : a = b := by
  obtain ⟨pre, post, rfl⟩ := List.append_of_mem ha
  rcases List.mem_append.mp hb with hb | hb
  · exact absurd hpb (hp pre a (h pre a post rfl) hpa b hb)
  · rcases List.mem_cons.mp hb with rfl | hb
    · rfl
    · obtain ⟨mid, post', rfl⟩ := List.append_of_mem hb
      have hb' := h (pre ++ a :: mid) b post' (by simp)
      exact absurd hpa (hp _ b hb' hpb a (by simp))

/-- An entry that excludes its own kind before it occurs at most once. -/
theorem countP_le_one {p : ε → Bool} (h : Guarded P l)
    (hp : ∀ pre e, P pre e → p e = true → ∀ e' ∈ pre, p e' = false) : l.countP p ≤ 1 := by
  induction l using List.reverseRecOn with
  | nil => simp
  | append_singleton l e ih =>
    have hl : Guarded P l := fun pre e' post hpre => h pre e' (post ++ [e]) (by simp [hpre])
    have he := h l e [] rfl
    rw [List.countP_append]
    by_cases hpe : p e = true
    · have hzero : l.countP p = 0 := List.countP_eq_zero.mpr fun e' he' => by
        rw [hp l e he hpe e' he']
        exact Bool.false_ne_true
      simp [hzero, hpe]
    · simpa [hpe] using ih hl

/-- Of two entries before a point, one that excludes the other before it comes first. -/
theorem pair_sublist {p q : ε → Prop} (h : Guarded P l)
    (hp : ∀ pre e, P pre e → p e → ∀ e' ∈ pre, ¬q e') {pre post : List ε} (hl : l = pre ++ post)
    {a b : ε} (ha : a ∈ pre) (hb : b ∈ pre) (hpa : p a) (hqb : q b) (hne : a ≠ b) :
    [a, b].Sublist pre := by
  obtain ⟨before, after, rfl⟩ := List.append_of_mem ha
  rcases List.mem_append.mp hb with hb | hb
  · have hguard := h before a (after ++ post) (by simp [hl])
    exact absurd hqb (hp before a hguard hpa b hb)
  · rcases List.mem_cons.mp hb with rfl | hb
    · exact absurd rfl hne
    · refine List.Sublist.trans ?_ (List.sublist_append_right before (a :: after))
      exact (List.singleton_sublist.mpr hb).cons_cons a

end Guarded

end Log
