/-!
# Runs of a machine that answers calls

A machine answers one call at a time: `exec c s` is the answer to the call `c` in state `s` and
the state it leaves. A run keeps the state it reached together with the log of all calls and
answers so far, so a property of the whole history is a property of one run. Interleavings of
several callers are just lists of calls.
-/

/-- The calls answered so far, oldest first, and the state they led to. -/
structure Run (σ κ ρ : Type) where
  log : List (κ × ρ)
  state : σ

namespace Run

variable {σ κ ρ : Type} (exec : κ → σ → ρ × σ)

def start (s : σ) : Run σ κ ρ := ⟨[], s⟩

/-- Answer one more call. -/
def call (r : Run σ κ ρ) (c : κ) : Run σ κ ρ where
  log := r.log ++ [(c, (exec c r.state).1)]
  state := (exec c r.state).2

/-- Answer a list of calls, in order. -/
def calls (r : Run σ κ ρ) (cs : List κ) : Run σ κ ρ := cs.foldl (call exec) r

variable {exec} {r : Run σ κ ρ} {c : κ} {cs ds : List κ}

@[simp] theorem start_state {s : σ} : (start s : Run σ κ ρ).state = s := rfl
@[simp] theorem start_log {s : σ} : (start s : Run σ κ ρ).log = [] := rfl
@[simp] theorem call_state : (r.call exec c).state = (exec c r.state).2 := rfl
@[simp] theorem call_log : (r.call exec c).log = r.log ++ [(c, (exec c r.state).1)] := rfl
@[simp] theorem calls_nil : r.calls exec [] = r := rfl
@[simp] theorem calls_cons : r.calls exec (c :: cs) = (r.call exec c).calls exec cs := rfl

theorem calls_append : r.calls exec (cs ++ ds) = (r.calls exec cs).calls exec ds :=
  List.foldl_append ..

/-- **The invariant rule.** What the first run satisfies and every call preserves, the whole run
satisfies. -/
theorem invariant {I : Run σ κ ρ → Prop} (h : I r)
    (hcall : ∀ r c, c ∈ cs → I r → I (r.call exec c)) : I (r.calls exec cs) := by
  induction cs generalizing r with
  | nil => exact h
  | cons c cs ih =>
    exact ih (hcall r c (by simp) h) fun r d hd => hcall r d (List.mem_cons_of_mem _ hd)

/-- What every call does to the state, the whole run does. -/
theorem preserves {R : σ → σ → Prop} (hrefl : ∀ s, R s s)
    (htrans : ∀ {a b c}, R a b → R b c → R a c)
    (hcall : ∀ s c, c ∈ cs → R s (exec c s).2) : R r.state (r.calls exec cs).state :=
  invariant (I := fun q => R r.state q.state) (hrefl _)
    fun q c hc h => htrans h (hcall q.state c hc)

/-- The state that calls lead to depends on the state they start from alone. -/
theorem state_calls_congr {q : Run σ κ ρ} (h : r.state = q.state) :
    (r.calls exec cs).state = (q.calls exec cs).state := by
  induction cs generalizing r q with
  | nil => exact h
  | cons c cs ih => exact ih (by simp [h])

/-- Later calls only extend the log. -/
theorem log_calls : ∃ more, (r.calls exec cs).log = r.log ++ more :=
  invariant (I := fun q => ∃ more, q.log = r.log ++ more) ⟨[], by simp⟩ fun q c _ ⟨more, h⟩ =>
    ⟨more ++ [(c, (exec c q.state).1)], by simp [h]⟩

end Run

/-! ## Machines that run down -/

/-- A measure that decreases until it is zero, and then stays there, is zero from some point on. -/
theorem eventually_zero {f : Nat → Nat} (h : ∀ n, f n = 0 ∧ f (n + 1) = 0 ∨ f (n + 1) < f n) :
    ∃ n, ∀ m, n ≤ m → f m = 0 := by
  have hfrom : ∀ k n, f n ≤ k → ∃ n', ∀ m, n' ≤ m → f m = 0 := by
    intro k
    induction k with
    | zero =>
      intro n hn
      refine ⟨n, fun m hm => ?_⟩
      induction hm with
      | refl => omega
      | step _ ih =>
        rcases h _ with h | h
        · exact h.2
        · omega
    | succ k ih =>
      intro n hn
      rcases h n with h | h
      · exact ih n (by omega)
      · exact ih (n + 1) (by omega)
  exact hfrom (f 0) 0 (Nat.le_refl _)
