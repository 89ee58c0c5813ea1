import Mathlib.Order.Defs.Unbundled
import Herdr.Lib.Transaction
import Herdr.Lib.Table

/-!
# Relations along a transaction

A relation between the states before and after, kept by every statement of a body, is kept by the
body: it is enough that the relation is reflexive and transitive.
-/

namespace Tx

variable {σ ε α β : Type} {R : σ → σ → Prop}

/-- Whenever `x` succeeds, the states before and after it are related. -/
structure Steps (R : σ → σ → Prop) (x : Tx σ ε α) : Prop where
  step : ∀ {s a t}, x s = .ok (a, t) → R s t

namespace Steps

variable {x y : Tx σ ε α} {f : α → Tx σ ε β}

theorem of_reads [Std.Refl R] (h : Reads x) : Steps R x := by
  constructor
  intro s a t hx
  rw [h.keeps hx]
  exact Std.Refl.refl s

theorem bind [IsTrans σ R] (hx : Steps R x) (hf : ∀ a, Steps R (f a)) : Steps R (x >>= f) := by
  constructor
  intro s b t h
  obtain ⟨a, u, ha, hb⟩ := bind_ok.mp h
  exact IsTrans.trans _ _ _ (hx.step ha) ((hf a).step hb)

theorem write {w : σ → σ} (h : ∀ s, R s (w s)) : Steps R (Tx.write w : Tx σ ε Unit) := by
  constructor
  intro s a t hw
  rw [← write_ok.mp hw]
  exact h s

theorem insert {q : σ → Option σ} {e : ε} (h : ∀ {s t}, q s = some t → R s t) :
    Steps R (Tx.insert q e) := by
  constructor
  intro s a t hq
  exact h (insert_ok.mp hq)

theorem ite {p : Prop} [Decidable p] (hx : Steps R x) (hy : Steps R y) :
    Steps R (if p then x else y) := by
  split
  · exact hx
  · exact hy

theorem throw {e : ε} : Steps R (MonadExcept.throw e : Tx σ ε α) :=
  ⟨fun h => (throw_ok.mp h).elim⟩

theorem forEach [Std.Refl R] [IsTrans σ R] {body : α → Tx σ ε Unit} (h : ∀ a, Steps R (body a))
    (as : List α) : Steps R (Tx.forEach body as) :=
  ⟨forEach_preserves Std.Refl.refl (fun hab hbc => IsTrans.trans _ _ _ hab hbc)
    fun a _ _ _ _ ha => (h a).step ha⟩

end Steps

/-! ## Invariants of statements -/

/-- What holds before holds after. -/
def Carries (I : σ → Prop) (s t : σ) : Prop := I s → I t

instance {I : σ → Prop} : Std.Refl (Carries I) := ⟨fun _ h => h⟩

instance {I : σ → Prop} : IsTrans σ (Carries I) := ⟨fun _ _ _ hab hbc h => hbc (hab h)⟩

/-! ## Errors that a body cannot end in -/

/-- From `s`, `x` does not fail with an error of `B`. -/
def Avoids (B : ε → Prop) (x : Tx σ ε α) (s : σ) : Prop := ∀ e, x s = .error e → ¬B e

namespace Avoids

variable {B : ε → Prop} {x y : Tx σ ε α} {f : α → Tx σ ε β} {s : σ} {e : ε}

theorem bind (hx : Avoids B x s) (hf : ∀ a t, x s = .ok (a, t) → Avoids B (f a) t) :
    Avoids B (x >>= f) s := by
  intro e he
  change (x s >>= fun p => f p.1 p.2) = .error e at he
  cases h : x s with
  | error e' =>
    rw [h] at he
    cases he
    exact hx e h
  | ok p =>
    rw [h] at he
    exact hf p.1 p.2 h e he

theorem pure (a : α) : Avoids B (Pure.pure a : Tx σ ε α) s := by
  intro e he
  cases he

theorem ask (q : σ → α) : Avoids B (Tx.ask q : Tx σ ε α) s := by
  intro e he
  cases he

theorem write (w : σ → σ) : Avoids B (Tx.write w : Tx σ ε Unit) s := by
  intro e he
  cases he

theorem require {p : Prop} [Decidable p] (h : ¬p → ¬B e) :
    Avoids B (Tx.require p e : Tx σ ε Unit) s := by
  intro e' he
  unfold Tx.require at he
  split at he
  · cases he
  · cases he
    exact h ‹_›

theorem find {q : σ → Option α} (h : q s = none → ¬B e) : Avoids B (Tx.find q e) s := by
  intro e' he
  unfold Tx.find at he
  split at he
  · cases he
  · cases he
    exact h ‹_›

theorem insert {q : σ → Option σ} (h : ¬B e) : Avoids B (Tx.insert q e) s := by
  intro e' he
  unfold Tx.insert at he
  split at he
  · cases he
  · cases he
    exact h

theorem check {r : Except ε α} (h : ∀ e, r = .error e → ¬B e) :
    Avoids B (Tx.check r : Tx σ ε α) s := by
  intro e' he
  cases r with
  | error e =>
    cases he
    exact h _ rfl
  | ok a => cases he

theorem ite {p : Prop} [Decidable p] (hx : p → Avoids B x s) (hy : ¬p → Avoids B y s) :
    Avoids B (if p then x else y) s := by
  split
  · exact hx ‹_›
  · exact hy ‹_›

/-- A loop whose turns, from any store, do not fail so. -/
theorem forEach {body : α → Tx σ ε Unit} (h : ∀ a s, Avoids B (body a) s) (as : List α) :
    Avoids B (Tx.forEach body as) s := by
  induction as generalizing s with
  | nil => exact pure ()
  | cons a as ih => exact bind (h a s) fun _ _ _ => ih

end Avoids

/-- A table of the store. -/
structure Column (σ : Type) {ρ κ : Type} (key : ρ → κ) where
  get : σ → Table ρ key
  put : Table ρ key → σ → σ
  get_put : ∀ t s, get (put t s) = t
  put_put : ∀ t t' s, put t' (put t s) = put t' s
  put_get : ∀ s, put (get s) s = s

section Inserts

variable {ρ κ : Type} [DecidableEq κ] {key : ρ → κ} (c : Column σ key) {e : ε} {row : α → ρ}

/-- One INSERT. -/
def Column.insert (c : Column σ key) (r : ρ) (e : ε) : Tx σ ε Unit :=
  Tx.insert (fun s => ((c.get s).insert? r).map fun t => c.put t s) e

theorem Column.insert_ok {r : ρ} {u : Unit} {s s' : σ} :
    c.insert r e s = .ok (u, s') ↔ ∃ t, (c.get s).insert? r = some t ∧ c.put t s = s' := by
  rw [Column.insert, Tx.insert_ok, Option.map_eq_some_iff]

/-- A loop of INSERTs that succeeds appends its rows, in order. -/
theorem Column.forEach_insert_ok {as : List α} {u : Unit} {s s' : σ}
    (h : forEach (fun a => c.insert (row a) e) as s = .ok (u, s')) :
    ∃ t, t.rows = (c.get s).rows ++ as.map row ∧ s' = c.put t s := by
  induction as generalizing s with
  | nil =>
    obtain ⟨-, rfl⟩ := pure_ok.mp h
    exact ⟨c.get s, by simp, (c.put_get s).symm⟩
  | cons a as ih =>
    obtain ⟨_, s₁, ha, hrest⟩ := bind_ok.mp h
    obtain ⟨t₁, ht₁, rfl⟩ := c.insert_ok.mp ha
    obtain ⟨t, ht, rfl⟩ := ih hrest
    refine ⟨t, ?_, c.put_put t₁ t s⟩
    rw [ht, c.get_put, (Table.insert?_eq_some ht₁).2]
    simp

/-- A loop of INSERTs of new, distinct keys succeeds. -/
theorem Column.forEach_insert (row : α → ρ) (e : ε) (as : List α) (s : σ)
    (hnodup : (as.map fun a => key (row a)).Nodup)
    (hnew : ∀ a ∈ as, (c.get s).find (key (row a)) = none) :
    ∃ s', forEach (fun a => c.insert (row a) e) as s = .ok ((), s') := by
  induction as generalizing s with
  | nil => exact ⟨s, rfl⟩
  | cons a as ih =>
    rw [List.map_cons, List.nodup_cons] at hnodup
    have ha := hnew a (by simp)
    obtain ⟨t, ht⟩ : ∃ t, (c.get s).insert? (row a) = some t := by
      unfold Table.insert?
      rw [dif_pos ha]
      exact ⟨_, rfl⟩
    obtain ⟨s', hs'⟩ := ih (c.put t s) hnodup.2 (by
      intro b hb
      rw [c.get_put, Table.find_insert? ht, if_neg, hnew b (List.mem_cons_of_mem a hb)]
      intro he
      exact hnodup.1 (List.mem_map.mpr ⟨b, hb, he.symm⟩))
    exact ⟨s', bind_ok.mpr ⟨(), c.put t s, c.insert_ok.mpr ⟨t, ht, rfl⟩, hs'⟩⟩

end Inserts

end Tx
