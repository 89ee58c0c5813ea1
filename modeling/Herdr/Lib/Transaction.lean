/-!
# Transactions over an explicit store

A transaction body passes the store along and may fail. Committing a body keeps the store it
leaves; a body that fails is rolled back, so the caller keeps the store it started from. The
`_ok` lemmas invert a successful body one statement at a time: they are the only way the proofs
of this development look inside a body.
-/

/-- A computation that may fail succeeds when both of its steps do. -/
theorem Except.bind_ok {ε α β : Type} {x : Except ε α} {f : α → Except ε β} {b : β} :
    (x >>= f) = .ok b ↔ ∃ a, x = .ok a ∧ f a = .ok b := by
  cases x with
  | error e => simp [bind, Except.bind]
  | ok a => simp [bind, Except.bind]

/-- A transaction body over stores `σ`, failing with `ε`. -/
abbrev Tx (σ ε α : Type) := StateT σ (Except ε) α

namespace Tx

variable {σ ε α β : Type}

/-- Go on only when `p` holds. -/
def require (p : Prop) [Decidable p] (e : ε) : Tx σ ε Unit :=
  if p then pure () else throw e

/-- A query, which may itself fail. -/
def query (f : σ → Except ε α) : Tx σ ε α := fun s => (f s).map fun a => (a, s)

/-- A query that always has an answer. -/
def ask (f : σ → α) : Tx σ ε α := fun s => .ok (f s, s)

/-- A statement that changes the store. -/
def write (f : σ → σ) : Tx σ ε Unit := fun s => .ok ((), f s)

/-- A check decided outside the store: `none` passes. -/
def outside (verdict : Option ε) : Tx σ ε Unit :=
  match verdict with
  | none => pure ()
  | some e => throw e

/-- A result computed without the store. -/
def check (x : Except ε α) : Tx σ ε α := fun s => x.map fun a => (a, s)

/-- The row that a query selects, which must be there. -/
def find (f : σ → Option α) (e : ε) : Tx σ ε α := fun s =>
  match f s with
  | some a => .ok (a, s)
  | none => .error e

/-- A statement that changes the store unless a constraint of the store refuses it. -/
def insert (f : σ → Option σ) (e : ε) : Tx σ ε Unit := fun s =>
  match f s with
  | some s' => .ok ((), s')
  | none => .error e

/-- Run `body` for its effect on each element in turn. -/
def forEach (body : α → Tx σ ε Unit) : List α → Tx σ ε Unit
  | [] => pure ()
  | a :: as => do
    body a
    forEach body as

/-- Run a body on a part of the store. -/
def within {τ : Type} (get : σ → τ) (put : τ → σ → σ) (body : Tx τ ε α) : Tx σ ε α := fun s =>
  (body (get s)).map fun p => (p.1, put p.2 s)

/-- Commit a body, or roll its writes back. -/
def commit (body : Tx σ ε α) (s : σ) : Except ε α × σ :=
  match body s with
  | .ok (a, s') => (.ok a, s')
  | .error e => (.error e, s)

/-- Run a read-only body: whatever it did is dropped. -/
def snapshot (body : Tx σ ε α) (s : σ) : Except ε α × σ := ((body s).map Prod.fst, s)

variable {s s' : σ} {a : α} {b : β} {e : ε}

theorem bind_ok {x : Tx σ ε α} {f : α → Tx σ ε β} :
    (x >>= f) s = .ok (b, s') ↔ ∃ a t, x s = .ok (a, t) ∧ f a t = .ok (b, s') := by
  change (x s >>= fun p => f p.1 p.2) = .ok (b, s') ↔ _
  cases h : x s with
  | error e => simp [bind, Except.bind]
  | ok p =>
    obtain ⟨a, t⟩ := p
    constructor
    · exact fun h => ⟨a, t, rfl, h⟩
    · rintro ⟨_, _, hp, h⟩
      cases hp
      exact h

theorem pure_ok {a' : α} : (pure a : Tx σ ε α) s = .ok (a', s') ↔ a = a' ∧ s = s' := by
  change Except.ok (a, s) = .ok (a', s') ↔ _
  simp

theorem throw_ok : (throw e : Tx σ ε α) s = .ok (a, s') ↔ False := by
  change Except.error e = .ok (a, s') ↔ _
  simp

theorem require_ok {p : Prop} [Decidable p] {u : Unit} :
    (require p e : Tx σ ε Unit) s = .ok (u, s') ↔ p ∧ s = s' := by
  unfold require
  split <;> simp [pure_ok, throw_ok, *]

theorem query_ok {f : σ → Except ε α} : query f s = .ok (a, s') ↔ f s = .ok a ∧ s = s' := by
  unfold query
  cases f s <;> simp [Except.map]

theorem ask_ok {f : σ → α} : (ask f : Tx σ ε α) s = .ok (a, s') ↔ f s = a ∧ s = s' := by
  simp [ask]

theorem write_ok {f : σ → σ} {u : Unit} :
    (write f : Tx σ ε Unit) s = .ok (u, s') ↔ f s = s' := by
  simp [write]

theorem outside_ok {v : Option ε} {u : Unit} :
    (outside v : Tx σ ε Unit) s = .ok (u, s') ↔ v = none ∧ s = s' := by
  cases v <;> simp [outside, pure_ok, throw_ok]

theorem check_ok {x : Except ε α} :
    (check x : Tx σ ε α) s = .ok (a, s') ↔ x = .ok a ∧ s = s' := by
  cases x <;> simp [check, Except.map]

theorem find_ok {f : σ → Option α} :
    (find f e : Tx σ ε α) s = .ok (a, s') ↔ f s = some a ∧ s = s' := by
  unfold find
  cases f s <;> simp

theorem insert_ok {f : σ → Option σ} {u : Unit} :
    (insert f e : Tx σ ε Unit) s = .ok (u, s') ↔ f s = some s' := by
  unfold insert
  cases f s <;> simp

theorem ite_ok {p : Prop} [Decidable p] {x y : Tx σ ε α} :
    (if p then x else y) s = .ok (a, s') ↔
      (p ∧ x s = .ok (a, s')) ∨ (¬p ∧ y s = .ok (a, s')) := by
  split <;> simp [*]

theorem map_ok {f : α → β} {x : Tx σ ε α} :
    (f <$> x) s = .ok (b, s') ↔ ∃ a, x s = .ok (a, s') ∧ f a = b := by
  change (x >>= fun a => pure (f a)) s = .ok (b, s') ↔ _
  rw [bind_ok]
  constructor
  · rintro ⟨a, t, hx, hp⟩
    obtain ⟨rfl, rfl⟩ := pure_ok.mp hp
    exact ⟨a, hx, rfl⟩
  · rintro ⟨a, hx, rfl⟩
    exact ⟨a, s', hx, pure_ok.mpr ⟨rfl, rfl⟩⟩

theorem within_ok {τ : Type} {get : σ → τ} {put : τ → σ → σ} {body : Tx τ ε α} :
    within get put body s = .ok (a, s') ↔ ∃ t, body (get s) = .ok (a, t) ∧ put t s = s' := by
  unfold within
  cases body (get s) with
  | error e => simp [Except.map]
  | ok p =>
    obtain ⟨b, t⟩ := p
    simp [Except.map, and_assoc]

/-! ## Peeling one statement off a body

Each lemma turns the first statement of a successful body into what it checked, read or wrote and
leaves the rest of the body, run in the store that the statement left. -/

section Peel

variable {f : α → Tx σ ε β} {g : Unit → Tx σ ε β}

/-- A statement that leaves the store alone is a condition on what it returns. -/
theorem bind_reads {x : Tx σ ε α} {P : α → Prop}
    (h : ∀ {a t}, x s = .ok (a, t) ↔ P a ∧ s = t) :
    (x >>= f) s = .ok (b, s') ↔ ∃ a, P a ∧ f a s = .ok (b, s') := by
  rw [bind_ok]
  constructor
  · rintro ⟨a, t, hx, hf⟩
    obtain ⟨ha, rfl⟩ := h.mp hx
    exact ⟨a, ha, hf⟩
  · rintro ⟨a, ha, hf⟩
    exact ⟨a, s, h.mpr ⟨ha, rfl⟩, hf⟩

theorem exists_unit {p : Prop} {q : Unit → Prop} : (∃ u, p ∧ q u) ↔ p ∧ q () :=
  ⟨fun ⟨_, h⟩ => h, fun h => ⟨(), h⟩⟩

theorem require_bind {p : Prop} [Decidable p] :
    ((require p e : Tx σ ε Unit) >>= g) s = .ok (b, s') ↔ p ∧ g () s = .ok (b, s') :=
  (bind_reads require_ok).trans exists_unit

theorem query_bind {q : σ → Except ε α} :
    (query q >>= f) s = .ok (b, s') ↔ ∃ a, q s = .ok a ∧ f a s = .ok (b, s') :=
  bind_reads query_ok

theorem ask_bind {q : σ → α} :
    ((ask q : Tx σ ε α) >>= f) s = .ok (b, s') ↔ f (q s) s = .ok (b, s') := by
  rw [bind_reads ask_ok]
  simp

theorem outside_bind {v : Option ε} :
    ((outside v : Tx σ ε Unit) >>= g) s = .ok (b, s') ↔ v = none ∧ g () s = .ok (b, s') :=
  (bind_reads outside_ok).trans exists_unit

theorem check_bind {x : Except ε α} :
    ((check x : Tx σ ε α) >>= f) s = .ok (b, s') ↔ ∃ a, x = .ok a ∧ f a s = .ok (b, s') :=
  bind_reads check_ok

theorem find_bind {q : σ → Option α} :
    ((find q e : Tx σ ε α) >>= f) s = .ok (b, s') ↔ ∃ a, q s = some a ∧ f a s = .ok (b, s') :=
  bind_reads find_ok

theorem write_bind {w : σ → σ} :
    ((write w : Tx σ ε Unit) >>= g) s = .ok (b, s') ↔ g () (w s) = .ok (b, s') := by
  rw [bind_ok]
  constructor
  · rintro ⟨_, t, hw, hg⟩
    rw [write_ok.mp hw]
    exact hg
  · exact fun hg => ⟨(), w s, rfl, hg⟩

theorem insert_bind {q : σ → Option σ} :
    ((insert q e : Tx σ ε Unit) >>= g) s = .ok (b, s') ↔
      ∃ t, q s = some t ∧ g () t = .ok (b, s') := by
  rw [bind_ok]
  constructor
  · rintro ⟨_, t, hi, hg⟩
    exact ⟨t, insert_ok.mp hi, hg⟩
  · rintro ⟨t, hi, hg⟩
    exact ⟨(), t, insert_ok.mpr hi, hg⟩

end Peel

/-! ## Bodies that only read -/

/-- Whenever `x` succeeds, it leaves the store as it found it. -/
structure Reads (x : Tx σ ε α) : Prop where
  keeps : ∀ {s a t}, x s = .ok (a, t) → t = s

namespace Reads

variable {x : Tx σ ε α} {f : α → Tx σ ε β}

theorem bind (hx : Reads x) (hf : ∀ a, Reads (f a)) : Reads (x >>= f) := by
  constructor
  intro s b t h
  obtain ⟨a, u, ha, hb⟩ := bind_ok.mp h
  rw [(hf a).keeps hb, hx.keeps ha]

theorem pure (a : α) : Reads (Pure.pure a : Tx σ ε α) := ⟨fun h => (pure_ok.mp h).2.symm⟩

theorem require (p : Prop) [Decidable p] (e : ε) : Reads (Tx.require p e : Tx σ ε Unit) :=
  ⟨fun h => (require_ok.mp h).2.symm⟩

theorem query (q : σ → Except ε α) : Reads (Tx.query q) := ⟨fun h => (query_ok.mp h).2.symm⟩

theorem ask (q : σ → α) : Reads (Tx.ask q : Tx σ ε α) := ⟨fun h => (ask_ok.mp h).2.symm⟩

theorem outside (v : Option ε) : Reads (Tx.outside v : Tx σ ε Unit) :=
  ⟨fun h => (outside_ok.mp h).2.symm⟩

theorem check (y : Except ε α) : Reads (Tx.check y : Tx σ ε α) := ⟨fun h => (check_ok.mp h).2.symm⟩

theorem find (q : σ → Option α) (e : ε) : Reads (Tx.find q e : Tx σ ε α) :=
  ⟨fun h => (find_ok.mp h).2.symm⟩

theorem ite {p : Prop} [Decidable p] {y : Tx σ ε α} (hx : Reads x) (hy : Reads y) :
    Reads (if p then x else y) := by
  split
  · exact hx
  · exact hy

theorem forEach {body : α → Tx σ ε Unit} (hbody : ∀ a, Reads (body a)) :
    ∀ as, Reads (Tx.forEach body as)
  | [] => .pure ()
  | a :: as => .bind (hbody a) fun _ => forEach hbody as

/-- A loop of checks that passed has passed each of them. -/
theorem forEach_mem {body : α → Tx σ ε Unit} (hbody : ∀ a, Reads (body a)) {as : List α} {u : Unit}
    (h : Tx.forEach body as s = .ok (u, s')) {a : α} (ha : a ∈ as) : body a s = .ok ((), s) := by
  induction as with
  | nil => cases ha
  | cons b as ih =>
    obtain ⟨_, t, hb, hrest⟩ := bind_ok.mp h
    obtain rfl := (hbody b).keeps hb
    rcases List.mem_cons.mp ha with rfl | ha
    · exact hb
    · exact ih hrest ha

/-- Peel a reading sub-body off a body. -/
theorem peel (hx : Reads x) :
    (x >>= f) s = .ok (b, s') ↔ ∃ a, x s = .ok (a, s) ∧ f a s = .ok (b, s') := by
  rw [bind_ok]
  constructor
  · rintro ⟨a, t, ha, hb⟩
    obtain rfl := hx.keeps ha
    exact ⟨a, ha, hb⟩
  · rintro ⟨a, ha, hb⟩
    exact ⟨a, s, ha, hb⟩

end Reads

/-- What every element's body preserves, the whole loop preserves. -/
theorem forEach_preserves {body : α → Tx σ ε Unit} {R : σ → σ → Prop}
    (hrefl : ∀ s, R s s) (htrans : ∀ {a b c}, R a b → R b c → R a c) {as : List α}
    (hbody : ∀ a ∈ as, ∀ {s s' u}, body a s = .ok (u, s') → R s s') {u : Unit}
    (h : forEach body as s = .ok (u, s')) : R s s' := by
  induction as generalizing s with
  | nil =>
    obtain ⟨-, rfl⟩ := pure_ok.mp h
    exact hrefl _
  | cons a as ih =>
    obtain ⟨_, t, ha, hrest⟩ := bind_ok.mp h
    exact htrans (hbody a (by simp) ha)
      (ih (fun b hb => hbody b (List.mem_cons_of_mem _ hb)) hrest)

/-- A loop whose turns each do what an abstract step does, or fail with `e` exactly when the step
has no result, does what the fold of the steps does. -/
theorem forEach_simulates {τ : Type} {body : α → Tx σ ε Unit} {step : τ → α → Option τ}
    {R : σ → τ → Prop} {as : List α}
    (hbody : ∀ a ∈ as, ∀ {s t}, R s t →
      (∃ s' t', body a s = .ok ((), s') ∧ step t a = some t' ∧ R s' t') ∨
        (body a s = .error e ∧ step t a = none)) {t : τ} (h : R s t) :
    (∃ s' t', forEach body as s = .ok ((), s') ∧ as.foldlM step t = some t' ∧ R s' t') ∨
      (forEach body as s = .error e ∧ as.foldlM step t = none) := by
  induction as generalizing s t with
  | nil => exact .inl ⟨s, t, rfl, rfl, h⟩
  | cons a as ih =>
    have hloop : forEach body (a :: as) s = (body a >>= fun _ => forEach body as) s := rfl
    have hfold : (a :: as).foldlM step t = (step t a).bind fun t' => as.foldlM step t' := rfl
    rw [hloop, hfold]
    obtain ⟨s₁, t₁, hb, hs, h₁⟩ | ⟨hb, hs⟩ := hbody a (by simp) h
    · have hnext : (body a >>= fun _ => forEach body as) s = forEach body as s₁ := by
        change (body a s >>= fun p => forEach body as p.2) = _
        rw [hb]
        rfl
      rw [hnext, hs]
      exact ih (fun b hb => hbody b (List.mem_cons_of_mem _ hb)) h₁
    · refine .inr ⟨?_, by rw [hs]; rfl⟩
      change (body a s >>= fun p => forEach body as p.2) = _
      rw [hb]
      rfl

/-- A loop over distinct keys that changes, in each turn, the entry of its own key only changes
every entry of the list once and leaves the others alone. -/
theorem forEach_pointwise {κ ρ : Type} {g : σ → κ → Option ρ} {R : ρ → ρ → Prop}
    {body : κ → Tx σ ε Unit}
    (hother : ∀ {k j s s' u}, body k s = .ok (u, s') → j ≠ k → g s' j = g s j)
    (hown : ∀ {k s s' u r}, body k s = .ok (u, s') → g s k = some r →
      ∃ r', g s' k = some r' ∧ R r r')
    {ks : List κ} (hnodup : ks.Nodup) {u : Unit} (h : forEach body ks s = .ok (u, s'))
    {k : κ} {r : ρ} (hget : g s k = some r) :
    ∃ r', g s' k = some r' ∧ ((k ∈ ks ∧ R r r') ∨ (k ∉ ks ∧ r' = r)) := by
  induction ks generalizing s r with
  | nil =>
    obtain ⟨-, rfl⟩ := pure_ok.mp h
    exact ⟨r, hget, .inr ⟨by simp, rfl⟩⟩
  | cons j ks ih =>
    obtain ⟨_, t, hbody, hrest⟩ := bind_ok.mp h
    obtain ⟨hj, hks⟩ := List.nodup_cons.mp hnodup
    by_cases hk : k = j
    · -- the own turn comes first, and no later turn touches the entry again
      subst hk
      obtain ⟨r₁, hr₁, hR⟩ := hown hbody hget
      obtain ⟨r', hr', ⟨hmem, -⟩ | ⟨-, rfl⟩⟩ := ih hks hrest hr₁
      · exact absurd hmem hj
      · exact ⟨_, hr', .inl ⟨by simp, hR⟩⟩
    · rw [← hother hbody hk] at hget
      obtain ⟨r', hr', ⟨hmem, hR⟩ | ⟨hmem, rfl⟩⟩ := ih hks hrest hget
      · exact ⟨r', hr', .inl ⟨List.mem_cons_of_mem _ hmem, hR⟩⟩
      · exact ⟨_, hr', .inr ⟨by simp [hk, hmem], rfl⟩⟩

theorem commit_eq (body : Tx σ ε α) (s : σ) :
    (∃ a s', body s = .ok (a, s') ∧ commit body s = (.ok a, s')) ∨
      ∃ e, body s = .error e ∧ commit body s = (.error e, s) := by
  cases h : body s with
  | error e => exact .inr ⟨e, rfl, by simp [commit, h]⟩
  | ok p => exact .inl ⟨p.1, p.2, rfl, by simp [commit, h]⟩

/-- A call that succeeds ran its whole body. -/
theorem commit_ok {body : Tx σ ε α} (h : (commit body s).1 = .ok a) :
    body s = .ok (a, (commit body s).2) := by
  obtain ⟨a', s', hb, hc⟩ | ⟨e, _, hc⟩ := commit_eq body s
  · rw [hc] at h ⊢
    cases h
    exact hb
  · rw [hc] at h
    cases h

/-- A call that fails leaves the store as it was. -/
theorem commit_error {body : Tx σ ε α} (h : (commit body s).1 = .error e) :
    (commit body s).2 = s := by
  obtain ⟨a', s', _, hc⟩ | ⟨e, _, hc⟩ := commit_eq body s
  · rw [hc] at h
    cases h
  · rw [hc]

/-- Any relation that holds between the ends of a successful body, and is reflexive, holds
across the call. -/
theorem commit_preserves {body : Tx σ ε α} {R : σ → σ → Prop} (hrefl : R s s)
    (hbody : ∀ {a s'}, body s = .ok (a, s') → R s s') : R s (commit body s).2 := by
  obtain ⟨a, s', hb, hc⟩ | ⟨e, _, hc⟩ := commit_eq body s
  · rw [hc]
    exact hbody hb
  · rw [hc]
    exact hrefl

end Tx
