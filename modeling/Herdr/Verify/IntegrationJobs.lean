import Herdr.Store.IntegrationJobs
import Herdr.Verify.Fencing

/-!
# One integration at a time

The producer enqueues a job only when no other job of the target is unfinished, and every later
move of a delivery stays among the unfinished states or ends it. The one way back is the owner's
reset of a failed job, which does not look at the target: a run keeps at most one unfinished job
for each target exactly when every reset finds the target free.
-/

namespace Herdr.Jobs

variable {s s' : JobStore}

/-! ## Unfinished jobs -/

/-- At most one unfinished job for each repository and ref. -/
def OneAtATime (s : JobStore) : Prop :=
  ∀ target, ∀ a ∈ s.unfinishedJobs target, ∀ b ∈ s.unfinishedJobs target, a = b

/-- No job became unfinished. -/
def Shrinks (s s' : JobStore) : Prop :=
  ∀ target, ∀ op ∈ s'.unfinishedJobs target, op ∈ s.unfinishedJobs target

theorem mem_unfinishedJobs {target : String × String} {op : Operation} :
    op ∈ s.unfinishedJobs target ↔
      op ∈ s.operations.rows ∧ target? op = some target ∧ s.isUnfinished op.id = true := by
  simp [JobStore.unfinishedJobs]

theorem isUnfinished_iff {id : OperationId} :
    s.isUnfinished id = true ↔ ∃ d, s.deliveries.find id = some d ∧ unfinished d.state = true := by
  unfold JobStore.isUnfinished
  cases s.deliveries.find id <;> simp

theorem Shrinks.refl (s : JobStore) : Shrinks s s := fun _ _ h => h

theorem Shrinks.trans {t : JobStore} (h : Shrinks s s') (h' : Shrinks s' t) : Shrinks s t :=
  fun target op hop => h target op (h' target op hop)

theorem OneAtATime.shrinks (h : OneAtATime s) (hs : Shrinks s s') : OneAtATime s' :=
  fun target a ha b hb => h target a (hs target a ha) b (hs target b hb)

/-- One more job is unfinished, of a target that had none. -/
theorem OneAtATime.add {op : Operation} (h : OneAtATime s)
    (hnew : ∀ {target a}, a ∈ s'.unfinishedJobs target → a = op ∨ a ∈ s.unfinishedJobs target)
    (hfree : ∀ target, target? op = some target → s.unfinishedJobs target = []) :
    OneAtATime s' := by
  intro target a ha b hb
  have hclash : ∀ {c}, op ∈ s'.unfinishedJobs target → c ∈ s.unfinishedJobs target → False := by
    intro c hop hc
    obtain ⟨-, ht, -⟩ := mem_unfinishedJobs.mp hop
    rw [hfree target ht] at hc
    cases hc
  rcases hnew ha with rfl | ha'
  · rcases hnew hb with rfl | hb'
    · rfl
    · exact (hclash ha hb').elim
  · rcases hnew hb with rfl | hb'
    · exact (hclash hb ha').elim
    · exact h target a ha' b hb'

theorem Shrinks.of_rows (hops : s'.operations = s.operations)
    (hrows : ∀ id, s'.isUnfinished id = true → s.isUnfinished id = true) : Shrinks s s' := by
  intro target op hop
  obtain ⟨hmem, ht, hun⟩ := mem_unfinishedJobs.mp hop
  rw [hops] at hmem
  exact mem_unfinishedJobs.mpr ⟨hmem, ht, hrows _ hun⟩

theorem Shrinks.of_same (hops : s'.operations = s.operations)
    (hdel : s'.deliveries = s.deliveries) : Shrinks s s' := by
  apply Shrinks.of_rows hops
  intro id h
  unfold JobStore.isUnfinished at h ⊢
  rwa [hdel] at h

/-- A delivery that was unfinished may move anywhere, and a finished one among finished states. -/
theorem Shrinks.of_update (old : Delivery) {new : Delivery} (hops : s'.operations = s.operations)
    (hdel : s'.deliveries = s.deliveries.update new)
    (hold : s.deliveries.find old.operation = some old) (hid : new.operation = old.operation)
    (hun : unfinished new.state = true → unfinished old.state = true) : Shrinks s s' := by
  apply Shrinks.of_rows hops
  intro id h
  obtain ⟨d, hd, hstate⟩ := isUnfinished_iff.mp h
  rw [hdel] at hd
  by_cases he : new.operation = id
  · rw [← hid] at hold
    rw [← he, Table.find_update_self hold] at hd
    cases hd
    rw [← he]
    exact isUnfinished_iff.mpr ⟨old, hold, hun hstate⟩
  · rw [Table.find_update_ne he] at hd
    exact isUnfinished_iff.mpr ⟨d, hd, hstate⟩

/-! ## Deliveries -/

section Deliveries

variable [Digests] {env : Outside}

omit [Digests] in
theorem inStore_ok {α : Type} {body : Body α} {a : α} :
    inStore body s = .ok (a, s') ↔
      ∃ t, body s.toStore = .ok (a, t) ∧ { s with toStore := t } = s' :=
  Tx.within_ok

omit [Digests] in
theorem Shrinks.settles {t : Store} {old : Delivery} {outcome : Outcome} {now : Int}
    (hold : s.deliveries.find old.operation = some old) (hun : unfinished old.state = true)
    (h : Settles s.toStore t (old.settle outcome now)) : Shrinks s { s with toStore := t } := by
  have hops : t.operations = s.operations := by rw [h.frame]
  have hdel : t.deliveries = s.deliveries.update (old.settle outcome now) := by rw [h.frame]
  exact .of_update old hops hdel hold rfl fun _ => hun

theorem Shrinks.claim {id : OperationId} {expected : Nat} {owner : String} {now leaseMs : Int}
    {c : Claim}
    (h : inStore (claimOperation env id expected owner now leaseMs) s = .ok (c, s')) :
    Shrinks s s' := by
  obtain ⟨t, hbody, rfl⟩ := inStore_ok.mp h
  obtain ⟨rfl, old, op, hc⟩ := claimWithCreation_ok hbody
  have hrow := hc.row
  have hid : old.operation = c.operation := Table.find_key hrow
  have hops : t.operations = s.operations := by rw [hc.frame]
  have hdel : t.deliveries = s.deliveries.update (old.claim c.owner c.leaseUntilMs) := by
    rw [hc.frame]
  exact .of_update old hops hdel (hid ▸ hrow) rfl fun _ => by rw [hc.pending]; rfl

theorem Shrinks.finish {claim : Claim} {outcome : Outcome} {now : Int} {d : Delivery}
    (h : inStore (finishOperation env claim outcome now) s = .ok (d, s')) : Shrinks s s' := by
  obtain ⟨t, hbody, rfl⟩ := inStore_ok.mp h
  obtain ⟨old, hrow, hheld, hs⟩ := finishOperation_ok hbody
  have hid : old.operation = claim.operation := Table.find_key hrow
  exact .settles (hid ▸ hrow) (by rw [hheld.1]; rfl) hs

theorem Shrinks.observe {id : OperationId} {expected : Nat} {actor : String} {outcome : Outcome}
    {now : Int} {d : Delivery}
    (h : inStore (observeOperation env id expected actor outcome now) s = .ok (d, s')) :
    Shrinks s s' := by
  obtain ⟨t, hbody, rfl⟩ := inStore_ok.mp h
  obtain ⟨old, hrow, hstate, hs⟩ := observeOperation_ok hbody
  have hid : old.operation = id := Table.find_key hrow
  exact .settles (hid ▸ hrow) (by rw [hstate]; rfl) hs

theorem Shrinks.retire {id : OperationId} {revision head : Nat} {reason : String} {now : Int}
    {d : Delivery} (h : inStore (retireOperation env id revision head reason now) s = .ok (d, s')) :
    Shrinks s s' := by
  obtain ⟨t, hbody, rfl⟩ := inStore_ok.mp h
  obtain ⟨old, outcome, hrow, hstate, hs⟩ := retireOperation_ok hbody
  have hid : old.operation = id := Table.find_key hrow
  refine .settles (hid ▸ hrow) ?_ hs
  rcases hstate with hstate | hstate <;> rw [hstate] <;> rfl

/-- Expiry adds no delivery. -/
theorem expireClaims_none {store t : Store} {now : Int} {n : Nat}
    (h : expireClaims env now store = .ok (n, t)) {id : OperationId}
    (hnone : store.deliveries.find id = none) : t.deliveries.find id = none := by
  simp only [expireClaims, nowCheck_bind, Tx.ask_bind] at h
  obtain ⟨-, h⟩ := h
  obtain ⟨_, u, hloop, h⟩ := Tx.bind_ok.mp h
  simp only [Tx.outside_bind, Tx.pure_ok] at h
  obtain ⟨-, -, rfl⟩ := h
  refine Tx.forEach_preserves (R := fun a b : Store => a.deliveries.find id = none →
    b.deliveries.find id = none) (fun _ h => h) (fun hab hbc h => hbc (hab h)) ?_ hloop hnone
  intro j _ a b _ hbody hnone
  obtain ⟨old, hold, -, -, hother⟩ := expireClaim_ok hbody
  have hne : id ≠ j := by
    rintro rfl
    rw [hnone] at hold
    cases hold
  rw [hother id hne, hnone]

theorem Shrinks.expire {now : Int} {n : Nat}
    (h : inStore (expireClaims env now) s = .ok (n, s')) : Shrinks s s' := by
  obtain ⟨t, hbody, rfl⟩ := inStore_ok.mp h
  obtain ⟨honly, hrows⟩ := expireClaims_ok hbody
  have hops : t.operations = s.operations := by rw [honly.frame]
  refine .of_rows hops ?_
  intro id hun
  obtain ⟨d', hd', hstate⟩ := isUnfinished_iff.mp hun
  cases hd : s.deliveries.find id with
  | none =>
    have hnone : t.deliveries.find id = none := expireClaims_none hbody hd
    rw [hnone] at hd'
    cases hd'
  | some d =>
    obtain ⟨e, he, ⟨hexpired, -⟩ | ⟨-, rfl⟩⟩ := hrows hd
    · -- only claimed rows expire
      obtain ⟨d₀, hd₀, hclaimed, -⟩ := Store.mem_expired.mp hexpired
      exact isUnfinished_iff.mpr ⟨d₀, hd₀, by rw [hclaimed]; rfl⟩
    · have heq : e = d' := Option.some.inj (he.symm.trans hd')
      exact isUnfinished_iff.mpr ⟨e, hd, heq ▸ hstate⟩

end Deliveries

/-! ## The producer -/

section Producer

variable [Digests] [JobDigests] {env : Outside}

omit [Digests] [JobDigests] in
theorem inStore_bind {α β : Type} {body : Body α} {f : α → JobTx β} {b : β} :
    (inStore body >>= f) s = .ok (b, s') ↔
      ∃ a t, body s.toStore = .ok (a, t) ∧ f a { s with toStore := t } = .ok (b, s') := by
  rw [Tx.bind_ok]
  constructor
  · rintro ⟨a, u, hbody, hf⟩
    obtain ⟨t, hrun, rfl⟩ := inStore_ok.mp hbody
    exact ⟨a, t, hrun, hf⟩
  · rintro ⟨a, t, hbody, hf⟩
    exact ⟨a, _, inStore_ok.mpr ⟨t, hbody, rfl⟩, hf⟩

omit [Digests] [JobDigests] in
theorem requeue_frame (s : JobStore) (submission : String) :
    s.requeue submission = { s with pending := (s.requeue submission).pending } := by
  unfold JobStore.requeue
  split <;> rfl

omit [Digests] [JobDigests] in
theorem Shrinks.requeue (s : JobStore) (submission : String) :
    Shrinks s (s.requeue submission) := by
  refine .of_same ?_ ?_ <;> rw [requeue_frame]

omit [JobDigests] in
/-- A retired job is finished. -/
theorem Shrinks.retireJob {lane : ResultLane} {now : Int} {stale : OperationId × Nat × Nat}
    {u : Unit} (h : retireJob env lane now stale s = .ok (u, s')) : Shrinks s s' := by
  obtain ⟨id, bound, current⟩ := stale
  simp only [Jobs.retireJob, inStore_bind, readDelivery, Tx.find_ok] at h
  obtain ⟨old, _, ⟨hrow, rfl⟩, d, t, hout, _, t', hlog, h⟩ := h
  have hid : old.operation = id := Table.find_key hrow
  have hretired : Shrinks s { s with toStore := t' } := by
    obtain ⟨-, rfl⟩ := logEvent_ok.mp hlog
    rw [updateOutcome_other hout (by simp)]
    exact .of_update old rfl rfl (hid ▸ hrow) rfl (by simp [Delivery.settle, Outcome.budgeted,
      Outcome.state, unfinished])
  refine hretired.trans ?_
  rcases Tx.ite_ok.mp h with ⟨-, h⟩ | ⟨-, h⟩
  · rw [← Tx.write_ok.mp h]
    split
    · exact .requeue _ _
    · exact .refl _
  · rw [(Tx.pure_ok.mp h).2]
    exact .refl _

omit [JobDigests] in
theorem Shrinks.retireStale {lane : ResultLane} {now : Int} {more : Bool}
    (h : retireStale env lane now s = .ok (more, s')) : Shrinks s s' := by
  simp only [Jobs.retireStale, Tx.ask_bind] at h
  obtain ⟨_, t, hloop, h⟩ := Tx.bind_ok.mp h
  obtain ⟨-, rfl⟩ := Tx.pure_ok.mp h
  exact Tx.forEach_preserves .refl .trans (fun _ _ _ _ _ h => .retireJob h) hloop

omit [Digests] [JobDigests] in
theorem insertJob_ok {op : Operation} (h : s.insertJob op = some s') :
    s.operations.insert? op = some s'.operations ∧
      s.deliveries.insert? (.enqueued op.id op.dueUnixMs) = some s'.deliveries := by
  simp only [JobStore.insertJob, Option.bind_eq_bind, Option.bind_eq_some_iff] at h
  obtain ⟨_, -, operations, hops, deliveries, hdel, h⟩ := h
  cases h
  exact ⟨hops, hdel⟩

omit [Digests] [JobDigests] in
/-- An insert makes one job unfinished, its own. -/
theorem insertJob_unfinished {op : Operation} (h : s.insertJob op = some s') {target}
    {a : Operation} (ha : a ∈ s'.unfinishedJobs target) :
    a = op ∨ a ∈ s.unfinishedJobs target := by
  obtain ⟨hops, hdel⟩ := insertJob_ok h
  obtain ⟨hmem, ht, hun⟩ := mem_unfinishedJobs.mp ha
  rcases (Table.mem_insert? hops).mp hmem with hmem | rfl
  · right
    obtain ⟨d, hd, hstate⟩ := isUnfinished_iff.mp hun
    have hne : (Delivery.enqueued op.id op.dueUnixMs).operation ≠ a.id := by
      intro he
      have hnone := (Table.insert?_eq_some hops).1
      rw [show op.id = a.id from he, Table.find_of_mem hmem] at hnone
      cases hnone
    rw [Table.find_insert? hdel, if_neg hne] at hd
    exact mem_unfinishedJobs.mpr ⟨hmem, ht, isUnfinished_iff.mpr ⟨d, hd, hstate⟩⟩
  · exact .inl rfl

omit [Digests] [JobDigests] in
/-- A new job is the only one of its target: the insert found none. -/
theorem OneAtATime.insertJob {op : Operation} {target : String × String} (h : OneAtATime s)
    (htarget : target? op = some target) (hfree : s.unfinishedJobs target = [])
    (hinsert : s.insertJob op = some s') : OneAtATime s' := by
  refine h.add (fun ha => insertJob_unfinished hinsert ha) ?_
  intro other ht
  rw [htarget] at ht
  cases ht
  exact hfree

omit [Digests] in
theorem OneAtATime.enqueueOne {now : Int} {submission : String} {n : Nat} (h : OneAtATime s)
    (hbody : enqueueOne now submission s = .ok (n, s')) : OneAtATime s' := by
  simp only [Jobs.enqueueOne, Tx.ask_bind] at hbody
  cases hc : s.eligible submission with
  | none =>
    simp only [hc, Tx.write_bind, Tx.pure_ok] at hbody
    obtain ⟨-, rfl⟩ := hbody
    exact h.shrinks (.of_same rfl rfl)
  | some c =>
    simp only [hc, Tx.find_bind, Tx.ask_bind] at hbody
    obtain ⟨result, -, hbody⟩ := hbody
    rcases Tx.ite_ok.mp hbody with ⟨hfree, hbody⟩ | ⟨-, hbody⟩
    · simp only [Tx.insert_bind, Tx.pure_ok] at hbody
      obtain ⟨t, hinsert, -, rfl⟩ := hbody
      simp only [JobStore.free, Bool.and_eq_true, List.isEmpty_iff] at hfree
      exact h.insertJob rfl hfree.1.1.2 hinsert
    · rw [← (Tx.pure_ok.mp hbody).2]
      exact h

omit [Digests] in
theorem OneAtATime.enqueueAll {now : Int} {submissions : List String} {n m : Nat}
    (h : OneAtATime s) (hbody : enqueueAll now n submissions s = .ok (m, s')) : OneAtATime s' := by
  induction submissions generalizing n s with
  | nil =>
    rw [← (Tx.pure_ok.mp hbody).2]
    exact h
  | cons submission rest ih =>
    rcases Tx.ite_ok.mp hbody with ⟨-, hbody⟩ | ⟨-, hbody⟩
    · rw [← (Tx.pure_ok.mp hbody).2]
      exact h
    · obtain ⟨added, t, hone, hrest⟩ := Tx.bind_ok.mp hbody
      exact ih (h.enqueueOne hone) hrest

/-- **A turn of the producer.** It finishes stale jobs and adds one for each free target. -/
theorem OneAtATime.service {now : Int} {turn : Turn} (h : OneAtATime s)
    (hbody : serviceIntegrationJobs env now s = .ok (turn, s')) : OneAtATime s' := by
  simp only [serviceIntegrationJobs, Tx.ask_bind] at hbody
  rcases Tx.ite_ok.mp hbody with ⟨-, hbody⟩ | ⟨-, hbody⟩
  · obtain ⟨stale, t, hstale, hbody⟩ := Tx.bind_ok.mp hbody
    simp only [Tx.ask_bind] at hbody
    obtain ⟨n, t', hloop, hbody⟩ := Tx.bind_ok.mp hbody
    simp only [Tx.outside_bind, Tx.pure_ok] at hbody
    obtain ⟨-, -, rfl⟩ := hbody
    exact (h.shrinks (.retireStale hstale)).enqueueAll hloop
  · rw [← (Tx.pure_ok.mp hbody).2]
    exact h

end Producer

/-! ## Resets -/

/-- What a reset of a job checks. -/
structure Resettable (s : JobStore) (lane : ResultLane) (id : OperationId) (expectedRevision : Nat)
    (op : Operation) (old : Delivery) : Prop where
  operation : s.operations.find id = some op
  row : s.deliveries.find id = some old
  kind : op.kind = runKind lane
  revision : old.revision = expectedRevision
  failed : old.state = .permanentFailure
  notRetired : s.isRetired lane id = false
  attempts : old.attempts < 32
  bounded : old.revision + 1 ≤ i64Max

/-- The row that a reset leaves. -/
def resetRow (old : Delivery) (now : Int) : Delivery :=
  { old with
    revision := old.revision + 1
    state := .pending
    owner := none
    leaseUntilMs := none
    nextDueMs := now }

/-- The store that a reset leaves. -/
def JobStore.resetTo (s : JobStore) (lane : ResultLane) (id : OperationId) (old : Delivery)
    (now : Int) : JobStore :=
  { s with
    deliveries := s.deliveries.update (resetRow old now)
    events := s.events ++ [⟨id.val, old.revision + 1, .jobReset lane old.attempts old.lastOutcome⟩] }

theorem resetResultJob_ok {lane : ResultLane} {id : OperationId} {expectedRevision : Nat}
    {now : Int} : (∃ d, resetResultJob lane id expectedRevision now s = .ok (d, s')) ↔
      ∃ op old, Resettable s lane id expectedRevision op old ∧ s.resetTo lane id old now = s' := by
  constructor
  · rintro ⟨d, h⟩
    simp only [resetResultJob, inStore_bind, inStore_ok, operationRow, readDelivery, next,
      updateDelivery, integer, Tx.find_ok, Tx.require_bind, Tx.ask_bind, Tx.pure_ok, Tx.write_ok,
      logEvent_ok] at h
    obtain ⟨op, _, ⟨hop, rfl⟩, old, _, ⟨hold, rfl⟩, ⟨hkind, hrev, hstate⟩, hretired, hattempts, _,
      _, ⟨-, rfl, rfl⟩, _, _, ⟨hbound, rfl⟩, _, _, ⟨-, rfl⟩, _, ⟨-, rfl⟩, rfl⟩ := h
    exact ⟨op, old, ⟨hop, hold, hkind, hrev, hstate, hretired, hattempts, hbound⟩, rfl⟩
  · rintro ⟨op, old, hr, rfl⟩
    have hbound : old.revision + 1 < 2 ^ 64 :=
      Nat.lt_of_le_of_lt hr.bounded (by decide)
    have hid : old.operation = id := Table.find_key hr.row
    refine ⟨resetRow old now, ?_⟩
    simp only [resetResultJob, inStore_bind, inStore_ok, operationRow, readDelivery, next,
      updateDelivery, integer, Tx.find_ok, Tx.require_bind, Tx.ask_bind, Tx.pure_ok, Tx.write_ok,
      logEvent_ok]
    refine ⟨op, _, ⟨hr.operation, rfl⟩, old, _, ⟨hr.row, rfl⟩, ⟨hr.kind, hr.revision, hr.failed⟩,
      hr.notRetired, hr.attempts, _, _, ⟨hbound, rfl, rfl⟩, (), _, ⟨hr.bounded, rfl⟩, (), _,
      ⟨hr.bounded, rfl⟩, _, ⟨?_, rfl⟩, rfl⟩
    rw [← hid]
    have hrow := hr.row
    rw [← hid] at hrow
    exact Table.find_update_self (a := resetRow old now) hrow

section Reset

variable {lane : ResultLane} {id : OperationId} {expectedRevision : Nat} {op : Operation}
  {old : Delivery} {now : Int} {target : String × String}

theorem Resettable.row_self (h : Resettable s lane id expectedRevision op old) :
    s.deliveries.find (resetRow old now).operation = some old := by
  have hid : old.operation = id := Table.find_key h.row
  change s.deliveries.find old.operation = some old
  rw [hid]
  exact h.row

/-- A reset makes one job unfinished, its own. -/
theorem Resettable.unfinished (h : Resettable s lane id expectedRevision op old) {a : Operation}
    (ha : a ∈ (s.resetTo lane id old now).unfinishedJobs target) :
    a = op ∨ a ∈ s.unfinishedJobs target := by
  obtain ⟨hmem, ht, hun⟩ := mem_unfinishedJobs.mp ha
  by_cases he : (resetRow old now).operation = a.id
  · left
    have hid : old.operation = id := Table.find_key h.row
    have hop := Table.find_of_mem hmem
    rw [← he, show (resetRow old now).operation = id from hid] at hop
    exact Option.some.inj (hop.symm.trans h.operation)
  · right
    obtain ⟨d, hd, hstate⟩ := isUnfinished_iff.mp hun
    have hd' : (s.deliveries.update (resetRow old now)).find a.id = some d := hd
    rw [Table.find_update_ne he] at hd'
    exact mem_unfinishedJobs.mpr ⟨hmem, ht, isUnfinished_iff.mpr ⟨d, hd', hstate⟩⟩

/-- The job that was reset is unfinished, and so is every job that was. -/
theorem Resettable.reopened (h : Resettable s lane id expectedRevision op old)
    (ht : target? op = some target) :
    op ∈ (s.resetTo lane id old now).unfinishedJobs target := by
  have hid : old.operation = id := Table.find_key h.row
  have hop : op.id = id := Table.find_key h.operation
  refine mem_unfinishedJobs.mpr ⟨Table.mem_of_find h.operation, ht, ?_⟩
  refine isUnfinished_iff.mpr ⟨resetRow old now, ?_, rfl⟩
  rw [hop, ← show (resetRow old now).operation = id from hid]
  exact Table.find_update_self h.row_self

theorem Resettable.keeps (h : Resettable s lane id expectedRevision op old) {a : Operation}
    (ha : a ∈ s.unfinishedJobs target) (hne : a ≠ op) :
    a ∈ (s.resetTo lane id old now).unfinishedJobs target := by
  obtain ⟨hmem, ht, hun⟩ := mem_unfinishedJobs.mp ha
  obtain ⟨d, hd, hstate⟩ := isUnfinished_iff.mp hun
  have hid : old.operation = id := Table.find_key h.row
  have hother : (resetRow old now).operation ≠ a.id := by
    intro he
    have hop := Table.find_of_mem hmem
    rw [← he, show (resetRow old now).operation = id from hid, h.operation] at hop
    exact hne (Option.some.inj hop).symm
  refine mem_unfinishedJobs.mpr ⟨hmem, ht, isUnfinished_iff.mpr ⟨d, ?_, hstate⟩⟩
  exact (Table.find_update_ne hother).trans hd

/-- A job that failed for good is not among the unfinished ones. -/
theorem Resettable.finished (h : Resettable s lane id expectedRevision op old) :
    op ∉ s.unfinishedJobs target := by
  intro hop
  obtain ⟨-, -, hun⟩ := mem_unfinishedJobs.mp hop
  obtain ⟨d, hd, hstate⟩ := isUnfinished_iff.mp hun
  rw [Table.find_key h.operation, h.row] at hd
  cases hd
  rw [h.failed] at hstate
  cases hstate

/-- **A reset keeps one job for each target exactly when it finds its target free.** -/
theorem Resettable.oneAtATime (hr : Resettable s lane id expectedRevision op old)
    (h : OneAtATime s) : OneAtATime (s.resetTo lane id old now) ↔
      ∀ target, target? op = some target → s.unfinishedJobs target = [] := by
  constructor
  · intro hafter target ht
    rw [List.eq_nil_iff_forall_not_mem]
    intro a ha
    have hne : a ≠ op := fun he => hr.finished (he ▸ ha)
    exact hne (hafter target a (hr.keeps ha hne) op (hr.reopened ht))
  · exact fun hfree => h.add (fun ha => hr.unfinished ha) hfree

end Reset

/-! ## Calls -/

theorem discard_ok {α : Type} {x : JobTx α} {u : PUnit} :
    discard x s = .ok (u, s') ↔ ∃ a, x s = .ok (a, s') := by
  change (Function.const α PUnit.unit <$> x) s = .ok (u, s') ↔ _
  rw [Tx.map_ok]
  constructor
  · rintro ⟨a, h, -⟩
    exact ⟨a, h⟩
  · rintro ⟨a, h⟩
    exact ⟨a, h, rfl⟩

theorem Shrinks.setResultAutomation {head : Nat} {verify integrate : Option Bool} {a : Automation}
    (h : setResultAutomation head verify integrate s = .ok (a, s')) : Shrinks s s' := by
  simp only [Jobs.setResultAutomation, expectHead, Herdr.head, inStore_bind, Tx.ask_bind,
    Tx.require_ok] at h
  obtain ⟨_, _, ⟨-, rfl⟩, h⟩ := h
  rcases Tx.ite_ok.mp h with ⟨-, h⟩ | ⟨-, h⟩
  · rw [← (Tx.pure_ok.mp h).2]
    exact .refl _
  · simp only [inStore_bind, next, integer, Tx.require_bind, Tx.require_ok, Tx.pure_ok,
      Tx.write_bind, logEvent_ok] at h
    obtain ⟨_, _, ⟨-, rfl, rfl⟩, _, _, ⟨-, rfl⟩, _, _, ⟨-, rfl⟩, -, rfl⟩ := h
    exact .of_same rfl rfl

theorem Shrinks.configure {repository refName : String} {u : Unit}
    (h : configureIntegrationRef repository refName s = .ok (u, s')) : Shrinks s s' := by
  simp only [configureIntegrationRef, Tx.require_bind, Tx.ask_bind] at h
  obtain ⟨-, h⟩ := h
  cases hfind : s.targets.find repository with
  | some t =>
    simp only [hfind, Tx.require_ok] at h
    rw [← h.2]
    exact .refl _
  | none =>
    simp only [hfind, Tx.insert_bind, Tx.write_ok] at h
    obtain ⟨t, hinsert, rfl⟩ := h
    obtain ⟨targets, -, rfl⟩ := Option.map_eq_some_iff.mp hinsert
    have hadded : Shrinks s { s with targets := targets } := .of_same rfl rfl
    refine hadded.trans ?_
    generalize JobStore.targetWork _ repository = work
    generalize ({ s with targets := targets } : JobStore) = t
    induction work generalizing t with
    | nil => exact .refl _
    | cons w work ih => exact (Shrinks.requeue t w).trans (ih _)

section Calls

variable [Digests] [JobDigests]

/-- Whenever the call resets a job that may be reset, the job's target has no unfinished job. -/
def JobCall.findsTargetFree (c : JobCall) (s : JobStore) : Prop :=
  ∀ id expectedRevision now op old target,
    c.method = .resetIntegrationJob id expectedRevision now →
    Resettable s .integration id expectedRevision op old → target? op = some target →
    s.unfinishedJobs target = []

omit [Digests] [JobDigests] in
/-- A verification job has no target. -/
theorem target?_of_kind {op : Operation} (h : op.kind = .verificationRun) : target? op = none := by
  simp [target?, job?, h]

theorem JobCall.body_oneAtATime {c : JobCall} {u : Unit} (h : OneAtATime s)
    (hbody : c.body s = .ok (u, s')) : OneAtATime s' ↔ c.findsTargetFree s := by
  obtain ⟨method, env⟩ := c
  have hother : (∀ id rev now, method ≠ .resetIntegrationJob id rev now) → OneAtATime s' →
      (OneAtATime s' ↔ JobCall.findsTargetFree ⟨method, env⟩ s) := by
    intro hne hs'
    refine ⟨fun _ id rev now op old target hm => ?_, fun _ => hs'⟩
    exact absurd hm (hne id rev now)
  cases method <;> simp only [JobCall.body, discard_ok] at hbody
  case serviceIntegrationJobs =>
    obtain ⟨turn, hbody⟩ := hbody
    exact hother (by simp) (h.service hbody)
  case claimOperation =>
    obtain ⟨_, hbody⟩ := hbody
    exact hother (by simp) (h.shrinks (.claim hbody))
  case finishOperation =>
    obtain ⟨_, hbody⟩ := hbody
    exact hother (by simp) (h.shrinks (.finish hbody))
  case expireClaims =>
    obtain ⟨_, hbody⟩ := hbody
    exact hother (by simp) (h.shrinks (.expire hbody))
  case observeOperation =>
    obtain ⟨_, hbody⟩ := hbody
    exact hother (by simp) (h.shrinks (.observe hbody))
  case retireOperation =>
    obtain ⟨_, hbody⟩ := hbody
    exact hother (by simp) (h.shrinks (.retire hbody))
  case setResultAutomation =>
    obtain ⟨_, hbody⟩ := hbody
    exact hother (by simp) (h.shrinks (.setResultAutomation hbody))
  case configureIntegrationRef => exact hother (by simp) (h.shrinks (.configure hbody))
  case resetVerificationJob =>
    obtain ⟨op, old, hr, rfl⟩ := resetResultJob_ok.mp hbody
    refine hother (by simp) ((hr.oneAtATime h).mpr ?_)
    intro target ht
    rw [target?_of_kind hr.kind] at ht
    cases ht
  case resetIntegrationJob id rev now =>
    obtain ⟨op, old, hr, rfl⟩ := resetResultJob_ok.mp hbody
    rw [hr.oneAtATime h]
    constructor
    · intro hfree id' rev' now' op' old' target hm hr' ht
      cases hm
      have heq : op' = op := Option.some.inj (hr'.operation.symm.trans hr.operation)
      exact hfree target (heq ▸ ht)
    · intro hfree target ht
      exact hfree id rev now op old target rfl hr ht

/-- **One call.** It keeps one unfinished job for each target exactly when it is no reset of a
failed job of a busy target. -/
theorem JobCall.exec_oneAtATime (c : JobCall) (h : OneAtATime s) :
    OneAtATime (c.exec s).2 ↔ c.findsTargetFree s := by
  unfold JobCall.exec
  obtain ⟨u, s', hbody, hcommit⟩ | ⟨e, hbody, hcommit⟩ := Tx.commit_eq c.body s
  · rw [hcommit]
    exact JobCall.body_oneAtATime h hbody
  · rw [hcommit]
    refine ⟨fun _ id rev now op old target hm hr => ?_, fun _ => h⟩
    -- a reset that passes its checks does not fail
    obtain ⟨method, env⟩ := c
    cases hm
    have hok : ∃ d, resetIntegrationJob id rev now s = .ok (d, s.resetTo .integration id old now) :=
      resetResultJob_ok.mpr ⟨op, old, hr, rfl⟩
    have hdone : JobCall.body ⟨.resetIntegrationJob id rev now, env⟩ s =
      .ok ((), s.resetTo .integration id old now) := discard_ok.mpr hok
    rw [hdone] at hbody
    cases hbody

end Calls

/-! ## Runs -/

/-- A write of another method: it leaves the integration jobs and their deliveries alone. -/
structure Elsewhere (s s' : JobStore) : Prop where
  jobs : ∀ op, (target? op).isSome → (op ∈ s'.operations.rows ↔ op ∈ s.operations.rows)
  deliveries : ∀ op ∈ s.operations.rows, (target? op).isSome →
    s'.deliveries.find op.id = s.deliveries.find op.id

theorem Shrinks.elsewhere (h : Elsewhere s s') : Shrinks s s' := by
  intro target op hop
  obtain ⟨hmem, ht, hun⟩ := mem_unfinishedJobs.mp hop
  have hmem' := (h.jobs op (by simp [ht])).mp hmem
  obtain ⟨d, hd, hstate⟩ := isUnfinished_iff.mp hun
  rw [h.deliveries op hmem' (by simp [ht])] at hd
  exact mem_unfinishedJobs.mpr ⟨hmem', ht, isUnfinished_iff.mpr ⟨d, hd, hstate⟩⟩

/-- One step of a run: a call, or a write elsewhere. -/
structure JobStep where
  before : JobStore
  call : Option JobCall
  after : JobStore

variable [Digests] [JobDigests]

def JobStep.Valid (step : JobStep) : Prop :=
  match step.call with
  | some c => step.after = (c.exec step.before).2
  | none => Elsewhere step.before step.after

/-- The steps of a run from `s`. -/
inductive Trace : JobStore → List JobStep → Prop
  | nil (s : JobStore) : Trace s []
  | cons {step : JobStep} {steps : List JobStep} (valid : step.Valid)
    (rest : Trace step.after steps) : Trace step.before (step :: steps)

/-- Every reset of the run finds its target free. -/
def ResetsFree (steps : List JobStep) : Prop :=
  ∀ step ∈ steps, ∀ c, step.call = some c → c.findsTargetFree step.before

theorem JobStep.oneAtATime {step : JobStep} (hvalid : step.Valid) (h : OneAtATime step.before) :
    OneAtATime step.after ↔ ∀ c, step.call = some c → c.findsTargetFree step.before := by
  obtain ⟨before, call, after⟩ := step
  cases call with
  | none => simpa using h.shrinks (.elsewhere hvalid)
  | some c =>
    have hafter : after = (c.exec before).2 := hvalid
    subst hafter
    rw [c.exec_oneAtATime h]
    simp

theorem Trace.oneAtATime {steps : List JobStep} (h : Trace s steps) (hs : OneAtATime s) :
    (∀ step ∈ steps, OneAtATime step.after) ↔ ResetsFree steps := by
  induction h with
  | nil => simp [ResetsFree]
  | cons hvalid _ ih =>
    have hstep := JobStep.oneAtATime hvalid hs
    unfold ResetsFree at ih ⊢
    simp only [List.forall_mem_cons]
    constructor
    · rintro ⟨hafter, hrest⟩
      exact ⟨hstep.mp hafter, (ih hafter).mp hrest⟩
    · rintro ⟨hfree, hrest⟩
      have hafter := hstep.mpr hfree
      exact ⟨hafter, (ih hafter).mpr hrest⟩

/-- **One integration at a time.** In a run of the producer, the delivery protocol, the owner's
calls and any other writers, from a store without integration jobs, every state has at most one
unfinished job for each repository and ref exactly when every reset of a failed job finds no
unfinished job of its target. -/
theorem one_integration_per_target {steps : List JobStep} (h : Trace s steps)
    (hs : ∀ op ∈ s.operations.rows, target? op = none) :
    (∀ step ∈ steps, OneAtATime step.after) ↔ ResetsFree steps := by
  apply h.oneAtATime
  intro target a ha
  obtain ⟨hmem, ht, -⟩ := mem_unfinishedJobs.mp ha
  rw [hs a hmem] at ht
  cases ht

/-! ### A reset of a busy target -/

/-- The steps of a list of calls. -/
def callSteps (s : JobStore) : List JobCall → List JobStep
  | [] => []
  | c :: calls => ⟨s, some c, (c.exec s).2⟩ :: callSteps (c.exec s).2 calls

theorem trace_callSteps (s : JobStore) (calls : List JobCall) : Trace s (callSteps s calls) := by
  induction calls generalizing s with
  | nil => exact .nil s
  | cons c calls ih =>
    have hvalid : JobStep.Valid ⟨s, some c, (c.exec s).2⟩ := rfl
    exact .cons hvalid (ih _)

theorem mem_callSteps {calls : List JobCall} {step : JobStep} {c : JobCall}
    (h : step ∈ callSteps s calls) (hc : step.call = some c) : c ∈ calls := by
  induction calls generalizing s with
  | nil => cases h
  | cons d calls ih =>
    rcases List.mem_cons.mp h with rfl | h
    · cases hc
      exact List.mem_cons_self
    · exact List.mem_cons_of_mem _ (ih h)

namespace Busy

/-- Job identities are told apart by their parts. -/
@[reducible] def digests : JobDigests where
  parts ps := ",".intercalate ps
  bound ps revision := ",".intercalate ps ++ "," ++ toString revision

/-- Two verified results of one repository, whose target is configured. -/
def results : Results where
  submissions := ⟨[⟨"sub-a", "store", ⟨"a"⟩, 1, "ca", ⟨"attempt-a"⟩, "/repo", 1⟩,
    ⟨"sub-b", "store", ⟨"b"⟩, 1, "cb", ⟨"attempt-b"⟩, "/repo", 2⟩], by simp⟩
  contracts := ⟨[⟨⟨"a"⟩, 1, "ca", .verifyThenIntegrate⟩, ⟨⟨"b"⟩, 1, "cb", .verifyThenIntegrate⟩],
    by simp [Contract.key]⟩
  pendingVerification := []
  policies := [⟨⟨"a"⟩, 1, "tests"⟩, ⟨⟨"b"⟩, 1, "tests"⟩]
  runs := ⟨[⟨"run-a", "sub-a", "tests", true⟩, ⟨"run-b", "sub-b", "tests", true⟩], by simp⟩
  results := ⟨[⟨"result-a", "run-a", "sub-a"⟩, ⟨"result-b", "run-b", "sub-b"⟩], by simp⟩
  checks := [⟨"result-a", 2⟩, ⟨"result-b", 2⟩]
  integrations := .empty
  seeded := []
  arms := []
  selections := []
  replays := []

def store : JobStore where
  toStore := { Store.created "/project/state.db" with
    tasks := ⟨[⟨⟨"a"⟩, 3, .awaitingReview, "A", none⟩, ⟨⟨"b"⟩, 3, .awaitingReview, "B", none⟩],
      by simp⟩
    control := ⟨2, 1, .active, false, none⟩ }
  results := results
  targets := ⟨[⟨"/repo", "refs/heads/integration"⟩], by simp⟩
  pending := ⟨[⟨"sub-a", 1⟩, ⟨"sub-b", 2⟩], by simp⟩
  automation := ⟨2, true, true⟩

/-- The job of the first submission. -/
def first : OperationId := ⟨"store,result-a,/repo,refs/heads/integration"⟩

/-- The first job finds its target moved and fails for good, and the next turn enqueues the
second. -/
def calls : List JobCall :=
  [⟨.serviceIntegrationJobs 10, permissive⟩,
   ⟨.claimOperation first 1 "integrator" 20 1000, permissive⟩,
   ⟨.finishOperation ⟨first, 2, "integrator", 1, 1020⟩ (.permanentFailure "target moved") 30,
     permissive⟩,
   ⟨.serviceIntegrationJobs 40, permissive⟩]

/-- The job of the second submission. -/
def second : OperationId := ⟨"store,result-b,/repo,refs/heads/integration"⟩

/-- The owner resets the first job. -/
def reset : JobCall := ⟨.resetIntegrationJob first 3 50, permissive⟩

end Busy

omit [Digests] [JobDigests] in
/-- After the reset both jobs of the target are pending. -/
theorem two_integrations_of_one_target : letI := noDigests
    letI := Busy.digests
    (∀ op ∈ Busy.store.operations.rows, target? op = none) ∧
      Trace Busy.store (callSteps Busy.store (Busy.calls ++ [Busy.reset])) ∧
      ¬∀ step ∈ callSteps Busy.store (Busy.calls ++ [Busy.reset]), OneAtATime step.after := by
  let _ := noDigests
  let _ := Busy.digests
  refine ⟨by decide, trace_callSteps .., ?_⟩
  intro h
  have hjobs : [Busy.first, Busy.second] ∈ (callSteps Busy.store (Busy.calls ++ [Busy.reset])).map
      fun step => (step.after.unfinishedJobs ("/repo", "refs/heads/integration")).map (·.id) := by
    decide +kernel
  obtain ⟨step, hstep, hids⟩ := List.mem_map.mp hjobs
  obtain ⟨a, rest, hrows, ha, hrest⟩ := List.map_eq_cons_iff.mp hids
  obtain ⟨b, rest, rfl, hb, -⟩ := List.map_eq_cons_iff.mp hrest
  have hab : a = b := h step hstep ("/repo", "refs/heads/integration") a (by simp [hrows]) b
    (by simp [hrows])
  rw [← hab, ha] at hb
  exact absurd hb (by decide)

omit [Digests] [JobDigests] in
/-- Up to the reset there is one job at a time. -/
theorem one_integration_per_target_unreset : letI := noDigests
    letI := Busy.digests
    ResetsFree (callSteps Busy.store Busy.calls) ∧
      ∀ step ∈ callSteps Busy.store Busy.calls, OneAtATime step.after := by
  let _ := noDigests
  let _ := Busy.digests
  have hfree : ResetsFree (callSteps Busy.store Busy.calls) := by
    intro step hstep c hc id revision now _ _ _ hmethod
    have hno : ∀ c ∈ Busy.calls, ∀ id revision now,
        c.method ≠ .resetIntegrationJob id revision now := by
      simp [Busy.calls]
    exact absurd hmethod (hno c (mem_callSteps hstep hc) id revision now)
  exact ⟨hfree, (one_integration_per_target (trace_callSteps Busy.store Busy.calls)
    (by decide)).mpr hfree⟩

end Herdr.Jobs
