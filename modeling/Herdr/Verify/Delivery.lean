import Herdr.Store.Delivery
import Herdr.Verify.Approvals

/-!
# What the delivery methods do

One lemma for each method of `Store/Delivery.lean`: what it had to find, and exactly which rows
and events it wrote. Later modules use these lemmas and never open the bodies.
-/

namespace Herdr

/-- The store after some events were recorded. -/
def Store.logged (s : Store) (es : List Event) : Store := { s with events := s.events ++ es }

/-- The kinds of launch evidence. -/
def EventKind.evidence : EventKind → Bool
  | .launchCreation | .launchWorkspace | .launchLayout | .launchTarget | .launchRelease
  | .launchName | .launchStarted | .launchStopped => true
  | _ => false

/-- The kinds of job retirement. -/
def EventKind.retirement : EventKind → Bool
  | .jobRetired _ => true
  | _ => false

/-- The kinds that the invariants of the log are about: launch evidence, reservations and job
retirements. -/
def EventKind.tracked (kind : EventKind) : Bool :=
  kind.evidence || kind = .attemptReserved || kind.retirement

theorem EventKind.evidence_eq_false {kind : EventKind} (h : kind.tracked = false) :
    kind.evidence = false :=
  (Bool.or_eq_false_iff.mp (Bool.or_eq_false_iff.mp h).1).1

theorem EventKind.retirement_eq_false {kind : EventKind} (h : kind.tracked = false) :
    kind.retirement = false :=
  (Bool.or_eq_false_iff.mp h).2

/-- The log grew, by events none of which is tracked. -/
def QuietLog (l l' : List Event) : Prop := ∃ es, l' = l ++ es ∧ ∀ e ∈ es, e.kind.tracked = false

namespace QuietLog

variable {l l' l'' : List Event}

theorem refl (l : List Event) : QuietLog l l := ⟨[], by simp, by simp⟩

theorem trans (h : QuietLog l l') (h' : QuietLog l' l'') : QuietLog l l'' := by
  obtain ⟨es, rfl, hes⟩ := h
  obtain ⟨es', rfl, hes'⟩ := h'
  refine ⟨es ++ es', by simp, fun e he => ?_⟩
  rcases List.mem_append.mp he with he | he
  · exact hes e he
  · exact hes' e he

theorem snoc (h : QuietLog l l') {e : Event} (he : e.kind.tracked = false) :
    QuietLog l (l' ++ [e]) :=
  h.trans ⟨[e], rfl, by simpa using he⟩

end QuietLog

variable {env : Outside} {s s' : Store}

theorem logEvent_ok {entity : String} {revision : Nat} {body : EventBody} {u : Unit} :
    logEvent entity revision body s = .ok (u, s') ↔
      revision ≤ i64Max ∧ s.logged [⟨entity, revision, body⟩] = s' := by
  simp only [logEvent, integer, Tx.require_bind, Tx.write_ok, Store.logged]

/-! ### Peeling the single writes -/

section Peel

variable {β : Type} {b : β} {f : Unit → Body β}

theorem logEvent_bind {entity : String} {revision : Nat} {body : EventBody} :
    (logEvent entity revision body >>= f) s = .ok (b, s') ↔
      revision ≤ i64Max ∧ f () (s.logged [⟨entity, revision, body⟩]) = .ok (b, s') := by
  simp only [logEvent, integer, bind_assoc, Tx.require_bind, Tx.write_bind, Store.logged]

theorem updateTask_bind {task : Task} :
    (updateTask task >>= f) s = .ok (b, s') ↔
      task.revision ≤ i64Max ∧ f () { s with tasks := s.tasks.update task } = .ok (b, s') := by
  simp only [updateTask, integer, bind_assoc, Tx.require_bind, Tx.write_bind]

theorem updateAttempt_bind {attempt : Attempt} :
    (updateAttempt attempt >>= f) s = .ok (b, s') ↔ attempt.revision ≤ i64Max ∧
      f () { s with attempts := s.attempts.update attempt } = .ok (b, s') := by
  simp only [updateAttempt, integer, bind_assoc, Tx.require_bind, Tx.write_bind]

theorem updateDelivery_bind {delivery : Delivery} :
    (updateDelivery delivery >>= f) s = .ok (b, s') ↔ delivery.revision ≤ i64Max ∧
      f () { s with deliveries := s.deliveries.update delivery } = .ok (b, s') := by
  simp only [updateDelivery, integer, bind_assoc, Tx.require_bind, Tx.write_bind]

theorem next_bind {n : Nat} {e : StoreError} {g : Nat → Body β} :
    (next n e >>= g) s = .ok (b, s') ↔ n + 1 < 2 ^ 64 ∧ g (n + 1) s = .ok (b, s') := by
  simp only [next, bind_assoc, pure_bind, Tx.require_bind]

theorem increment_bind {n : Nat} {g : Nat → Body β} :
    (increment n >>= g) s = .ok (b, s') ↔ n + 1 ≤ i64Max ∧ g (n + 1) s = .ok (b, s') := by
  simp only [increment, bind_assoc, pure_bind, Tx.require_bind]

theorem expectHead_bind {n : Nat} :
    (expectHead n >>= f) s = .ok (b, s') ↔ s.head = n ∧ f () s = .ok (b, s') := by
  simp only [expectHead, head, bind_assoc, Tx.ask_bind, Tx.require_bind]

theorem nowCheck_bind {now : Int} :
    (nowCheck now >>= f) s = .ok (b, s') ↔
      (0 ≤ now ∧ now ≤ i64Max - 600000) ∧ f () s = .ok (b, s') := by
  simp only [nowCheck, Tx.require_bind]

end Peel

/-! ### Reads of the log and of the fence -/

theorem Store.hasEvent_logged {entity : String} {kinds : List EventKind} {es : List Event} :
    (s.logged es).hasEvent entity kinds = (s.hasEvent entity kinds ||
      es.any (·.isAbout entity kinds)) := by
  simp [Store.hasEvent, Store.logged]

theorem bindingCurrent_reads {id : OperationId} {admission : Bool} :
    (bindingCurrent id admission).Reads := by
  unfold bindingCurrent
  refine .bind (.find ..) fun op => ?_
  split
  · exact .bind (.find ..) fun _ => .pure _
  · exact .bind (.require ..) fun _ => .bind (.ask _) fun _ => .pure _

/-! ## Confirmations -/

/-- A finalized task was idle and waits for review now. -/
structure Finalizes (s : Store) (tasks : Table Task Task.id) (old new : Task) : Prop where
  found : s.tasks.find old.id = some old
  idle : old.activeAttempt = none
  stopped : old.state ≠ .running
  id_eq : new.id = old.id
  revision : new.revision = old.revision + 1
  active : new.activeAttempt = none
  state : new.state = .awaitingReview
  tasks_eq : tasks = s.tasks.update new

/-- What a confirmation writes: nothing, or the disposition of one finalized task and its
events. -/
structure Confirms (s s' : Store) : Prop where
  frame : s' = { s with tasks := s'.tasks, events := s'.events }
  tasks : s'.tasks = s.tasks ∨ ∃ old new, Finalizes s s'.tasks old new
  log : QuietLog s.events s'.events

theorem Confirms.refl (s : Store) : Confirms s s := ⟨rfl, .inl rfl, .refl _⟩

theorem finalizeTask_ok {task : Task} {u : Unit} (h : finalizeTask task s = .ok (u, s'))
    (found : s.tasks.find task.id = some task) (idle : task.activeAttempt = none)
    (stopped : task.state ≠ .running) : Confirms s s' := by
  unfold finalizeTask at h
  split at h
  · obtain ⟨-, rfl⟩ := Tx.pure_ok.mp h
    exact .refl s
  · simp only [next_bind, updateTask_bind, logEvent_ok] at h
    obtain ⟨-, -, -, rfl⟩ := h
    refine ⟨rfl, .inr ⟨task, { task with revision := task.revision + 1, state := .awaitingReview },
      found, idle, stopped, rfl, rfl, idle, rfl, rfl⟩, .snoc (.refl _) rfl⟩

/-- A confirmation followed by one more event of the finalization. -/
theorem Confirms.logged (h : Confirms s s') {e : Event} (he : e.kind.tracked = false) :
    Confirms s (s'.logged [e]) := by
  refine ⟨?_, h.tasks, h.log.snoc he⟩
  rw [h.frame]
  rfl

/-! ## Rows that outcomes leave -/

/-- The event of an outcome. -/
def Delivery.outcomeEvent (old : Delivery) (outcome : Outcome) (actor : String) : Event :=
  ⟨old.operation.val, old.revision + 1,
    .operationOutcome actor (outcome.budgeted old.attempts) old.epoch⟩

/-- The store after an outcome was recorded over the confirmed store. -/
def Store.settled (s : Store) (old : Delivery) (outcome : Outcome) (now : Int) (actor : String) :
    Store :=
  { s with
    deliveries := s.deliveries.update (old.settle outcome now)
    events := s.events ++ [old.outcomeEvent outcome actor] }

/-- Only delivery rows and the log changed. -/
structure OutcomesOnly (s s' : Store) : Prop where
  frame : s' = { s with deliveries := s'.deliveries, events := s'.events }
  log : QuietLog s.events s'.events

theorem OutcomesOnly.refl (s : Store) : OutcomesOnly s s := ⟨rfl, .refl _⟩

theorem OutcomesOnly.trans {a b c : Store} (hab : OutcomesOnly a b) (hbc : OutcomesOnly b c) :
    OutcomesOnly a c := by
  refine ⟨?_, hab.log.trans hbc.log⟩
  rw [hbc.frame, hab.frame]

theorem Store.settled_outcomesOnly {old : Delivery} {outcome : Outcome} {now : Int}
    {actor : String} : OutcomesOnly s (s.settled old outcome now actor) :=
  ⟨rfl, .snoc (.refl _) rfl⟩

variable [Digests]

/-! ## Confirmed outcomes -/

theorem applyFinalization_ok {op : Operation} {identity : String} {u : Unit}
    (h : applyFinalization env op identity s = .ok (u, s')) : Confirms s s' := by
  simp only [applyFinalization, readTask, readBinding, Tx.find_bind, Tx.outside_bind, Tx.ask_bind,
    Tx.require_bind] at h
  obtain ⟨payload, -, -, id, -, task, htask, binding, -, hstate, h⟩ := h
  obtain ⟨_, t, hfinal, h⟩ := Tx.bind_ok.mp h
  simp only [logEvent_bind, Tx.outside_ok] at h
  obtain ⟨-, -, rfl⟩ := h
  obtain ⟨-, -, -, ⟨idle, stopped, -⟩, -⟩ := hstate
  have hid : s.tasks.find task.id = some task := by rw [Table.find_key htask, htask]
  exact (finalizeTask_ok hfinal hid idle stopped).logged rfl

/-- **Confirmations.** Only the finalization of an idle task writes anything. -/
theorem confirm_ok {old : Delivery} {outcome : Outcome} {u : Unit}
    (h : confirm env old outcome s = .ok (u, s')) : Confirms s s' := by
  cases outcome with
  | confirmed identity =>
    simp only [confirm, applyReceipt, operationRow, Tx.find_bind, Tx.ask_bind,
      Tx.require_bind] at h
    obtain ⟨op, -, -, -, -, -, op', -, h⟩ := h
    split at h
    · exact applyFinalization_ok h
    · obtain ⟨-, rfl⟩ := Tx.pure_ok.mp h
      exact .refl s
  | retryable | ambiguous | permanentFailure =>
    obtain ⟨-, rfl⟩ := Tx.pure_ok.mp h
    exact .refl s

/-- No other outcome writes anything beside its row. -/
theorem confirm_other {old : Delivery} {outcome : Outcome} {u : Unit}
    (h : confirm env old outcome s = .ok (u, s')) (hne : ∀ identity, outcome ≠ .confirmed identity) :
    s' = s := by
  cases outcome with
  | confirmed identity => exact absurd rfl (hne identity)
  | retryable | ambiguous | permanentFailure => exact (Tx.pure_ok.mp h).2.symm

/-- Confirming an operation that is no finalization writes nothing beside its row. -/
theorem confirm_of_kind {old : Delivery} {outcome : Outcome} {u : Unit} {op : Operation}
    (h : confirm env old outcome s = .ok (u, s')) (hop : s.operations.find old.operation = some op)
    (hkind : op.kind ≠ .runtimeFinalization) : s' = s := by
  cases outcome with
  | confirmed identity =>
    simp only [confirm, applyReceipt, operationRow, Tx.find_bind, Tx.ask_bind,
      Tx.require_bind] at h
    obtain ⟨_, -, -, -, -, -, op', hop', h⟩ := h
    rw [hop] at hop'
    cases hop'
    rw [if_neg hkind] at h
    exact (Tx.pure_ok.mp h).2.symm
  | retryable | ambiguous | permanentFailure => exact (Tx.pure_ok.mp h).2.symm

/-! ## Outcomes -/

theorem updateOutcome_ok {old d : Delivery} {outcome : Outcome} {now : Int} {actor : String}
    (h : updateOutcome env old outcome now actor s = .ok (d, s')) :
    ∃ t, confirm env old outcome s = .ok ((), t) ∧ s' = t.settled old outcome now actor ∧
      s'.deliveries.find old.operation = some d := by
  simp only [updateOutcome, text, Tx.require_bind] at h
  obtain ⟨-, h⟩ := h
  obtain ⟨_, t, hconfirm, h⟩ := Tx.bind_ok.mp h
  simp only [increment_bind, updateDelivery_bind, logEvent_bind, readDelivery, Tx.find_ok] at h
  obtain ⟨-, -, -, hfind, rfl⟩ := h
  exact ⟨t, hconfirm, rfl, hfind⟩

/-! ## Claims -/

/-- What the claim of a launch adds to the uses: one row, of an approval and an operation that
had none. -/
structure Consumes (s : Store) (c : Claim) (uses : Table ApprovalUse ApprovalUse.approval)
    (use : ApprovalUse) : Prop where
  eligible : ∃ record attempt task, LaunchEligible s c.operation record attempt task ∧
    use.approval = record.inputs.approval.id
  operation : use.operation = c.operation
  revision : use.claimRevision = c.revision
  epoch : use.claimEpoch = c.epoch
  fresh : ∀ u ∈ s.uses.rows, u.operation ≠ c.operation
  inserted : s.uses.insert? use = some uses

theorem consume_ok {c : Claim} {now : Int} {u : Unit}
    (h : consume env c.operation c.revision c.epoch now s = .ok (u, s')) :
    (∃ use, Consumes s c s'.uses use) ∧ s' = { s with uses := s'.uses, events := s'.events } ∧
      QuietLog s.events s'.events := by
  simp only [consume, checkLaunch_reads.peel, integer, Tx.require_bind, Tx.insert_bind,
    logEvent_ok] at h
  obtain ⟨approval, hcheck, -, -, t, hinsert, -, rfl⟩ := h
  split at hinsert
  · cases hinsert
  · next hfresh =>
    obtain ⟨uses, huses, rfl⟩ := Option.map_eq_some_iff.mp hinsert
    obtain ⟨-, record, attempt, task, heligible, rfl⟩ := checkLaunch_ok hcheck
    refine ⟨⟨_, ⟨record, attempt, task, heligible, rfl⟩, rfl, rfl, rfl, ?_, huses⟩, rfl,
      .snoc (.refl _) rfl⟩
    intro v hv he
    exact hfresh (List.any_eq_true.mpr ⟨v, hv, by simpa using he⟩)

/-- The kinds whose operations can be claimed once. -/
def OperationKind.singleUse (kind : OperationKind) : Prop :=
  kind = .runtimeLaunch ∨ kind = .runtimeWorkerBrief ∨ kind = .routineRun

/-- What the admission of a claim requires and writes. -/
structure Admits (s s' : Store) (c : Claim) (op : Operation) (old : Delivery) : Prop where
  single : op.kind.singleUse → old.attempts = 0
  launch : op.kind = .runtimeLaunch → ∃ use, Consumes s c s'.uses use
  other : op.kind ≠ .runtimeLaunch → s'.uses = s.uses
  frame : s' = { s with uses := s'.uses, events := s'.events }
  log : QuietLog s.events s'.events

theorem admitKind_ok {op : Operation} {old : Delivery} {c : Claim} {now : Int} {u : Unit}
    (hc : c.operation = old.operation)
    (h : admitKind env op old c.revision c.epoch now s = .ok (u, s')) : Admits s s' c op old := by
  have hnone : s = s' → (op.kind.singleUse → old.attempts = 0) → op.kind ≠ .runtimeLaunch →
      Admits s s' c op old := by
    rintro rfl hs hk
    exact ⟨hs, fun h => absurd h hk, fun _ => rfl, rfl, .refl _⟩
  cases hk : op.kind with
  | runtimeLaunch =>
    simp only [admitKind, hk, Tx.require_bind, ← hc] at h
    obtain ⟨⟨ha, -⟩, h⟩ := h
    obtain ⟨huse, hframe, hlog⟩ := consume_ok h
    exact ⟨fun _ => ha, fun _ => huse, fun hne => absurd hk hne, hframe, hlog⟩
  | runtimeWorkerBrief =>
    simp only [admitKind, hk, Tx.require_bind, Tx.outside_ok] at h
    exact hnone h.2.2 (fun _ => h.1.1) (by simp [hk])
  | routineRun =>
    simp only [admitKind, hk, Tx.require_bind, Tx.outside_ok] at h
    exact hnone h.2.2 (fun _ => h.1) (by simp [hk])
  | runtimeFinalization | verificationRun | integrationRun | other =>
    simp only [admitKind, hk, Tx.pure_ok] at h
    exact hnone h.2 (by simp [OperationKind.singleUse, hk]) (by simp [hk])

/-! ### Creation intents -/

theorem recordCreation_ok {c : Claim} {intent : LaunchCreationIntent} {now : Int} {u : Unit}
    (h : recordCreation env c intent now s = .ok (u, s')) :
    s.hasEvent c.operation.val [.launchCreation, .launchTarget, .launchStarted] = false ∧
      (∃ record attempt task, LaunchEligible s c.operation record attempt task) ∧
      s' = s.logged [⟨c.operation.val, c.revision, .launchCreation intent⟩] := by
  simp only [recordCreation, readDelivery, readBinding, Tx.check_bind, Tx.require_bind,
    Tx.find_bind, validateUse_reads.peel, readInput_reads.peel, Tx.ask_bind, logEvent_ok] at h
  obtain ⟨_, -, hw, delivery, -, -, _, huse, record, hrecord, -, binding, -, execution, -, -, hused,
    -, rfl⟩ := h
  have hop : intent.operation = c.operation := hw.2.2.2.1
  obtain ⟨-, heligible⟩ := validateUse_ok huse
  rw [hop] at hused ⊢
  exact ⟨hused, heligible, rfl⟩

theorem recordWorktreeCreation_ok {c : Claim} {operation : OperationId} {intent : String}
    {now : Int} {u : Unit}
    (h : recordWorktreeCreation env c operation intent now s = .ok (u, s')) :
    s' = s.logged [⟨c.operation.val, c.revision, .worktreesCreation intent⟩] := by
  simp only [recordWorktreeCreation, Tx.outside_bind, Tx.require_bind, validateUse_reads.peel,
    Tx.ask_bind, logEvent_ok] at h
  obtain ⟨-, -, _, -, -, -, rfl⟩ := h
  rfl

/-- What the preparation of a claim records. -/
inductive Prepares (s : Store) (c : Claim) : List Event → Prop
  | none : Prepares s c []
  | worktrees (intent : String) :
    Prepares s c [⟨c.operation.val, c.revision, .worktreesCreation intent⟩]
  | native (intent : LaunchCreationIntent)
    (fresh : s.hasEvent c.operation.val [.launchCreation, .launchTarget, .launchStarted] = false) :
    Prepares s c [⟨c.operation.val, c.revision, .launchCreation intent⟩]

theorem recordPreparation_ok {op : Operation} {c : Claim} {now : Int}
    {creation : Option LaunchPreparation} {u : Unit}
    (h : recordPreparation env op c now creation s = .ok (u, s')) :
    ∃ es, Prepares s c es ∧ s' = s.logged es := by
  unfold recordPreparation at h
  split at h
  · obtain ⟨-, rfl⟩ := Tx.pure_ok.mp h
    exact ⟨[], .none, by simp [Store.logged]⟩
  · obtain ⟨-, h⟩ := Tx.require_bind.mp h
    obtain ⟨hfresh, -, rfl⟩ := recordCreation_ok h
    exact ⟨_, .native _ hfresh, rfl⟩
  · obtain ⟨-, h⟩ := Tx.require_bind.mp h
    obtain rfl := recordWorktreeCreation_ok h
    exact ⟨_, .worktrees _, rfl⟩

/-! ### The claim -/

/-- What a successful claim found and wrote. -/
structure Claimed (s s' : Store) (c : Claim) (old : Delivery) (op : Operation) : Prop where
  row : s.deliveries.find c.operation = some old
  operation : s.operations.find c.operation = some op
  pending : old.state = .pending
  revision : c.revision = old.revision + 1
  epoch : c.epoch = old.epoch + 1
  single : op.kind.singleUse → old.attempts = 0
  launch : op.kind = .runtimeLaunch → ∃ use, Consumes s c s'.uses use
  other : op.kind ≠ .runtimeLaunch → s'.uses = s.uses
  frame : s' = { s with
    uses := s'.uses
    deliveries := s.deliveries.update (old.claim c.owner c.leaseUntilMs)
    events := s'.events }
  log : ∃ claimed prepared, QuietLog s.events claimed ∧ s'.events = claimed ++ prepared ∧
    Prepares s c prepared

omit [Digests] in
/-- Quiet events are none that a creation looks for. -/
theorem Store.hasEvent_quiet {t : Store} {entity : String} {kinds : List EventKind}
    (hlog : QuietLog s.events t.events) (hk : ∀ k ∈ kinds, k.evidence = true) :
    t.hasEvent entity kinds = s.hasEvent entity kinds := by
  obtain ⟨es, he, hquiet⟩ := hlog
  unfold Store.hasEvent
  rw [he, List.any_append]
  have hnone : es.any (·.isAbout entity kinds) = false := by
    rw [List.any_eq_false]
    intro e hmem habout
    simp only [Event.isAbout, Bool.and_eq_true, decide_eq_true_eq, List.contains_iff_mem] at habout
    have h := hk _ habout.2
    rw [EventKind.evidence_eq_false (hquiet e hmem)] at h
    cases h
  rw [hnone, Bool.or_false]

theorem claimWithCreation_ok {id : OperationId} {expected : Nat} {owner : String}
    {now leaseMs : Int} {creation : Option LaunchPreparation} {c : Claim}
    (h : claimWithCreation env id expected owner now leaseMs creation s = .ok (c, s')) :
    c.operation = id ∧ ∃ old op, Claimed s s' c old op := by
  simp only [claimWithCreation, text, readDelivery, readOperation, Tx.require_bind, Tx.find_bind,
    nowCheck_bind, bindingCurrent_reads.peel, increment_bind] at h
  obtain ⟨-, -, -, old, hold, ⟨-, hpending, -, -⟩, op, hop, _, -, -, -, -, h⟩ := h
  obtain ⟨_, t, hadmitted, h⟩ := Tx.bind_ok.mp h
  simp only [updateDelivery_bind, logEvent_bind] at h
  obtain ⟨-, -, h⟩ := h
  obtain ⟨_, t', hprep, h⟩ := Tx.bind_ok.mp h
  simp only [Tx.outside_bind, Tx.pure_ok] at h
  obtain ⟨-, rfl, rfl⟩ := h
  have hid : old.operation = id := Table.find_key hold
  have ha := admitKind_ok (c := ⟨id, _, owner, _, now + leaseMs⟩) hid.symm hadmitted
  obtain ⟨prepared, hprepares, rfl⟩ := recordPreparation_ok hprep
  refine ⟨rfl, old, op, hold, hop, hpending, rfl, rfl, ha.single, ha.launch, ha.other, ?_,
    _, prepared, ha.log.snoc rfl, rfl, ?_⟩
  · rw [ha.frame]
    rfl
  · cases hprepares with
    | none => exact .none
    | worktrees intent => exact .worktrees intent
    | native intent hfresh =>
      refine .native intent ?_
      rw [Store.hasEvent_quiet (s := s) (ha.log.snoc rfl) (by decide)] at hfresh
      exact hfresh

/-! ## Validation, outcomes and expiry -/

theorem revalidateKind_ok {op : Operation} {c : Claim} {now : Int} {u : Unit}
    (h : revalidateKind env op c now s = .ok (u, s')) :
    s' = s ∧ (op.kind = .runtimeLaunch →
      ∃ record attempt task, LaunchEligible s c.operation record attempt task) := by
  cases hk : op.kind with
  | runtimeLaunch =>
    simp only [revalidateKind, hk] at h
    obtain ⟨rfl, heligible⟩ := validateUse_ok h
    exact ⟨rfl, fun _ => heligible⟩
  | runtimeWorkerBrief | routineRun =>
    simp only [revalidateKind, hk, Tx.outside_ok] at h
    exact ⟨h.2.symm, by simp⟩
  | runtimeFinalization | verificationRun | integrationRun | other =>
    simp only [revalidateKind, hk, Tx.pure_ok] at h
    exact ⟨h.2.symm, by simp⟩

/-- A claim that validates is held by its row, and its launch is still eligible. -/
theorem validateClaim_ok {c : Claim} {now : Int} {u : Unit}
    (h : validateClaim env c now s = .ok (u, s')) :
    s' = s ∧ ∃ old op, s.deliveries.find c.operation = some old ∧ old.heldBy c now ∧
      s.operations.find c.operation = some op ∧ (op.kind = .runtimeLaunch →
        ∃ record attempt task, LaunchEligible s c.operation record attempt task) := by
  simp only [validateClaim, readDelivery, readOperation, nowCheck_bind, Tx.find_bind,
    Tx.require_bind, bindingCurrent_reads.peel] at h
  obtain ⟨-, old, hold, hheld, op, hop, _, -, -, h⟩ := h
  obtain ⟨_, t, hkind, h⟩ := Tx.bind_ok.mp h
  obtain ⟨-, rfl⟩ := Tx.outside_ok.mp h
  obtain ⟨rfl, hlaunch⟩ := revalidateKind_ok hkind
  exact ⟨rfl, old, op, hold, hheld, hop, hlaunch⟩

/-- What a recorded outcome writes: its row, its event, and for a finalization the task. -/
structure Settles (s s' : Store) (row : Delivery) : Prop where
  frame : s' = { s with
    tasks := s'.tasks
    deliveries := s.deliveries.update row
    events := s'.events }
  tasks : s'.tasks = s.tasks ∨ ∃ old new, Finalizes s s'.tasks old new
  log : QuietLog s.events s'.events

theorem updateOutcome_settles {old d : Delivery} {outcome : Outcome} {now : Int} {actor : String}
    (h : updateOutcome env old outcome now actor s = .ok (d, s')) :
    Settles s s' (old.settle outcome now) := by
  obtain ⟨t, hconfirm, rfl, -⟩ := updateOutcome_ok h
  have hc := confirm_ok hconfirm
  refine ⟨?_, hc.tasks, hc.log.snoc rfl⟩
  rw [hc.frame]
  rfl

/-- An outcome that confirms nothing writes its row and its event alone. -/
theorem updateOutcome_other {old d : Delivery} {outcome : Outcome} {now : Int} {actor : String}
    (h : updateOutcome env old outcome now actor s = .ok (d, s'))
    (hne : ∀ identity, outcome ≠ .confirmed identity) :
    s' = s.settled old outcome now actor := by
  obtain ⟨t, hconfirm, rfl, -⟩ := updateOutcome_ok h
  rw [confirm_other hconfirm hne]

theorem finishOperation_ok {c : Claim} {outcome : Outcome} {now : Int} {d : Delivery}
    (h : finishOperation env c outcome now s = .ok (d, s')) :
    ∃ old, s.deliveries.find c.operation = some old ∧ old.heldBy c now ∧
      Settles s s' (old.settle outcome now) := by
  simp only [finishOperation, text, readDelivery, nowCheck_bind, Tx.find_bind, Tx.require_bind,
    bindingCurrent_reads.peel] at h
  obtain ⟨-, -, old, hold, hheld, _, -, -, h⟩ := h
  obtain ⟨d', t, hout, h⟩ := Tx.bind_ok.mp h
  simp only [Tx.outside_bind, Tx.pure_ok] at h
  obtain ⟨-, -, rfl⟩ := h
  exact ⟨old, hold, hheld, updateOutcome_settles hout⟩

theorem observeOperation_ok {id : OperationId} {expected : Nat} {actor : String}
    {outcome : Outcome} {now : Int} {d : Delivery}
    (h : observeOperation env id expected actor outcome now s = .ok (d, s')) :
    ∃ old, s.deliveries.find id = some old ∧ old.state = .ambiguous ∧
      Settles s s' (old.settle outcome now) := by
  simp only [observeOperation, text, readDelivery, nowCheck_bind, Tx.find_bind,
    Tx.require_bind] at h
  obtain ⟨-, -, -, old, hold, ⟨hstate, -⟩, h⟩ := h
  obtain ⟨d', t, hout, h⟩ := Tx.bind_ok.mp h
  simp only [Tx.outside_bind, Tx.pure_ok] at h
  obtain ⟨-, -, rfl⟩ := h
  exact ⟨old, hold, hstate, updateOutcome_settles hout⟩

theorem retireOperation_ok {id : OperationId} {revision head : Nat} {reason : String} {now : Int}
    {d : Delivery} (h : retireOperation env id revision head reason now s = .ok (d, s')) :
    ∃ old outcome, s.deliveries.find id = some old ∧
      (old.state = .pending ∨ old.state = .ambiguous) ∧
      Settles s s' (old.settle outcome now) := by
  simp only [retireOperation, text, readDelivery, nowCheck_bind, expectHead_bind, Tx.find_bind,
    Tx.require_bind] at h
  obtain ⟨-, -, -, old, hold, ⟨-, hstate⟩, h⟩ := h
  obtain ⟨d', t, hout, h⟩ := Tx.bind_ok.mp h
  simp only [Tx.outside_bind, Tx.pure_ok] at h
  obtain ⟨-, -, rfl⟩ := h
  exact ⟨old, _, hold, hstate, updateOutcome_settles hout⟩

/-! ### The expiry loop -/

/-- The row that an expiry leaves: the epoch moves and the effect is unknown. -/
def Delivery.expire (old : Delivery) (now : Int) : Delivery :=
  { old with epoch := old.epoch + 1 }.settle
    (.ambiguous
      "lease expired; external effect may have occurred; observe identity before retry") now

theorem expireClaim_ok {now : Int} {id : OperationId} {u : Unit}
    (h : expireClaim env now id s = .ok (u, s')) :
    ∃ old, s.deliveries.find id = some old ∧ OutcomesOnly s s' ∧
      s'.deliveries.find id = some (old.expire now) ∧
      ∀ j, j ≠ id → s'.deliveries.find j = s.deliveries.find j := by
  simp only [expireClaim, readDelivery, Tx.find_bind, increment_bind, updateDelivery_bind] at h
  obtain ⟨old, hold, -, -, h⟩ := h
  obtain ⟨d, t, hout, h⟩ := Tx.bind_ok.mp h
  obtain ⟨-, rfl⟩ := Tx.pure_ok.mp h
  obtain rfl := updateOutcome_other hout (by simp)
  have hid : old.operation = id := Table.find_key hold
  refine ⟨old, hold, ⟨rfl, .snoc (.refl _) rfl⟩, ?_, ?_⟩
  · have h₁ : (s.deliveries.update { old with epoch := old.epoch + 1 }).find old.operation =
        some { old with epoch := old.epoch + 1 } := Table.find_update_self (hid ▸ hold)
    rw [← hid]
    exact Table.find_update_self (a := old.expire now) h₁
  · intro j hj
    have hne : old.operation ≠ j := hid ▸ hj.symm
    exact (Table.find_update_ne (a := old.expire now) hne).trans
      (Table.find_update_ne (a := { old with epoch := old.epoch + 1 }) hne)

omit [Digests] in
theorem Store.mem_expired {now : Int} {id : OperationId} :
    id ∈ s.expired now ↔ ∃ d, s.deliveries.find id = some d ∧ d.state = .claimed ∧
      ∃ lease, d.leaseUntilMs = some lease ∧ lease ≤ now := by
  unfold Store.expired
  rw [(List.perm_insertionSort _ _).mem_iff]
  simp only [List.mem_map, List.mem_filter, Bool.and_eq_true, decide_eq_true_eq, Option.any_eq_true]
  constructor
  · rintro ⟨d, ⟨hd, hstate, hlease⟩, rfl⟩
    exact ⟨d, Table.find_of_mem hd, hstate, by simpa using hlease⟩
  · rintro ⟨d, hd, hstate, hlease⟩
    exact ⟨d, ⟨Table.mem_of_find hd, hstate, by simpa using hlease⟩, Table.find_key hd⟩

omit [Digests] in
theorem Store.expired_nodup {now : Int} : (s.expired now).Nodup := by
  unfold Store.expired
  rw [(List.perm_insertionSort _ _).nodup_iff]
  exact (List.filter_sublist.map _).nodup s.deliveries.nodup

/-- **Expiry.** Every row whose lease has run out expires once; no other row changes. -/
theorem expireClaims_ok {now : Int} {n : Nat} (h : expireClaims env now s = .ok (n, s')) :
    OutcomesOnly s s' ∧ ∀ {id d}, s.deliveries.find id = some d →
      ∃ d', s'.deliveries.find id = some d' ∧
        ((id ∈ s.expired now ∧ d' = d.expire now) ∨ (id ∉ s.expired now ∧ d' = d)) := by
  simp only [expireClaims, nowCheck_bind, Tx.ask_bind] at h
  obtain ⟨-, h⟩ := h
  obtain ⟨_, t, hloop, h⟩ := Tx.bind_ok.mp h
  simp only [Tx.outside_bind, Tx.pure_ok] at h
  obtain ⟨-, -, rfl⟩ := h
  constructor
  · refine Tx.forEach_preserves .refl .trans ?_ hloop
    intro id _ s s' u h
    obtain ⟨_, -, ho, -⟩ := expireClaim_ok h
    exact ho
  · intro id d hd
    refine Tx.forEach_pointwise (g := fun s k => s.deliveries.find k)
      (R := fun d d' => d' = d.expire now) ?_ ?_ Store.expired_nodup hloop hd
    · intro k j s s' u h hj
      obtain ⟨_, -, -, -, hother⟩ := expireClaim_ok h
      exact hother j hj
    · intro k s s' u d h hd
      obtain ⟨old, hold, -, hnew, -⟩ := expireClaim_ok h
      rw [hold] at hd
      cases hd
      exact ⟨_, hnew, rfl⟩

end Herdr
