import Herdr.Store.WorkerTermination
import Herdr.Store.Scheduler
import Herdr.Verify.Launch

/-!
# What reservations, cancellation, queueing and termination do

For each method: the rows of the attempt and of its task that it had to find, and exactly what
it wrote.
-/

namespace Herdr

variable {env : Outside} {s s' : Store}

/-! ## Scheduler -/

theorem queueGraph_reads : queueGraph.Reads := by
  unfold queueGraph
  exact .bind (.ask _) fun _ => .bind (.require ..) fun _ => .bind (.ask _) fun _ =>
    .bind (.require ..) fun _ => .bind (.require ..) fun _ => .bind (.ask _) fun _ =>
    .bind (.require ..) fun _ => .bind (.ask _) fun _ => .bind (.check _) fun _ => .pure _

theorem forEach_outside_reads {α : Type} {f : α → Option StoreError} {as : List α} :
    (Tx.forEach (fun a => (Tx.outside (f a) : Body Unit)) as).Reads :=
  .forEach (fun _ => .outside _) as

theorem queueGraph_ok {graph : List TaskId × List QueueRecord}
    (h : queueGraph s = .ok (graph, s')) : graph.2 = s.queue.rows := by
  simp only [queueGraph, Tx.ask_bind, Tx.require_bind, Tx.check_bind, Tx.pure_ok] at h
  obtain ⟨-, -, -, -, -, -, rfl, -⟩ := h
  rfl

/-- The queue with the entry of `record` inserted or replaced. -/
def Upserts (old : Table QueueRecord QueueRecord.task) (record : QueueRecord)
    (new : Table QueueRecord QueueRecord.task) : Prop :=
  old.insert? record = some new ∨ new = old.update record

/-- A queued task was idle, and only its state and revision change. The queue with its new entry
passed the graph check. -/
structure Queues (s s' : Store) (task new : Task) (queue : Table QueueRecord QueueRecord.task) :
    Prop where
  taskRow : s.tasks.find task.id = some task
  idle : task.activeAttempt = none
  stopped : task.state ≠ .running
  id_eq : new.id = task.id
  active : new.activeAttempt = none
  state : new.state = .queued
  frame : s' = { s with tasks := s.tasks.update new, queue := queue, events := s'.events }
  log : QuietLog s.events s'.events
  checked : ∃ identities record, record.task = task.id ∧ Upserts s.queue record queue ∧
    graphIds identities ((s.queue.rows.filter fun q => q.task ≠ task.id) ++ [record]) = .ok ()

theorem upsertQueue_bind {record : QueueRecord} {β : Type} {f : Unit → Body β} {b : β}
    (h : (upsertQueue record >>= f) s = .ok (b, s')) :
    ∃ queue, Upserts s.queue record queue ∧ f () { s with queue := queue } = .ok (b, s') := by
  simp only [upsertQueue, Tx.write_bind] at h
  split at h
  · next hinsert => exact ⟨_, .inl hinsert, h⟩
  · exact ⟨_, .inr rfl, h⟩

theorem queueTask_ok {id : TaskId} {revision head : Nat} {request : QueueRequest} {now : Int}
    {n : Nat} (h : queueTask env id revision head request now s = .ok (n, s')) :
    s' = s ∨ ∃ task new queue, Queues s s' task new queue := by
  simp only [queueTask, readTask, nowCheck_bind, expectHead_bind, Tx.require_bind, Tx.find_bind,
    Tx.ask_bind, queueGraph_reads.peel] at h
  obtain ⟨-, -, -, task, htask, -, ⟨hidle, hrun, -⟩, graph, hgraph, h⟩ := h
  split at h
  · exact .inl (Tx.pure_ok.mp h).2.symm
  · right
    simp only [Tx.ask_bind, forEach_outside_reads.peel, Tx.check_bind, enqueue, next_bind,
      updateTask_bind, logEvent_bind] at h
    obtain ⟨_, -, _, hchecked, -, -, -, h⟩ := h
    obtain ⟨queue, hupserts, h⟩ := upsertQueue_bind h
    simp only [Tx.outside_bind, logEvent_bind, Herdr.head, Tx.ask_ok] at h
    obtain ⟨-, -, -, -, rfl⟩ := h
    have hid : task.id = id := Table.find_key htask
    exact ⟨task, { task with revision := task.revision + 1, state := .queued }, queue,
      hid ▸ htask, hidle, hrun, rfl, hidle, rfl, rfl, .snoc (.snoc (.refl _) rfl) rfl,
      _, _, hid.symm, hupserts, by rwa [hid, ← queueGraph_ok hgraph]⟩

theorem setSchedulerPolicy_ok {head revision workers attempts n : Nat}
    (h : setSchedulerPolicy env head revision workers attempts s = .ok (n, s')) :
    s' = s ∨ ∃ policy, s' = { s with policy := policy, events := s'.events } ∧
      QuietLog s.events s'.events := by
  simp only [setSchedulerPolicy, expectHead_bind, Tx.require_bind, readPolicy_reads.peel] at h
  obtain ⟨-, -, old, -, -, h⟩ := h
  split at h
  · exact .inl (Tx.pure_ok.mp h).2.symm
  · simp only [next_bind, integer, Tx.require_bind, Tx.write_bind, logEvent_bind, Tx.outside_bind,
      Herdr.head, Tx.ask_ok] at h
    obtain ⟨-, -, -, -, -, rfl⟩ := h
    exact .inr ⟨_, rfl, .snoc (.refl _) rfl⟩

/-! ## Admission -/

section Admission

variable [Digests]

omit [Digests] in
theorem checkPrepared_reads {seen : List TaskId} {prepared : List LaunchInputs} :
    (checkPrepared env seen prepared).Reads := by
  induction prepared generalizing seen with
  | nil => exact .pure _
  | cons i rest ih =>
    unfold checkPrepared
    exact .bind validateInputs_reads fun _ => .bind (.require ..) fun _ => .bind (.ask _) fun _ =>
      .bind (.require ..) fun _ => ih

/-- A replayed answer is about a reservation whose attempt is there. -/
theorem delegatedReplay_ok {delegated : PreparedDelegatedReservation}
    {result : Option Reservation} (h : delegatedReplay env delegated s = .ok (result, s')) :
    ∀ r, result = some r → ∃ a, s.attempts.find r.record.attempt = some a := by
  rintro r rfl
  simp only [delegatedReplay, Tx.outside_bind, Tx.ask_bind] at h
  obtain ⟨-, h⟩ := h
  cases hrow : s.delegated.find (delegated.grantId, delegated.idempotencyKey) with
  | none =>
    rw [hrow] at h
    cases (Tx.pure_ok.mp h).1
  | some row =>
    simp only [hrow, Tx.require_bind, readInput_reads.peel, Tx.pure_ok] at h
    obtain ⟨-, retained, hread, rfl, hr, -⟩ := h
    cases hr
    obtain ⟨a, ha, -⟩ := (readInput_ok hread).2.attempt
    exact ⟨a, ha⟩

theorem delegatedReplay_reads {delegated : PreparedDelegatedReservation} :
    (delegatedReplay env delegated).Reads := by
  unfold delegatedReplay
  refine .bind (.outside _) fun _ => .bind (.ask _) fun stored => ?_
  cases stored with
  | none => exact .pure _
  | some row =>
    exact .bind (.require ..) fun _ => .bind readInput_reads fun _ => .bind (.require ..) fun _ =>
      .pure _

omit [Digests] in
theorem readPreparation_ok {i : LaunchInputs} {p : Preparation}
    (h : readPreparation i s = .ok (p, s')) :
    s' = s ∧ p.inputs = i ∧ s.tasks.find i.task = some p.task := by
  simp only [readPreparation, readBinding, readTask, Tx.find_bind, Tx.require_bind, Tx.ask_bind,
    Tx.pure_ok] at h
  obtain ⟨queue, -, -, binding, -, task, htask, -, rfl, rfl⟩ := h
  exact ⟨rfl, rfl, htask⟩

omit [Digests] in
theorem readPreparations_ok {prepared : List LaunchInputs} {ps : List Preparation}
    (h : readPreparations prepared s = .ok (ps, s')) :
    s' = s ∧ ∀ p ∈ ps, p.inputs ∈ prepared ∧ s.tasks.find p.inputs.task = some p.task := by
  induction prepared generalizing s ps with
  | nil =>
    obtain ⟨rfl, rfl⟩ := Tx.pure_ok.mp h
    exact ⟨rfl, by simp⟩
  | cons i rest ih =>
    obtain ⟨p, t, hp, h⟩ := Tx.bind_ok.mp h
    obtain ⟨qs, t', hqs, h⟩ := Tx.bind_ok.mp h
    obtain ⟨rfl, rfl⟩ := Tx.pure_ok.mp h
    obtain ⟨rfl, rfl, htask⟩ := readPreparation_ok hp
    obtain ⟨rfl, hall⟩ := ih hqs
    refine ⟨rfl, fun q hq => ?_⟩
    rcases List.mem_cons.mp hq with rfl | hq
    · exact ⟨by simp, htask⟩
    · exact ⟨List.mem_cons_of_mem _ (hall q hq).1, (hall q hq).2⟩

omit [Digests] in
theorem readPreparations_reads {prepared : List LaunchInputs} :
    (readPreparations prepared).Reads := ⟨fun h => (readPreparations_ok h).1⟩

theorem checkApproval_reads {i : LaunchInputs} {now : Int} {draft : Bool} :
    (checkApproval env i now draft).Reads := by
  unfold checkApproval
  split
  · exact .pure _
  · exact validatePreparation_reads

theorem admissible_reads {policy : SchedulerPolicy} {control : ProjectControl}
    {attempts : List Attempt} {now : Int} {draft : Bool} (p : Preparation) :
    (admissible env policy control attempts now draft p).Reads := by
  unfold admissible
  exact .bind (.require ..) fun _ => .bind (.require ..) fun _ => .bind (.outside _) fun _ =>
    .bind (.outside _) fun _ => .bind (.outside _) fun _ => .bind (.outside _) fun _ =>
    .bind checkApproval_reads fun _ => .bind (.require ..) fun _ => .bind (.ask _) fun _ =>
    .bind (.require ..) fun _ => .bind (.require ..) fun _ => .bind (.require ..) fun _ =>
    .bind (.require ..) fun _ => .bind (.require ..) fun _ => .require ..

/-- An admissible task is queued, has no attempt that retains capacity and has attempts left. -/
theorem admissible_ok {policy : SchedulerPolicy} {control : ProjectControl}
    {attempts : List Attempt} {now : Int} {draft : Bool} {p : Preparation} {u : Unit}
    (h : admissible env policy control attempts now draft p s = .ok (u, s')) :
    p.task.state = .queued ∧ p.task.activeAttempt = none ∧
      (∀ a ∈ attempts, a.task = p.task.id → a.terminationObserved = true) ∧
      s.attemptCount p.task.id policy.maxAttemptsPerTask < policy.maxAttemptsPerTask := by
  simp only [admissible, Tx.require_bind, Tx.outside_bind, Tx.ask_bind,
    checkApproval_reads.peel] at h
  obtain ⟨-, -, -, -, -, -, _, -, ⟨hqueued, hidle, -, hnone⟩, hcount, -⟩ := h
  refine ⟨hqueued, hidle, fun a ha htask => ?_, hcount⟩
  cases hterm : a.terminationObserved with
  | true => rfl
  | false =>
    exact absurd (List.any_eq_true.mpr ⟨a, ha, by simp [htask, Attempt.retainsCapacity, hterm]⟩)
      hnone

theorem installDerived_ok {delegated : Option PreparedDelegatedReservation} {u : Unit}
    (h : installDerived env delegated s = .ok (u, s')) :
    s' = { s with grants := s'.grants } := by
  cases delegated with
  | none =>
    obtain ⟨-, rfl⟩ := Tx.pure_ok.mp h
    rfl
  | some delegated =>
    simp only [installDerived, Tx.outside_bind, Tx.check_bind, Tx.insert_ok] at h
    obtain ⟨-, own, -, h⟩ := h
    obtain ⟨grants, -, rfl⟩ := Option.map_eq_some_iff.mp h
    rfl

omit [Digests] in
theorem recordDelegated_ok {delegated : Option PreparedDelegatedReservation} {result : Reservation}
    {u : Unit} (h : recordDelegated delegated result s = .ok (u, s')) :
    s' = { s with delegated := s'.delegated } := by
  cases delegated with
  | none =>
    obtain ⟨-, rfl⟩ := Tx.pure_ok.mp h
    rfl
  | some delegated =>
    simp only [recordDelegated, Tx.insert_ok] at h
    obtain ⟨rows, -, rfl⟩ := Option.map_eq_some_iff.mp h
    rfl

/-- The rows that a reservation adds and the task that it moves. -/
structure Reserves (s s' : Store) (record : AttemptInputRecord) (task : Task) (now : Int) :
    Prop where
  record_eq : record = record.inputs.reserved
  attempts : s.attempts.insert? record.attemptRow = some s'.attempts
  operations : s.operations.insert? (record.operationRow now) = some s'.operations
  deliveries : s.deliveries.insert? (.enqueued record.operation now) = some s'.deliveries
  inputs : s.inputs.insert? record = some s'.inputs
  unsealed : ∀ r ∈ s.inputs.rows, r.attempt ≠ record.attempt
  tasks : s'.tasks = s.tasks.update { task with
    revision := record.inputs.taskRevision + 1
    state := .running
    activeAttempt := some record.attempt }
  frame : s' = { s with
    attempts := s'.attempts
    operations := s'.operations
    deliveries := s'.deliveries
    inputs := s'.inputs
    tasks := s'.tasks
    delegated := s'.delegated
    grants := s'.grants
    events := s'.events }
  log : QuietLog (s.events ++ [⟨record.attempt.val, 1, .attemptReserved record⟩]) s'.events

theorem reserve_ok {p : Preparation} {delegated : Option PreparedDelegatedReservation} {now : Int}
    {result : Reservation} (h : reserve env p delegated now s = .ok (result, s')) :
    result.record = p.inputs.reserved ∧ Reserves s s' result.record p.task now := by
  simp only [reserve, next_bind, Tx.insert_bind, Tx.outside_bind, updateTask_bind, insertOperation,
    insertInputs, bind_assoc, logEvent_bind, head, Tx.ask_bind] at h
  obtain ⟨-, t₁, h₁, -, -, t₂, h₂, t₃, h₃, t₄, h₄, -, -, -, h⟩ := h
  obtain ⟨_, t₅, hdelegated, h⟩ := Tx.bind_ok.mp h
  simp only [Tx.outside_bind, Tx.pure_ok] at h
  obtain ⟨-, rfl, rfl⟩ := h
  obtain ⟨attempts, ha, rfl⟩ := Option.map_eq_some_iff.mp h₁
  obtain ⟨operations, ho, rfl⟩ := Option.map_eq_some_iff.mp h₂
  obtain ⟨deliveries, hd, rfl⟩ := Option.map_eq_some_iff.mp h₃
  split at h₄
  · cases h₄
  next hunsealed =>
  obtain ⟨inputs, hi, rfl⟩ := Option.map_eq_some_iff.mp h₄
  have hframe := recordDelegated_ok hdelegated
  refine ⟨rfl, rfl, ?_, ?_, ?_, ?_, ?_, ?_, ?_, ?_⟩
  · rw [hframe]
    exact ha
  · rw [hframe]
    exact ho
  · rw [hframe]
    exact hd
  · rw [hframe]
    exact hi
  · intro r hr he
    exact hunsealed (List.any_eq_true.mpr ⟨r, hr, by simpa using he⟩)
  · rw [hframe]
    rfl
  · rw [hframe]
    rfl
  · rw [hframe]
    exact .snoc (.snoc (.refl _) rfl) rfl

/-- What an admission found before it reserved. -/
structure Admissible (s : Store) (task : Task) : Prop where
  taskRow : s.tasks.find task.id = some task
  queued : task.state = .queued
  idle : task.activeAttempt = none
  unretained : ∀ a ∈ s.attempts.rows, a.task = task.id → a.terminationObserved = true
  capacity : s.retained.length < s.policy.maxActiveWorkers
  lifetime : (s.attempts.rows.countP fun a => a.task = task.id) < s.policy.maxAttemptsPerTask

omit [Digests] in
/-- Counting up to a bound that is not reached is counting. -/
theorem length_lt_of_take {α : Type} {l : List α} {n m : Nat} (h : (l.take n).length < m)
    (hm : m ≤ n) : l.length < m := by
  rw [List.length_take] at h
  omega

omit [Digests] in
theorem readPolicy_ok {policy : SchedulerPolicy} (h : readPolicy s = .ok (policy, s')) :
    policy = s.policy ∧ policy.maxActiveWorkers ≤ 1024 := by
  simp only [readPolicy, Tx.ask_bind, Tx.require_bind, Tx.pure_ok] at h
  obtain ⟨hvalid, rfl, -⟩ := h
  exact ⟨rfl, hvalid.2.1⟩

/-- A reservation is the same whatever the derived grant that came before it. -/
theorem Reserves.of_grants {t : Store} {record : AttemptInputRecord} {task : Task} {now : Int}
    (ht : t = { s with grants := t.grants }) (h : Reserves t s' record task now) :
    Reserves s s' record task now := by
  obtain ⟨hrecord, ha, ho, hd, hi, hunsealed, htasks, hframe, hlog⟩ := h
  rw [ht] at ha ho hd hi hunsealed htasks hframe hlog
  exact ⟨hrecord, ha, ho, hd, hi, hunsealed, htasks, hframe, hlog⟩

theorem admitFresh_ok {prepared : List LaunchInputs} {expectedHead : Nat} {now : Int}
    {draft : Bool} {delegated : Option PreparedDelegatedReservation} {result : Option Reservation}
    (hdraft : draft = true → delegated = none)
    (h : admitFresh env prepared expectedHead now draft delegated s = .ok (result, s')) :
    (result = none ∧ s' = s) ∨
      ∃ reservation task, result = some reservation ∧ Admissible s task ∧
        reservation.record.inputs.task = task.id ∧ env.overlap task.id = none ∧
        Reserves s s' reservation.record task now := by
  simp only [admitFresh, expectHead_bind, readPolicy_reads.peel, Tx.ask_bind, Tx.require_bind,
    readPreparations_reads.peel] at h
  obtain ⟨-, policy, hpolicy, -, hcap, -, ps, hps, h⟩ := h
  obtain ⟨rfl, hmax⟩ := readPolicy_ok hpolicy
  obtain ⟨_, t, hderived, h⟩ := Tx.bind_ok.mp h
  simp only [(Tx.Reads.forEach admissible_reads ps).peel, Tx.find_bind, Tx.outside_bind] at h
  obtain ⟨_, hloop, best, hbest, hoverlap, h⟩ := h
  have ht := installDerived_ok hderived
  cases draft with
  | true =>
    obtain ⟨hresult, hs⟩ := Tx.pure_ok.mp h
    rw [hdraft rfl] at hderived
    exact .inl ⟨hresult.symm, hs ▸ (Tx.pure_ok.mp hderived).2.symm⟩
  | false =>
    obtain ⟨reservation, hreserve, rfl⟩ := Tx.map_ok.mp h
    have hmem : best ∈ ps :=
      (List.perm_insertionSort _ ps).mem_iff.mp (List.mem_of_head? hbest)
    obtain ⟨-, htask⟩ := (readPreparations_ok hps).2 best hmem
    have hid : best.task.id = best.inputs.task := Table.find_key htask
    obtain ⟨hqueued, hidle, hnone, hcount⟩ :=
      admissible_ok (Tx.Reads.forEach_mem admissible_reads hloop hmem)
    obtain ⟨hrecord, hreserves⟩ := reserve_ok hreserve
    have hadmissible : Admissible s best.task := by
      refine ⟨hid ▸ htask, hqueued, hidle, fun a ha hat => ?_, length_lt_of_take hcap (by omega), ?_⟩
      · -- an attempt that retains capacity is among those the admission looked at
        cases hterm : a.terminationObserved with
        | true => rfl
        | false =>
          have hret : a ∈ s.retained :=
            List.mem_filter.mpr ⟨ha, by simp [Attempt.retainsCapacity, hterm]⟩
          rw [hnone a hret hat] at hterm
          cases hterm
      · rw [ht] at hcount
        rw [List.countP_eq_length_filter]
        exact length_lt_of_take hcount le_rfl
    refine .inr ⟨reservation, best.task, rfl, hadmissible, ?_, hid ▸ hoverlap,
      hreserves.of_grants ht⟩
    rw [hrecord, hid]
    rfl

/-- **Admission.** It answers without writing, or it reserves an admissible task. -/
theorem admitPrepared_ok {prepared : List LaunchInputs} {expectedHead : Nat} {now : Int}
    {draft : Bool} {delegated : Option PreparedDelegatedReservation} {result : Option Reservation}
    (h : admitPrepared env prepared expectedHead now draft delegated s = .ok (result, s')) :
    (s' = s ∧ ∀ r, result = some r → ∃ a, s.attempts.find r.record.attempt = some a) ∨
      ∃ reservation task, result = some reservation ∧ Admissible s task ∧
        reservation.record.inputs.task = task.id ∧ env.overlap task.id = none ∧
        Reserves s s' reservation.record task now := by
  simp only [admitPrepared, nowCheck_bind, Tx.require_bind, checkPrepared_reads.peel] at h
  obtain ⟨-, -, _, -, h⟩ := h
  cases delegated with
  | none =>
    rcases admitFresh_ok (fun _ => rfl) h with ⟨hnone, hs⟩ | h
    · exact .inl ⟨hs, by simp [hnone]⟩
    · exact .inr h
  | some request =>
    simp only [Tx.require_bind, delegatedReplay_reads.peel] at h
    obtain ⟨⟨-, hdraft⟩, replayed, hreplayed, h⟩ := h
    cases replayed with
    | some answer =>
      obtain ⟨rfl, rfl⟩ := Tx.pure_ok.mp h
      exact .inl ⟨rfl, delegatedReplay_ok hreplayed⟩
    | none =>
      rcases admitFresh_ok (by simp [hdraft]) h with ⟨hnone, hs⟩ | h
      · exact .inl ⟨hs, by simp [hnone]⟩
      · exact .inr h

end Admission

/-! ## Cancellation -/

section Cancellation

variable [Digests]

theorem readAttemptInput_ok {id : AttemptId} {record : Option AttemptInputRecord}
    (h : readAttemptInput env id s = .ok (record, s')) :
    s' = s ∧ ∀ r, record = some r → r.attempt = id ∧ SealedInput s r.operation r := by
  simp only [readAttemptInput, Tx.ask_bind] at h
  cases hrow : s.inputs.rows.find? fun r => r.attempt = id with
  | none =>
    rw [hrow] at h
    obtain ⟨rfl, rfl⟩ := Tx.pure_ok.mp h
    exact ⟨rfl, by simp⟩
  | some row =>
    rw [hrow] at h
    obtain ⟨r, hr, rfl⟩ := Tx.map_ok.mp h
    obtain ⟨rfl, hsealed⟩ := readInput_ok hr
    refine ⟨rfl, fun r' hr' => ?_⟩
    cases hr'
    -- the operation keys the inputs, so the row that was read is the row that was found
    have hrr : r = row := Table.eq_of_mem (Table.mem_of_find hsealed.input)
      (List.mem_of_find?_eq_some hrow) hsealed.operation_eq
    subst hrr
    exact ⟨by simpa using List.find?_some hrow, hsealed⟩

theorem readAttemptInput_reads {id : AttemptId} : (readAttemptInput env id).Reads :=
  ⟨fun h => (readAttemptInput_ok h).1⟩

/-- The launch that a cancellation releases was never claimed. -/
structure Releases (s : Store) (attempt : Attempt) (task : Task)
    (deliveries : Table Delivery Delivery.operation) (record : AttemptInputRecord)
    (delivery : Delivery) : Prop where
  sealed : SealedInput s record.operation record
  attempt_eq : record.attempt = attempt.id
  row : s.deliveries.find record.operation = some delivery
  releasable : s.releasable attempt task record delivery = true
  settled : ∃ outcome now, deliveries = s.deliveries.update (delivery.settle outcome now)

/-- What a cancellation does to the delivery of the launch. -/
def ReleasesLaunch (s s' : Store) (attempt : Attempt) (task : Task) (released : Bool) : Prop :=
  (released = false ∧ s'.deliveries = s.deliveries) ∨
    (released = true ∧ ∃ record delivery, Releases s attempt task s'.deliveries record delivery)

theorem releaseUnclaimed_ok {attempt : Attempt} {task : Task} {reason : String} {now : Int}
    {record : Option AttemptInputRecord} {released : Bool}
    (hrecord : ∀ r, record = some r → r.attempt = attempt.id ∧ SealedInput s r.operation r)
    (h : releaseUnclaimed env attempt task reason now record s = .ok (released, s')) :
    OutcomesOnly s s' ∧ ReleasesLaunch s s' attempt task released := by
  cases record with
  | none =>
    obtain ⟨rfl, rfl⟩ := Tx.pure_ok.mp h
    exact ⟨.refl s, .inl ⟨rfl, rfl⟩⟩
  | some r =>
    obtain ⟨hattempt, hsealed⟩ := hrecord r rfl
    simp only [releaseUnclaimed, readDelivery, Tx.find_bind, Tx.ask_bind] at h
    obtain ⟨delivery, hdelivery, h⟩ := h
    rcases Tx.ite_ok.mp h with ⟨hrel, h⟩ | ⟨-, h⟩
    · obtain ⟨d, t, hout, h⟩ := Tx.bind_ok.mp h
      obtain ⟨rfl, rfl⟩ := Tx.pure_ok.mp h
      obtain rfl := updateOutcome_other hout (by simp)
      exact ⟨Store.settled_outcomesOnly,
        .inr ⟨rfl, r, delivery, hsealed, hattempt, hdelivery, hrel, _, now, rfl⟩⟩
    · obtain ⟨rfl, rfl⟩ := Tx.pure_ok.mp h
      exact ⟨.refl s, .inl ⟨rfl, rfl⟩⟩

/-- The attempt after a cancellation request. -/
def Attempt.cancel (attempt : Attempt) (released : Bool) : Attempt :=
  { attempt with
    revision := attempt.revision + 1
    state := if released then .cancelled else attempt.state
    terminationObserved := attempt.terminationObserved || released }

/-- The task after a cancellation request for its active attempt. -/
def Task.cancel (task : Task) (released : Bool) : Task :=
  { task with
    revision := task.revision + 1
    state := if released then .cancelled else task.state
    activeAttempt := if released then none else task.activeAttempt }

/-- What the first cancellation of a retained attempt found and wrote. -/
structure Cancels (s s' : Store) (attempt : Attempt) (task : Task) (request : CancellationRequest)
    (released : Bool) : Prop where
  attemptRow : s.attempts.find attempt.id = some attempt
  taskRow : s.tasks.find attempt.task = some task
  request_attempt : request.attempt = attempt.id
  retained : attempt.terminationObserved = false
  launch : ReleasesLaunch s s' attempt task released
  attempts : s'.attempts = s.attempts.update (attempt.cancel released)
  tasks : (task.activeAttempt = some attempt.id ∧ s'.tasks = s.tasks.update (task.cancel released)) ∨
    (task.activeAttempt ≠ some attempt.id ∧ released = false ∧ s'.tasks = s.tasks)
  cancellations : s.cancellations.insert? request = some s'.cancellations
  frame : s' = { s with
    attempts := s'.attempts
    tasks := s'.tasks
    deliveries := s'.deliveries
    cancellations := s'.cancellations
    events := s'.events }
  log : QuietLog s.events s'.events

omit [Digests] in
theorem cancelTask_ok {task : Task} {id : AttemptId} {released : Bool} {n : Nat}
    (h : cancelTask task id released s = .ok (n, s')) :
    s' = { s with tasks := s'.tasks, events := s'.events } ∧ QuietLog s.events s'.events ∧
      (((task.activeAttempt = some id ∨ released = true) ∧
          s'.tasks = s.tasks.update { task with revision := task.revision + 1 }) ∨
        (task.activeAttempt ≠ some id ∧ released = false ∧ s'.tasks = s.tasks)) := by
  unfold cancelTask at h
  rcases Tx.ite_ok.mp h with ⟨hactive, h⟩ | ⟨hidle, h⟩
  · simp only [next_bind, updateTask_bind, logEvent_bind, Tx.pure_ok] at h
    obtain ⟨-, -, -, -, rfl⟩ := h
    exact ⟨rfl, .snoc (.refl _) rfl, .inl ⟨hactive, rfl⟩⟩
  · obtain ⟨-, rfl⟩ := Tx.pure_ok.mp h
    simp only [not_or, Bool.not_eq_true] at hidle
    exact ⟨rfl, .refl _, .inr ⟨hidle.1, hidle.2, rfl⟩⟩

omit [Digests] in
theorem Store.releasable_active {attempt : Attempt} {task : Task} {record : AttemptInputRecord}
    {delivery : Delivery} [Digests] (h : s.releasable attempt task record delivery = true) :
    task.activeAttempt = some attempt.id := by
  simp only [Store.releasable, Bool.and_eq_true, decide_eq_true_eq] at h
  exact h.1.1.1.1.2

theorem requestCancellation_ok {attempt : Attempt} {task : Task} {reason : String} {now : Int}
    {change : CancellationChange} (hattempt : s.attempts.find attempt.id = some attempt)
    (htask : s.tasks.find attempt.task = some task)
    (hretained : attempt.terminationObserved = false)
    (h : requestCancellation env attempt task reason now s = .ok (change, s')) :
    Cancels s s' attempt task ⟨attempt.id, now, reason⟩ change.released := by
  simp only [requestCancellation, readAttemptInput_reads.peel] at h
  obtain ⟨record, hrecord, h⟩ := h
  obtain ⟨released, t, hrelease, h⟩ := Tx.bind_ok.mp h
  simp only [next_bind, updateAttempt_bind] at h
  obtain ⟨-, -, h⟩ := h
  obtain ⟨n, t', hcancel, h⟩ := Tx.bind_ok.mp h
  simp only [Tx.insert_bind, logEvent_bind, Tx.outside_bind, head, Tx.ask_bind, Tx.pure_ok] at h
  obtain ⟨t'', hinsert, -, -, -, rfl, rfl⟩ := h
  obtain ⟨cancellations, hcancellations, rfl⟩ := Option.map_eq_some_iff.mp hinsert
  obtain ⟨hout, hlaunch⟩ := releaseUnclaimed_ok (readAttemptInput_ok hrecord).2 hrelease
  obtain ⟨hframe, hlog, htasks⟩ := cancelTask_ok hcancel
  have hcancels : s.cancellations.insert? ⟨attempt.id, now, reason⟩ = some cancellations := by
    rw [hframe, hout.frame] at hcancellations
    exact hcancellations
  refine ⟨hattempt, htask, rfl, hretained, ?_, ?_, ?_, hcancels, ?_, ?_⟩
  · unfold ReleasesLaunch at hlaunch ⊢
    rw [hframe]
    exact hlaunch
  · rw [hframe, hout.frame]
    rfl
  · -- a released attempt was the active one
    have hactive : released = true → task.activeAttempt = some attempt.id := by
      rintro rfl
      rcases hlaunch with ⟨hne, -⟩ | ⟨-, r, d, hr⟩
      · cases hne
      · exact Store.releasable_active hr.releasable
    have hst : t.tasks = s.tasks := by rw [hout.frame]
    rcases htasks with ⟨hmoved, htasks⟩ | ⟨hidle, rfl, htasks⟩
    · left
      refine ⟨?_, ?_⟩
      · cases released with
        | true => exact hactive rfl
        | false => simpa using hmoved
      · change t'.tasks = _
        rw [htasks]
        change t.tasks.update _ = _
        rw [hst]
        rfl
    · right
      refine ⟨by simpa using hidle, rfl, ?_⟩
      change t'.tasks = _
      rw [htasks]
      exact hst
  · rw [hframe, hout.frame]
    rfl
  · exact (hout.log.trans hlog).snoc rfl

/-- **Cancellation.** A repeated request must give the recorded reason and writes nothing; the
first one is recorded for good. -/
theorem cancelAttempt_ok {id : AttemptId} {revision head : Nat} {reason : String} {now : Int}
    {change : CancellationChange}
    (h : cancelAttempt env id revision head reason now s = .ok (change, s')) :
    (∃ request, s.cancellations.find id = some request ∧ request.reason = reason ∧ s' = s) ∨
      (s.cancellations.find id = none ∧ ∃ attempt task, attempt.id = id ∧
        Cancels s s' attempt task ⟨id, now, reason⟩ change.released) := by
  simp only [cancelAttempt, nowCheck_bind, expectHead_bind, readAttempt, readTask, Tx.require_bind,
    Tx.find_bind, Tx.ask_bind] at h
  obtain ⟨-, -, -, attempt, hattempt, -, task, htask, h⟩ := h
  have hid : attempt.id = id := Table.find_key hattempt
  cases hprior : s.cancellations.find id with
  | some request =>
    simp only [hprior, Tx.require_bind, Herdr.head, Tx.ask_bind, Tx.pure_ok] at h
    obtain ⟨hreason, -, rfl⟩ := h
    exact .inl ⟨request, rfl, hreason, rfl⟩
  | none =>
    simp only [hprior, Tx.require_bind] at h
    obtain ⟨hretain, h⟩ := h
    have hterm : attempt.terminationObserved = false := by
      simpa [Attempt.retainsCapacity] using hretain
    subst hid
    exact .inr ⟨rfl, attempt, task, rfl, requestCancellation_ok hattempt htask hterm h⟩

end Cancellation

/-! ## Termination -/

section Termination

variable [Digests]

omit [Digests] in
theorem quiescence_reads {operation : OperationId} {supervisor : SupervisorIdentity}
    {reboot : Option HostRebootEvidence} :
    (requireWorkspaceQuiescence operation supervisor reboot).Reads :=
  .bind (.require ..) fun _ => .query _

/-- The attempt after its end was observed. -/
def Attempt.ended (attempt : Attempt) (state : AttemptState) : Attempt :=
  { attempt with revision := attempt.revision + 1, state := state, terminationObserved := true }

/-- The task after the end of its active attempt was observed. -/
def Task.vacated (task : Task) (state : TaskState) : Task :=
  { task with revision := task.revision + 1, state := state, activeAttempt := none }

omit [Digests] in
theorem dispose_ok {attempt : Attempt} {attemptState : AttemptState} {task : Task}
    {taskState : TaskState} {after : Attempt × Task}
    (h : dispose env attempt attemptState task taskState s = .ok (after, s')) :
    after = (attempt.ended attemptState, task.vacated taskState) ∧ s' = { s with
      attempts := s.attempts.update (attempt.ended attemptState)
      tasks := s.tasks.update (task.vacated taskState) } := by
  simp only [dispose, next_bind, updateAttempt_bind, Tx.outside_bind, updateTask_bind,
    Tx.pure_ok] at h
  obtain ⟨-, -, -, -, -, rfl, rfl⟩ := h
  exact ⟨rfl, rfl⟩

/-- What observing the end of an attempt found and wrote: the task loses its active attempt, and
rows of operations are at most settled. -/
structure Ends (s s' : Store) (attempt : Attempt) (task : Task) : Prop where
  attemptRow : s.attempts.find attempt.id = some attempt
  taskRow : s.tasks.find attempt.task = some task
  retained : attempt.terminationObserved = false
  active : task.activeAttempt = some attempt.id
  attempts : ∃ state, state ≠ .reserved ∧ s'.attempts = s.attempts.update (attempt.ended state)
  tasks : ∃ state, state ≠ .running ∧ s'.tasks = s.tasks.update (task.vacated state)
  deliveries : ∀ {id d}, s.deliveries.find id = some d → ∃ d', s'.deliveries.find id = some d' ∧
    (d' = d ∨ ∃ outcome now, d' = d.settle outcome now)
  frame : s' = { s with
    attempts := s'.attempts
    tasks := s'.tasks
    deliveries := s'.deliveries
    events := s'.events }

omit [Digests] in
/-- One row is settled: it moves, and no other row does. -/
theorem settled_row {old : Delivery} {outcome : Outcome} {now : Int}
    {deliveries : Table Delivery Delivery.operation}
    (hold : deliveries.find old.operation = some old) {id : OperationId} {d : Delivery}
    (hd : deliveries.find id = some d) :
    ∃ d', (deliveries.update (old.settle outcome now)).find id = some d' ∧
      (d' = d ∨ ∃ outcome now, d' = d.settle outcome now) := by
  by_cases hid : old.operation = id
  · subst hid
    rw [hold] at hd
    cases hd
    exact ⟨_, Table.find_update_self (a := old.settle outcome now) hold, .inr ⟨_, _, rfl⟩⟩
  · exact ⟨d, (Table.find_update_ne (a := old.settle outcome now) hid).trans hd, .inl rfl⟩

theorem retireBrief_ok {now : Int} {id : OperationId} {u : Unit}
    (h : retireBrief env now id s = .ok (u, s')) :
    OutcomesOnly s s' ∧ (∀ j, j ≠ id → s'.deliveries.find j = s.deliveries.find j) ∧
      ∀ d, s.deliveries.find id = some d → ∃ d', s'.deliveries.find id = some d' ∧
        (d' = d ∨ ∃ outcome now, d' = d.settle outcome now) := by
  simp only [retireBrief, readOperation, readDelivery, Tx.find_bind] at h
  obtain ⟨op, hop, delivery, hdelivery, h⟩ := h
  have hid : op.id = id := Table.find_key hop
  have hkey : delivery.operation = op.id := Table.find_key hdelivery
  rcases Tx.ite_ok.mp h with ⟨-, h⟩ | ⟨-, h⟩
  · obtain ⟨-, rfl⟩ := Tx.pure_ok.mp h
    exact ⟨.refl s, fun _ _ => rfl, fun d hd => ⟨d, hd, .inl rfl⟩⟩
  · obtain ⟨d, t, hout, h⟩ := Tx.bind_ok.mp h
    obtain ⟨-, rfl⟩ := Tx.pure_ok.mp h
    obtain rfl := updateOutcome_other hout (by simp)
    rw [← hkey] at hdelivery
    refine ⟨Store.settled_outcomesOnly, fun j hj => ?_, fun d hd => settled_row hdelivery hd⟩
    exact Table.find_update_ne (a := delivery.settle _ now) (by rintro rfl; exact hj (hkey.trans hid))

omit [Digests] in
theorem Store.briefs_nodup {attempt : AttemptId} : (s.briefs attempt).Nodup := by
  unfold Store.briefs
  rw [(List.perm_insertionSort _ _).nodup_iff]
  exact (List.filter_sublist.map _).nodup s.operations.nodup

theorem retireBriefs_ok {now : Int} {attempt : AttemptId} {u : Unit}
    (h : Tx.forEach (retireBrief env now) (s.briefs attempt) s = .ok (u, s')) :
    OutcomesOnly s s' ∧ ∀ {id d}, s.deliveries.find id = some d →
      ∃ d', s'.deliveries.find id = some d' ∧
        (d' = d ∨ ∃ outcome now, d' = d.settle outcome now) := by
  constructor
  · exact Tx.forEach_preserves .refl .trans (fun id _ _ _ _ h => (retireBrief_ok h).1) h
  · intro id d hd
    obtain ⟨d', hd', ⟨-, hmoved⟩ | ⟨-, rfl⟩⟩ := Tx.forEach_pointwise
      (g := fun s k => s.deliveries.find k)
      (R := fun d d' => d' = d ∨ ∃ outcome now, d' = d.settle outcome now)
      (fun h hj => (retireBrief_ok h).2.1 _ hj) (fun h hd => (retireBrief_ok h).2.2 _ hd)
      Store.briefs_nodup h hd
    · exact ⟨d', hd', hmoved⟩
    · exact ⟨_, hd', .inl rfl⟩

omit [Digests] in
theorem memoryCleared_reads {task : TaskId} {completion : Bool} :
    (memoryCleared env task completion).Reads :=
  .ite (.check _) (.pure _)

omit [Digests] in
/-- The disposition of an attempt, over a store in which rows of operations were settled. -/
theorem Ends.of_dispose {t u : Store} {attempt : Attempt} {task : Task} {after : Attempt × Task}
    {attemptState : AttemptState} {taskState : TaskState}
    (hattempt : s.attempts.find attempt.id = some attempt)
    (htask : s.tasks.find attempt.task = some task)
    (hretained : attempt.terminationObserved = false)
    (hactive : task.activeAttempt = some attempt.id)
    (hout : OutcomesOnly s t)
    (hrows : ∀ {id d}, s.deliveries.find id = some d → ∃ d', t.deliveries.find id = some d' ∧
      (d' = d ∨ ∃ outcome now, d' = d.settle outcome now))
    (hdispose : dispose env attempt attemptState task taskState t = .ok (after, u))
    (ha : attemptState ≠ .reserved) (ht : taskState ≠ .running)
    (hlogged : s' = { u with events := s'.events }) : Ends s s' attempt task := by
  obtain ⟨-, rfl⟩ := dispose_ok hdispose
  rw [hlogged, hout.frame]
  refine ⟨hattempt, htask, hretained, hactive, ⟨attemptState, ha, rfl⟩, ⟨taskState, ht, rfl⟩, ?_,
    rfl⟩
  exact hrows

theorem terminate_ok {receipt : WorkerTerminationReceipt} {binding : RuntimeBinding}
    {attempt a : Attempt} {task : Task} {cancelled completion : Bool} {now : Int}
    (hattempt : s.attempts.find attempt.id = some attempt)
    (htask : s.tasks.find attempt.task = some task)
    (hretained : attempt.terminationObserved = false)
    (hactive : task.activeAttempt = some attempt.id)
    (h : terminate env receipt binding attempt task cancelled completion now s = .ok (a, s')) :
    Ends s s' attempt task ∧ QuietLog s.events s'.events := by
  simp only [terminate, memoryCleared_reads.peel, Tx.ask_bind] at h
  obtain ⟨succeeded, -, h⟩ := h
  obtain ⟨_, t, hbriefs, h⟩ := Tx.bind_ok.mp h
  obtain ⟨after, t', hdispose, h⟩ := Tx.bind_ok.mp h
  simp only [logEvent_bind, Tx.outside_bind, Tx.pure_ok] at h
  obtain ⟨-, -, -, -, -, -, -, rfl⟩ := h
  obtain ⟨hout, hrows⟩ := retireBriefs_ok hbriefs
  refine ⟨.of_dispose hattempt htask hretained hactive hout hrows hdispose ?_ ?_ rfl, ?_⟩
  · cases cancelled <;> cases completion <;> simp
  · cases cancelled <;> cases succeeded <;> simp
  · obtain ⟨-, rfl⟩ := dispose_ok hdispose
    exact hout.log.trans (.snoc (.snoc (.snoc (.snoc (.refl _) rfl) rfl) rfl) rfl)

/-- **Termination.** The same receipt again is a read; the first one ends the attempt. -/
theorem recordWorkerTermination_ok {receipt : WorkerTerminationReceipt} {revision head : Nat}
    {now : Int} {a : Attempt}
    (h : recordWorkerTermination env receipt revision head now s = .ok (a, s')) :
    s' = s ∨ ∃ attempt task, Ends s s' attempt task ∧ QuietLog s.events s'.events := by
  simp only [recordWorkerTermination, nowCheck_bind, expectHead_bind, readAttempt, Tx.require_bind,
    Tx.find_bind] at h
  obtain ⟨-, -, -, -, attempt, hattempt, h⟩ := h
  rcases Tx.ite_ok.mp h with ⟨-, h⟩ | ⟨hretain, h⟩
  · simp only [Tx.ask_bind, Tx.require_bind, Tx.pure_ok] at h
    obtain ⟨-, -, rfl⟩ := h
    exact .inl rfl
  · simp only [observeTermination, readBinding, readTask, readEvent, readDelivery,
      Tx.require_bind, Tx.find_bind, Tx.ask_bind, Tx.outside_bind, readInput_reads.peel,
      quiescence_reads.peel] at h
    obtain ⟨-, record, -, -, _, -, -, binding, -, owner, -, task, htask, howner, start, -, launch,
      -, -, -, h⟩ := h
    have hid : attempt.id = receipt.attempt := Table.find_key hattempt
    refine .inr ⟨attempt, task, terminate_ok (hid ▸ hattempt) htask ?_ ?_ h⟩
    · simpa using hretain
    · exact howner.2.2.2.2.2.2.2.2

theorem retireLaunch_ok {delivery : Delivery} {now : Int} {u : Unit}
    (hdelivery : s.deliveries.find delivery.operation = some delivery)
    (h : retireLaunch env delivery now s = .ok (u, s')) :
    OutcomesOnly s s' ∧ ∀ {id d}, s.deliveries.find id = some d →
      ∃ d', s'.deliveries.find id = some d' ∧
        (d' = d ∨ ∃ outcome now, d' = d.settle outcome now) := by
  unfold retireLaunch at h
  rcases Tx.ite_ok.mp h with ⟨-, h⟩ | ⟨-, h⟩
  · obtain ⟨-, rfl⟩ := Tx.pure_ok.mp h
    exact ⟨.refl s, fun hd => ⟨_, hd, .inl rfl⟩⟩
  · obtain ⟨d, t, hout, h⟩ := Tx.bind_ok.mp h
    obtain ⟨-, rfl⟩ := Tx.pure_ok.mp h
    obtain rfl := updateOutcome_other hout (by simp)
    exact ⟨Store.settled_outcomesOnly, fun hd => settled_row hdelivery hd⟩

/-- What a stopped launch found beside its attempt: no start on record, and it records the stop. -/
structure Stops (s s' : Store) (operation : OperationId) (attempt : Attempt) : Prop where
  sealed : ∃ record, SealedInput s operation record ∧ record.attempt = attempt.id
  reserved : attempt.state = .reserved
  unstarted : s.hasEvent operation.val [.launchStarted] = false
  log : ∃ before receipt revision, QuietLog s.events before ∧
    s'.events = before ++ [⟨operation.val, revision, .launchStopped receipt⟩]

theorem recordLaunchStopped_ok {receipt : LaunchStoppedReceipt} {revision head : Nat} {now : Int}
    {a : Attempt} (h : recordLaunchStopped env receipt revision head now s = .ok (a, s')) :
    ∃ attempt task, Ends s s' attempt task ∧ Stops s s' receipt.target.operation attempt := by
  simp only [recordLaunchStopped, nowCheck_bind, expectHead_bind, readAttempt, readBinding,
    readTask, readEvent, readDelivery, Tx.require_bind, Tx.find_bind, Tx.ask_bind, Tx.outside_bind,
    readInput_reads.peel, quiescence_reads.peel] at h
  obtain ⟨-, -, supervisor, -, -, -, attempt, hattempt, ⟨-, hretained, hreserved⟩, record, hrecord,
    hrecordAttempt, _, -, -, binding, -, -, target, -, -, ⟨hstarted, -⟩, task, htask, hactive,
    delivery, hdelivery, -, h⟩ := h
  obtain ⟨_, t, hretire, h⟩ := Tx.bind_ok.mp h
  obtain ⟨after, t', hdispose, h⟩ := Tx.bind_ok.mp h
  simp only [logEvent_bind, Tx.outside_bind, Tx.pure_ok] at h
  obtain ⟨-, -, -, -, -, -, -, rfl⟩ := h
  have hsealed := (readInput_ok hrecord).2
  have hop := hsealed.operation_eq
  have hkey : delivery.operation = record.operation := Table.find_key hdelivery
  have hid : attempt.id = receipt.target.attempt := Table.find_key hattempt
  obtain ⟨hout, hrows⟩ := retireLaunch_ok (hkey ▸ hdelivery) hretire
  refine ⟨attempt, task, .of_dispose (hid ▸ hattempt) htask hretained hactive hout hrows hdispose
    ?_ ?_ rfl, ⟨record, hsealed, hrecordAttempt⟩, hreserved, hop ▸ hstarted, ?_⟩
  · cases (s.cancellations.find attempt.id).isSome <;> simp
  · cases (s.cancellations.find attempt.id).isSome <;> simp
  · obtain ⟨-, rfl⟩ := dispose_ok hdispose
    rw [hop]
    exact ⟨_, receipt, _, hout.log.trans (.snoc (.snoc (.snoc (.refl _) rfl) rfl) rfl), rfl⟩

omit [Digests] in
/-- **Completion requests.** Only the revision of the active attempt moves. -/
theorem requestCompletion_ok {id : TaskId} {revision : Nat} {now : Int} {change : CompletionChange}
    (h : requestCompletion env id revision now s = .ok (change, s')) :
    s' = s ∨ ∃ attempt, s.attempts.find attempt.id = some attempt ∧
      s' = { s with
        attempts := s.attempts.update { attempt with revision := attempt.revision + 1 }
        events := s'.events } ∧ QuietLog s.events s'.events := by
  simp only [requestCompletion, readTask, nowCheck_bind, Tx.find_bind, Tx.ask_bind] at h
  obtain ⟨-, task, htask, h⟩ := h
  cases hprior : (s.requestedCompletion id).filter
      fun a => task.activeAttempt.all fun active => active = a.id with
  | some prior =>
    simp only [hprior, Herdr.head, Tx.ask_bind, Tx.pure_ok] at h
    exact .inl h.2.symm
  | none =>
    simp only [hprior, requestActiveCompletion, readAttempt, Tx.require_bind, Tx.find_bind,
      Tx.ask_bind, Tx.check_bind, next_bind, updateAttempt_bind, logEvent_bind, Tx.outside_bind,
      Herdr.head, Tx.pure_ok] at h
    obtain ⟨-, active, -, attempt, hattempt, -, -, -, submission, -, -, -, -, -, -, rfl⟩ := h
    have hid : attempt.id = active := Table.find_key hattempt
    exact .inr ⟨attempt, hid ▸ hattempt, rfl, .snoc (.refl _) rfl⟩

end Termination

end Herdr
