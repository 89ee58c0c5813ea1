import Herdr.Store.Launch

/-!
# Reservations and cancellation

`src/store/reservations.rs`: `admit_prepared` selects one prepared launch and reserves capacity
for it, `cancel_attempt` requests the end of an attempt and releases its capacity only where no
launch was ever claimed. No external effect runs here.
-/

namespace Herdr

variable [Digests] (env : Outside)

/-! ## Admission -/

/-- Each preparation is well formed, belongs to this store and names its own task. -/
def checkPrepared (seen : List TaskId) : List LaunchInputs → Body Unit
  | [] => pure ()
  | i :: rest => do
    validateInputs env i
    .require (i.version = 2) (invalid "new reservations require effective profile evidence")
    let path ← .ask Store.path
    .require (i.projectStore = path ∧ i.task ∉ seen)
      (invalid "preparation belongs to another store or duplicates a task")
    checkPrepared (i.task :: seen) rest

/-- `delegated_reservation::replay`: the answer that this key already has. -/
def delegatedReplay (delegated : PreparedDelegatedReservation) : Body (Option Reservation) := do
  .outside (env.delegation delegated)
  let stored ← .ask (·.delegated.find (delegated.grantId, delegated.idempotencyKey))
  match stored with
  | none => pure none
  | some row =>
    .require (row.requestDigest = delegated.digest) .conflict
    let retained ← readInput env row.response.record.operation
    .require (retained = row.response.record)
      (.corrupt "delegated response differs from retained reservation")
    pure (some row.response)

/-- `delegated_reservation::install_derived`: never adopts an existing grant. -/
def installDerived (delegated : Option PreparedDelegatedReservation) : Body Unit :=
  match delegated with
  | none => pure ()
  | some delegated => do
    .outside (env.delegation delegated)
    let own ← .check (delegated.approval.reference.mapError .invalid)
    .insert (fun s => (s.grants.insert? ⟨own.id, delegated.approval⟩).map
      fun t => { s with grants := t }) .conflict

/-- `delegated_reservation::record`. -/
def recordDelegated (delegated : Option PreparedDelegatedReservation) (result : Reservation) :
    Body Unit :=
  match delegated with
  | none => pure ()
  | some delegated =>
    .insert (fun s => (s.delegated.insert? {
        grantId := delegated.grantId
        idempotencyKey := delegated.idempotencyKey
        requestDigest := delegated.digest
        approval := result.record.inputs.approval.id
        attempt := result.record.attempt
        response := result }).map fun t => { s with delegated := t }) .conflict

/-- The rows that one preparation selects. -/
structure Preparation where
  inputs : LaunchInputs
  queue : QueueRecord
  binding : RuntimeBinding
  owned : Option RuntimeOwnership
  task : Task

def readPreparation (i : LaunchInputs) : Body Preparation := do
  let queue ← .find (·.queue.find i.task) .conflict
  .require (queue.dependencies.length ≤ 256) (.limit "task dependency limit exceeded")
  let binding ← readBinding i.binding
  let owned ← .ask (·.ownership.find i.binding)
  let task ← readTask i.task
  let known ← .ask fun s => queue.dependencies.all fun d => (s.tasks.find d.predecessor).isSome
  .require (known = true) .conflict
  pure ⟨i, queue, binding, owned, task⟩

def readPreparations : List LaunchInputs → Body (List Preparation)
  | [] => pure []
  | i :: rest => do
    let p ← readPreparation i
    let ps ← readPreparations rest
    pure (p :: ps)

/-- `admission_read::attempt_count`: the attempts of a task, counted up to `cap`. -/
def Store.attemptCount (s : Store) (task : TaskId) (cap : Nat) : Nat :=
  ((s.attempts.rows.filter fun a => a.task = task).take cap).length

/-- Approval is checked for a reservation; a draft has none yet. -/
def checkApproval (i : LaunchInputs) (now : Int) (draft : Bool) : Body Unit :=
  if draft then pure () else validatePreparation env i now

/-- The admission conditions of one preparation. -/
def admissible (policy : SchedulerPolicy) (control : ProjectControl) (attempts : List Attempt)
    (now : Int) (draft : Bool) (p : Preparation) : Body Unit := do
  let i := p.inputs
  .require (i.schedulerRevision = policy.revision ∧ i.controlEpoch = control.epoch ∧
    i.config.digest = control.configDigest) .conflict
  .require (p.task.revision = i.taskRevision) .conflict
  .outside (env.admission i)
  .outside (env.contractBinding i)
  .outside (env.workerKnowledge i)
  .outside (env.budget i.budget false)
  checkApproval env i now draft
  .require (p.task.state = .queued ∧ p.task.activeAttempt = none ∧ p.queue.enqueuedUnixMs ≤ now ∧
      ¬attempts.any fun a => a.task = p.task.id && a.retainsCapacity)
    (invalid "task is not ready for reservation")
  let lifetime ← .ask (·.attemptCount p.task.id policy.maxAttemptsPerTask)
  .require (lifetime < policy.maxAttemptsPerTask) (invalid "task attempt limit reached")
  .require (p.binding.revision = i.bindingRevision ∧ p.binding.task = some p.task.id) .conflict
  .require (Digests.identity p.binding.identity = i.bindingDigest) .conflict
  .require (¬p.binding.identity.agent.isEmpty →
      i.effectiveProfile.map (·.kind) = some p.binding.identity.agent)
    (invalid "profile kind differs from runtime binding")
  .require (p.binding.identity.paneId.isEmpty ∧
      p.owned.all fun o => o.attempt.isNone && o.session.isNone && o.agent.isNone)
    (invalid "existing worker identity requires reconciliation")
  .require (¬p.binding.identity.repo.isEmpty →
      i.repositories.any fun r => r.repository = p.binding.identity.repo)
    (invalid "recorded repository lacks a pinned input")

/-- Priority aged by one a minute. -/
def Preparation.score (p : Preparation) (now : Int) : Int :=
  (now - p.queue.enqueuedUnixMs).tdiv 60000 + p.queue.priority

/-- Higher score first, then the older queue entry, then the smaller task identity. -/
def Preparation.precedes (now : Int) (p q : Preparation) : Prop :=
  q.score now < p.score now ∨ (q.score now = p.score now ∧
    (p.queue.enqueueSequence < q.queue.enqueueSequence ∨
      (p.queue.enqueueSequence = q.queue.enqueueSequence ∧ p.inputs.task.val ≤ q.inputs.task.val)))

instance (now : Int) : DecidableRel (Preparation.precedes now) := fun p q => by
  unfold Preparation.precedes
  infer_instance

/-- The rows of a new reservation. -/
def LaunchInputs.reserved (i : LaunchInputs) : AttemptInputRecord :=
  ⟨(recordIds i).1, (recordIds i).2, i⟩

def AttemptInputRecord.attemptRow (record : AttemptInputRecord) : Attempt where
  id := record.attempt
  task := record.inputs.task
  revision := 1
  state := .reserved
  snapshot := record.inputs.memory.map (·.id)
  reservation := "worker:" ++ record.attempt.val
  terminationObserved := false

def AttemptInputRecord.operationRow (record : AttemptInputRecord) (now : Int) : Operation where
  id := record.operation
  task := some record.inputs.task
  kind := .runtimeLaunch
  target := record.inputs.binding
  payloadVersion := 1
  payload := .launch record
  expectedRevision := record.inputs.taskRevision + 1
  dueUnixMs := now
  idempotencyKey := record.operation.val

/-- Insert a launch operation; the trigger adds its delivery row. -/
def insertOperation (op : Operation) : Body Unit := do
  .insert (fun s => (s.operations.insert? op).map fun t => { s with operations := t }) .conflict
  .insert (fun s => (s.deliveries.insert? (.enqueued op.id op.dueUnixMs)).map
    fun t => { s with deliveries := t }) .conflict

/-- `attempt_inputs` is unique by attempt and by operation. -/
def insertInputs (record : AttemptInputRecord) : Body Unit :=
  .insert (fun s =>
    if s.inputs.rows.any (·.attempt = record.attempt) then none
    else (s.inputs.insert? record).map fun t => { s with inputs := t }) .conflict

/-- The writes of a reservation. -/
def reserve (p : Preparation) (delegated : Option PreparedDelegatedReservation) (now : Int) :
    Body Reservation := do
  let record := p.inputs.reserved
  let revision ← next p.inputs.taskRevision (invalid "task revision exhausted")
  let task := { p.task with
    revision := revision, state := .running, activeAttempt := some record.attempt }
  .insert (fun s => (s.attempts.insert? record.attemptRow).map
    fun t => { s with attempts := t }) .conflict
  .outside env.subsidiary
  updateTask task
  insertOperation (record.operationRow now)
  insertInputs record
  logEvent record.attempt.val 1 (.attemptReserved record)
  logEvent task.id.val revision (.taskChanged task)
  logEvent record.operation.val revision (.operationEnqueued record)
  let head ← head
  let result : Reservation := ⟨head, record, revision⟩
  recordDelegated delegated result
  .outside env.fault
  pure result

/-- The selection and the writes of `admit_prepared`, after the replay of a delegated request. -/
def admitFresh (prepared : List LaunchInputs) (expectedHead : Nat) (now : Int) (draft : Bool)
    (delegated : Option PreparedDelegatedReservation) : Body (Option Reservation) := do
  expectHead expectedHead
  let policy ← readPolicy
  let control ← .ask Store.control
  .require (control.state = .active ∧ control.reconciliationRequired = false)
    (invalid "project is not admitted")
  let attempts ← .ask Store.retained
  .require ((attempts.take 1025).length < policy.maxActiveWorkers)
    (invalid "project worker capacity is full")
  .require (attempts.length ≤ 1024) (.limit "retained admission attempt limit exceeded")
  let preparations ← readPreparations prepared
  installDerived env delegated
  Tx.forEach (admissible env policy control attempts now draft) preparations
  let best ← .find
    (fun _ => (preparations.insertionSort (Preparation.precedes now)).head?) .conflict
  .outside (env.overlap best.inputs.task)
  if draft then pure none
  else some <$> reserve env best delegated now

/-- `admit_prepared`. A draft checks the same conditions and writes nothing. -/
def admitPrepared (prepared : List LaunchInputs) (expectedHead : Nat) (now : Int) (draft : Bool)
    (delegated : Option PreparedDelegatedReservation) : Body (Option Reservation) := do
  nowCheck now
  .require (prepared ≠ [] ∧ prepared.length ≤ 128)
    (invalid "reservation requires 1–128 ready preparations")
  checkPrepared env [] prepared
  match delegated with
  | none => admitFresh env prepared expectedHead now draft none
  | some request =>
    .require (prepared.length = 1 ∧ draft = false)
      (invalid "delegation requires one exact reservation")
    let replayed ← delegatedReplay env request
    match replayed with
    | some result => pure (some result)
    | none => admitFresh env prepared expectedHead now draft (some request)

/-! ## Cancellation -/

/-- No claim of the launch was ever committed, and no other launch of the task is open. -/
def Store.neverClaimed (s : Store) (task : TaskId) (delivery : Delivery) : Bool :=
  !s.hasEvent delivery.operation.val [.operationClaimed] &&
  (!s.operations.rows.any fun o => o.task = some task && o.kind = .runtimeLaunch &&
    o.id ≠ delivery.operation && ((s.deliveries.find o.id).any fun d =>
      d.state ≠ .confirmed && d.state ≠ .permanentFailure)) &&
  delivery.state = .pending && delivery.attempts = 0 && delivery.epoch = 0 &&
  delivery.owner.isNone && delivery.leaseUntilMs.isNone && delivery.lastOutcome.isNone

/-- The binding is the one that was sealed, and no worker is recorded for it or the attempt. -/
def Store.noExternalWorker (s : Store) (attempt : Attempt) (record : AttemptInputRecord) : Bool :=
  ((s.bindings.find record.inputs.binding).any fun b =>
    b.revision = record.inputs.bindingRevision && b.task = some attempt.task &&
      b.identity.paneId.isEmpty && Digests.identity b.identity = record.inputs.bindingDigest) &&
  (!s.ownership.rows.any fun o => o.attempt = some attempt.id) &&
  ((s.ownership.find record.inputs.binding).all fun o =>
    o.attempt.isNone && o.agent.isNone && o.session.isNone)

/-- Capacity may be released: nothing outside the store can have happened. -/
def Store.releasable (s : Store) (attempt : Attempt) (task : Task) (record : AttemptInputRecord)
    (delivery : Delivery) : Bool :=
  attempt.state = .reserved && task.state = .running && task.activeAttempt = some attempt.id &&
  task.revision = record.inputs.taskRevision + 1 && s.neverClaimed attempt.task delivery &&
  s.noExternalWorker attempt record &&
  !s.attempts.rows.any fun a => a.task = attempt.task && a.id ≠ attempt.id && !a.terminationObserved

/-- Release the capacity of an attempt whose launch was never claimed. -/
def releaseUnclaimed (attempt : Attempt) (task : Task) (reason : String) (now : Int) :
    Option AttemptInputRecord → Body Bool
  | none => pure false
  | some record => do
    let delivery ← readDelivery record.operation
    let releasable ← .ask (·.releasable attempt task record delivery)
    if releasable then do
      let _ ← updateOutcome env delivery
        (.permanentFailure ("cancelled before any launch claim: " ++ reason)) now
        "operator.cancellation"
      pure true
    else pure false

/-- The sealed inputs of an attempt, when it has any. -/
def readAttemptInput (id : AttemptId) : Body (Option AttemptInputRecord) := do
  let row ← .ask (·.inputs.rows.find? fun r => r.attempt = id)
  match row with
  | none => pure none
  | some row => some <$> readInput env row.operation

/-- The task moves with its active attempt. -/
def cancelTask (task : Task) (id : AttemptId) (released : Bool) : Body Nat :=
  if task.activeAttempt = some id ∨ released then do
    let revision ← next task.revision (invalid "task revision exhausted")
    let task := { task with revision := revision }
    updateTask task
    logEvent task.id.val task.revision (.taskChanged task)
    pure task.revision
  else pure task.revision

/-- The first cancellation request of a retained attempt. -/
def requestCancellation (attempt : Attempt) (task : Task) (reason : String) (now : Int) :
    Body CancellationChange := do
  let record ← readAttemptInput env attempt.id
  let released ← releaseUnclaimed env attempt task reason now record
  let _ ← next attempt.revision (invalid "attempt revision exhausted")
  let after := { attempt with
    revision := attempt.revision + 1
    state := if released then .cancelled else attempt.state
    terminationObserved := attempt.terminationObserved || released }
  updateAttempt after
  let taskRevision ← cancelTask { task with
    state := if released then .cancelled else task.state
    activeAttempt := if released then none else task.activeAttempt } attempt.id released
  .insert (fun s => (s.cancellations.insert? ⟨attempt.id, now, reason⟩).map
    fun t => { s with cancellations := t }) .conflict
  logEvent attempt.id.val after.revision
    (.attemptCancellationRequested ⟨attempt.id, now, reason⟩ released after)
  .outside env.subsidiary
  .outside env.fault
  let head ← head
  pure ⟨head, attempt.id, released, after.revision, taskRevision⟩

/-- `cancel_attempt`. A repeated request with the same reason is a read. -/
def cancelAttempt (id : AttemptId) (expectedRevision expectedHead : Nat) (reason : String)
    (now : Int) : Body CancellationChange := do
  nowCheck now
  .require (¬trimEmpty reason ∧ reason.utf8ByteSize ≤ 4000 ∧ ¬hasControl reason)
    (invalid "cancellation reason must contain 1–4000 bytes without control characters")
  expectHead expectedHead
  let attempt ← readAttempt id
  .require (attempt.revision = expectedRevision) .conflict
  let task ← readTask attempt.task
  let prior ← .ask (·.cancellations.find id)
  match prior with
  | some request =>
    .require (request.reason = reason) .conflict
    let head ← head
    pure ⟨head, id, !attempt.retainsCapacity, attempt.revision, task.revision⟩
  | none =>
    .require attempt.retainsCapacity (invalid "attempt already has termination evidence")
    requestCancellation env attempt task reason now

end Herdr
