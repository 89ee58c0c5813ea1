import Mathlib.Data.List.Sort
import Herdr.Store.Approvals

/-!
# Durable delivery

`src/store/delivery.rs`: a claim is committed before external work, its outcome is recorded under
the same owner, epoch, revision and lease, and an expired claim becomes ambiguous until someone
observes the effect. The launch branch of a claim records its creation intent
(`launch::record_creation`, `worktrees::record_creation`), and a confirmed finalization moves its
task (`finalization::apply_receipt`).
-/

namespace Herdr

variable [Digests] (env : Outside)

/-- `delivery::text`. -/
def text (value : String) : Body Unit :=
  .require (¬trimEmpty value ∧ value.utf8ByteSize ≤ 8192)
    (invalid "nonempty evidence/owner of at most 8192 bytes required")

/-- `delivery::increment`. -/
def increment (n : Nat) : Body Nat := do
  .require (n + 1 ≤ i64Max) (invalid "delivery counter exhausted")
  pure (n + 1)

/-- The row is still claimed under exactly this claim, and its lease has not run out. -/
def Delivery.heldBy (d : Delivery) (claim : Claim) (now : Int) : Prop :=
  d.state = .claimed ∧ d.revision = claim.revision ∧ d.epoch = claim.epoch ∧
    d.owner = some claim.owner ∧ d.leaseUntilMs = some claim.leaseUntilMs ∧
    now < claim.leaseUntilMs

instance (d : Delivery) (claim : Claim) (now : Int) : Decidable (d.heldBy claim now) := by
  unfold Delivery.heldBy
  infer_instance

/-- `binding_current`: a project operation is fenced by the project-control revision, every other
one by its task's. -/
def bindingCurrent (id : OperationId) (admission : Bool) : Body Bool := do
  let op ← operationRow id
  match op.task with
  | some task =>
    let task ← .find (·.tasks.find task) .noRows
    pure (task.revision = op.expectedRevision)
  | none =>
    .require (op.kind = .routineRun) (invalid "unsupported project operation")
    let control ← .ask Store.control
    pure (control.revision = op.expectedRevision ∧
      (admission = false ∨ (control.state = .active ∧ control.reconciliationRequired = false)))

/-! ## Finalization receipts -/

/-- `Finalization::decode`. -/
def Finalization.decode (op : Operation) : Option Finalization :=
  match op.kind, op.payloadVersion, op.payload with
  | .runtimeFinalization, 1, .finalization payload => some payload
  | _, _, _ => none

/-- `Finalization::validate_state`, for the task, the binding and the control row it selects. -/
def Finalization.validateState (f : Finalization) (op : Operation) (control : ProjectControl)
    (task : Task) (retained : List Attempt) (binding : RuntimeBinding) : Prop :=
  (f.authority = "operator.artifact_finalization" ∧ hash f.reportHash ∧ ¬trimEmpty f.reason ∧
    f.reason.utf8ByteSize ≤ 4096) ∧
  (control.state ≠ .archived ∧ control.epoch = f.controlEpoch) ∧
  task.revision = op.expectedRevision ∧
  (task.activeAttempt = none ∧ task.state ≠ .running ∧ task.state ≠ .succeeded) ∧
  (¬retained.any fun a => a.task = task.id) ∧
  (binding.revision = f.bindingRevision ∧ binding.task = op.task) ∧
  (op.target = binding.id ∧ binding.identity.machine.isEmpty ∧
    binding.identity.threadDir = f.source ∧ isAbsolute f.source) ∧
  op.id.val = "finalize-" ++ Digests.finalization f op.expectedRevision ∧
  op.idempotencyKey = op.id.val

instance (f : Finalization) (op : Operation) (control : ProjectControl) (task : Task)
    (retained : List Attempt) (binding : RuntimeBinding) :
    Decidable (f.validateState op control task retained binding) := by
  unfold Finalization.validateState
  infer_instance

/-- A finalized task waits for review. Capturing cancelled output preserves evidence without
reviving the task. -/
def finalizeTask (task : Task) : Body Unit := do
  if task.state = .cancelled then pure ()
  else
    let revision ← next task.revision (invalid "task revision exhausted")
    let task := { task with revision := revision, state := .awaitingReview }
    updateTask task
    logEvent task.id.val task.revision (.taskChanged task)

/-- `apply_receipt` for a finalization intent: its outcome and the disposition of its task commit
together. -/
def applyFinalization (op : Operation) (identity : String) : Body Unit := do
  let payload ← .find (fun _ => Finalization.decode op) (invalid "invalid finalization payload")
  .outside (env.finalizationReceipt op.id identity)
  let id ← .find (fun _ => op.task) .conflict
  let control ← .ask Store.control
  let task ← readTask id
  let retained ← .ask Store.retained
  let binding ← readBinding payload.binding
  .require (payload.validateState op control task retained binding) .conflict
  finalizeTask task
  logEvent payload.binding payload.bindingRevision (.artifactsFinalized identity)
  .outside env.subsidiary

/-- `apply_receipt`. -/
def applyReceipt (id : OperationId) (identity : String) : Body Unit := do
  let op ← operationRow id
  if op.kind = .runtimeFinalization then applyFinalization env op identity else pure ()

/-! ## Outcomes -/

/-- `has_started_receipt`. -/
def Store.hasStartedReceipt (s : Store) (operation : OperationId) (payload : String) : Bool :=
  s.events.any fun e =>
    e.entity = operation.val && (e.body.started?.any fun r => r.toJson = payload)

/-- What a caller must have recorded before it may confirm an operation of this kind. A
caller-written string is not a worker identity or a termination receipt. -/
def confirm (old : Delivery) (outcome : Outcome) : Body Unit :=
  match outcome with
  | .confirmed identity => do
    let op ← operationRow old.operation
    let started ← .ask (·.hasStartedReceipt old.operation identity)
    .require (op.kind = .runtimeLaunch → started = true)
      (invalid "launch confirmation requires a typed lifecycle receipt")
    .require (op.kind = .runtimeWorkerBrief → env.receipts op.kind old.operation identity = true)
      (invalid "worker brief confirmation requires a typed lifecycle receipt")
    .require (op.kind = .verificationRun → env.receipts op.kind old.operation identity = true)
      (invalid "verification confirmation requires a recorded run under the job key")
    .require (op.kind = .integrationRun → env.receipts op.kind old.operation identity = true)
      (invalid "integration confirmation requires an integrated operation under the job key")
    applyReceipt env old.operation identity
  | _ => pure ()

/-- The state that an outcome settles to, before the retry budget is applied. -/
def Outcome.state : Outcome → DeliveryState
  | .confirmed _ => .confirmed
  | .retryable _ => .pending
  | .ambiguous _ => .ambiguous
  | .permanentFailure _ => .permanentFailure

/-- A retryable outcome after the 32nd attempt is a permanent failure. -/
def Outcome.budgeted (outcome : Outcome) (attempts : Nat) : Outcome :=
  if outcome.state = .pending ∧ 32 ≤ attempts then
    .permanentFailure ("retry budget exhausted after confirmed no effect: " ++ outcome.evidence)
  else outcome

/-- Exponential from one second, at most five minutes. -/
def backoff (attempts : Nat) : Nat := min (1000 * 2 ^ min (attempts - 1) 8) 300000

/-- The row that `update_outcome` leaves. -/
def Delivery.settle (old : Delivery) (outcome : Outcome) (now : Int) : Delivery :=
  { old with
    revision := old.revision + 1
    state := (outcome.budgeted old.attempts).state
    owner := none
    leaseUntilMs := none
    nextDueMs := now + backoff old.attempts
    lastOutcome := some (outcome.budgeted old.attempts) }

/-- `update_outcome`. -/
def updateOutcome (old : Delivery) (outcome : Outcome) (now : Int) (actor : String) :
    Body Delivery := do
  text outcome.evidence
  confirm env old outcome
  let revision ← increment old.revision
  updateDelivery (old.settle outcome now)
  logEvent old.operation.val revision
    (.operationOutcome actor (outcome.budgeted old.attempts) old.epoch)
  readDelivery old.operation

/-! ## Creation intents of a launch claim -/

/-- The checks of a creation intent that need no store. -/
def LaunchCreationIntent.wellFormed (intent : LaunchCreationIntent) (claim : Claim) : Prop :=
  intent.version ∈ [1, 2, 3] ∧
  (2 ≤ intent.version → intent.route.workspaceId.isEmpty ∧ intent.workspaceToken = none) ∧
  (intent.workspaceToken.all fun token => digest64 token && intent.route.workspaceId.isEmpty) ∧
  intent.operation = claim.operation ∧ intent.session.bornNanos < 1000000000 ∧
  digest64 intent.commandDigest

instance (intent : LaunchCreationIntent) (claim : Claim) :
    Decidable (intent.wellFormed claim) := by
  unfold LaunchCreationIntent.wellFormed
  infer_instance

/-- `launch::record_creation`. -/
def recordCreation (claim : Claim) (intent : LaunchCreationIntent) (now : Int) : Body Unit := do
  .check (intent.route.validate.mapError .invalid)
  .require (intent.wellFormed claim) (invalid "invalid launch creation intent")
  let delivery ← readDelivery claim.operation
  .require (delivery.heldBy claim now) .conflict
  validateUse env claim now
  let record ← readInput env intent.operation
  .require (record.attempt = intent.attempt) .conflict
  let binding ← readBinding record.inputs.binding
  let execution ← .check (env.executionRoute record binding)
  .require (execution.1 = intent.route ∧ binding.revision = record.inputs.bindingRevision ∧
    Digests.identity binding.identity = record.inputs.bindingDigest) .conflict
  let used ← .ask (·.hasEvent intent.operation.val [.launchCreation, .launchTarget, .launchStarted])
  .require (used = false) (invalid "creation already prepared; reconcile without replay")
  logEvent intent.operation.val claim.revision (.launchCreation intent)

/-- `worktrees::record_creation`. -/
def recordWorktreeCreation (claim : Claim) (operation : OperationId) (intent : String)
    (now : Int) : Body Unit := do
  .outside (env.worktrees intent)
  .require (claim.operation = operation) .conflict
  validateUse env claim now
  let used ← .ask (·.hasEvent claim.operation.val
    [.worktreesCreation, .worktreesReady, .launchCreation, .launchTarget, .launchStarted])
  .require (used = false) (invalid "worktree creation already attempted")
  logEvent claim.operation.val claim.revision (.worktreesCreation intent)

/-- `LaunchPreparation`. -/
inductive LaunchPreparation where
  | native (intent : LaunchCreationIntent)
  | worktrees (operation : OperationId) (intent : String)
deriving DecidableEq, Repr

def recordPreparation (op : Operation) (claim : Claim) (now : Int) :
    Option LaunchPreparation → Body Unit
  | none => pure ()
  | some (.native intent) => do
    .require (op.kind = .runtimeLaunch) .conflict
    recordCreation env claim intent now
  | some (.worktrees operation intent) => do
    .require (op.kind = .runtimeLaunch) .conflict
    recordWorktreeCreation env claim operation intent now

/-! ## The protocol -/

/-- The row that a claim leaves. -/
def Delivery.claim (old : Delivery) (owner : String) (leaseUntilMs : Int) : Delivery :=
  { old with
    revision := old.revision + 1
    state := .claimed
    epoch := old.epoch + 1
    attempts := old.attempts + 1
    owner := some owner
    leaseUntilMs := some leaseUntilMs }

/-- What the claim of an operation of this kind needs. Claim history itself forbids replay of a
launch, a brief or a routine, whatever anyone reports later. -/
def admitKind (op : Operation) (old : Delivery) (revision epoch : Nat) (now : Int) : Body Unit :=
  match op.kind with
  | .runtimeLaunch => do
    .require (old.attempts = 0 ∧ old.epoch = 0) .conflict
    consume env old.operation revision epoch now
  | .runtimeWorkerBrief => do
    .require (old.attempts = 0 ∧ old.epoch = 0) .conflict
    .outside (env.workerBrief old.operation)
  | .routineRun => do
    .require (old.attempts = 0) .conflict
    .outside (env.routines old.operation)
  | _ => pure ()

/-- `claim_with_creation`; `claim_operation` passes no creation. -/
def claimWithCreation (id : OperationId) (expected : Nat) (owner : String) (now leaseMs : Int)
    (creation : Option LaunchPreparation) : Body Claim := do
  text owner
  nowCheck now
  .require (1 ≤ leaseMs ∧ leaseMs ≤ 300000) (invalid "lease must be 1..300000 ms")
  let old ← readDelivery id
  .require (old.revision = expected ∧ old.state = .pending ∧ old.nextDueMs ≤ now ∧
    old.attempts < 32) .conflict
  let op ← readOperation id
  let current ← bindingCurrent id true
  .require (current = true) .conflict
  let revision ← increment old.revision
  let epoch ← increment old.epoch
  admitKind env op old revision epoch now
  updateDelivery (old.claim owner (now + leaseMs))
  logEvent id.val revision (.operationClaimed owner epoch (now + leaseMs))
  recordPreparation env op ⟨id, revision, owner, epoch, now + leaseMs⟩ now creation
  .outside env.fault
  pure ⟨id, revision, owner, epoch, now + leaseMs⟩

/-- `claim_operation`. -/
def claimOperation (id : OperationId) (expected : Nat) (owner : String) (now leaseMs : Int) :
    Body Claim :=
  claimWithCreation env id expected owner now leaseMs none

/-- What the holder of a claim of this kind must still satisfy. -/
def revalidateKind (op : Operation) (claim : Claim) (now : Int) : Body Unit :=
  match op.kind with
  | .runtimeLaunch => validateUse env claim now
  | .runtimeWorkerBrief => .outside (env.workerBrief claim.operation)
  | .routineRun => .outside (env.routines claim.operation)
  | _ => pure ()

/-- `validate_claim`: the last fence before the effect. -/
def validateClaim (claim : Claim) (now : Int) : Body Unit := do
  nowCheck now
  let old ← readDelivery claim.operation
  .require (old.heldBy claim now) .conflict
  let op ← readOperation claim.operation
  let current ← bindingCurrent claim.operation true
  .require (current = true) .conflict
  revalidateKind env op claim now
  .outside env.fault

/-- `finish_operation`. -/
def finishOperation (claim : Claim) (outcome : Outcome) (now : Int) : Body Delivery := do
  nowCheck now
  text outcome.evidence
  let old ← readDelivery claim.operation
  .require (old.heldBy claim now) .conflict
  let current ← bindingCurrent claim.operation false
  .require (current = true) .conflict
  let result ← updateOutcome env old outcome now claim.owner
  .outside env.fault
  pure result

/-- The claims that have run out, in the order of their identities. -/
def Store.expired (s : Store) (now : Int) : List OperationId :=
  ((s.deliveries.rows.filter fun d =>
      d.state = .claimed && (d.leaseUntilMs.any fun until_ => until_ ≤ now)).map
    (·.operation)).insertionSort fun a b => a.val ≤ b.val

/-- One turn of the loop of `expire_claims`: the epoch moves first, then the outcome. -/
def expireClaim (now : Int) (id : OperationId) : Body Unit := do
  let old ← readDelivery id
  let epoch ← increment old.epoch
  let old := { old with epoch := epoch }
  updateDelivery old
  let _ ← updateOutcome env old
    (.ambiguous
      "lease expired; external effect may have occurred; observe identity before retry")
    now "lease-expiry"

/-- `expire_claims`. -/
def expireClaims (now : Int) : Body Nat := do
  nowCheck now
  let ids ← .ask (·.expired now)
  Tx.forEach (expireClaim env now) ids
  .outside env.fault
  pure ids.length

/-- `observe_operation`: only explicit evidence releases ambiguity. -/
def observeOperation (id : OperationId) (expected : Nat) (actor : String) (outcome : Outcome)
    (now : Int) : Body Delivery := do
  nowCheck now
  text actor
  text outcome.evidence
  let old ← readDelivery id
  .require (old.state = .ambiguous ∧ old.revision = expected) .conflict
  let result ← updateOutcome env old outcome now actor
  .outside env.fault
  pure result

/-- `retire_operation`: drops an intent without claiming that its effect is absent. -/
def retireOperation (id : OperationId) (expectedRevision expectedHead : Nat) (reason : String)
    (now : Int) : Body Delivery := do
  nowCheck now
  text reason
  expectHead expectedHead
  let old ← readDelivery id
  .require (old.revision = expectedRevision ∧
    (old.state = .pending ∨ old.state = .ambiguous)) .conflict
  let result ← updateOutcome env old
    (.permanentFailure
      ("Operator retired intent; any prior effect remains possible. Reason: " ++ reason))
    now "operator-retirement"
  .outside env.fault
  pure result

end Herdr
