import Herdr.Domain.Contract
import Herdr.Lib.Run
import Herdr.Store.Delivery

/-!
# Automatic integration jobs

`src/store/integration_jobs.rs`, the integration lane of `src/store/verification_jobs.rs` and the
triggers of `migrations/0045_result_integration.sql`. A turn of the producer retires the pending
jobs whose task has moved and enqueues a job for each eligible submission whose target is free;
the owner may reset a job that failed for good. Deliveries of jobs move by the generic protocol of
`Store.Delivery`.
-/

namespace Herdr.Jobs

/-! ## Tables -/

structure Submission where
  submissionId : String
  projectStore : String
  taskId : TaskId
  contractRevision : Nat
  contractDigest : String
  attemptId : AttemptId
  repository : String
  createdUnixMs : Int
deriving DecidableEq, Repr

structure Contract where
  taskId : TaskId
  contractRevision : Nat
  rawDigest : String
  route : ContractRoute
deriving DecidableEq, Repr

def Contract.key (c : Contract) : TaskId × Nat := (c.taskId, c.contractRevision)

structure Target where
  repository : String
  refName : String
deriving DecidableEq, Repr

structure Policy where
  taskId : TaskId
  contractRevision : Nat
  policyId : String
deriving DecidableEq, Repr

structure VerificationRun where
  runId : String
  submissionId : String
  policyId : String
  accepted : Bool
deriving DecidableEq, Repr

structure VerifiedResult where
  resultId : String
  runId : String
  submissionId : String
deriving DecidableEq, Repr

structure ContractCheck where
  resultId : String
  version : Nat
deriving DecidableEq, Repr

inductive IntegrationState where
  | effectPending | candidatePrepared | validating | blocked | integrated
  | reconciliationRequired | discarded
deriving DecidableEq, Repr

structure Integration where
  operationId : OperationId
  repository : String
  refName : String
  verifiedResultId : String
  state : IntegrationState
deriving DecidableEq, Repr

/-- An arm of a candidate group and the attempt that ran it. -/
structure ArmAttempt where
  attemptId : AttemptId
  groupId : String
deriving DecidableEq, Repr

structure Selection where
  groupId : String
  submissionId : Option String
deriving DecidableEq, Repr

/-- The tables that the producer only reads. -/
structure Results where
  submissions : Table Submission Submission.submissionId
  contracts : Table Contract Contract.key
  pendingVerification : List String
  policies : List Policy
  runs : Table VerificationRun VerificationRun.runId
  results : Table VerifiedResult VerifiedResult.resultId
  checks : List ContractCheck
  integrations : Table Integration Integration.operationId
  /-- The submissions that `seeded_candidates` marks as seeded. -/
  seeded : List String
  arms : List ArmAttempt
  selections : List Selection
  /-- The tasks of `replay_candidates`. -/
  replays : List TaskId
deriving DecidableEq

/-- A row of `pending_integration_work`. -/
structure PendingWork where
  submissionId : String
  createdUnixMs : Int
deriving DecidableEq, Repr

/-- `ResultAutomationControl`. -/
structure Automation where
  revision : Nat
  verify : Bool
  integrate : Bool
deriving DecidableEq, Repr

/-- The project store together with its result automation. -/
structure JobStore extends Store where
  results : Results
  targets : Table Target Target.repository
  pending : Table PendingWork PendingWork.submissionId
  automation : Automation
deriving DecidableEq

abbrev JobTx (α : Type) := Tx JobStore StoreError α

/-- A body of the project store. -/
def inStore {α : Type} (body : Body α) : JobTx α :=
  .within JobStore.toStore (fun t s => { s with toStore := t }) body

/-! ## Jobs -/

/-- The job of an `integration.run` operation. -/
def job? (op : Operation) : Option IntegrationJob :=
  match op.kind, op.payload with
  | .integrationRun, .integration job => some job
  | _, _ => none

/-- Repository and ref. -/
def target? (op : Operation) : Option (String × String) :=
  (job? op).map fun job => (job.repository, job.ref)

/-- `d.state IN ('pending','claimed','ambiguous')`. -/
def unfinished : DeliveryState → Bool
  | .pending | .claimed | .ambiguous => true
  | .confirmed | .permanentFailure => false

/-- `UNFINISHED`. -/
def IntegrationState.unfinished : IntegrationState → Bool
  | .effectPending | .candidatePrepared | .validating | .reconciliationRequired => true
  | .blocked | .integrated | .discarded => false

/-- The kind of the operations of a lane, `{lane}.run`. -/
def runKind : ResultLane → OperationKind
  | .verification => .verificationRun
  | .integration => .integrationRun

namespace JobStore

variable (s : JobStore)

/-- The operation's delivery is pending, claimed or ambiguous. -/
def isUnfinished (id : OperationId) : Bool :=
  (s.deliveries.find id).any fun d => unfinished d.state

/-- The unfinished jobs of a target. -/
def unfinishedJobs (target : String × String) : List Operation :=
  s.operations.rows.filter fun op => target? op = some target && s.isUnfinished op.id

def isRetired (lane : ResultLane) (id : OperationId) : Bool :=
  s.hasEvent id.val [.jobRetired lane]

/-- A result with an accepted run and a contract check of version 2. -/
def acceptedResult (r : VerifiedResult) : Option VerificationRun :=
  if s.results.checks.any (fun k => k.resultId = r.resultId && k.version = 2) then
    (s.results.runs.find r.runId).filter (·.accepted)
  else none

/-- Every policy of the submission has an accepted run with a fresh check. -/
def everyPolicyAccepted (sub : Submission) : Bool :=
  let policies := s.results.policies.filter fun p =>
    p.taskId = sub.taskId && p.contractRevision = sub.contractRevision
  !policies.isEmpty && policies.all fun p => s.results.results.rows.any fun r =>
    (s.acceptedResult r).any fun v => v.submissionId = sub.submissionId && v.policyId = p.policyId

/-- `HELD_ARM`. -/
def heldArm (sub : Submission) : Bool :=
  s.results.arms.any fun b => b.attemptId = sub.attemptId &&
    !s.results.selections.any fun x =>
      x.groupId = b.groupId && x.submissionId = some sub.submissionId

/-- An integration job that no retirement replaced names the submission. -/
def hasJob (submission : String) : Bool :=
  s.operations.rows.any fun op =>
    (job? op).any (·.submissionId = submission) && !s.isRetired .integration op.id

/-- An integration of one of the submission's results was begun. -/
def hasIntegration (submission : String) : Bool :=
  s.results.results.rows.any fun r => r.submissionId = submission &&
    s.results.integrations.rows.any fun i => i.verifiedResultId = r.resultId

/-- By policy, then by identity. -/
def resultOrder (a b : String × String) : Prop := a.1 < b.1 ∨ (a.1 = b.1 ∧ a.2 ≤ b.2)

instance : DecidableRel resultOrder := fun _ _ => inferInstanceAs (Decidable (_ ∨ _))

/-- The result that the job names: the first accepted one. -/
def resultOf (submission : String) : Option String :=
  (((s.results.results.rows.filter fun r => r.submissionId = submission).filterMap fun r =>
    (s.acceptedResult r).map fun v => (v.policyId, r.resultId)).insertionSort
      resultOrder).head?.map (·.2)

end JobStore

structure Candidate where
  submission : Submission
  taskRevision : Nat
  reference : String
  resultId : Option String

/-- `ELIGIBLE`, with `NOT_SEEDED`, `HELD_ARM` and `NOT_REPLAY`. -/
def JobStore.eligible (s : JobStore) (id : String) : Option Candidate := do
  let sub ← s.results.submissions.find id
  let contract ← s.results.contracts.find (sub.taskId, sub.contractRevision)
  let target ← s.targets.find sub.repository
  let task ← s.tasks.find sub.taskId
  if contract.rawDigest = sub.contractDigest ∧ contract.route = .verifyThenIntegrate ∧
      id ∉ s.results.pendingVerification ∧ s.everyPolicyAccepted sub ∧ s.hasJob id = false ∧
      s.hasIntegration id = false ∧ id ∉ s.results.seeded ∧ s.heldArm sub = false ∧
      sub.taskId ∉ s.results.replays then
    some ⟨sub, task.revision, target.refName, s.resultOf id⟩
  else none

/-! ## The producer -/

/-- `TURN_LIMIT`. -/
def turnLimit : Nat := 8

/-- `SCAN_LIMIT`. -/
def scanLimit : Nat := 32

/-- SHA-256 over the JSON text of an array, as lowercase hexadecimal. -/
class JobDigests where
  /-- The identity of a job. -/
  parts : List String → String
  /-- The identity of a replacement, which also binds the task revision. -/
  bound : List String → Nat → String

structure Turn where
  pending : Bool
  enqueued : Nat
deriving DecidableEq, Repr

/-- `enabled`. -/
def JobStore.enabled (s : JobStore) : Bool := s.automation.integrate && s.control.state = .active

/-- The pending jobs whose task revision fence no longer holds. -/
def JobStore.stale (s : JobStore) (lane : ResultLane) : List (OperationId × Nat × Nat) :=
  ((s.operations.rows.filterMap fun op => do
    let d ← s.deliveries.find op.id
    let task ← op.task.bind s.tasks.find
    if d.state = .pending ∧ op.kind = runKind lane ∧ op.expectedRevision ≠ task.revision then
      some (op.id, op.expectedRevision, task.revision)
    else none).insertionSort fun a b => a.1.val ≤ b.1.val).take (turnLimit + 1)

/-- `INSERT OR IGNORE INTO pending_integration_work`. -/
def JobStore.requeue (s : JobStore) (submission : String) : JobStore :=
  match s.results.submissions.find submission with
  | some sub => { s with pending := (s.pending.insert? ⟨submission, sub.createdUnixMs⟩).getD s.pending }
  | none => s

variable [Digests] [JobDigests] (env : Outside)

/-- One turn of the loop of `retire_stale`. -/
def retireJob (lane : ResultLane) (now : Int) (stale : OperationId × Nat × Nat) : JobTx Unit := do
  let (id, bound, current) := stale
  let old ← inStore (readDelivery id)
  let retired ← inStore (updateOutcome env old (.permanentFailure
    ("task_revision_changed: bound to task revision " ++ toString bound ++ ", task is now at " ++
      toString current ++ "; a job for the current revision replaces it")) now "result-automation")
  inStore (logEvent id.val retired.revision (.jobRetired lane bound current))
  if lane = .integration then
    .write fun s => match (s.operations.find id).bind job? with
      | some job => s.requeue job.submissionId
      | none => s

/-- `retire_stale`: whether more stale jobs remain than one turn retires. -/
def retireStale (lane : ResultLane) (now : Int) : JobTx Bool := do
  let stale ← .ask (·.stale lane)
  .forEach (retireJob env lane now) (stale.take turnLimit)
  pure (turnLimit < stale.length)

/-- `fresh_id`. -/
def freshId (s : JobStore) (parts : List String) (taskRevision : Nat) : OperationId :=
  let base : OperationId := ⟨JobDigests.parts parts⟩
  if (s.operations.find base).isNone then base else ⟨JobDigests.bound parts taskRevision⟩

/-- The operation that a candidate's job is. -/
def Candidate.operation (c : Candidate) (s : JobStore) (result : String) (now : Int) : Operation :=
  let sub := c.submission
  let id := freshId s [sub.projectStore, result, sub.repository, c.reference] c.taskRevision
  { id := id
    task := some sub.taskId
    kind := .integrationRun
    target := "integration:" ++ sub.submissionId
    payloadVersion := 1
    payload := .integration
      ⟨sub.projectStore, sub.submissionId, sub.taskId, result, sub.repository, c.reference⟩
    expectedRevision := c.taskRevision
    dueUnixMs := now
    idempotencyKey := id.val }

/-- The conditions of the conditional insert. -/
def JobStore.free (s : JobStore) (c : Candidate) (op : Operation) : Bool :=
  (s.tasks.find c.submission.taskId).any (·.revision = c.taskRevision) &&
  (s.unfinishedJobs (c.submission.repository, c.reference)).isEmpty &&
  !(s.results.integrations.rows.any fun i => i.repository = c.submission.repository &&
    i.refName = c.reference && i.state.unfinished) &&
  (s.operations.find op.id).isNone

/-- The index `integration_jobs_by_submission`. -/
def JobStore.jobIndexFree (s : JobStore) (op : Operation) : Bool :=
  s.operations.rows.all fun o => !((job? o).map (·.submissionId) = (job? op).map (·.submissionId) &&
    (job? o).isSome && o.expectedRevision = op.expectedRevision)

/-- `INSERT INTO operations`, with the triggers that add the delivery row and drop the pending
work. -/
def JobStore.insertJob (s : JobStore) (op : Operation) : Option JobStore := do
  guard (s.jobIndexFree op)
  let operations ← s.operations.insert? op
  let deliveries ← s.deliveries.insert? (.enqueued op.id op.dueUnixMs)
  let rows := s.pending.rows.filter fun w => some w.submissionId ≠ (job? op).map (·.submissionId)
  some { s with
    operations := operations
    deliveries := deliveries
    pending := ⟨rows, s.pending.nodup.sublist (List.filter_sublist.map _)⟩ }

/-- `DELETE FROM pending_integration_work`. -/
def JobStore.dropPending (s : JobStore) (submission : String) : JobStore :=
  { s with pending :=
    ⟨s.pending.rows.filter fun w => w.submissionId ≠ submission,
      s.pending.nodup.sublist (List.filter_sublist.map _)⟩ }

/-- One turn of the enqueueing loop: how many jobs it added. -/
def enqueueOne (now : Int) (submission : String) : JobTx Nat := do
  let candidate ← .ask (·.eligible submission)
  match candidate with
  | none =>
    .write (·.dropPending submission)
    pure 0
  | some c =>
    let result ← .find (fun _ => c.resultId) (.io "Invalid column type Null at index: 6")
    let op ← .ask (c.operation · result now)
    let free ← .ask (·.free c op)
    if free then
      .insert (·.insertJob op) .conflict
      pure 1
    else pure 0

/-- The loop, which stops after `TURN_LIMIT` new jobs. -/
def enqueueAll (now : Int) (enqueued : Nat) : List String → JobTx Nat
  | [] => pure enqueued
  | submission :: rest =>
    if enqueued = turnLimit then pure enqueued
    else do
      let added ← enqueueOne now submission
      enqueueAll now (enqueued + added) rest

/-- Oldest first. -/
def workOrder (a b : PendingWork) : Prop :=
  a.createdUnixMs < b.createdUnixMs ∨
    (a.createdUnixMs = b.createdUnixMs ∧ a.submissionId ≤ b.submissionId)

instance : DecidableRel workOrder := fun _ _ => inferInstanceAs (Decidable (_ ∨ _))

/-- `service_integration_jobs`. -/
def serviceIntegrationJobs (now : Int) : JobTx Turn := do
  let enabled ← .ask JobStore.enabled
  if enabled then
    let stale ← retireStale env .integration now
    let ids ← .ask fun s =>
      ((s.pending.rows.insertionSort workOrder).map (·.submissionId)).take (scanLimit + 1)
    let enqueued ← enqueueAll now 0 (ids.take scanLimit)
    .outside env.fault
    pure ⟨stale || scanLimit < ids.length, enqueued⟩
  else pure ⟨false, 0⟩

/-! ## The owner's calls -/

/-- `reset_result_job`. -/
def resetResultJob (lane : ResultLane) (id : OperationId) (expectedRevision : Nat) (now : Int) :
    JobTx Delivery := do
  let op ← inStore (operationRow id)
  let old ← inStore (readDelivery id)
  .require (op.kind = runKind lane ∧ old.revision = expectedRevision ∧
    old.state = .permanentFailure) .conflict
  let retired ← .ask (·.isRetired lane id)
  .require (retired = false) (invalid
    ("this job was bound to an older task revision and has been replaced by a job for the " ++
      "current revision"))
  .require (old.attempts < 32) (invalid ("claim history is exhausted; " ++
    match lane with
    | .integration => "integrate this result manually with `result integrate`"
    | .verification => "verify this policy manually with `result verify`"))
  let revision ← inStore (next old.revision .conflict)
  inStore (updateDelivery { old with
    revision := revision
    state := .pending
    owner := none
    leaseUntilMs := none
    nextDueMs := now })
  inStore (logEvent id.val revision (.jobReset lane old.attempts old.lastOutcome))
  inStore (readDelivery id)

/-- `reset_integration_job`. -/
def resetIntegrationJob (id : OperationId) (expectedRevision : Nat) (now : Int) : JobTx Delivery :=
  resetResultJob .integration id expectedRevision now

/-- `reset_verification_job`. -/
def resetVerificationJob (id : OperationId) (expectedRevision : Nat) (now : Int) : JobTx Delivery :=
  resetResultJob .verification id expectedRevision now

/-- `set_result_automation`; `none` leaves a switch unchanged. -/
def setResultAutomation (expectedHead : Nat) (verify integrate : Option Bool) :
    JobTx Automation := do
  inStore (expectHead expectedHead)
  let old ← .ask (·.automation)
  let new : Automation :=
    ⟨old.revision, verify.getD old.verify, integrate.getD old.integrate⟩
  if (old.verify, old.integrate) = (new.verify, new.integrate) then pure old
  else do
    let revision ← inStore (next old.revision .conflict)
    inStore (integer revision)
    let new := { new with revision := revision }
    .write fun s => { s with automation := new }
    inStore (logEvent "project" new.revision (.resultAutomationChanged new.verify new.integrate))
    pure new

/-- `pending_integration_on_target`: the verified submissions of the repository that nothing
integrates yet. -/
def JobStore.targetWork (s : JobStore) (repository : String) : List String :=
  (s.results.submissions.rows.filter fun sub => sub.repository = repository &&
    (s.results.results.rows.any (·.submissionId = sub.submissionId)) &&
    !(s.operations.rows.any fun op => (job? op).any (·.submissionId = sub.submissionId)) &&
    !s.hasIntegration sub.submissionId).map (·.submissionId)

/-- A component of a ref name. -/
def validRefPart (part : List Char) : Bool :=
  !part.isEmpty && part ≠ ['.'] && part ≠ ['.', '.'] && !(".lock".toList.isSuffixOf part) &&
    part.all fun c => asciiAlphanumeric c || c = '-' || c = '_' || c = '.'

/-- `valid_ref_name`. Every component is nonempty, so the rest is, ends in no slash and has no two
slashes in a row. -/
def validRefName (name : String) : Bool :=
  "refs/heads/".toList.isPrefixOf name.toList &&
    ((name.toList.drop "refs/heads/".length).splitOn '/').all validRefPart

/-- `configure_integration_ref`. -/
def configureIntegrationRef (repository refName : String) : JobTx Unit := do
  .require (repository ≠ "" ∧ repository.utf8ByteSize ≤ 4096 ∧ hasControl repository = false ∧
    validRefName refName = true) (invalid "integration ref is invalid")
  let existing ← .ask (·.targets.find repository)
  match existing with
  | some t => .require (t.refName = refName) (invalid "integration ref cannot be retargeted")
  | none =>
    .insert (fun s => (s.targets.insert? ⟨repository, refName⟩).map
      fun targets => { s with targets := targets }) .conflict
    .write fun s => (s.targetWork repository).foldl JobStore.requeue s

/-! ## Calls -/

inductive JobMethod where
  | serviceIntegrationJobs (now : Int)
  | claimOperation (id : OperationId) (expected : Nat) (owner : String) (now leaseMs : Int)
  | finishOperation (claim : Claim) (outcome : Outcome) (now : Int)
  | expireClaims (now : Int)
  | observeOperation (id : OperationId) (expected : Nat) (actor : String) (outcome : Outcome)
      (now : Int)
  | retireOperation (id : OperationId) (expectedRevision expectedHead : Nat) (reason : String)
      (now : Int)
  | resetIntegrationJob (id : OperationId) (expectedRevision : Nat) (now : Int)
  | resetVerificationJob (id : OperationId) (expectedRevision : Nat) (now : Int)
  | setResultAutomation (expectedHead : Nat) (verify integrate : Option Bool)
  | configureIntegrationRef (repository refName : String)
deriving DecidableEq, Repr

structure JobCall where
  method : JobMethod
  outside : Outside

/-- The transaction body of a call; what it answers is not needed here. -/
def JobCall.body (c : JobCall) : JobTx Unit :=
  match c.method with
  | .serviceIntegrationJobs now => discard (Jobs.serviceIntegrationJobs c.outside now)
  | .claimOperation id expected owner now leaseMs =>
    discard (inStore (Herdr.claimOperation c.outside id expected owner now leaseMs))
  | .finishOperation claim outcome now =>
    discard (inStore (Herdr.finishOperation c.outside claim outcome now))
  | .expireClaims now => discard (inStore (Herdr.expireClaims c.outside now))
  | .observeOperation id expected actor outcome now =>
    discard (inStore (Herdr.observeOperation c.outside id expected actor outcome now))
  | .retireOperation id revision head reason now =>
    discard (inStore (Herdr.retireOperation c.outside id revision head reason now))
  | .resetIntegrationJob id revision now => discard (Jobs.resetIntegrationJob id revision now)
  | .resetVerificationJob id revision now => discard (Jobs.resetVerificationJob id revision now)
  | .setResultAutomation head verify integrate =>
    discard (Jobs.setResultAutomation head verify integrate)
  | .configureIntegrationRef repository refName =>
    Jobs.configureIntegrationRef repository refName

/-- Answer one call. -/
def JobCall.exec (c : JobCall) (s : JobStore) : Except StoreError Unit × JobStore :=
  Tx.commit c.body s

end Herdr.Jobs
