import Herdr.Store.Basic

/-!
# Launch inputs and approval use

`read_input` and `validate_inputs` of `src/store/reservations.rs`, the approval predicates of
`src/domain/approval.rs` and the approval checks of `src/store/approvals.rs`. An approval is
checked at admission and again at the claim; only `consume` records its use.
-/

namespace Herdr

variable [Digests] (env : Outside)

/-! ## Sealed inputs -/

/-- `reservations::hash`. -/
def hash (s : String) : Bool := s.utf8ByteSize = 64 && s.toList.all asciiHex

/-- `reservations::reference`. -/
def reference (r : VersionedReference) : Bool :=
  !r.id.isEmpty && r.id.utf8ByteSize ≤ 512 && !hasControl r.id && 0 < r.revision && hash r.digest

/-- A Git object name. -/
def objectName (s : String) : Bool :=
  (s.utf8ByteSize = 40 || s.utf8ByteSize = 64) && s.toList.all asciiHex

/-- `validate_inputs`. -/
def validateInputs (i : LaunchInputs) : Body Unit := do
  .require ((i.version = 1 ∨ i.version = 2) ∧ isAbsolute i.projectStore ∧ i.taskRevision ≠ 0 ∧
      i.schedulerRevision ≠ 0 ∧ i.controlEpoch ≠ 0 ∧ ¬i.binding.isEmpty ∧
      i.binding.utf8ByteSize ≤ 512 ∧ i.bindingRevision ≠ 0 ∧ hash i.bindingDigest ∧
      reference i.profile ∧ reference i.approval ∧ isAbsolute i.config.path ∧
      i.config.digest.all hash) (invalid "invalid sealed launch inputs")
  .require ((i.version = 1 ∧ i.effectiveProfile = none) ∨
      (i.version = 2 ∧ i.effectiveProfile.isSome)) (invalid "launch input version/profile mismatch")
  .outside (if i.version = 2 then env.profile i else none)
  .require (i.taskContract.all reference) (invalid "invalid task contract reference")
  .require (i.dependencies.length ≤ 256 ∧ i.repositories.length ≤ 64 ∧ i.memory.all reference ∧
      i.budget.all reference) (invalid "invalid input references")
  .require ((i.repositories.all fun r => isAbsolute r.repository && objectName r.commit &&
        objectName r.tree) ∧ (i.repositories.map (·.repository)).Nodup)
    (invalid "invalid repository input vector")
  .require ((i.dependencies.all fun d => d.task ≠ i.task && d.taskRevision ≠ 0 &&
        reference d.evidence) ∧ (i.dependencies.map (·.task)).Nodup)
    (invalid "invalid dependency input vector")

/-- `record_ids`: both identities are the digest of the sealed inputs. -/
def recordIds (i : LaunchInputs) : AttemptId × OperationId :=
  (⟨"attempt-" ++ Digests.inputs i⟩, ⟨"launch-" ++ Digests.inputs i⟩)

/-- `read_input`: the sealed inputs of a launch operation, checked against its operation and its
attempt. -/
def readInput (operation : OperationId) : Body AttemptInputRecord := do
  let missing := StoreError.corrupt "selected launch input missing or orphaned"
  let record ← .find (·.inputs.find operation) missing
  let attempt ← .find (·.attempts.find record.attempt) missing
  let op ← .find (·.operations.find operation) missing
  validateInputs env record.inputs
  .require (op.payloadVersion = 1 ∧ op.idempotencyKey = operation.val)
    (.corrupt "launch operation identity mismatch")
  .require ((record.attempt, record.operation) = recordIds record.inputs ∧
      record.inputs.task = attempt.task ∧ op.task = some attempt.task ∧
      op.kind = .runtimeLaunch ∧ op.target = record.inputs.binding ∧
      op.expectedRevision = record.inputs.taskRevision + 1 ∧ op.payload = .launch record)
    (.corrupt "attempt/launch input binding mismatch")
  pure record

/-! ## Approval predicates -/

/-- `approval::text`. -/
def boundedText (value : String) (max : Nat) : Bool :=
  !value.isEmpty && value.utf8ByteSize ≤ max && !hasControl value

def ApprovalScope.validate (scope : ApprovalScope) : Except String Unit :=
  if scope.version = 1 ∧ boundedText scope.projectStore 4096 ∧ isAbsolute scope.projectStore ∧
      scope.taskRevision ≠ 0 ∧ scope.taskRevision ≤ i64Max ∧ boundedText scope.target 512 ∧
      digest64 scope.actionDigest then .ok ()
  else .error "invalid approval scope"

/-- `ApprovalScope::for_launch`: the action that the inputs describe. The one-MiB bound on the
encoded action is part of the profile verdict. -/
def ApprovalScope.forLaunch (i : LaunchInputs) : Except String ApprovalScope := do
  if i.version ≠ 2 ∨ i.effectiveProfile = none ∨ ¬isAbsolute i.projectStore ∨
      ¬boundedText i.projectStore 4096 ∨ ¬boundedText i.binding 512 ∨ i.taskRevision = 0 then
    throw "approval scope requires version-2 launch inputs"
  if i64Max < i.taskRevision + 1 then throw "approval task revision exhausted"
  let scope := ⟨1, i.projectStore, i.task, i.taskRevision + 1, i.binding, Digests.action i⟩
  scope.validate
  pure scope

def ApprovalGrant.validate (grant : ApprovalGrant) : Except String Unit := do
  grant.scope.validate
  if grant.version ≠ 1 ∨ ¬boundedText grant.policy.id 512 ∨ grant.policy.revision = 0 ∨
      i64Max < grant.policy.revision ∨ ¬digest64 grant.policy.digest ∨ grant.issuedUnixMs < 0 ∨
      grant.expiresUnixMs ≤ grant.issuedUnixMs then
    throw "invalid approval grant"

def ApprovalGrant.reference (grant : ApprovalGrant) : Except String VersionedReference := do
  grant.validate
  pure ⟨"approval-" ++ Digests.grant grant, 1, Digests.grant grant⟩

/-- `matches_launch`: necessary but not sufficient for authorization. -/
def ApprovalGrant.matchesLaunch (grant : ApprovalGrant) (i : LaunchInputs) (projectStore : String)
    (now : Int) : Except String Unit := do
  grant.validate
  let scope ← ApprovalScope.forLaunch i
  let own ← grant.reference
  if now < grant.issuedUnixMs ∨ grant.expiresUnixMs ≤ now ∨
      projectStore ≠ grant.scope.projectStore ∨ grant.scope ≠ scope ∨ own ≠ i.approval then
    throw "approval is stale or bound to a different action"

/-- `approvals::grant`. -/
def readGrant (id : String) : Body ApprovalGrant := do
  let row ← .find (·.grants.find id) .noRows
  let own ← .check (row.grant.reference.mapError fun _ => .corrupt "invalid approval record")
  .require (own.id = id) (.corrupt "approval reference mismatch")
  pure row.grant

/-! ## Checks of the store -/

/-- `check_inputs`: shared by admission and claim. -/
def checkInputs (i : LaunchInputs) (now : Int) : Body Unit := do
  .outside (env.contractBinding i)
  let current ← .find (fun _ => env.configReference i.config.path)
    (invalid "launch configuration is unreadable")
  .require (current = i.config) (invalid "launch configuration changed since approval")
  let profile ← .find (fun _ => i.effectiveProfile)
    (invalid "historical launch lacks current approval evidence")
  let approval ← readGrant i.approval.id
  let path ← .ask Store.path
  .check ((approval.matchesLaunch i path now).mapError fun _ =>
    invalid "launch approval is stale or mismatched")
  .require (approval.policy = profile.permissionPolicy)
    (invalid "approval policy differs from effective profile")
  let revoked ← .ask fun s => (s.revocations.find i.approval.id).isSome
  .require (revoked = false) (invalid "launch approval is revoked")
  .outside (env.derived i)

/-- `validate_preparation`. -/
def validatePreparation (i : LaunchInputs) (now : Int) : Body Unit := do
  checkInputs env i now
  let consumed ← .ask fun s => (s.uses.find i.approval.id).isSome
  .require (consumed = false) (invalid "launch approval has already been consumed")

/-- `check_launch`: the launch still owns a retained reservation whose inputs, approval, control
and binding are what was approved. Returns the approval's identity. -/
def checkLaunch (operation : OperationId) (now : Int) : Body String := do
  let record ← readInput env operation
  let i := record.inputs
  .outside (env.workerKnowledge i)
  .outside (env.budget i.budget true)
  let attempt ← readAttempt record.attempt
  let task ← readTask i.task
  .require (attempt.task = task.id ∧ attempt.revision = 1 ∧ attempt.state = .reserved ∧
      attempt.retainsCapacity ∧ attempt.reservation = "worker:" ++ attempt.id.val ∧
      task.state = .running ∧ task.activeAttempt = some attempt.id ∧
      task.revision = i.taskRevision + 1)
    (invalid "launch no longer owns an eligible retained reservation")
  .require (attempt.snapshot = i.memory.map (·.id))
    (invalid "attempt snapshot differs from approved launch knowledge")
  checkInputs env i now
  let control ← .ask Store.control
  let scheduler ← readPolicy
  .require (control.state = .active ∧ control.reconciliationRequired = false ∧
      control.epoch = i.controlEpoch ∧ control.configDigest = i.config.digest ∧
      scheduler.revision = i.schedulerRevision)
    (invalid "launch control or policy changed since approval")
  let binding ← readBinding i.binding
  .require (binding.revision = i.bindingRevision) .conflict
  .require (Digests.identity binding.identity = i.bindingDigest) .conflict
  let owned ← .ask (·.ownership.find binding.id)
  .require (owned.all fun o => o.attempt.isNone && o.session.isNone && o.agent.isNone)
    (invalid "launch binding already has worker ownership")
  pure i.approval.id

/-- `consume`: the use is one row, and both its approval and its operation are unique. -/
def consume (operation : OperationId) (revision epoch : Nat) (now : Int) : Body Unit := do
  let approval ← checkLaunch env operation now
  integer revision
  integer epoch
  .insert (fun s =>
    if s.uses.rows.any (·.operation = operation) then none
    else (s.uses.insert? ⟨approval, operation, revision, epoch, now⟩).map
      fun uses => { s with uses := uses }) .conflict
  logEvent approval 1 (.approvalConsumed operation revision epoch now)

/-- `validate_use`: the launch check, and the use that this very claim recorded. -/
def validateUse (claim : Claim) (now : Int) : Body Unit := do
  let approval ← checkLaunch env claim.operation now
  let used ← .ask (·.uses.find approval)
  .require (used.any fun u => u.operation = claim.operation && u.claimRevision = claim.revision &&
      u.claimEpoch = claim.epoch) (invalid "launch claim has no matching approval consumption")

/-- `validate_historical_consumption`: the use of the original claim, without renewed authority. -/
def validateHistoricalConsumption (input : AttemptInputRecord) : Body Unit := do
  let approval ← readGrant input.inputs.approval.id
  let use ← .find (·.uses.find input.inputs.approval.id)
    (invalid "worker brief lacks consumed launch approval")
  .require (use.operation = input.operation)
    (invalid "worker brief lacks active consumed launch approval")
  .check ((approval.matchesLaunch input.inputs input.inputs.projectStore
    use.consumedUnixMs).mapError fun _ => .corrupt "approval use action mismatch")
  let delivery ← readDelivery use.operation
  .require (use.claimEpoch ≤ delivery.epoch ∧ use.claimRevision ≤ delivery.revision ∧
      delivery.attempts ≠ 0) (.corrupt "approval use claim history mismatch")

end Herdr
