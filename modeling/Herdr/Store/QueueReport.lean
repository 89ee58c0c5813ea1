import Herdr.Store.Approvals
import Herdr.Store.Contracts
import Herdr.Store.Satisfaction
import Herdr.Store.Scheduler

/-!
# The views of the queue

`queue_report_on` and `queue_blockers` of `src/store/scheduler.rs` list the queued tasks with what
blocks them: the report asks for counts, for the existence of rows and for the first grant, the
other one goes through the complete inventories. `admission_retained_claims` and
`admission_claim_overlap` of `src/store/satisfaction.rs` read the claims of the retained attempts
once for all candidates.
-/

namespace Herdr.QueueViews

/-! ## Budgets and capabilities -/

inductive UnknownUsagePolicy where
  | refuse | allowIncomplete
deriving DecidableEq, Repr

structure BudgetLimits where
  /-- Lifetime count, including imported, cancelled and unterminated attempts. -/
  maxAttempts : Option Nat
  /-- Admission threshold only. -/
  maxProviderTokens : Option Nat
  unknownUsage : UnknownUsagePolicy
deriving DecidableEq, Repr

structure BudgetPolicy where
  version : Nat
  projectStore : String
  revision : Nat
  authority : VersionedReference
  limits : BudgetLimits
deriving DecidableEq, Repr

def BudgetPolicy.validate (p : BudgetPolicy) : Except String Unit :=
  refuse (p.version ≠ 1 ∨ p.revision = 0 ∨ i64Max < p.revision ∨ ¬isAbsolute p.projectStore ∨
    4096 < p.projectStore.utf8ByteSize ∨ hasControl p.projectStore ∨ p.authority.id.isEmpty ∨
    512 < p.authority.id.utf8ByteSize ∨ hasControl p.authority.id ∨ p.authority.revision = 0 ∨
    i64Max < p.authority.revision ∨ ¬digest64 p.authority.digest ∨
    (p.limits.maxAttempts.any fun v => i64Max < v) ∨
    (p.limits.maxProviderTokens.any fun v => i64Max < v)) "invalid budget policy"

inductive CapabilityLevel where
  | discovered | launchable | repositoryCapable | memoryProtocolCapable | workflowCertified
deriving DecidableEq, Repr

def CapabilityLevel.parse (value : String) : Option CapabilityLevel :=
  if value = "discovered" then some .discovered
  else if value = "launchable" then some .launchable
  else if value = "repository-capable" then some .repositoryCapable
  else if value = "memory-protocol-capable" then some .memoryProtocolCapable
  else if value = "workflow-certified" then some .workflowCertified
  else none

/-- The text of `task_state:{:?}`. -/
def stateName : TaskState → String
  | .draft => "Draft"
  | .queued => "Queued"
  | .ready => "Ready"
  | .running => "Running"
  | .awaitingReview => "AwaitingReview"
  | .blocked => "Blocked"
  | .succeeded => "Succeeded"
  | .failed => "Failed"
  | .cancelled => "Cancelled"

/-! ## Snapshots and reports -/

structure ApprovalRecord where
  grant : ApprovalGrant
  reference : VersionedReference
  revoked : Option ApprovalRevocation
  consumed : Option ApprovalUse
deriving DecidableEq, Repr

structure SchedulerSnapshot where
  policy : SchedulerPolicy
  queue : List QueueRecord
deriving DecidableEq, Repr

/-- The complete inventories of a state. -/
structure Snapshot where
  tasks : List Task
  attempts : List Attempt
  scheduler : SchedulerSnapshot
  control : ProjectControl
  approvals : List ApprovalRecord

structure QueueEntry where
  task : TaskId
  taskRevision : Nat
  effectivePriority : Int
  blockers : List String
deriving DecidableEq, Repr

structure CapabilityReport where
  preparedDispatch : Bool
  automaticAdmission : Bool
  dependencyProducers : Bool
  integration : String
  blockers : List String
deriving DecidableEq, Repr

structure QueueReport where
  head : Nat
  policy : SchedulerPolicy
  retainedAttempts : Nat
  availableSlots : Nat
  launchEnabled : Bool
  capability : CapabilityReport
  entries : List QueueEntry
deriving DecidableEq, Repr

variable [Documents]

structure AdmissionStore extends ContractStore where
  /-- `budget_policies` in the order of their revisions. -/
  budgets : List BudgetPolicy
  /-- `factory_admission`. -/
  factoryAdmission : Bool

/-- What both views ask of tables that are not modelled here. -/
structure Evidence where
  /-- `verified_counts` of a task and its predecessor. -/
  verifiedCounts : TaskId → TaskId → Except StoreError Bool
  /-- `integrated_counts`. -/
  integratedCounts : TaskId → TaskId → Except StoreError Bool
  /-- `selected_levels` of a profile kind at a time. -/
  selectedLevels : String → Int → Except StoreError (List CapabilityLevel)

namespace AdmissionStore

variable (s : AdmissionStore) (env : Evidence)

/-! ## What both views call -/

/-- `scheduler::read_policy`. -/
def policyRow : Except StoreError SchedulerPolicy := (readPolicy s.toStore).map Prod.fst

/-- `control::read`. -/
def controlRow : Except StoreError ProjectControl :=
  if s.control.configDigest.all hash then .ok s.control
  else .error (.corrupt "invalid control config fingerprint")

/-- `budget::current`. -/
def currentBudget : Except StoreError (Option BudgetPolicy) :=
  match s.budgets.getLast? with
  | none => .ok none
  | some policy => (policy.validate.mapError .corrupt).map fun _ => some policy

/-- The stored edges of a task, by predecessor. -/
def edges (task : TaskId) : List Dependency :=
  (((s.queue.find task).map (·.dependencies)).getD []).insertionSort
    fun a b => a.predecessor.val ≤ b.predecessor.val

/-- `ORDER BY enqueue_sequence,task_id`. -/
def queueLe (a b : QueueRecord) : Prop :=
  a.enqueueSequence < b.enqueueSequence ∨
    a.enqueueSequence = b.enqueueSequence ∧ a.task.val ≤ b.task.val

instance : DecidableRel queueLe := fun _ _ => inferInstanceAs (Decidable (_ ∨ _))

/-- `task_queue` with the edges of each task. -/
def queueRows : List QueueRecord :=
  (s.queue.rows.map fun record => { record with dependencies := s.edges record.task }).insertionSort
    queueLe

/-- `contract_binding::queue_matches`. -/
def queueMatches (task : TaskId) : Except StoreError Bool :=
  match s.latestContract task with
  | none => .ok true
  | some contract =>
    if 256 < (s.edges task).length then .error (.limit "task dependency limit exceeded")
    else .ok ((s.edges task).map (fun d => (d.predecessor.val, d.requirement.text)) =
      (contract.dependencies.map fun d => (d.predecessor.val, d.edge)).insertionSort
        fun a b => a.1 < b.1 ∨ a.1 = b.1 ∧ a.2 ≤ b.2)

/-- The receipt that an edge asks for counts. -/
def receiptCounts (task predecessor : TaskId) : DependencyRequirement → Except StoreError Bool
  | .verifiedResult => env.verifiedCounts task predecessor
  | .integratedCommit => env.integratedCounts task predecessor
  | .integrationCandidate | .landedCommit => .ok false

/-- `dependency_blocker`. -/
def dependencyBlocker (task : TaskId) (predecessor : Task) (requirement : DependencyRequirement)
    (admissionOn : Bool) : Except StoreError (Option String) :=
  if predecessor.state = .failed ∨ predecessor.state = .cancelled then
    .ok (some ("predecessor_failed:" ++ predecessor.id.val ++ ":" ++ requirement.text))
  else do
    let valid ← receiptCounts env task predecessor.id requirement
    if valid = false then
      .ok (some ("verified_dependency_evidence_unavailable:" ++ predecessor.id.val ++ ":" ++
        requirement.text))
    else if admissionOn = false then .ok (some ("admission_disabled:" ++ requirement.text))
    else .ok none

/-- `queue_capability_blocker`. -/
def queueCapabilityBlocker (task : TaskId) (now : Int) : Except StoreError (Option String) :=
  match s.latestContract task with
  | none => .ok none
  | some contract =>
    if contract.capabilityFlags = [] then .ok none
    else do
      let shown ← env.selectedLevels contract.profileKind now
      let lacks := contract.capabilityFlags.any fun flag =>
        (CapabilityLevel.parse flag).all fun level => !shown.contains level
      .ok (if lacks then some "capability_unsupported" else none)

/-- The blockers of the edges of one task, in their order; `predecessor` reads a task. -/
def edgeBlockers (task : TaskId) (predecessor : TaskId → Except StoreError Task) :
    List Dependency → Except StoreError (List String)
  | [] => .ok []
  | edge :: rest => do
    let before ← predecessor edge.predecessor
    let blocker ← dependencyBlocker env task before edge.requirement s.factoryAdmission
    let more ← edgeBlockers task predecessor rest
    .ok (blocker.toList ++ more)

/-- A blocker that is there or not. -/
def blocked (here : Prop) [Decidable here] (text : String) : List String :=
  if here then [text] else []

/-- `now.saturating_sub(enqueued).max(0)/60_000+priority`. -/
def effectivePriority (now : Int) (record : QueueRecord) : Int :=
  max 0 (max (-(2 ^ 63)) (min (2 ^ 63 - 1) (now - record.enqueuedUnixMs))) / 60000 +
    record.priority

/-- The order of the entries, with their enqueue sequences. -/
def entryLe (a b : Nat × QueueEntry) : Prop :=
  b.2.effectivePriority < a.2.effectivePriority ∨
    b.2.effectivePriority = a.2.effectivePriority ∧
      (a.1 < b.1 ∨ a.1 = b.1 ∧ a.2.task.val ≤ b.2.task.val)

instance : DecidableRel entryLe := fun _ _ => inferInstanceAs (Decidable (_ ∨ _))

/-- `approvals::grant`. -/
def grantRow [Digests] (id : String) : Except StoreError ApprovalGrant :=
  (readGrant id s.toStore).map Prod.fst

/-! ## The indexed view -/

/-- `admission_read::attempt_count`: no more rows are counted than the cap. -/
def attemptCount (task : TaskId) (cap : Nat) : Nat :=
  ((s.attempts.rows.filter fun a => a.task = task).take cap).length

/-- `blockers_for_policy`. -/
def blockersForPolicy (policy : Option BudgetPolicy) (reserved : Bool) : List String :=
  match policy with
  | none => []
  | some policy =>
    (match policy.limits.maxAttempts with
      | none => []
      | some cap =>
        let threshold := cap + reserved.toNat
        blocked (threshold ≤ i64Max ∧ threshold ≤ (s.attempts.rows.take threshold).length)
          "attempt_budget_exhausted") ++
    if policy.limits.maxProviderTokens = some 0 then ["provider_token_budget_exhausted"]
    else blocked (policy.limits.maxProviderTokens.isSome ∧ policy.limits.unknownUsage = .refuse)
      "provider_usage_unavailable"

/-- `budget::admission_blockers`. -/
def admissionBlockers : Except StoreError (List String) :=
  (s.currentBudget).map fun policy => s.blockersForPolicy policy false

/-- `queue_graph`. -/
def queueGraph : Except StoreError (List TaskId × List QueueRecord) := do
  let queue := s.queueRows
  if 10000 < queue.length then throw (invalid "queued task inventory exceeds 10000")
  if queue.any fun q => (s.tasks.find q.task).isNone then throw (invalid "queued task is missing")
  if 100000 < (queue.map (·.dependencies.length)).sum then
    throw (invalid "dependency inventory exceeds bounds")
  if queue.any fun q => q.dependencies.any fun d => (s.tasks.find d.predecessor).isNone then
    throw (invalid "missing, duplicate or self dependency")
  let identities := queue.map (·.task) ++ queue.flatMap fun q => q.dependencies.map (·.predecessor)
  graphIds identities queue
  return (identities, queue)

/-- Read every task that the queue names, once. -/
def loadTasks : Table Task Task.id → List TaskId → Except StoreError (Table Task Task.id)
  | tasks, [] => .ok tasks
  | tasks, id :: rest =>
    if (tasks.find id).isSome then loadTasks tasks rest
    else match s.tasks.find id with
      | none => .error .conflict
      | some task => loadTasks (tasks.upsert task) rest

/-- `tasks[&id]`. That the loop above has read the task is proved. -/
def loaded (tasks : Table Task Task.id) (id : TaskId) : Except StoreError Task :=
  match tasks.find id with
  | some task => .ok task
  | none => .error .cancelled

/-- The loop of `unused_launch_grant` over the grants that were selected. -/
def firstGrant [Digests] (task : TaskId) : Nat → List GrantRow → Except StoreError Bool
  | _, [] => .ok false
  | count, row :: rest =>
    if 128 < count + 1 then .error (.limit "queue approval candidates exceed 128")
    else do
      let grant ← s.grantRow row.id
      if grant.scope.task = task then .ok true else firstGrant task (count + 1) rest

/-- `unused_launch_grant`. There is one class of approval. -/
def unusedLaunchGrant [Digests] (task : TaskId) : Except StoreError Bool :=
  s.firstGrant task 0 (((s.grants.rows.filter fun g =>
    g.grant.scope.task = task && (s.uses.find g.id).isNone).insertionSort
      fun a b => a.id ≤ b.id).take 129)

/-- One turn of the loop of `queue_report_on`. -/
def reportEntry [Digests] (now : Int) (policy : SchedulerPolicy) (control : ProjectControl)
    (slots : Nat) (budgetBlockers : List String) (tasks : Table Task Task.id)
    (record : QueueRecord) : Except StoreError (Nat × QueueEntry) := do
  let task ← loaded tasks record.task
  let bound ← s.queueMatches task.id
  let held := s.attempts.rows.any fun a => a.task = task.id && !a.terminationObserved
  let edgeBlockers ← s.edgeBlockers env task.id (loaded tasks) record.dependencies
  let capability ← s.queueCapabilityBlocker env task.id now
  let signed ← s.unusedLaunchGrant task.id
  let retainedLaunch := s.attempts.rows.any fun a => a.task = task.id && !a.terminationObserved &&
    [AttemptState.reserved, .launching, .running, .awaitingInput].contains a.state
  let blockers :=
    blocked (bound = false) "contract_dependency_mismatch" ++
    blocked (task.state ≠ .queued) ("task_state:" ++ stateName task.state) ++
    blocked (control.state ≠ .active ∨ control.reconciliationRequired) "project_not_admitted" ++
    blocked (slots = 0) "capacity_full" ++
    blocked held "task_capacity_retained" ++
    blocked (policy.maxAttemptsPerTask ≤ s.attemptCount task.id policy.maxAttemptsPerTask)
      "attempt_limit" ++
    edgeBlockers ++ capability.toList ++ budgetBlockers ++
    blocked (signed = false) "owner_signature_not_scheduled" ++
    if retainedLaunch then []
    else ["launch_reserve_not_scheduled", "controller_requires_reserved_attempt"]
  return (record.enqueueSequence,
    ⟨task.id, task.revision, effectivePriority now record, blockers⟩)

/-- `automatic_launch_enabled`. -/
def automaticLaunchEnabled (admissionOn : Bool) (entries : List QueueEntry) : Bool :=
  admissionOn && entries.any fun entry => entry.blockers.isEmpty

/-- `queue_report_on`. -/
def queueReportOn [Digests] (now : Int) : Except StoreError QueueReport := do
  let _ ← (nowCheck now s.toStore).map Prod.fst
  let policy ← s.policyRow
  let (_, queue) ← s.queueGraph
  let control ← s.controlRow
  let retainedAttempts := (s.attempts.rows.filter fun a => !a.terminationObserved).length
  let availableSlots := policy.maxActiveWorkers - retainedAttempts
  let budgetBlockers ← s.admissionBlockers
  let tasks ← s.loadTasks .empty
    (queue.flatMap fun q => q.task :: q.dependencies.map (·.predecessor))
  let entries ← queue.mapM
    (s.reportEntry env now policy control availableSlots budgetBlockers tasks)
  let entries := (entries.insertionSort entryLe).map Prod.snd
  return {
    head := s.head
    policy := policy
    retainedAttempts := retainedAttempts
    availableSlots := availableSlots
    launchEnabled := automaticLaunchEnabled s.factoryAdmission entries
    capability := ⟨true, s.factoryAdmission, false, "operator_local",
      ["automatic_admission_does_not_draft_sign_or_reserve"]⟩
    entries := entries }

/-! ## The complete view -/

/-- The blockers of `budget::report`. -/
def reportedBlockers (reserved : Bool) : Except StoreError (List String) := do
  let policy ← s.currentBudget
  let count := s.attempts.rows.length
  match policy with
  | none => .ok []
  | some policy =>
    .ok (blocked (policy.limits.maxAttempts.any fun cap =>
        if reserved then cap < count else cap ≤ count) "attempt_budget_exhausted" ++
      if policy.limits.maxProviderTokens = some 0 then ["provider_token_budget_exhausted"]
      else if policy.limits.maxProviderTokens.isSome then
        match policy.limits.unknownUsage with
        | .refuse => ["provider_usage_unavailable"]
        | .allowIncomplete => []
      else [])

/-- `find(..).ok_or(Conflict)`. -/
def found (tasks : List Task) (id : TaskId) : Except StoreError Task :=
  match tasks.find? (·.id = id) with
  | some task => .ok task
  | none => .error .conflict

/-- One turn of the loop of `queue_blockers`. -/
def blockersEntry (now : Int) (snapshot : Snapshot) (slots : Nat) (budgetBlockers : List String)
    (record : QueueRecord) : Except StoreError (Nat × QueueEntry) := do
  let task ← found snapshot.tasks record.task
  let bound ← s.queueMatches task.id
  let edgeBlockers ← s.edgeBlockers env task.id (found snapshot.tasks) record.dependencies
  let capability ← s.queueCapabilityBlocker env task.id now
  let signed := snapshot.approvals.any fun record =>
    record.consumed.isNone && record.grant.scope.task = task.id
  let retainedLaunch := snapshot.attempts.any fun a => a.task = task.id && a.retainsCapacity &&
    (a.state = .reserved || a.state = .launching || a.state = .running ||
      a.state = .awaitingInput)
  let policy := snapshot.scheduler.policy
  let blockers :=
    blocked (bound = false) "contract_dependency_mismatch" ++
    blocked (task.state ≠ .queued) ("task_state:" ++ stateName task.state) ++
    blocked (snapshot.control.state ≠ .active ∨ snapshot.control.reconciliationRequired)
      "project_not_admitted" ++
    blocked (slots = 0) "capacity_full" ++
    blocked (snapshot.attempts.any fun a => a.task = task.id && a.retainsCapacity)
      "task_capacity_retained" ++
    blocked (policy.maxAttemptsPerTask ≤ (snapshot.attempts.filter (·.task = task.id)).length)
      "attempt_limit" ++
    edgeBlockers ++ capability.toList ++ budgetBlockers ++
    blocked (signed = false) "owner_signature_not_scheduled" ++
    if retainedLaunch then []
    else ["launch_reserve_not_scheduled", "controller_requires_reserved_attempt"]
  return (record.enqueueSequence,
    ⟨task.id, task.revision, effectivePriority now record, blockers⟩)

/-- `queue_blockers`. -/
def queueBlockers (now : Int) (snapshot : Snapshot) : Except StoreError (List QueueEntry) := do
  let retainedAttempts := (snapshot.attempts.filter Attempt.retainsCapacity).length
  let availableSlots := snapshot.scheduler.policy.maxActiveWorkers - retainedAttempts
  let budgetBlockers ← s.reportedBlockers false
  let entries ← snapshot.scheduler.queue.mapM
    (s.blockersEntry env now snapshot availableSlots budgetBlockers)
  return (entries.insertionSort entryLe).map Prod.snd

/-! ### The inventories -/

/-- `scheduler::read_with_tasks`. -/
def readScheduler (tasks : List Task) : Except StoreError SchedulerSnapshot := do
  let policy ← s.policyRow
  graphIds (tasks.map (·.id)) s.queueRows
  return ⟨policy, s.queueRows⟩

/-- The use of an approval belongs to a launch that it approves, and to a claim of its delivery. -/
def checkUse [Digests] (grant : ApprovalGrant) : Option ApprovalUse → Except StoreError Unit
  | none => .ok ()
  | some used =>
    match s.inputs.rows.find? (·.operation = used.operation) with
    | none => .error (.corrupt "approval use lacks launch inputs")
    | some input => do
      (grant.matchesLaunch input.inputs grant.scope.projectStore used.consumedUnixMs).mapError
        fun _ => .corrupt "approval use action mismatch"
      match s.deliveries.find used.operation with
      | none => .error .noRows
      | some delivery =>
        if delivery.epoch < used.claimEpoch ∨ delivery.revision < used.claimRevision ∨
            delivery.attempts = 0 then
          .error (.corrupt "approval use claim history mismatch")
        else .ok ()

/-- One record of `approvals::read_all`. -/
def approvalRecord [Digests] (row : GrantRow) : Except StoreError ApprovalRecord := do
  let grant ← s.grantRow row.id
  let consumed := s.uses.find row.id
  s.checkUse grant consumed
  let reference ← grant.reference.mapError .invalid
  return ⟨grant, reference, s.revocations.find row.id, consumed⟩

/-- `approvals::read_all`. -/
def readApprovals [Digests] : Except StoreError (List ApprovalRecord) := do
  if (s.uses.rows.any fun u =>
        (s.grants.find u.approval).isNone || (s.operations.find u.operation).isNone) ||
      s.revocations.rows.any fun r => (s.grants.find r.approval).isNone then
    throw (.corrupt "orphan approval record")
  (s.grants.rows.insertionSort fun a b => a.id ≤ b.id).mapM s.approvalRecord

/-- The inventories that `queue_blockers` is given. -/
def readSnapshot [Digests] : Except StoreError Snapshot := do
  let scheduler ← s.readScheduler s.tasks.rows
  let control ← s.controlRow
  let approvals ← s.readApprovals
  return ⟨s.tasks.rows, s.attempts.rows, scheduler, control, approvals⟩

end AdmissionStore

/-! ## The claims of the retained attempts -/

/-- `RetainedClaimSet`. -/
structure RetainedClaimSet where
  holders : List (TaskId × List ResourceClaim)

end Herdr.QueueViews

namespace Herdr.ContractStore

open QueueViews

variable [Documents] (s : ContractStore)

/-- `read_retained_attempts`. -/
def readRetained : Except StoreError (List Attempt) :=
  let attempts := (s.retained.insertionSort fun a b => a.id.val ≤ b.id.val).take 1025
  if 1024 < attempts.length then
    .error (.limit "retained admission attempt limit exceeded")
  else .ok attempts

/-- The loop over the retained attempts; `seen` are the contracts whose claims were read. -/
def claimHolders (seen : List (TaskId × Nat)) :
    List Attempt → Except StoreError (List (TaskId × List ResourceClaim))
  | [] => .ok []
  | attempt :: rest =>
    match s.revisionAtReservation attempt.id attempt.task with
    | none => claimHolders seen rest
    | some revision =>
      if (attempt.task, revision) ∈ seen then claimHolders seen rest
      else do
        let claims ← s.claimRows attempt.task revision
        let more ← claimHolders ((attempt.task, revision) :: seen) rest
        .ok (if claims = [] then more else (attempt.task, claims) :: more)

/-- `admission_retained_claims`. -/
def admissionRetainedClaims : Except StoreError RetainedClaimSet := do
  let attempts ← s.readRetained
  let holders ← s.claimHolders [] attempts
  return ⟨holders⟩

/-- `admission_claim_overlap`. -/
def admissionClaimOverlap (task : TaskId) (held : RetainedClaimSet) : Except StoreError Bool :=
  match s.latestContractRevision task with
  | none => .ok false
  | some revision => do
    let candidate ← s.claimRows task revision
    .ok (held.holders.any fun holder => holder.1 ≠ task &&
      candidate.any fun claim => holder.2.any fun other => claimsConflict claim other)

end Herdr.ContractStore
