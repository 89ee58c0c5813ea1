import Herdr.Store.Satisfaction
import Herdr.Store.Scheduler
import Herdr.Store.Waits

/-!
# The release of dependents

The tables that decide whether a task's dependencies are satisfied, the readers of
`src/store/satisfaction.rs`, `src/store/contract_binding.rs` and `src/store/candidate_groups.rs` over
them, and the writers that may complete an edge: `queue_task`, the installation of a contract, the
acceptance of a verification, the confirmation of an integration and the selection of a candidate.
They are the world that the waits of `Store.Waits` read; every writer appends its events to the log
of the waits.
-/

namespace Herdr.Releases

open Waits (Seen Subject WaitStore WaitTrigger WaitTx World)

/-! ## Tables -/

/-- A dependency of a signed contract. -/
structure ContractEdge where
  predecessor : TaskId
  edge : DependencyRequirement
  policyId : String
  /-- `policy_digest`, or the digest of the text of the policy. -/
  policyDigest : String
deriving DecidableEq, Repr

/-- A row of `task_contracts`, as it parses. -/
structure SignedContract where
  taskId : TaskId
  contractRevision : Nat
  dependencies : List ContractEdge
  requiresBarrier : Bool
  requiresOutputs : Bool
deriving DecidableEq, Repr

def SignedContract.key (c : SignedContract) : TaskId × Nat := (c.taskId, c.contractRevision)

/-- A row of `result_submissions`. -/
structure Submission where
  submissionId : String
  taskId : TaskId
  contractRevision : Nat
  attemptId : AttemptId
deriving DecidableEq, Repr

/-- The policy columns of `verification_runs`. -/
structure RunPolicy where
  runId : String
  policyId : String
  policyDigest : String
deriving DecidableEq, Repr

/-- A row of `candidate_arm_attempts`. -/
structure ArmAttempt where
  groupId : String
  arm : Nat
  attemptId : AttemptId
deriving DecidableEq, Repr

/-- A row of `memory_invalidations`. -/
structure Invalidation where
  taskId : Option TaskId
  resolved : Bool
  informational : Bool
deriving DecidableEq, Repr

/-- A row of `task_queue`. -/
structure QueueRow where
  task : TaskId
  priority : Int
  enqueuedUnixMs : Int
  enqueueSequence : Nat
deriving DecidableEq, Repr

structure Factory where
  tasks : Table Task Task.id
  attempts : Table Attempt Attempt.id
  queue : Table QueueRow QueueRow.task
  dependencies : Table TaskDependency TaskDependency.key
  contracts : Table SignedContract SignedContract.key
  submissions : Table Submission Submission.submissionId
  runs : Table VerificationRun VerificationRun.runId
  policies : Table RunPolicy RunPolicy.runId
  results : Table VerifiedResult VerifiedResult.resultId
  /-- The results of `verification_contract_checks` at version 2. -/
  checks : List String
  groups : Table CandidateGroup CandidateGroup.groupId
  arms : List ArmAttempt
  selections : Table CandidateSelection CandidateSelection.groupId
  /-- The submissions that `seeded_candidates` marks as seeded. -/
  seeded : List String
  operations : Table IntegrationOperation IntegrationOperation.operationId
  integrated : Table IntegratedCommit IntegratedCommit.integratedId
  /-- The commits of `integration_contract_checks`. -/
  outputChecks : List String
  members : List BarrierMember
  barriers : Table BarrierStatus BarrierStatus.barrierId
  invalidations : List Invalidation
  /-- The tasks of `replay_candidates`. -/
  replays : List TaskId
  satisfactions : Satisfactions
  /-- `current_revision`. -/
  planRevision : Nat
  /-- What else `result_barrier` asks of a result: its reserved inputs and the release that its
  contract requires. -/
  released : String → Bool
  /-- The checks of `wait_triggers::insert`. -/
  triggerReference : WaitTrigger → Except StoreError Unit
  /-- `wait_triggers::current`. -/
  triggerEvidence : List Waits.Event → WaitTrigger → Except StoreError (Option Seen)
  /-- `wait_triggers::relevant`. -/
  triggerRelevant : List Waits.Event → Subject → WaitTrigger → Seen → Except StoreError Bool

namespace Factory

variable (f : Factory)

/-! ## Contracts -/

def latestRevision (task : TaskId) : Option Nat :=
  ((f.contracts.rows.filter fun c => c.taskId = task).map (·.contractRevision)).max?

/-- `contract_binding::latest`. -/
def latest (task : TaskId) : Option SignedContract :=
  (f.latestRevision task).bind fun revision => f.contracts.find (task, revision)

/-- The dependencies of a task, by predecessor. -/
def edges (task : TaskId) : List TaskDependency :=
  (f.dependencies.rows.filter fun d => d.taskId = task).insertionSort
    fun a b => a.predecessorId.val ≤ b.predecessorId.val

/-- Pairs of texts in their lexical order. -/
def textPairLe (a b : String × String) : Prop := a.1 < b.1 ∨ a.1 = b.1 ∧ a.2 ≤ b.2

instance : DecidableRel textPairLe := fun _ _ => inferInstanceAs (Decidable (_ ∨ _))

/-- `contract_binding::queue_matches`. -/
def queueMatches (task : TaskId) : Except StoreError Bool :=
  match f.latest task with
  | none => .ok true
  | some contract =>
    if 256 < (f.edges task).length then .error (.limit "task dependency limit exceeded")
    else .ok ((f.edges task).map (fun d => (d.predecessorId.val, d.requirement.text)) =
      (contract.dependencies.map fun d => (d.predecessor.val, d.edge.text)).insertionSort textPairLe)

/-- `contract_binding::policy_matches`. -/
def policyMatches (edge : Edge) (result : String) : Bool :=
  match f.latest edge.task with
  | none => true
  | some contract =>
    (contract.dependencies.find? fun d =>
      d.predecessor = edge.predecessor && d.edge = edge.requirement).any fun d =>
        (f.results.find result).any fun v => (f.runs.find v.runId).any fun r =>
          r.taskId = edge.predecessor && (f.policies.find r.runId).any fun p =>
            p.policyId = d.policyId && p.policyDigest = d.policyDigest

/-- `contract_binding::verified_result_barrier_current`: a fresh check, and a contract that is
still the latest one if it requires a barrier. -/
def barrierCurrent (result : String) : Bool :=
  (f.results.find result).any fun v => (f.runs.find v.runId).any fun r =>
    f.checks.contains result &&
    (f.contracts.find (r.taskId, r.contractRevision)).any (fun c =>
      !c.requiresBarrier || f.latestRevision r.taskId = some r.contractRevision) &&
    f.released result

/-- `contract_binding::integrated_output_checks_current`. -/
def outputChecksCurrent (integrated : String) : Bool :=
  (f.integrated.find integrated).any fun i => (f.operations.find i.operationId).any fun o =>
    (f.results.find o.verifiedResultId).any fun v => (f.runs.find v.runId).any fun r =>
      (f.contracts.find (r.taskId, r.contractRevision)).any fun c =>
        !c.requiresOutputs || f.outputChecks.contains integrated

/-- The tables as the calls of `Store.Satisfaction` read them. -/
def ledger : Ledger where
  store := { Store.created "" with tasks := f.tasks, attempts := f.attempts }
  contracts := f.contracts.rows.map fun c => ⟨c.taskId, c.contractRevision⟩
  runs := f.runs
  results := f.results
  groups := f.groups
  selections := f.selections
  operations := f.operations
  integrated := f.integrated
  dependencies := f.dependencies
  members := f.members
  barriers := f.barriers
  policyMatches := f.policyMatches
  barrierCurrent := f.barrierCurrent
  outputChecksCurrent := f.outputChecksCurrent

/-! ## Edges that count -/

/-- `HELD_ARM`. -/
def heldArm (s : Submission) : Bool :=
  f.arms.any fun b => b.attemptId = s.attemptId && !f.selections.rows.any fun x =>
    x.groupId = b.groupId && x.submissionId = some s.submissionId

/-- `candidate_groups::held_result`. -/
def heldResult (result : String) : Bool :=
  (f.results.find result).any fun v => (f.submissions.find v.submissionId).any f.heldArm

/-- `seeded_defects::seeded_result`. -/
def seededResult (result : String) : Bool :=
  (f.results.find result).any fun v => f.seeded.contains v.submissionId

/-- An open invalidation covers the predecessor. -/
def invalidated (predecessor : TaskId) : Bool :=
  f.invalidations.any fun i => (i.taskId = some predecessor || i.taskId = none) && !i.resolved &&
    !i.informational

/-- `verified_counts`. -/
def verifiedCounts (task predecessor : TaskId) : Bool :=
  !f.ledger.predecessorRevoked predecessor &&
  (f.satisfactions.validRow ⟨task, predecessor, .verifiedResult⟩).any fun row =>
    !f.seededResult row.evidenceId && !f.heldResult row.evidenceId &&
    f.policyMatches ⟨task, predecessor, .verifiedResult⟩ row.evidenceId &&
    f.barrierCurrent row.evidenceId &&
    (f.results.find row.evidenceId).any fun v => (f.runs.find v.runId).any fun r =>
      r.taskId = predecessor && (f.attempts.find r.attemptId).any (fun a => a.task = r.taskId) &&
      (f.tasks.find r.taskId).isSome && r.state = .accepted && v.memoryFence = r.memoryFence &&
      f.ledger.currentClause v r && f.latestRevision r.taskId = some r.contractRevision &&
      !f.invalidated predecessor

/-- `integrated_counts`. -/
def integratedCounts (task predecessor : TaskId) : Bool :=
  !f.ledger.predecessorRevoked predecessor &&
  (f.satisfactions.validRow ⟨task, predecessor, .integratedCommit⟩).any fun row =>
    (f.integrated.find row.evidenceId).any fun i => (f.operations.find i.operationId).any fun o =>
      f.outputChecksCurrent row.evidenceId &&
      f.policyMatches ⟨task, predecessor, .integratedCommit⟩ o.verifiedResultId &&
      f.barrierCurrent o.verifiedResultId &&
      (f.results.find o.verifiedResultId).any fun v => (f.runs.find v.runId).any fun r =>
        r.taskId = predecessor && r.state = .accepted && !f.invalidated predecessor

/-- The receipt that an edge asks for counts. -/
def receiptCounts (task predecessor : TaskId) : DependencyRequirement → Bool
  | .verifiedResult => f.verifiedCounts task predecessor
  | .integratedCommit => f.integratedCounts task predecessor
  | .integrationCandidate | .landedCommit => false

/-- `dependency_blocker`. -/
def dependencyBlocker (task : TaskId) (predecessor : Task) (requirement : DependencyRequirement)
    (admissionOn : Bool) : Option String :=
  if predecessor.state = .failed ∨ predecessor.state = .cancelled then
    some ("predecessor_failed:" ++ predecessor.id.val ++ ":" ++ requirement.text)
  else if f.receiptCounts task predecessor.id requirement = false then
    some ("verified_dependency_evidence_unavailable:" ++ predecessor.id.val ++ ":" ++
      requirement.text)
  else if admissionOn = false then some ("admission_disabled:" ++ requirement.text)
  else none

/-- `valid_satisfaction_id`. -/
def validSatisfactionId (task : TaskId) (predecessor : Task)
    (requirement : DependencyRequirement) : Option String :=
  if (f.dependencyBlocker task predecessor requirement true).isSome then none
  else (f.satisfactions.validRow ⟨task, predecessor.id, requirement⟩).map (·.satisfactionId)

structure SatisfiedEdge where
  predecessor : TaskId
  predecessorRevision : Nat
  requirement : DependencyRequirement
  satisfactionId : String
deriving DecidableEq, Repr

/-- The loop of `satisfied_edges_on`. -/
def satisfiedEdges (task : TaskId) : List TaskDependency → Except StoreError (Option (List SatisfiedEdge))
  | [] => .ok (some [])
  | d :: rest =>
    match f.tasks.find d.predecessorId with
    | none => .error .noRows
    | some predecessor =>
      match f.validSatisfactionId task predecessor d.requirement with
      | none => .ok none
      | some id => (satisfiedEdges task rest).map (Option.map
          (⟨predecessor.id, predecessor.revision, d.requirement, id⟩ :: ·))

/-- `satisfied_edges_on`. -/
def satisfiedEdgesOn (task : TaskId) : Except StoreError (Option (List SatisfiedEdge)) :=
  match f.queueMatches task with
  | .error e => .error e
  | .ok false => .ok none
  | .ok true =>
    if 256 < (f.edges task).length then .error (.limit "task dependency limit exceeded")
    else f.satisfiedEdges task (f.edges task)

/-- `dependency_wait_ready`. -/
def dependencyWaitReady (task : TaskId) : Except StoreError Bool :=
  if f.contracts.rows.any fun c => c.taskId = task then
    (f.satisfiedEdgesOn task).map fun edges => edges.any fun edges => !edges.isEmpty
  else .ok false

/-! ## What waits see -/

/-- The attempt that a wait names, if any, is one of its task's. -/
def attemptOk (subject : Subject) : Bool :=
  subject.attempt.all fun id => (f.attempts.find id).any fun a => a.task = subject.task

/-- A run of the subject's task, of its attempt and under its latest contract. -/
def completes (subject : Subject) (runId : String) : Bool :=
  (f.runs.find runId).any fun r => r.taskId = subject.task &&
    subject.attempt.all (· = r.attemptId) &&
    f.latestRevision subject.task = some r.contractRevision

/-- Valid evidence of the task comes from this run. -/
def evidenceOfRun (task : TaskId) (runId : String) : Bool :=
  f.satisfactions.rows.any fun d => d.edge.task = task && d.state = .valid &&
    d.evidenceKind = .verifiedResult && (f.results.find d.evidenceId).any fun v => v.runId = runId

/-- Valid evidence of the task is this commit. -/
def evidenceOfCommit (task : TaskId) (integrated : String) : Bool :=
  f.satisfactions.rows.any fun d => d.edge.task = task && d.state = .valid &&
    d.evidenceKind = .integratedCommit && d.evidenceId = integrated

/-- The events that `current_wait_evidence` selects from for a condition. -/
def evidenceEvent (subject : Subject) (seen : Seen) : Bool :=
  match subject.condition with
  | .validationCompletion =>
    (seen.kind = "verification.accepted" || seen.kind = "verification.rejected") &&
      f.completes subject seen.entity
  | .dependencyEvidence => f.attemptOk subject &&
    (seen.kind = "verification.accepted" && f.evidenceOfRun subject.task seen.entity ||
      seen.kind = "integration.wake" && f.evidenceOfCommit subject.task seen.entity)
  | _ => false

/-- `current_wait_evidence`. -/
def currentWaitEvidence (events : List Waits.Event) (subject : Subject) :
    Except StoreError (Option Seen) :=
  match subject.trigger with
  | some trigger => f.triggerEvidence events trigger
  | none => .ok ((events.map Waits.Event.seen).filter (f.evidenceEvent subject)).getLast?

/-- `relevant_wait_event`. -/
def relevantWaitEvent (events : List Waits.Event) (subject : Subject) (seen : Seen) :
    Except StoreError Bool :=
  match subject.trigger, subject.condition with
  | some trigger, _ => f.triggerRelevant events subject trigger seen
  | none, .dependencyEvidence =>
    if seen.kind = "contract.installed" ∨ seen.kind = "scheduler.task_queued" then
      if seen.entity = subject.task.val then f.dependencyWaitReady subject.task else .ok false
    else if (seen.kind = "verification.accepted" ∧ f.evidenceOfRun subject.task seen.entity = true ∨
        seen.kind = "integration.wake" ∧ f.evidenceOfCommit subject.task seen.entity = true ∧
          (f.integrated.find seen.entity).isSome) ∧ f.attemptOk subject = true then
      f.dependencyWaitReady subject.task
    else .ok false
  | none, .validationCompletion =>
    .ok ((seen.kind = "verification.accepted" || seen.kind = "verification.rejected") &&
      f.completes subject seen.entity)
  | none, _ => .ok false

end Factory

instance : World Factory where
  hasTask f task := (f.tasks.find task).isSome
  hasAttempt f attempt task := (f.attempts.find attempt).any fun a => a.task = task
  planRevision := Factory.planRevision
  reference := Factory.triggerReference
  currentWaitEvidence := Factory.currentWaitEvidence
  relevantWaitEvent := Factory.relevantWaitEvent

/-! ## Writers -/

abbrev FactoryTx (α : Type) := WaitTx Factory α

def write (g : Factory → Factory) : FactoryTx Unit :=
  .write fun db => { db with world := g db.world }

/-- A statement that a constraint of the tables may refuse. -/
def insert (g : Factory → Option Factory) : FactoryTx Unit :=
  .insert (fun db => (g db.world).map fun f => { db with world := f }) .conflict

/-- `INSERT INTO events`. The waits do not read the payloads of these events. -/
def logOther (entity : String) (revision : Nat) (kind : String) : FactoryTx Unit :=
  .write fun db => { db with events :=
    db.events ++ [⟨db.head + 1, entity, revision, .other kind ""⟩] }

/-- One of the calls of `Store.Satisfaction`, over the tables as they stand. -/
def attach (body : Ledger → Evidence Unit) : FactoryTx Unit := do
  let ledger ← .ask (·.world.ledger)
  .within (·.world.satisfactions)
    (fun t db => { db with world := { db.world with satisfactions := t } }) (body ledger)

variable [Digests]

/-- The accepting half of `commit_verification`: the run and its result, the check, the evidence
and the event. The foreign keys of the run are those of its submission. -/
def acceptVerification (submission runId resultId policyId policyDigest : String)
    (memoryFence : Nat) (now : Int) : FactoryTx Unit := do
  let s ← .find (·.world.submissions.find submission) .conflict
  let contract ← .ask (·.world.contracts.find (s.taskId, s.contractRevision))
  let attempt ← .ask (·.world.attempts.find s.attemptId)
  .require (contract.isSome = true ∧ attempt.any (fun a => a.task = s.taskId) = true) .conflict
  insert fun f => (f.runs.insert?
    ⟨runId, s.taskId, s.contractRevision, s.attemptId, memoryFence, .accepted⟩).map
      fun runs => { f with runs := runs }
  insert fun f => (f.policies.insert? ⟨runId, policyId, policyDigest⟩).map
    fun policies => { f with policies := policies }
  insert fun f => (f.results.insert?
    ⟨resultId, runId, submission, isolation, memoryFence, now⟩).map
      fun results => { f with results := results }
  write fun f => { f with checks := f.checks ++ [resultId] }
  attach fun l => recordVerifiedResult l now resultId
  logOther runId 1 "verification.accepted"

/-- `Confirm` of `finish_integration`: the commit, its check, the evidence and the event. -/
def confirmIntegration (integrated : String) (operation : OperationId) (now : Int) :
    FactoryTx Unit := do
  let known ← .ask fun db => (db.world.operations.find operation).isSome &&
    !db.world.integrated.rows.any fun i => i.operationId = operation
  .require (known = true) .conflict
  insert fun f => (f.integrated.insert? ⟨integrated, operation, now⟩).map
    fun commits => { f with integrated := commits }
  write fun f => { f with outputChecks := f.outputChecks ++ [integrated] }
  attach fun l => recordIntegratedCommit l now integrated
  logOther integrated 1 "integration.wake"

/-- `install_contract` of a contract that parses. The validation of the dependency graph is a
verdict. The same contract again is a read. -/
def installContract (contract : SignedContract) (expectedHead : Nat) (graph : Option StoreError)
    (now : Int) : FactoryTx Unit := do
  let existing ← .ask (·.world.contracts.find contract.key)
  match existing with
  | some stored => .require (stored = contract) (invalid "changed contract bytes")
  | none => do
    let current ← .ask (·.world.latestRevision contract.taskId)
    .require (current.getD 0 + 1 = contract.contractRevision)
      (invalid "contract revision must advance exactly once")
    let head ← .ask WaitStore.head
    .require (head = expectedHead) .conflict
    let known ← .ask fun db => (db.world.tasks.find contract.taskId).isSome
    .require (known = true) (invalid "contract task is missing")
    .outside graph
    logOther contract.taskId.val contract.contractRevision "contract.installed"
    insert fun f => (f.contracts.insert? contract).map fun contracts =>
      { f with contracts := contracts }
    attach fun l => attachStoredReceipts l now contract.taskId

/-- The queue entries with their dependencies, as `queue_graph` reads them. -/
def Factory.queueRecords (f : Factory) : List QueueRecord :=
  f.queue.rows.map fun q => ⟨q.task, q.priority, q.enqueuedUnixMs, q.enqueueSequence,
    (f.edges q.task).map fun d => ⟨d.predecessorId, d.requirement⟩⟩

/-- `DELETE FROM task_dependencies` of a task, then one `INSERT` for each edge. -/
def replaceDependencies (task : TaskId) (edges : List Dependency) : FactoryTx Unit := do
  write fun f => { f with dependencies := ⟨f.dependencies.rows.filter fun d => d.taskId ≠ task,
    List.Nodup.sublist (List.filter_sublist.map _) f.dependencies.nodup⟩ }
  .forEach (fun d : Dependency => insert fun f =>
    (f.dependencies.insert? ⟨task, d.predecessor, d.requirement⟩).map fun dependencies =>
      { f with dependencies := dependencies }) edges

/-- Insert or replace the queue row of a task. -/
def upsertQueue (row : QueueRow) : FactoryTx Unit :=
  write fun f => { f with queue := (f.queue.insert? row).getD (f.queue.update row) }

/-- The writes of `queue_task`. -/
def enqueue (task : Task) (record : QueueRecord) (now : Int) : FactoryTx Unit := do
  .require (task.revision + 1 ≤ i64Max) (invalid "task revision exhausted")
  let next : Task := { task with revision := task.revision + 1, state := .queued }
  write fun f => { f with tasks := f.tasks.update next }
  logOther task.id.val (task.revision + 1) "task.changed"
  upsertQueue ⟨record.task, record.priority, record.enqueuedUnixMs, record.enqueueSequence⟩
  replaceDependencies task.id record.dependencies
  attach fun l => attachStoredReceipts l now task.id
  logOther task.id.val (task.revision + 1) "scheduler.task_queued"

/-- `queue_task`. Queueing a queued task again with the same request is a read. -/
def queueTask (id : TaskId) (revision expectedHead : Nat) (request : QueueRequest) (now : Int)
    (fault : Option StoreError) : FactoryTx Unit := do
  .require (0 ≤ now ∧ now ≤ i64Max - 600000) (invalid "clock outside supported range")
  .require (-20 ≤ request.priority ∧ request.priority ≤ 20 ∧ request.dependencies.length ≤ 256)
    (invalid "queue priority/dependency limits exceeded")
  let head ← .ask WaitStore.head
  .require (head = expectedHead) .conflict
  let f ← .ask (·.world)
  let task ← .find (fun _ => f.tasks.find id) .noRows
  .require (task.revision = revision) .conflict
  .require (task.activeAttempt = none ∧ task.state ≠ .running ∧ task.state ≠ .succeeded ∧
      task.state ≠ .cancelled ∧
      f.attempts.rows.any (fun a => a.task = id && !a.terminationObserved) = false)
    (invalid "task execution or terminal disposition must be reconciled before queueing")
  let queue := f.queueRecords
  let identities := queue.map (·.task) ++
    queue.flatMap fun q => q.dependencies.map (·.predecessor)
  .check (graphIds identities queue)
  let previous := queue.find? fun q => q.task = id
  let record := request.record id previous now expectedHead
  if previous.any (fun p => p.priority = request.priority && p.dependencies = record.dependencies) ∧
      task.state = .queued then pure ()
  else do
    .require (record.dependencies.all (fun d => !f.replays.contains d.predecessor) = true)
      (invalid "a replay candidate never releases dependents")
    .check (graphIds (id :: (record.dependencies.map (·.predecessor)).filter
      (fun p => (f.tasks.find p).isSome) ++ identities)
      (queue.filter (fun q => q.task ≠ id) ++ [record]))
    .outside fault
    enqueue task record now

/-- The arm, attempt and submission that a selection names. -/
structure Picked where
  arm : Nat
  attempt : AttemptId
  submission : String
deriving DecidableEq, Repr

/-- The trigger `candidate_selections_member`. -/
def Factory.member (f : Factory) (group : String) (picked : Picked) : Bool :=
  f.arms.any (fun b => b.groupId = group && b.arm = picked.arm && b.attemptId = picked.attempt) &&
    (f.submissions.find picked.submission).any fun s => s.attemptId = picked.attempt

def Picked.selection (group : String) : Option Picked → CandidateSelection
  | some picked => ⟨group, .selected, some picked.submission⟩
  | none => ⟨group, .noSelection, none⟩

/-- The winner's evidence, for a `selected` outcome. -/
def attachWinner (task : TaskId) (now : Int) : Option Picked → FactoryTx Unit
  | some _ => attach fun l => attachSelected l now task
  | none => pure ()

/-- `insert_selection`, of a sealed group without a selection. No event is written. -/
def insertSelection (group : String) (picked : Option Picked) (now : Int) : FactoryTx Unit := do
  let g ← .find (·.world.groups.find group) (invalid ("no candidate group " ++ group))
  let selected ← .ask fun db => (db.world.selections.find group).isSome
  .require (selected = false)
    (invalid ("candidate group " ++ group ++ " already has a selection"))
  let f ← .ask (·.world)
  .require (picked.all (f.member group) = true)
    (.io "selection must name a candidate of a group member")
  insert fun f => (f.selections.insert? (Picked.selection group picked)).map fun selections =>
    { f with selections := selections }
  attachWinner g.taskId now picked

/-! ## Runs -/

variable [Plans.Documents]

inductive Call where
  | register (task : TaskId) (attempt : Option AttemptId) (condition : String)
      (deadline : Option Int) (trigger : Option WaitTrigger) (now : Int)
      (fault : Option StoreError)
  | replay (wait : String) (now : Int) (fault : Option StoreError)
  | rearm (previous : String) (deadline : Option Int) (now : Int) (fault : Option StoreError)
  | queue (id : TaskId) (revision expectedHead : Nat) (request : QueueRequest) (now : Int)
      (fault : Option StoreError)
  | install (contract : SignedContract) (expectedHead : Nat) (graph : Option StoreError) (now : Int)
  | accept (submission runId resultId policyId policyDigest : String) (memoryFence : Nat)
      (now : Int)
  | integrate (integrated : String) (operation : OperationId) (now : Int)
  | select (group : String) (picked : Option Picked) (now : Int)

/-- The waits answer; the writers only succeed or fail. -/
def exec : Call → WaitStore Factory → Except StoreError Waits.Answer × WaitStore Factory
  | .register task attempt condition deadline trigger now fault =>
    Waits.exec (.register task attempt condition deadline trigger now fault)
  | .replay wait now fault => Waits.exec (.replay wait now fault)
  | .rearm previous deadline now fault => Waits.exec (.rearm previous deadline now fault)
  | .queue id revision expectedHead request now fault =>
    Waits.answer (fun _ => .done) (queueTask id revision expectedHead request now fault)
  | .install contract expectedHead graph now =>
    Waits.answer (fun _ => .done) (installContract contract expectedHead graph now)
  | .accept submission runId resultId policyId policyDigest memoryFence now =>
    Waits.answer (fun _ => .done)
      (acceptVerification submission runId resultId policyId policyDigest memoryFence now)
  | .integrate integrated operation now =>
    Waits.answer (fun _ => .done) (confirmIntegration integrated operation now)
  | .select group picked now => Waits.answer (fun _ => .done) (insertSelection group picked now)

end Herdr.Releases
