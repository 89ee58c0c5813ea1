import Mathlib.Data.List.Sort
import Herdr.Store.Basic

/-!
# Dependency evidence

`src/store/satisfaction.rs` and `migrations/0030_dependency_satisfaction.sql`: the rows of
`dependency_satisfactions` and the four calls that write them. The calls run inside the
transaction of their caller, which has already written the receipt or the selection, so every
other table is read as it stands when the call is made: one `Ledger` for each call. The checks of
`contract_binding` are columns of the ledger. Read deadlines are not modelled.
-/

namespace Herdr

/-! ## Receipts -/

inductive RunState where
  | accepted | rejected
deriving DecidableEq, Repr

structure VerificationRun where
  runId : String
  taskId : TaskId
  contractRevision : Nat
  attemptId : AttemptId
  memoryFence : Nat
  state : RunState
deriving DecidableEq, Repr

structure VerifiedResult where
  resultId : String
  runId : String
  submissionId : String
  isolation : String
  memoryFence : Nat
  createdUnixMs : Int
deriving DecidableEq, Repr

structure TaskContract where
  taskId : TaskId
  contractRevision : Nat
deriving DecidableEq, Repr

structure CandidateGroup where
  groupId : String
  taskId : TaskId
  contractRevision : Option Nat
deriving DecidableEq, Repr

inductive SelectionOutcome where
  | selected | noSelection
deriving DecidableEq, Repr

structure CandidateSelection where
  groupId : String
  outcome : SelectionOutcome
  submissionId : Option String
deriving DecidableEq, Repr

structure IntegrationOperation where
  operationId : OperationId
  verifiedResultId : String
deriving DecidableEq, Repr

structure IntegratedCommit where
  integratedId : String
  operationId : OperationId
  createdUnixMs : Int
deriving DecidableEq, Repr

structure TaskDependency where
  taskId : TaskId
  predecessorId : TaskId
  requirement : DependencyRequirement
deriving DecidableEq, Repr

def TaskDependency.key (d : TaskDependency) : TaskId × TaskId := (d.taskId, d.predecessorId)

structure BarrierMember where
  barrierId : String
  taskId : TaskId
deriving DecidableEq, Repr

/-- A row of `barrier_current_status`. -/
structure BarrierStatus where
  barrierId : String
  releasedSeq : Option Nat
  revokedSeq : Option Nat
  createdSeq : Nat
deriving DecidableEq, Repr

/-- A consumer's dependency on one kind of evidence of its predecessor. -/
structure Edge where
  task : TaskId
  predecessor : TaskId
  requirement : DependencyRequirement
deriving DecidableEq, Repr

/-- Everything that the calls read and do not write. -/
structure Ledger where
  store : Store
  contracts : List TaskContract
  runs : Table VerificationRun VerificationRun.runId
  results : Table VerifiedResult VerifiedResult.resultId
  groups : Table CandidateGroup CandidateGroup.groupId
  selections : Table CandidateSelection CandidateSelection.groupId
  operations : Table IntegrationOperation IntegrationOperation.operationId
  integrated : Table IntegratedCommit IntegratedCommit.integratedId
  dependencies : Table TaskDependency TaskDependency.key
  members : List BarrierMember
  barriers : Table BarrierStatus BarrierStatus.barrierId
  /-- `contract_binding::policy_matches_with_budget` of an edge and a verified result. -/
  policyMatches : Edge → String → Bool
  /-- `contract_binding::verified_result_barrier_current`. -/
  barrierCurrent : String → Bool
  /-- `contract_binding::integrated_output_checks_current`. -/
  outputChecksCurrent : String → Bool

def isolation : String := "linux-unshare-user-pid-mount-v1"

namespace Ledger

variable (l : Ledger)

/-- The row of `load_verified`: an accepted run under the fence and isolation of its result. -/
def loadVerified (result : String) : Option TaskId := do
  let v ← l.results.find result
  let r ← l.runs.find v.runId
  if r.state = .accepted ∧ v.memoryFence = r.memoryFence ∧ v.isolation = isolation then
    some r.taskId
  else none

/-- `SELECT MAX(contract_revision) FROM task_contracts WHERE task_id=?`. -/
def latestRevision (task : TaskId) : Option Nat :=
  ((l.contracts.filter fun c => c.taskId = task).map (·.contractRevision)).max?

/-- The active attempt of a task, else its latest. -/
def currentAttempt (task : TaskId) : Option AttemptId :=
  match (l.store.tasks.find task).bind (·.activeAttempt) with
  | some attempt => some attempt
  | none => (l.store.attempts.rows.filter fun a => a.task = task).getLast?.map (·.id)

/-- `ATTEMPT_CURRENT`. -/
def attemptCurrent (r : VerificationRun) : Bool := l.currentAttempt r.taskId = some r.attemptId

/-- The submissions that a `selected` outcome names for a task and contract revision. -/
def selected (task : TaskId) (revision : Nat) : List String :=
  (l.groups.rows.filter fun g => g.taskId = task ∧ g.contractRevision = some revision).filterMap
    fun g => (l.selections.find g.groupId).bind fun x =>
      if x.outcome = .selected then x.submissionId else none

/-- `current_clause`. -/
def currentClause (v : VerifiedResult) (r : VerificationRun) : Bool :=
  if (l.selected r.taskId r.contractRevision).isEmpty then l.attemptCurrent r
  else (l.selected r.taskId r.contractRevision).contains v.submissionId

/-- `verified_result_may_replace`. -/
def verifiedResultMayReplace (result : String) : Bool :=
  (l.results.find result).any fun v => (l.runs.find v.runId).any fun r =>
    (l.store.attempts.find r.attemptId).any (fun a => a.task = r.taskId) &&
    (l.store.tasks.find r.taskId).isSome &&
    r.state = .accepted && l.currentClause v r &&
    l.latestRevision r.taskId = some r.contractRevision

/-- A later barrier of the task was released and stands. -/
def releasedAfter (task : TaskId) (b : BarrierStatus) : Bool :=
  l.members.any fun m => m.taskId = task && (l.barriers.find m.barrierId).any fun later =>
    later.releasedSeq.isSome && later.revokedSeq.isNone && b.createdSeq < later.createdSeq

/-- `predecessor_revoked`. -/
def predecessorRevoked (predecessor : TaskId) : Bool :=
  l.members.any fun m => m.taskId = predecessor && (l.barriers.find m.barrierId).any fun b =>
    b.revokedSeq.isSome && !l.releasedAfter predecessor b

/-- `consumers`. -/
def consumers (predecessor : TaskId) (requirement : DependencyRequirement) : List TaskId :=
  ((l.dependencies.rows.filter fun d =>
    d.predecessorId = predecessor ∧ d.requirement = requirement).map (·.taskId)).insertionSort
    fun a b => a.val ≤ b.val

/-- The verified result behind a piece of evidence. -/
def resultOf (requirement : DependencyRequirement) (evidence : String) : Option String :=
  if requirement = .integratedCommit then
    (l.integrated.find evidence).bind fun i =>
      (l.operations.find i.operationId).map (·.verifiedResultId)
  else some evidence

/-- Newer results first, and of one time the larger identity. -/
def newer (v w : VerifiedResult) : Prop :=
  w.createdUnixMs < v.createdUnixMs ∨
    w.createdUnixMs = v.createdUnixMs ∧ w.resultId ≤ v.resultId

instance : DecidableRel newer := fun _ _ => inferInstanceAs (Decidable (_ ∨ _))

/-- An accepted result of the predecessor's latest contract that is its current one. -/
def isCurrent (predecessor : TaskId) (v : VerifiedResult) : Bool :=
  (l.runs.find v.runId).any fun r =>
    r.taskId = predecessor && r.state = .accepted && l.currentClause v r &&
    l.latestRevision predecessor = some r.contractRevision &&
    v.memoryFence = r.memoryFence && v.isolation = isolation

/-- `current_verified`. -/
def currentVerified (task predecessor : TaskId) : Option String :=
  (((l.results.rows.filter (l.isCurrent predecessor)).insertionSort newer).find? fun v =>
    l.policyMatches ⟨task, predecessor, .verifiedResult⟩ v.resultId &&
    l.barrierCurrent v.resultId).map (·.resultId)

/-- The task whose accepted result an integrated commit carries. -/
def integratedPredecessor (integrated : String) : Option TaskId := do
  let i ← l.integrated.find integrated
  let o ← l.operations.find i.operationId
  let v ← l.results.find o.verifiedResultId
  let r ← l.runs.find v.runId
  if r.state = .accepted then some r.taskId else none

def newerCommit (i j : IntegratedCommit) : Prop :=
  j.createdUnixMs < i.createdUnixMs ∨
    j.createdUnixMs = i.createdUnixMs ∧ j.integratedId ≤ i.integratedId

instance : DecidableRel newerCommit := fun _ _ => inferInstanceAs (Decidable (_ ∨ _))

/-- `latest_integrated`. -/
def latestIntegrated (task predecessor : TaskId) : Option String :=
  (((l.integrated.rows.filter fun i =>
      l.integratedPredecessor i.integratedId = some predecessor).insertionSort
    newerCommit).find? fun i =>
      (l.resultOf .integratedCommit i.integratedId).any fun result =>
        l.policyMatches ⟨task, predecessor, .integratedCommit⟩ result &&
        l.outputChecksCurrent i.integratedId && l.barrierCurrent result).map (·.integratedId)

/-- The dependencies of a task, by predecessor. -/
def edges (task : TaskId) : List TaskDependency :=
  (l.dependencies.rows.filter fun d => d.taskId = task).insertionSort
    fun a b => a.predecessorId.val ≤ b.predecessorId.val

/-- The evidence that `attach_stored_receipts` finds for one edge. -/
def storedEvidence (edge : Edge) : Option String :=
  match edge.requirement with
  | .verifiedResult => l.currentVerified edge.task edge.predecessor
  | .integratedCommit => l.latestIntegrated edge.task edge.predecessor
  | _ => none

end Ledger

/-! ## The evidence table -/

inductive SatisfactionState where
  | valid | invalid
deriving DecidableEq, Repr

structure Satisfaction where
  satisfactionId : String
  edge : Edge
  state : SatisfactionState
  evidenceKind : DependencyRequirement
  evidenceId : String
  createdUnixMs : Int
deriving DecidableEq, Repr

/-- `dependency_satisfactions`, keyed by `satisfaction_id`. Its `CHECK`s hold of every row the
calls insert, since the tables that the columns come from have the same ones. -/
abbrev Satisfactions := Table Satisfaction Satisfaction.satisfactionId

def DependencyRequirement.text : DependencyRequirement → String
  | .verifiedResult => "verified_result"
  | .integratedCommit => "integrated_commit"
  | .integrationCandidate => "integration_candidate"
  | .landedCommit => "landed_commit"

def Satisfaction.validFor (edge : Edge) (row : Satisfaction) : Bool :=
  row.edge = edge ∧ row.state = .valid

namespace Satisfactions

/-- `SELECT .. WHERE task_id=?1 AND predecessor_task=?2 AND requirement=?3 AND state='valid'`. -/
def validRow (t : Satisfactions) (edge : Edge) : Option Satisfaction :=
  t.rows.find? (·.validFor edge)

/-- The primary key and `dependency_satisfactions_one_valid`. -/
def insertRow (row : Satisfaction) (t : Satisfactions) : Option Satisfactions :=
  if row.state = .valid ∧ (validRow t row.edge).isSome then none else t.insert? row

end Satisfactions

abbrev Evidence (α : Type) := Tx Satisfactions StoreError α

variable [Digests]

/-- `satisfaction_id`. -/
def satisfactionId (edge : Edge) (evidence : String) : String :=
  Digests.text (edge.task.val ++ "\x00" ++ edge.predecessor.val ++ "\x00" ++
    edge.requirement.text ++ "\x00" ++ evidence)

/-! ## The calls -/

/-- The writes of `insert_valid`: the row that the edge has now is retired first. -/
def replaceValid (now : Int) (edge : Edge) (evidence : String) : Evidence Unit := do
  let existing ← .ask (Satisfactions.validRow · edge)
  .write fun t => existing.elim t fun row => t.update { row with state := .invalid }
  .insert (Satisfactions.insertRow
    ⟨satisfactionId edge evidence, edge, .valid, edge.requirement, evidence, now⟩) .conflict

/-- `insert_valid_with_budget`. -/
def insertValid (l : Ledger) (now : Int) (edge : Edge) (evidence : String)
    (replaceExisting : Bool) : Evidence Unit :=
  if edge.requirement = .integratedCommit ∧ l.outputChecksCurrent evidence = false then pure ()
  else do
    let result ← .find (fun _ => l.resultOf edge.requirement evidence) .noRows
    if l.policyMatches edge result = false ∨ l.barrierCurrent result = false then pure ()
    else do
      .require (l.predecessorRevoked edge.predecessor = false) (invalid "dependency blocked")
      let existing ← .ask (Satisfactions.validRow · edge)
      -- the source asks for `replace_existing` once when the edge has a row and once more when
      -- the slot is empty
      if existing.map (·.evidenceId) = some evidence ∨ replaceExisting = false then pure ()
      else replaceValid now edge evidence

/-- `record_verified_result`. -/
def recordVerifiedResult (l : Ledger) (now : Int) (result : String) : Evidence Unit := do
  let predecessor ← .find (fun _ => l.loadVerified result)
    (invalid "verified receipt is not stored")
  .forEach (fun task => insertValid l now ⟨task, predecessor, .verifiedResult⟩ result
    (l.verifiedResultMayReplace result)) (l.consumers predecessor .verifiedResult)

/-- `record_integrated_commit`. -/
def recordIntegratedCommit (l : Ledger) (now : Int) (integrated : String) : Evidence Unit := do
  let predecessor ← .find (fun _ => l.integratedPredecessor integrated)
    (invalid "integrated receipt is not stored")
  .forEach (fun task => insertValid l now ⟨task, predecessor, .integratedCommit⟩ integrated true)
    (l.consumers predecessor .integratedCommit)

/-- `attach_selected`, in the transaction of `insert_selection` that has written the selection. -/
def attachSelected (l : Ledger) (now : Int) (predecessor : TaskId) : Evidence Unit :=
  if l.predecessorRevoked predecessor then pure ()
  else .forEach (fun task =>
      match l.currentVerified task predecessor with
      | some result => insertValid l now ⟨task, predecessor, .verifiedResult⟩ result true
      | none => pure ())
    (l.consumers predecessor .verifiedResult)

/-- `attach_stored_receipts`. -/
def attachStoredReceipts (l : Ledger) (now : Int) (task : TaskId) : Evidence Unit := do
  .require ((l.edges task).length ≤ 256)
    (.limit "receipt attachment exceeds 256 dependencies")
  .forEach (fun d =>
      match l.storedEvidence ⟨task, d.predecessorId, d.requirement⟩ with
      | some evidence => insertValid l now ⟨task, d.predecessorId, d.requirement⟩ evidence true
      | none => pure ())
    (l.edges task)

inductive EvidenceCall where
  | recordVerifiedResult (result : String)
  | recordIntegratedCommit (integrated : String)
  | attachStoredReceipts (task : TaskId)
  | attachSelected (predecessor : TaskId)
deriving DecidableEq, Repr

/-- A call with the ledger and the clock it reads. -/
structure Attachment where
  ledger : Ledger
  now : Int
  call : EvidenceCall

def Attachment.body (a : Attachment) : Evidence Unit :=
  match a.call with
  | .recordVerifiedResult result => recordVerifiedResult a.ledger a.now result
  | .recordIntegratedCommit integrated => recordIntegratedCommit a.ledger a.now integrated
  | .attachStoredReceipts task => attachStoredReceipts a.ledger a.now task
  | .attachSelected predecessor => attachSelected a.ledger a.now predecessor

/-- The enclosing transaction commits what the call wrote, or is rolled back. -/
def Attachment.exec (a : Attachment) (t : Satisfactions) : Except StoreError Unit × Satisfactions :=
  Tx.commit a.body t

end Herdr
