import Herdr.Lib.Views
import Herdr.Store.CandidateGroups

/-!
# Automatic verification jobs

`src/store/verification_jobs.rs`: a turn of the producer retires the pending jobs whose task has
moved and enqueues a job for each pair of a submission and an acceptance policy that has no run and
no job. The work table is kept by the triggers of `migrations/0043_admission_indexes.sql`, which
`Store.CandidateGroups` models with the writers of submissions and runs; contracts are installed
here with the bodies of their policies.
-/

namespace Herdr.Verifier

open Jobs Groups

/-! ## Tables -/

/-- A row of `acceptance_policies`. -/
structure AcceptancePolicy extends Policy where
  body : String
deriving DecidableEq, Repr

def AcceptancePolicy.key (p : AcceptancePolicy) : TaskId × Nat × String :=
  (p.taskId, p.contractRevision, p.policyId)

/-- The project store with the bodies of its acceptance policies. -/
structure VerifierStore where
  groups : GroupStore
  acceptancePolicies : Table AcceptancePolicy AcceptancePolicy.key
deriving DecidableEq

/-- A new project store. -/
def VerifierStore.created (path : String) : VerifierStore := ⟨.created path, .empty⟩

abbrev VerifierTx (α : Type) := Tx VerifierStore StoreError α

/-- A body of the store of results. -/
def inGroups {α : Type} (body : GroupTx α) : VerifierTx α :=
  .within VerifierStore.groups (fun t s => { s with groups := t }) body

/-- A body of the jobs. -/
def inJobs {α : Type} (body : JobTx α) : VerifierTx α := inGroups (Groups.inJobs body)

/-- What the identity of a job is computed from. -/
structure JobParts where
  projectStore : String
  submissionId : String
  contractRevision : Nat
  policyId : String
  policyDigest : String
deriving DecidableEq, Repr

/-- SHA-256, as lowercase hexadecimal, over a policy's body and over the JSON text of the parts of
a job. -/
class VerifierDigests where
  policy : String → String
  identity : JobParts → String
  /-- The identity of a replacement, which also binds the task revision. -/
  bound : JobParts → Nat → String

/-! ## Contracts -/

/-- `install_contract`, which stores the policies of a new contract with their bodies. -/
def installContract (env : Surroundings) (contract : Contract) (expectedHead : Nat)
    (policies : List (String × String)) : VerifierTx Unit := do
  let existing ← .ask (·.groups.contracts.find contract.key)
  inGroups (Groups.installContract env ⟨contract, expectedHead, policies.map (·.1)⟩)
  if existing.isNone then
    .insert (fun s => (s.acceptancePolicies.insertAll (policies.map fun p =>
      ⟨⟨contract.taskId, contract.contractRevision, p.1⟩, p.2⟩)).map
        fun t => { s with acceptancePolicies := t }) .conflict
  else pure ()

/-! ## Jobs -/

/-- The job of a `verification.run` operation. -/
def job? (op : Operation) : Option VerificationJob :=
  match op.kind, op.payload with
  | .verificationRun, .verification job => some job
  | _, _ => none

/-- Submission and policy. -/
def pair? (op : Operation) : Option (String × String) :=
  (job? op).map fun job => (job.submissionId, job.policyId)

structure Candidate where
  submissionId : String
  projectStore : String
  taskId : TaskId
  taskRevision : Nat
  contractRevision : Nat
  policyId : String
  body : String
deriving DecidableEq, Repr

/-- A row of the join of `pending_verification_work` with its submission, task and policies. -/
structure WorkRow where
  submission : Submission
  task : Task
  policy : AcceptancePolicy
deriving DecidableEq, Repr

def WorkRow.candidate (w : WorkRow) : Candidate where
  submissionId := w.submission.submissionId
  projectStore := w.submission.projectStore
  taskId := w.submission.taskId
  taskRevision := w.task.revision
  contractRevision := w.submission.contractRevision
  policyId := w.policy.policyId
  body := w.policy.body

/-- Oldest first, then by submission and policy. -/
def WorkRow.before (a b : WorkRow) : Prop :=
  a.submission.createdUnixMs < b.submission.createdUnixMs ∨
    (a.submission.createdUnixMs = b.submission.createdUnixMs ∧
      (a.submission.submissionId < b.submission.submissionId ∨
        (a.submission.submissionId = b.submission.submissionId ∧
          a.policy.policyId ≤ b.policy.policyId)))

instance : DecidableRel WorkRow.before := fun _ _ => inferInstanceAs (Decidable (_ ∨ _))

namespace VerifierStore

variable (s : VerifierStore)

/-- The project store itself. -/
def store : Store := s.groups.store

/-- `enabled`. -/
def enabled : Bool := s.groups.automation.verify && s.store.control.state = .active

def isRetired (id : OperationId) : Bool := s.groups.jobs.isRetired .verification id

/-- The pair has a run. -/
def hasRun (submission policy : String) : Bool :=
  s.groups.runs.rows.any fun r => r.submissionId = submission && r.policyId = policy

/-- A job that no retirement replaced names the pair. -/
def hasJob (submission policy : String) : Bool :=
  s.store.operations.rows.any fun op =>
    pair? op = some (submission, policy) && !s.isRetired op.id

/-- The join of the work table. -/
def work : List WorkRow :=
  s.groups.pendingVerification.flatMap fun id =>
    (s.groups.submissions.find id).toList.flatMap fun sub =>
      (s.store.tasks.find sub.taskId).toList.flatMap fun task =>
        (s.acceptancePolicies.rows.filter fun p =>
          p.taskId = sub.taskId && p.contractRevision = sub.contractRevision).map (⟨sub, task, ·⟩)

/-- The pairs of the work table without a run and without a job. -/
def missing : List WorkRow :=
  s.work.filter fun w => !s.hasRun w.submission.submissionId w.policy.policyId &&
    !s.hasJob w.submission.submissionId w.policy.policyId

/-- The pairs that a turn selects. -/
def candidates : List Candidate :=
  ((s.missing.insertionSort WorkRow.before).map WorkRow.candidate).take (turnLimit + 1)

end VerifierStore

variable [VerifierDigests]

def Candidate.parts (c : Candidate) : JobParts :=
  ⟨c.projectStore, c.submissionId, c.contractRevision, c.policyId, VerifierDigests.policy c.body⟩

/-- `fresh_id`, as `identity` calls it. -/
def Candidate.freshId (c : Candidate) (s : VerifierStore) : OperationId :=
  let base : OperationId := ⟨VerifierDigests.identity c.parts⟩
  if (s.store.operations.find base).isNone then base
  else ⟨VerifierDigests.bound c.parts c.taskRevision⟩

/-- The operation that a candidate's job is. -/
def Candidate.operation (c : Candidate) (s : VerifierStore) (now : Int) : Operation :=
  let id := c.freshId s
  { id := id
    task := some c.taskId
    kind := .verificationRun
    target := "verification:" ++ c.submissionId ++ ":" ++ c.policyId
    payloadVersion := 1
    payload := .verification ⟨c.projectStore, c.submissionId, c.taskId, c.contractRevision,
      c.policyId, VerifierDigests.policy c.body⟩
    expectedRevision := c.taskRevision
    dueUnixMs := now
    idempotencyKey := id.val }

namespace VerifierStore

variable (s : VerifierStore)

/-- The conditions of the conditional insert. -/
def admits (c : Candidate) (op : Operation) : Bool :=
  (s.store.tasks.find c.taskId).any (·.revision = c.taskRevision) &&
  ((s.groups.submissions.find c.submissionId).any fun sub => sub.taskId = c.taskId &&
    sub.contractRevision = c.contractRevision &&
    (s.groups.contracts.find (sub.taskId, sub.contractRevision)).any
      (·.rawDigest = sub.contractDigest)) &&
  (s.acceptancePolicies.find (c.taskId, c.contractRevision, c.policyId)).any (·.body = c.body) &&
  !s.hasRun c.submissionId c.policyId &&
  (s.store.operations.find op.id).isNone

/-- The index `verification_jobs_by_policy` and the unique idempotency key. -/
def jobIndexFree (op : Operation) : Bool :=
  s.store.operations.rows.all fun o => o.idempotencyKey ≠ op.idempotencyKey &&
    !((pair? o).isSome && pair? o = pair? op && o.expectedRevision = op.expectedRevision)

/-- `INSERT INTO operations`, with the trigger that adds the delivery row. -/
def insertJob (op : Operation) : Option VerifierStore := do
  guard (s.jobIndexFree op)
  let operations ← s.store.operations.insert? op
  let deliveries ← s.store.deliveries.insert? (.enqueued op.id op.dueUnixMs)
  some { s with groups := { s.groups with store := { s.groups.store with
    operations := operations
    deliveries := deliveries } } }

end VerifierStore

/-- One turn of the enqueueing loop: how many jobs it added. -/
def enqueueJob (now : Int) (c : Candidate) : VerifierTx Nat := do
  let op ← .ask (c.operation · now)
  let admitted ← .ask (·.admits c op)
  if admitted then
    .insert (·.insertJob op) .conflict
    pure 1
  else pure 0

/-- The loop. -/
def enqueueJobs (now : Int) (enqueued : Nat) : List Candidate → VerifierTx Nat
  | [] => pure enqueued
  | c :: rest => do
    let added ← enqueueJob now c
    enqueueJobs now (enqueued + added) rest

/-- `service_verification_jobs`. -/
def serviceVerificationJobs [Digests] (env : Outside) (now : Int) : VerifierTx Turn := do
  let enabled ← .ask (·.enabled)
  if enabled then
    let stale ← inJobs (retireStale env .verification now)
    let candidates ← .ask (·.candidates)
    let enqueued ← enqueueJobs now 0 (candidates.take turnLimit)
    .outside env.fault
    pure ⟨stale || turnLimit < candidates.length, enqueued⟩
  else pure ⟨false, 0⟩

/-! ## Calls -/

inductive VerifierMethod where
  | installContract (contract : Contract) (expectedHead : Nat) (policies : List (String × String))
  | submitResult (request : SubmissionRequest)
  | commitVerification (draft : RunDraft)
  | serviceVerificationJobs (now : Int)
  | claimOperation (id : OperationId) (expected : Nat) (owner : String) (now leaseMs : Int)
  | finishOperation (claim : Claim) (outcome : Outcome) (now : Int)
  | expireClaims (now : Int)
  | observeOperation (id : OperationId) (expected : Nat) (actor : String) (outcome : Outcome)
      (now : Int)
  | retireOperation (id : OperationId) (expectedRevision expectedHead : Nat) (reason : String)
      (now : Int)
  | resetVerificationJob (id : OperationId) (expectedRevision : Nat) (now : Int)
  | setResultAutomation (expectedHead : Nat) (verify integrate : Option Bool)
deriving DecidableEq, Repr

structure VerifierCall where
  method : VerifierMethod
  surroundings : Surroundings

/-- A body of the project store; what it answers is not needed here. -/
def inStore {α : Type} (body : Body α) : VerifierTx Unit := discard (inJobs (Jobs.inStore body))

/-- `has_run`: the run was recorded under the job's key, for its submission and policy. -/
def VerifierStore.hasRunUnder (s : VerifierStore) (id : OperationId) (run : String) : Bool :=
  (s.store.operations.find id).any fun op => (job? op).any fun job =>
    (s.groups.runReceipts.find op.idempotencyKey).any (·.id = run) &&
    job.projectStore = s.store.path &&
    (s.groups.runs.find run).any fun r =>
      r.submissionId = job.submissionId && r.policyId = job.policyId

/-- What a call reads outside, with the receipts that the tables decide. -/
def VerifierStore.outside (s : VerifierStore) (env : Outside) : Outside :=
  { env with
    receipts := fun kind id identity =>
      if kind = .verificationRun then s.hasRunUnder id identity
      else env.receipts kind id identity }

/-- The transaction body of a call. -/
def VerifierCall.body [Digests] [GroupDigests] (c : VerifierCall) : VerifierTx Unit :=
  let env := c.surroundings
  match c.method with
  | .installContract contract expectedHead policies =>
    Verifier.installContract env contract expectedHead policies
  | .submitResult request => inGroups (Groups.submitResult env request)
  | .commitVerification draft => inGroups (Groups.commitVerification env draft)
  | .serviceVerificationJobs now => discard (Verifier.serviceVerificationJobs env.outside now)
  | .claimOperation id expected owner now leaseMs =>
    inStore (Herdr.claimOperation env.outside id expected owner now leaseMs)
  | .finishOperation claim outcome now => do
    let outside ← .ask (·.outside env.outside)
    inStore (Herdr.finishOperation outside claim outcome now)
  | .expireClaims now => inStore (Herdr.expireClaims env.outside now)
  | .observeOperation id expected actor outcome now => do
    let outside ← .ask (·.outside env.outside)
    inStore (Herdr.observeOperation outside id expected actor outcome now)
  | .retireOperation id revision head reason now =>
    inStore (Herdr.retireOperation env.outside id revision head reason now)
  | .resetVerificationJob id revision now =>
    discard (inJobs (Jobs.resetVerificationJob id revision now))
  | .setResultAutomation head verify integrate =>
    discard (inJobs (Jobs.setResultAutomation head verify integrate))

/-- Answer one call. -/
def VerifierCall.exec [Digests] [GroupDigests] (c : VerifierCall) (s : VerifierStore) :
    Except StoreError Unit × VerifierStore :=
  Tx.commit c.body s

end Herdr.Verifier
