import Herdr.Store.Calls
import Herdr.Store.IntegrationJobs

/-!
# Candidate groups and the results they hold

`src/store/candidate_groups.rs` with the writers of the tables it reads: contracts, submissions and
verification runs (`results.rs`, `verification.rs`), evaluation candidates (`seeded_defects.rs`),
the start of an integration (`integration.rs`) and completion requests (`worker_termination.rs`).
A group fixes its arms when it is sealed, an arm binds an attempt in that attempt's reservation,
and one selection lifts the hold of one submission. The automatic integration jobs of
`Store.IntegrationJobs` run over the same tables.
-/

namespace Herdr.Groups

open Jobs

/-! ## Tables -/

/-- A row of `verification_runs`. -/
structure RunRow extends Jobs.VerificationRun where
  createdUnixMs : Int
deriving DecidableEq, Repr

/-- The idempotency columns of `result_submissions` and `verification_runs`. -/
structure Receipt where
  idempotencyKey : String
  payloadDigest : String
  id : String
deriving DecidableEq, Repr

inductive EvaluationArm where
  | seeded | cleanControl
deriving DecidableEq, Repr

/-- A row of `seeded_candidates`. -/
structure SeededCandidate where
  submissionId : String
  arm : EvaluationArm
deriving DecidableEq, Repr

structure CandidateArm where
  arm : Nat
  configurationId : String
  profileDigest : String
deriving DecidableEq, Repr

/-- A sealed row of `candidate_groups` with its arms, which are written in one transaction. -/
structure CandidateGroup where
  groupId : String
  taskId : TaskId
  contractRevision : Option Nat
  arms : List CandidateArm
  creatorPrincipal : String
  sealedUnixMs : Int
deriving DecidableEq, Repr

/-- A row of `candidate_arm_attempts`. -/
structure ArmBinding where
  groupId : String
  arm : Nat
  attemptId : AttemptId
  boundUnixMs : Int
deriving DecidableEq, Repr

def ArmBinding.key (b : ArmBinding) : String × Nat := (b.groupId, b.arm)

/-- Combined verification of a submission. -/
inductive Verification where
  | accepted | rejected | pending
deriving DecidableEq, Repr

/-- The verified outcome of an arm. -/
inductive ArmState where
  | accepted | pending | rejected | noCandidate
deriving DecidableEq, Repr

inductive SelectorKind where
  | operator | rule | judge
deriving DecidableEq, Repr

/-- What a selection records of one bound arm. -/
structure ArmEvidence where
  arm : Nat
  attemptId : AttemptId
  submissionId : Option String
  /-- `none` is `no_candidate`. -/
  verification : Option Verification
  armOutcome : ArmState
  rank : Option Nat := none
  presented : Option Nat := none
  judgeConfigurationId : Option String := none
  ruleSkip : Bool := false
deriving DecidableEq, Repr

/-- The winner of a group. -/
structure Picked where
  arm : Nat
  attemptId : AttemptId
  submissionId : String
deriving DecidableEq, Repr

/-- A row of `candidate_selections`; the outcome is `selected` when something was picked. -/
structure CandidateSelection where
  groupId : String
  picked : Option Picked
  selectorKind : SelectorKind
  selectorPrincipal : String
  reason : String
  evidence : List ArmEvidence
  selectedUnixMs : Int
deriving DecidableEq, Repr

/-- The project store with its contracts, results, candidate groups and integration queue. -/
structure GroupStore where
  store : Store
  contracts : Table Contract Contract.key
  policies : List Policy
  submissions : Table Submission Submission.submissionId
  submissionReceipts : Table Receipt Receipt.idempotencyKey
  pendingVerification : List String
  runs : Table RunRow (fun r => r.runId)
  runReceipts : Table Receipt Receipt.idempotencyKey
  results : Table Jobs.VerifiedResult Jobs.VerifiedResult.resultId
  checks : List ContractCheck
  integrations : Table Integration Integration.operationId
  seeded : Table SeededCandidate SeededCandidate.submissionId
  replays : List TaskId
  groups : Table CandidateGroup CandidateGroup.groupId
  arms : Table ArmBinding ArmBinding.key
  selections : Table CandidateSelection CandidateSelection.groupId
  targets : Table Target Target.repository
  pending : Table PendingWork PendingWork.submissionId
  automation : Automation
deriving DecidableEq

/-- A new project store. -/
def GroupStore.created (path : String) : GroupStore where
  store := .created path
  contracts := .empty
  policies := []
  submissions := .empty
  submissionReceipts := .empty
  pendingVerification := []
  runs := .empty
  runReceipts := .empty
  results := .empty
  checks := []
  integrations := .empty
  seeded := .empty
  replays := []
  groups := .empty
  arms := .empty
  selections := .empty
  targets := .empty
  pending := .empty
  automation := ⟨1, false, false⟩

/-! ## The view of the integration jobs -/

namespace GroupStore

variable (s : GroupStore)

/-- The columns of the runs that the producer reads. -/
def jobRuns : Table Jobs.VerificationRun Jobs.VerificationRun.runId where
  rows := s.runs.rows.map RunRow.toVerificationRun
  nodup := by
    rw [List.map_map]
    exact s.runs.nodup

/-- The submissions registered as seeded. -/
def seededSubmissions : List String :=
  (s.seeded.rows.filter fun c => c.arm = .seeded).map (·.submissionId)

/-- The tables that the producer only reads. -/
def jobResults : Results where
  submissions := s.submissions
  contracts := s.contracts
  pendingVerification := s.pendingVerification
  policies := s.policies
  runs := s.jobRuns
  results := s.results
  checks := s.checks
  integrations := s.integrations
  seeded := s.seededSubmissions
  arms := s.arms.rows.map fun b => ⟨b.attemptId, b.groupId⟩
  selections := s.selections.rows.map fun x => ⟨x.groupId, x.picked.map (·.submissionId)⟩
  replays := s.replays

/-- The store as the integration jobs see it. -/
def jobs : JobStore where
  toStore := s.store
  results := s.jobResults
  targets := s.targets
  pending := s.pending
  automation := s.automation

/-- The tables that the integration jobs write. -/
def withJobs (t : JobStore) : GroupStore :=
  { s with
    store := t.toStore
    targets := t.targets
    pending := t.pending
    automation := t.automation }

/-- `seeded_submission`. -/
def seededSubmission (submission : String) : Bool :=
  (s.seeded.find submission).any fun c => c.arm = .seeded

end GroupStore

abbrev GroupTx (α : Type) := Tx GroupStore StoreError α

/-- A body of the project store. -/
def inStore {α : Type} (body : Body α) : GroupTx α :=
  .within GroupStore.store (fun t s => { s with store := t }) body

/-- A body of the integration jobs. -/
def inJobs {α : Type} (body : JobTx α) : GroupTx α :=
  .within GroupStore.jobs (fun t s => s.withJobs t) body

/-- SHA-256 identities, as lowercase hexadecimal. -/
class GroupDigests where
  /-- `agent_configuration(profile).id`; the reference names the whole profile. -/
  configuration : VersionedReference → FrozenProfile → String
  group : TaskId → Option Nat → List CandidateArm → Int → String
  /-- The blind presentation key of a group's candidate. -/
  presentation : String → String → String
  submission : String → String → String → String
  run : String → String → String → String
  result : String → String → String → String

/-- What a call reads outside the modelled tables. -/
structure Surroundings where
  outside : Outside
  /-- The clock of `jiff::Timestamp::now()`. -/
  clock : Int := 0
  /-- `require_result_barrier` and `require_verified_result_barrier`. -/
  barrier : Option StoreError := none
  /-- The parser, the dependency graph and the subsidiary tables of a contract. -/
  contract : Option StoreError := none
  /-- The parser, the remaining contract comparisons and the staged objects of a submission. -/
  submission : Option StoreError := none
  /-- The draft's receipt matches what was reloaded. -/
  receiptOk : Bool := true
  /-- `Reloaded::same_generation`. -/
  sameGeneration : Bool := true
  policyDigest : String := ""
  /-- Dependency satisfaction and feedback, which other tables record. -/
  satisfaction : Option StoreError := none
  /-- `retained_profile`: the digest and the configuration of the latest profile of a name. -/
  retainedProfile : String → Except StoreError (String × String) :=
    fun name => .error (invalid ("no retained native profile named " ++ name))
  /-- The registered reviews, the evaluation authority and the seed history. -/
  evaluation : Option StoreError := none
  /-- The replay registry's own checks. -/
  replay : Option StoreError := none
  /-- The identity of a new integration operation, over its generation. -/
  lease : OperationId := ⟨""⟩
  /-- `AUTO_SUBMISSION_READY` and the integrated outputs that are still current. -/
  automaticReady : String → Bool := fun _ => true

variable (env : Surroundings)

/-! ## Contracts, submissions and verification runs -/

/-- What `install_contract` uses of the parsed document. -/
structure ContractRequest where
  contract : Contract
  expectedHead : Nat
  policies : List String
deriving DecidableEq, Repr

/-- `SELECT max(contract_revision) FROM task_contracts WHERE task_id=?`. -/
def GroupStore.latestRevision (s : GroupStore) (task : TaskId) : Option Nat :=
  ((s.contracts.rows.filter fun c => c.taskId = task).map (·.contractRevision)).max?

/-- `install_contract`. The same document again is a read. -/
def installContract (request : ContractRequest) : GroupTx Unit := do
  .outside env.contract
  let c := request.contract
  let existing ← .ask (·.contracts.find c.key)
  match existing with
  | some old => .require (old.rawDigest = c.rawDigest) .conflict
  | none =>
    let current ← .ask (·.latestRevision c.taskId)
    .require (current.getD 0 + 1 = c.contractRevision)
      (invalid "contract revision must advance exactly once")
    inStore (expectHead request.expectedHead)
    let known ← .ask fun s => (s.store.tasks.find c.taskId).isSome
    .require (known = true) (invalid "contract task is missing")
    inStore (logEvent c.taskId.val c.contractRevision (.contractInstalled c.rawDigest c.route.asStr))
    .insert (fun s => (s.contracts.insert? c).map fun t => { s with
      contracts := t
      policies := s.policies ++ request.policies.map fun p => ⟨c.taskId, c.contractRevision, p⟩ })
      .conflict

/-- The fields of an untrusted result document. -/
structure SubmissionRequest where
  taskId : TaskId
  contractRevision : Nat
  contractDigest : String
  attemptId : AttemptId
  repository : String
  idempotencyKey : String
  payloadDigest : String
deriving DecidableEq, Repr

/-- `submit_result`. The same key again must carry the same bytes. -/
def submitResult [GroupDigests] (request : SubmissionRequest) : GroupTx Unit := do
  .outside env.submission
  let existing ← .ask (·.submissionReceipts.find request.idempotencyKey)
  match existing with
  | some r => .require (r.payloadDigest = request.payloadDigest) .conflict
  | none =>
    let contract ← .find (·.contracts.find (request.taskId, request.contractRevision))
      (invalid "missing contract")
    .require (contract.rawDigest = request.contractDigest) (invalid "changed contract bytes")
    .outside env.barrier
    let attempt ← .find (·.store.attempts.find request.attemptId) (invalid "wrong attempt")
    .require (attempt.task = request.taskId) (invalid "wrong attempt")
    let path ← .ask (·.store.path)
    let id := GroupDigests.submission path request.idempotencyKey request.payloadDigest
    .insert (fun s => (s.submissionReceipts.insert?
      ⟨request.idempotencyKey, request.payloadDigest, id⟩).map
        fun t => { s with submissionReceipts := t }) .conflict
    .insert (fun s => (s.submissions.insert?
      ⟨id, path, request.taskId, request.contractRevision, request.contractDigest,
        request.attemptId, request.repository, env.clock⟩).map
        fun t => { s with
          submissions := t
          pendingVerification := s.pendingVerification ++ [id] }) .conflict

/-- `RunDraft` with the submission and the policy that its target names. -/
structure RunDraft where
  submissionId : String
  policyId : String
  idempotencyKey : String
  payloadDigest : String
  reason : Option String
  treeOid : Option String
deriving DecidableEq, Repr

/-- Some policy of the submission has no run yet. -/
def GroupStore.unverified (s : GroupStore) (sub : Submission) : Bool :=
  s.policies.any fun p => p.taskId = sub.taskId && p.contractRevision = sub.contractRevision &&
    !s.runs.rows.any fun r => r.submissionId = sub.submissionId && r.policyId = p.policyId

/-- `INSERT INTO verification_runs`, with the trigger `pending_verification_on_run`. -/
def GroupStore.insertRun (s : GroupStore) (sub : Submission) (row : RunRow) : Option GroupStore := do
  let runs ← s.runs.insert? row
  let t := { s with runs := runs }
  if t.unverified sub then some t
  else some { t with
    pendingVerification := s.pendingVerification.filter fun id => id ≠ sub.submissionId }

/-- `INSERT OR IGNORE INTO pending_integration_work`. -/
def GroupStore.requeue (s : GroupStore) (submission : String) : GroupStore :=
  match s.submissions.find submission with
  | some sub =>
    { s with pending := (s.pending.insert? ⟨submission, sub.createdUnixMs⟩).getD s.pending }
  | none => s

/-- The result of an accepted run and its contract check, with the trigger
`pending_integration_on_verified`. -/
def insertResult (row : Jobs.VerifiedResult) : GroupTx Unit := do
  .insert (fun s =>
    if s.results.rows.any (·.runId = row.runId) then none
    else (s.results.insert? row).map fun t => { s with results := t }) .conflict
  .write (·.requeue row.submissionId)
  .insert (fun s =>
    if s.checks.any (·.resultId = row.resultId) then none
    else some { s with checks := s.checks ++ [⟨row.resultId, 2⟩] }) .conflict

/-- Stop the worker of a candidate that changed files outside its signed scope. -/
def stopOutOfScope [Digests] (draft : RunDraft) (attempt : Attempt) : GroupTx Unit := do
  let cancelled ← .ask fun s => (s.store.cancellations.find attempt.id).isSome
  if env.sameGeneration ∧ draft.reason = some "scope_violation" ∧
      attempt.terminationObserved = false ∧ cancelled = false then
    inStore do
      let task ← readTask attempt.task
      let _ ← requestCancellation env.outside attempt task
        "verified candidate changed files outside signed write scope" env.clock
  else pure ()

/-- What an accepted run records beside its row. -/
def recordAccepted (accepted : Bool) (row : Jobs.VerifiedResult) : GroupTx Unit :=
  if accepted then insertResult row else pure ()

/-- `commit_verification_metadata`. -/
def commitVerification [Digests] [GroupDigests] (draft : RunDraft) : GroupTx Unit := do
  let existing ← .ask (·.runReceipts.find draft.idempotencyKey)
  match existing with
  | some r =>
    .require (r.payloadDigest = draft.payloadDigest) .conflict
    .outside env.satisfaction
  | none =>
    let sub ← .find (·.submissions.find draft.submissionId)
      (invalid "verification target is missing")
    let attempt ← .find (·.store.attempts.find sub.attemptId)
      (invalid "verification target is missing")
    .require (attempt.task = sub.taskId) (invalid "verification target is missing")
    let known ← .ask fun s => (s.contracts.find (sub.taskId, sub.contractRevision)).isSome &&
      s.policies.contains ⟨sub.taskId, sub.contractRevision, draft.policyId⟩
    .require (known = true) (invalid "verification target is missing")
    .outside env.barrier
    let accepted := draft.reason.isNone && env.receiptOk && env.sameGeneration
    let path ← .ask (·.store.path)
    let run := GroupDigests.run path draft.idempotencyKey draft.payloadDigest
    .insert (fun s => (s.runReceipts.insert?
      ⟨draft.idempotencyKey, draft.payloadDigest, run⟩).map fun t => { s with runReceipts := t })
      .conflict
    .insert (·.insertRun sub ⟨⟨run, sub.submissionId, draft.policyId, accepted⟩, env.clock⟩)
      .conflict
    recordAccepted accepted ⟨GroupDigests.result run (draft.treeOid.getD "") env.policyDigest, run,
      sub.submissionId⟩
    .outside env.satisfaction
    stopOutOfScope env draft attempt

/-! ## Outcomes of arms -/

namespace GroupStore

variable (s : GroupStore)

/-- The policies of a submission and every policy with a run of it. -/
def policiesOf (sub : Submission) : List String :=
  ((s.policies.filter fun p => p.taskId = sub.taskId &&
      p.contractRevision = sub.contractRevision).map (·.policyId) ++
    (s.runs.rows.filter fun r => r.submissionId = sub.submissionId).map (·.policyId)).dedup

/-- The latest run of a policy: by time, then by row. -/
def latestRun (submission policy : String) : Option RunRow :=
  (s.runs.rows.filter fun r => r.submissionId = submission && r.policyId = policy).foldl
    (fun best r => match best with
      | some b => if b.createdUnixMs ≤ r.createdUnixMs then some r else some b
      | none => some r) none

/-- `verification`. -/
def verification (sub : Submission) : Verification :=
  let states := (s.policiesOf sub).map fun p => (s.latestRun sub.submissionId p).map (·.accepted)
  if states.contains (some false) then .rejected
  else if !states.isEmpty && states.all (· = some true) then .accepted
  else .pending

/-- The submissions of an attempt, by time and then by row. -/
def submissionsOf (attempt : AttemptId) : List Submission :=
  (s.submissions.rows.filter fun sub => sub.attemptId = attempt).insertionSort
    fun a b => a.createdUnixMs ≤ b.createdUnixMs

/-- `TERMINAL_ATTEMPT`. -/
def terminalAttempt (attempt : AttemptId) : Bool :=
  (s.store.attempts.find attempt).any fun a =>
    [AttemptState.completed, .failed, .cancelled, .lost].contains a.state

end GroupStore

/-- `ArmOutcome`; a `first_verification` of `none` is `no_candidate`. -/
structure ArmOutcome where
  first : Option String
  firstVerification : Option Verification
  outcome : ArmState
  accepted : Option String
deriving DecidableEq, Repr

/-- `arm_outcome`. -/
def GroupStore.armOutcome (s : GroupStore) (attempt : AttemptId) : ArmOutcome :=
  let submissions := s.submissionsOf attempt
  let accepted := submissions.find? fun sub => s.verification sub = .accepted
  { first := submissions.head?.map (·.submissionId)
    firstVerification := submissions.head?.map s.verification
    outcome :=
      if accepted.isSome then .accepted
      else if submissions.any (fun sub => s.verification sub = .pending) ||
          !s.terminalAttempt attempt then .pending
      else if submissions.isEmpty then .noCandidate
      else .rejected
    accepted := accepted.map (·.submissionId) }

structure BoundArm extends ArmOutcome where
  arm : Nat
  attempt : AttemptId
deriving DecidableEq, Repr

/-- `bound_arms`. -/
def GroupStore.boundArms (s : GroupStore) (group : String) : List BoundArm :=
  ((s.arms.rows.filter fun b => b.groupId = group).insertionSort fun a b => a.arm ≤ b.arm).map
    fun b => ⟨s.armOutcome b.attemptId, b.arm, b.attemptId⟩

/-! ## Sealing and binding -/

/-- A worker or an import neither seals nor selects. -/
def selectorAuthority (principal what : String) : GroupTx Unit := do
  let worker := "worker:".toList.isPrefixOf principal.toList
  let bare := if worker then String.ofList (principal.toList.drop "worker:".length) else principal
  let attempt ← .ask fun s => (s.store.attempts.find ⟨bare⟩).isSome
  .require (worker = false ∧ "import:".toList.isPrefixOf principal.toList = false ∧ attempt = false)
    (invalid (principal ++ " cannot " ++ what ++
      ": a worker's candidate is a proposal, and only the owner, a rule or a judge selects"))

/-- The arms of a new group, in launch order, each of its own configuration. -/
def chooseArms (arms : List CandidateArm) : List String → GroupTx (List CandidateArm)
  | [] => pure arms
  | name :: names => do
    let (digest, configuration) ← .check (env.retainedProfile name)
    .require (¬arms.any fun a => a.configurationId = configuration)
      (invalid ("arm " ++ toString (arms.length + 1) ++
        " repeats the configuration of an earlier arm"))
    chooseArms (arms ++ [⟨arms.length + 1, configuration, digest⟩]) names

/-- The index `candidate_groups_per_revision` and the primary key. -/
def GroupStore.insertGroup (s : GroupStore) (g : CandidateGroup) : Option GroupStore :=
  if s.groups.rows.any fun o => o.taskId = g.taskId &&
      o.contractRevision.getD 0 = g.contractRevision.getD 0 then none
  else (s.groups.insert? g).map fun t => { s with groups := t }

/-- `create_candidate_group`. -/
def createCandidateGroup [GroupDigests] (task : TaskId) (profiles : List String)
    (principal : String) (now : Int) : GroupTx CandidateGroup := do
  .require (2 ≤ profiles.length ∧ profiles.length ≤ 8)
    (invalid "a candidate group has 2 to 8 arms")
  .require (principal ≠ "" ∧ principal.utf8ByteSize ≤ 128) (invalid "invalid creator principal")
  selectorAuthority principal "create a candidate group"
  let row ← .find (·.store.tasks.find task) (invalid ("no task " ++ task.val))
  .require (row.state ≠ .succeeded ∧ row.state ≠ .cancelled)
    (invalid ("task " ++ task.val ++ " is " ++
      if row.state = .succeeded then "succeeded" else "cancelled"))
  let revision ← .ask (·.latestRevision task)
  let existing ← .ask (·.groups.rows.any fun g => g.taskId = task && g.contractRevision = revision)
  .require (existing = false) (invalid ("task " ++ task.val ++
    " already has a candidate group for this contract revision"))
  let arms ← chooseArms env [] profiles
  let group : CandidateGroup :=
    ⟨GroupDigests.group task revision arms now, task, revision, arms, principal, now⟩
  .insert (·.insertGroup group) .conflict
  pure group

namespace GroupStore

variable (s : GroupStore)

def selected (group : String) : Bool := (s.selections.find group).isSome

/-- The unbound arms of the open groups of a task's contract revision, lowest first. -/
def openArms (task : TaskId) (revision : Option Nat) : List (String × CandidateArm) :=
  ((s.groups.rows.filter fun g => g.taskId = task && g.contractRevision = revision &&
      !s.selected g.groupId).flatMap fun g =>
    (g.arms.filter fun a => (s.arms.find (g.groupId, a.arm)).isNone).map
      fun a => (g.groupId, a)).insertionSort fun a b => a.2.arm ≤ b.2.arm

/-- `INSERT INTO candidate_arm_attempts`, whose trigger refuses an attempt with a result. -/
def insertArm (b : ArmBinding) : Option GroupStore :=
  if s.arms.rows.any (·.attemptId = b.attemptId) ||
      s.submissions.rows.any (·.attemptId = b.attemptId) then none
  else (s.arms.insert? b).map fun t => { s with arms := t }

end GroupStore

/-- `bind`. A configuration that is not the next arm's binds nothing. -/
def bind [GroupDigests] (inputs : LaunchInputs) (attempt : AttemptId) (now : Int) : GroupTx Unit :=
  match inputs.effectiveProfile with
  | none => pure ()
  | some profile => do
    let next ← .ask fun s => (s.openArms inputs.task (inputs.taskContract.map (·.revision))).head?
    match next with
    | none => pure ()
    | some (group, arm) =>
      if GroupDigests.configuration inputs.profile profile = arm.configurationId then
        .insert (·.insertArm ⟨group, arm.arm, attempt, now⟩) .conflict
      else pure ()

/-- Bind what was reserved, unless a delegated request was only answered again. -/
def bindReserved [GroupDigests] (before : Table Attempt Attempt.id) (now : Int) :
    Option Reservation → GroupTx Unit
  | some result =>
    if (before.find result.record.attempt).isNone then
      bind result.record.inputs result.record.attempt now
    else pure ()
  | none => pure ()

/-- `admit_prepared`, with the arm that the reservation binds. -/
def admitPrepared [Digests] [GroupDigests] (prepared : List LaunchInputs) (expectedHead : Nat)
    (now : Int) (draft : Bool) (delegated : Option PreparedDelegatedReservation) :
    GroupTx Unit := do
  let before ← .ask (·.store.attempts)
  let result ← inStore (Herdr.admitPrepared env.outside prepared expectedHead now draft delegated)
  bindReserved before now result

/-! ## Selection -/

inductive SelectionChoice where
  | arm (arm : Nat) (submission : Option String) (runnerUp : List Nat)
  | noSelection
deriving DecidableEq, Repr

/-- `SELECTED_REASONS`. -/
def selectedReasons : List String :=
  ["operator_judgment", "first_passing_verification", "unspecified"]

/-- `NO_SELECTION_REASONS`. -/
def noSelectionReasons : List String := ["no_candidate", "none_acceptable", "unspecified"]

/-- `RULE_SELECTOR`. -/
def ruleSelector : String := "rule:first_accepted_in_launch_order.v2"

/-- `open_group`: the sealed group, if it has no selection yet. -/
def openGroup (group : String) : GroupTx CandidateGroup := do
  let g ← .find (·.groups.find group) (invalid ("no candidate group " ++ group))
  let selected ← .ask (·.selected group)
  .require (selected = false)
    (invalid ("candidate group " ++ group ++ " already has a selection"))
  pure g

/-- `evidence`. -/
def BoundArm.evidence (a : BoundArm) : ArmEvidence where
  arm := a.arm
  attemptId := a.attempt
  submissionId := a.first
  verification := a.firstVerification
  armOutcome := a.outcome

/-- The checks of `ranked`: runners-up are bound arms, distinct, and not the winner. -/
def checkRunnersUp (arms : List BoundArm) (winner : Nat) (seen : List Nat) :
    List Nat → Except StoreError Unit
  | [] => .ok ()
  | arm :: rest =>
    if arm = winner then .error (invalid ("runner-up arm " ++ toString arm ++
      " is the selected arm"))
    else if arm ∈ seen then .error (invalid ("runner-up arm " ++ toString arm ++ " is repeated"))
    else if ¬arms.any fun a => a.arm = arm then
      .error (invalid ("runner-up arm " ++ toString arm ++ " is not a bound arm"))
    else checkRunnersUp arms winner (arm :: seen) rest

/-- `ranked`. -/
def ranked (arms : List BoundArm) (evidence : List ArmEvidence) (winner : Nat)
    (runnerUp : List Nat) : Except StoreError (List ArmEvidence) := do
  checkRunnersUp arms winner [] runnerUp
  pure (evidence.map fun e => { e with
    rank := if e.arm = winner then some 1
      else (runnerUp.findIdx? fun r => r = e.arm).map (· + 2) })

/-- The trigger `candidate_selections_member` and the primary key. -/
def GroupStore.insertSelectionRow (s : GroupStore) (x : CandidateSelection) : Option GroupStore :=
  if (s.groups.find x.groupId).isSome && x.picked.all (fun p =>
      ((s.arms.find (x.groupId, p.arm)).any fun b => b.attemptId = p.attemptId) &&
      (s.submissions.find p.submissionId).any fun sub => sub.attemptId = p.attemptId) then
    (s.selections.insert? x).map fun t => { s with selections := t }
  else none

/-- The winner is verified and nothing integrates it yet. -/
def GroupStore.readyWinner (s : GroupStore) (submission : String) : Bool :=
  s.results.rows.any (·.submissionId = submission) &&
  !(s.store.operations.rows.any fun op => (job? op).any (·.submissionId = submission)) &&
  !s.jobs.hasIntegration submission

/-- Queue a verified winner for automatic integration. -/
def GroupStore.queueWinner (s : GroupStore) : Option Picked → GroupStore
  | some p => if s.readyWinner p.submissionId then s.requeue p.submissionId else s
  | none => s

/-- `insert_selection`. -/
def insertSelection (x : CandidateSelection) : GroupTx CandidateSelection := do
  .insert (·.insertSelectionRow x) .conflict
  .write (·.queueWinner x.picked)
  .outside (if x.picked.isSome then env.satisfaction else none)
  pure x

/-- `refuse_seeded_winner`. -/
def refuseSeededWinner (arm : Nat) (submission : String) : GroupTx Unit := do
  let seeded ← .ask (·.seededSubmission submission)
  .require (seeded = false) (invalid ("arm " ++ toString arm ++ "'s candidate " ++ submission ++
    " is a seeded candidate: a seeded arm is an evaluation artefact and never a group's winner"))

/-- The named submission of the arm's attempt, or its first. -/
def chosenSubmission (bound : BoundArm) : Option String → GroupTx String
  | some id => .find (fun s => ((s.submissions.find id).filter fun sub =>
      sub.attemptId = bound.attempt).map (·.submissionId))
      (invalid ("submission " ++ id ++ " is not a candidate of arm " ++ toString bound.arm))
  | none => .find (fun _ => bound.first)
      (invalid ("arm " ++ toString bound.arm ++ " has no candidate"))

/-- The winner that an operator names, and the evidence with its ranks. -/
def chooseArm (group : CandidateGroup) (arms : List BoundArm) (arm : Nat)
    (submission : Option String) (runnerUp : List Nat) : GroupTx (Picked × List ArmEvidence) := do
  .require (arm ≠ 0 ∧ arm ≤ group.arms.length)
    (invalid ("arm " ++ toString arm ++ " is not a member of " ++ group.groupId))
  let bound ← .find (fun _ => arms.find? fun a => a.arm = arm)
    (invalid ("arm " ++ toString arm ++ " has no attempt"))
  let submission ← chosenSubmission bound submission
  refuseSeededWinner bound.arm submission
  let evidence ← .check (ranked arms (arms.map (·.evidence)) bound.arm runnerUp)
  pure (⟨arm, bound.attempt, submission⟩, evidence)

/-- What an operator decides: a winner with its evidence, or none. -/
def decideSelection (group : CandidateGroup) (arms : List BoundArm) (reason : String) :
    SelectionChoice → GroupTx (Option Picked × List ArmEvidence)
  | .noSelection => do
    .require (noSelectionReasons.contains reason)
      (invalid ("unknown no-selection reason " ++ reason))
    pure (none, arms.map (·.evidence))
  | .arm arm submission runnerUp => do
    .require (selectedReasons.contains reason) (invalid ("unknown selection reason " ++ reason))
    let (picked, evidence) ← chooseArm group arms arm submission runnerUp
    pure (some picked, evidence)

/-- `select_candidate`. -/
def selectCandidate (group : String) (choice : SelectionChoice) (reason principal : String)
    (now : Int) : GroupTx CandidateSelection := do
  .require (principal ≠ "" ∧ principal.utf8ByteSize ≤ 128) (invalid "invalid selector principal")
  selectorAuthority principal "select a candidate"
  let g ← openGroup group
  let arms ← .ask (·.boundArms group)
  let (picked, evidence) ← decideSelection g arms reason choice
  insertSelection env ⟨group, picked, .operator, principal, reason, evidence, now⟩

/-- The accepted candidate of the arm is a seeded one. -/
def GroupStore.skipped (s : GroupStore) (a : BoundArm) : Bool :=
  a.outcome = .accepted && a.accepted.any s.seededSubmission

/-- The rule selects the first such arm. -/
def GroupStore.ruleEligible (s : GroupStore) (a : BoundArm) : Bool :=
  a.outcome = .accepted && !s.skipped a

/-- The evidence of the rule ranks the eligible arms in launch order. -/
def GroupStore.ruleEvidence (s : GroupStore) : Nat → List BoundArm → List ArmEvidence
  | _, [] => []
  | rank, a :: arms =>
    let eligible := s.ruleEligible a
    { a.evidence with
      rank := if eligible then some (rank + 1) else none
      ruleSkip := s.skipped a } :: s.ruleEvidence (if eligible then rank + 1 else rank) arms

/-- `select_candidate_by_rule`. -/
def selectCandidateByRule (group : String) (now : Int) : GroupTx CandidateSelection := do
  let g ← openGroup group
  let arms ← .ask (·.boundArms group)
  let winner ← .ask fun s => arms.findIdx? s.ruleEligible
  match (arms.take (winner.getD arms.length)).find? fun a => a.outcome = .pending with
  | some a => throw (invalid ("arm " ++ toString a.arm ++
      " is pending: the rule decides only when every earlier arm is settled"))
  | none =>
    .require (winner.isSome ∨ g.arms.length ≤ arms.length)
      (invalid ("arm " ++ toString (arms.length + 1) ++ " has not launched: the rule closes a " ++
        "group without a winner only when every arm is settled"))
    let evidence ← .ask fun s => s.ruleEvidence 0 arms
    let picked := (winner.bind fun i => arms[i]?).map fun a =>
      (⟨a.arm, a.attempt, a.accepted.getD ""⟩ : Picked)
    let reason :=
      if picked.isSome then "first_passing_verification"
      else if arms.all (fun a => a.first = none) then "no_candidate"
      else "none_acceptable"
    insertSelection env ⟨group, picked, .rule, ruleSelector, reason, evidence, now⟩

/-- `judge_configuration`. -/
def judgeConfiguration : Option String → Except StoreError (Option String)
  | none => .ok none
  | some id =>
    if "sha256:".toList.isPrefixOf id.toList ∧ (id.toList.drop "sha256:".length).length = 64 ∧
        (id.toList.drop "sha256:".length).all lowerHex then .ok (some id)
    else .error (invalid ("judge configuration " ++ id ++
      " is not a configuration ID (sha256: and 64 lowercase hex)"))

/-- `presentation`: the arms with a candidate, in the order of their blind keys. -/
def presentation [GroupDigests] (group : String) (arms : List BoundArm) : List (String × Nat) :=
  (arms.filterMap fun a => a.first.map fun sub =>
    (GroupDigests.presentation group sub, a.arm)).insertionSort
      fun a b => a.1 < b.1 ∨ (a.1 = b.1 ∧ a.2 ≤ b.2)

/-- The arm whose first candidate the judge names. -/
def presented (group : String) (arms : List BoundArm) (submission : String) : GroupTx BoundArm :=
  .find (fun _ => arms.find? fun a => a.first = some submission)
    (invalid ("submission " ++ submission ++ " is not a presented candidate of " ++ group))

def presentedArms (group : String) (arms : List BoundArm) : List String → GroupTx (List Nat)
  | [] => pure []
  | submission :: rest => do
    let a ← presented group arms submission
    let more ← presentedArms group arms rest
    pure (a.arm :: more)

/-- `select_candidate_by_judge`. -/
def selectCandidateByJudge [GroupDigests] (group submission judge : String)
    (configuration : Option String) (runnerUp : List String) (now : Int) :
    GroupTx CandidateSelection := do
  .require (judge ≠ "" ∧ judge.utf8ByteSize ≤ 122) (invalid "invalid judge")
  let configuration ← .check (judgeConfiguration configuration)
  selectorAuthority judge "select a candidate"
  let _ ← openGroup group
  let arms ← .ask (·.boundArms group)
  let positions := presentation group arms
  let chosen ← presented group arms submission
  refuseSeededWinner chosen.arm submission
  let runnerUp ← presentedArms group arms runnerUp
  let evidence := arms.map fun a => { a.evidence with
    presented := (positions.findIdx? fun p => p.2 = a.arm).map (· + 1)
    judgeConfigurationId := configuration }
  let evidence ← .check (ranked arms evidence chosen.arm runnerUp)
  insertSelection env ⟨group, some ⟨chosen.arm, chosen.attempt, submission⟩, .judge,
    "judge:" ++ judge, "judge_preference", evidence, now⟩

/-! ## The boundaries of a hold -/

/-- `register_evaluation_candidate`; it does not look at selections. -/
def registerEvaluationCandidate (submission : String) (arm : EvaluationArm) : GroupTx Unit := do
  .outside env.evaluation
  let known ← .ask fun s => (s.submissions.find submission).isSome
  .require (known = true) (invalid ("no result submission " ++ submission))
  let registered ← .ask fun s => (s.seeded.find submission).isSome
  .require (registered = false)
    (invalid ("submission " ++ submission ++ " is already registered for evaluation"))
  let integrating ← .ask fun s => s.store.operations.rows.any
    (fun op => (job? op).any (·.submissionId = submission)) || s.jobs.hasIntegration submission
  .require (integrating = false)
    (invalid ("submission " ++ submission ++ " already has an integration job or operation"))
  .insert (fun s => (s.seeded.insert? ⟨submission, arm⟩).map fun t => { s with seeded := t })
    .conflict

/-- A new row of `replay_candidates`. -/
def registerReplayCandidate (task : TaskId) : GroupTx Unit := do
  .outside env.replay
  .write fun s => { s with replays := s.replays ++ [task] }

namespace GroupStore

variable (s : GroupStore)

/-- The submission of a verified result. -/
def resultSubmission (result : String) : Option Submission :=
  (s.results.find result).bind fun r => s.submissions.find r.submissionId

/-- `held_result`. -/
def heldResult (result : String) : Bool := (s.resultSubmission result).any s.jobs.heldArm

/-- `completion_hold`. -/
def completionHold (sub : Submission) : Bool :=
  s.jobs.heldArm sub || s.groups.rows.any fun g => g.taskId = sub.taskId &&
    g.contractRevision = some sub.contractRevision &&
    !s.selections.rows.any fun x => x.groupId = g.groupId &&
      x.picked.any (·.submissionId = sub.submissionId)

end GroupStore

/-- What `begin_integration` is given of the verified result. -/
structure IntegrationBegin where
  repository : String
  refName : String
  resultId : String
  taskId : TaskId
  taskRevision : Nat
deriving DecidableEq, Repr

def leaseOperation (id : OperationId) (b : IntegrationBegin) : Operation where
  id := id
  task := some b.taskId
  kind := .other "integration.lease"
  target := b.refName
  payloadVersion := 1
  payload := .other b.resultId
  expectedRevision := b.taskRevision
  dueUnixMs := 0
  idempotencyKey := id.val

/-- `INSERT INTO integration_operations`, with the trigger `pending_integration_on_operation`. -/
def GroupStore.insertIntegration (s : GroupStore) (i : Integration) : Option GroupStore := do
  let r ← s.results.find i.verifiedResultId
  let t ← s.integrations.insert? i
  some { s with
    integrations := t
    pending := ⟨s.pending.rows.filter fun w => w.submissionId ≠ r.submissionId,
      s.pending.nodup.sublist (List.filter_sublist.map _)⟩ }

/-- `begin_integration`. -/
def beginIntegration (b : IntegrationBegin) : GroupTx OperationId := do
  .require (validRefName b.refName = true) (invalid "integration ref is invalid")
  .outside env.barrier
  let seeded ← .ask fun s => (s.resultSubmission b.resultId).any
    fun sub => s.seededSubmission sub.submissionId
  .require (seeded = false) (invalid "a seeded candidate never integrates")
  let replay ← .ask fun s => (s.resultSubmission b.resultId).any fun sub => sub.taskId ∈ s.replays
  .require (replay = false) (invalid "a replay candidate never integrates")
  let held ← .ask (·.heldResult b.resultId)
  .require (held = false)
    (invalid "a candidate-group arm integrates only as its group's selection")
  let configured ← .ask fun s => (s.targets.find b.repository).map (·.refName)
  .require (configured = some b.refName) (invalid "integration ref is not configured")
  let blocking ← .ask fun s => s.integrations.rows.any fun i => i.repository = b.repository &&
    i.refName = b.refName && i.state.unfinished
  .require (blocking = false) .conflict
  inStore (insertOperation (leaseOperation env.lease b))
  .insert (·.insertIntegration ⟨env.lease, b.repository, b.refName, b.resultId, .effectPending⟩)
    .conflict
  pure env.lease

namespace GroupStore

variable (s : GroupStore)

/-- `ACCEPTED_SUBMISSION`, by time and then by identity. -/
def acceptedSubmissions (task : TaskId) (attempt : AttemptId) : List Submission :=
  (s.submissions.rows.filter fun sub => sub.taskId = task && sub.attemptId = attempt &&
    ((s.contracts.find (sub.taskId, sub.contractRevision)).any fun c =>
      c.rawDigest = sub.contractDigest) && s.jobs.everyPolicyAccepted sub).insertionSort
    fun a b => a.createdUnixMs < b.createdUnixMs ∨
      (a.createdUnixMs = b.createdUnixMs ∧ a.submissionId ≤ b.submissionId)

/-- Why a submission may not complete its task. -/
def refusal (sub : Submission) : Option String :=
  if s.seededSubmission sub.submissionId then some "a seeded candidate never completes its task"
  else if s.completionHold sub then
    some "a candidate group's task completes only from its selected submission"
  else none

/-- The first accepted submission that nothing holds; automation passes over those that are not
ready. -/
def acceptedSubmission (automatic : Bool) (ready : String → Bool) (task : TaskId)
    (attempt : AttemptId) : Except StoreError String :=
  let accepted := s.acceptedSubmissions task attempt
  let considered := accepted.filter fun sub => !automatic || ready sub.submissionId
  if accepted.isEmpty then
    .error (invalid ("completion requires a submission of this attempt with accepted " ++
      "verification for every acceptance policy"))
  else match considered.find? fun sub => (s.refusal sub).isNone with
    | some sub => .ok sub.submissionId
    | none => .error (invalid ("completion refused: " ++
        ((considered.filterMap s.refusal).head?.getD "")))

end GroupStore

/-- `request_completion`, whose accepted submission the tables decide. -/
def requestCompletion (id : TaskId) (expectedRevision : Nat) (now : Int) (automatic : Bool) :
    GroupTx CompletionChange := do
  let s ← .ask fun s => s
  inStore (Herdr.requestCompletion { env.outside with
    acceptedSubmission := s.acceptedSubmission automatic env.automaticReady } id expectedRevision now)

/-! ## Calls -/

inductive GroupMethod where
  | jobs (method : JobMethod)
  | installContract (request : ContractRequest)
  | createCandidateGroup (task : TaskId) (profiles : List String) (principal : String) (now : Int)
  | admitPrepared (prepared : List LaunchInputs) (expectedHead : Nat) (now : Int) (draft : Bool)
      (delegated : Option PreparedDelegatedReservation)
  | submitResult (request : SubmissionRequest)
  | commitVerification (draft : RunDraft)
  | selectCandidate (group : String) (choice : SelectionChoice) (reason principal : String)
      (now : Int)
  | selectCandidateByRule (group : String) (now : Int)
  | selectCandidateByJudge (group submission judge : String) (configuration : Option String)
      (runnerUp : List String) (now : Int)
  | registerEvaluationCandidate (submission : String) (arm : EvaluationArm)
  | registerReplayCandidate (task : TaskId)
  | beginIntegration (b : IntegrationBegin)
  | requestCompletion (id : TaskId) (expectedRevision : Nat) (now : Int) (automatic : Bool)

structure GroupCall where
  method : GroupMethod
  surroundings : Surroundings

variable [Digests] [JobDigests] [GroupDigests]

/-- The transaction body of a call; what it answers is not needed here. -/
def GroupCall.body (c : GroupCall) : GroupTx Unit :=
  let env := c.surroundings
  match c.method with
  | .jobs method => inJobs (JobCall.body ⟨method, env.outside⟩)
  | .installContract request => Groups.installContract env request
  | .createCandidateGroup task profiles principal now =>
    discard (Groups.createCandidateGroup env task profiles principal now)
  | .admitPrepared prepared head now draft delegated =>
    Groups.admitPrepared env prepared head now draft delegated
  | .submitResult request => Groups.submitResult env request
  | .commitVerification draft => Groups.commitVerification env draft
  | .selectCandidate group choice reason principal now =>
    discard (Groups.selectCandidate env group choice reason principal now)
  | .selectCandidateByRule group now => discard (Groups.selectCandidateByRule env group now)
  | .selectCandidateByJudge group submission judge configuration runnerUp now =>
    discard (Groups.selectCandidateByJudge env group submission judge configuration runnerUp now)
  | .registerEvaluationCandidate submission arm =>
    Groups.registerEvaluationCandidate env submission arm
  | .registerReplayCandidate task => Groups.registerReplayCandidate env task
  | .beginIntegration b => discard (Groups.beginIntegration env b)
  | .requestCompletion id revision now automatic =>
    discard (Groups.requestCompletion env id revision now automatic)

/-- Answer one call. -/
def GroupCall.exec (c : GroupCall) (s : GroupStore) : Except StoreError Unit × GroupStore :=
  Tx.commit c.body s

end Herdr.Groups
