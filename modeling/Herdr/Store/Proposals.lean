import Mathlib.Data.List.Sort
import Herdr.Store.Plans
import Herdr.Store.Scheduler

/-!
# Plan proposals

`apply_plan_proposal` (`src/store/plans.rs`) with the checks of `src/store/plans/changes.rs`,
`src/store/plans/sessions.rs` and `src/store/plans/graph.rs`, and the trigger that folds an accepted
proposal into the planning intents.
-/

namespace Herdr.Plans

variable [Documents]

/-! ## Documents -/

/-- `changes::project_id`. -/
def projectId (path : String) : String := sha256Text ("project-store\x00" ++ path)

def addedDependencies : Change → Option (List Dependency)
  | .addDependencies _ _ dependencies => some dependencies
  | _ => none

def cancellation : Change → Option String
  | .requestCancellation _ _ reason => some reason
  | _ => none

/-- The checks of one change of a version 3 document; `seen` are the tasks of earlier changes. -/
def Change.validate (contracts : List ProposedContract) (envelope : Envelope) (seen : List TaskId)
    (change : Change) : Except StoreError Unit := do
  if change.task ∈ seen ∨ ¬ contracts.any (fun c => c.taskId = change.task) then
    throw (invalid "each changed task requires exactly one resulting contract intent")
  if change.expected.any fun r => r.planRevision = 0 || envelope.expectedPlanRevision < r.planRevision
      || !digest64 r.proposalId || !digest64 r.payloadDigest then
    throw (invalid "invalid expected plan intent reference")
  if (addedDependencies change).any fun d => d.isEmpty || 256 < d.length then
    throw (invalid "invalid added dependency inventory")
  if (cancellation change).any fun reason => !plain reason 4000 then
    throw (invalid "invalid cancellation reason")

def validateChangeList (contracts : List ProposedContract) (envelope : Envelope) :
    List TaskId → List Change → Except StoreError Unit
  | _, [] => .ok ()
  | seen, change :: rest => do
    change.validate contracts envelope seen
    validateChangeList contracts envelope (change.task :: seen) rest

/-- `changes::validate_document`. -/
def validateDocument (document : ProposalFile) : Except StoreError Unit :=
  match document.envelope, document.planner with
  | none, _ => .error (invalid "version 3 requires a proposal envelope")
  | _, none => .error (invalid "version 3 requires a planner session")
  | some envelope, some planner =>
    if envelope.schemaVersion ≠ 1 ∨ ¬ digest64 envelope.projectId ∨
        ¬ digest64 envelope.storeIncarnation ∨ ¬ identifier envelope.requestId ∨
        ¬ identifier envelope.idempotencyKey ∨ envelope.actorId ≠ planner.sessionId ∨
        envelope.delegation.isSome ∨ i64Max < envelope.expectedPlanRevision ∨
        ¬ digest64 envelope.payloadDigest ∨
        envelope.payloadDigest ≠ Documents.sha256 (Documents.payload document) ∨
        document.changes.isEmpty ∨ 64 < document.changes.length ∨
        document.changes.length ≠ document.contracts.length then
      .error (invalid "invalid version-3 proposal envelope or payload")
    else validateChangeList document.contracts envelope [] document.changes

/-- The checks of the contracts, in order; `seen` are the tasks of earlier contracts. -/
def validateContracts : List TaskId → List ProposedContract → Except StoreError Unit
  | _, [] => .ok ()
  | seen, contract :: rest => do
    if contract.taskId ∈ seen ∨ ¬ plain contract.text proposalLimit then
      throw (invalid "invalid plan proposal")
    if 256 < contract.dependencies.length then
      throw (invalid "dependency inventory exceeds bounds")
    validateContracts (contract.taskId :: seen) rest

/-- The JSON text of the contracts' tasks and texts. -/
def contractTexts (contracts : List ProposedContract) : String :=
  Json.array (contracts.map fun c =>
    Json.object [("task_id", Json.string c.taskId.val), ("text", Json.string c.text)])

/-- The checks of a decoded document's version. -/
def validateVersion (document : ProposalFile) : Except StoreError Unit := do
  if (document.version, document.planner.isSome) ∉ [(1, false), (2, true), (3, true)] ∨
      document.contracts.isEmpty ∨ 1024 < document.contracts.length then
    throw (invalid "invalid plan proposal")
  if document.version = 3 then validateDocument document
  else if document.envelope.isSome ∨ ¬ document.changes.isEmpty ∨
      document.contracts.any (·.cancellationReason.isSome) then
    throw (invalid "typed changes require proposal version 3")

/-- The proposal of a document whose contracts and texts are in bounds. -/
def ProposalFile.parsed (document : ProposalFile) : Except StoreError ParsedProposal := do
  validateContracts [] document.contracts
  if proposalLimit < (contractTexts document.contracts).utf8ByteSize then
    throw (invalid "plan proposal exceeds 256 KiB")
  return {
    contracts := document.contracts
    contractTexts := contractTexts document.contracts
    planner := document.planner
    envelope := document.envelope
    changes := document.changes }

/-- `parse_proposal`. -/
def parseProposal (raw : Bytes) : Except StoreError ParsedProposal :=
  if raw.isEmpty ∨ proposalLimit < raw.length then .error (invalid "plan proposal exceeds 256 KiB")
  else match Documents.proposal raw with
    | none => .error (invalid "invalid plan proposal")
    | some document => do
      validateVersion document
      document.parsed

/-! ## Planner sessions -/

structure PlannerSession where
  inputDigest : String
  input : PlannerInput
deriving DecidableEq, Repr

/-- The checks that `sessions::load` makes of a stored row. -/
def PlannerSessionRow.load (row : PlannerSessionRow) (id : String) :
    Except StoreError PlannerSession :=
  if proposalLimit < row.input.length ∨ Documents.sha256 row.input ≠ row.inputDigest then
    .error (.corrupt "planner input digest mismatch")
  else match Documents.input row.input with
    | none => .error (.corrupt "invalid planner input")
    | some input =>
      if input.version ≠ 1 ∨ input.sessionId ≠ id ∨
          sha256Text input.intent ≠ input.intentDigest then
        .error (.corrupt "planner input identity mismatch")
      else .ok ⟨row.inputDigest, input⟩

/-- `sessions::validate_binding`. -/
def validateBinding (binding : PlannerBinding) (parent : Nat) : PlanTx Unit := do
  .require (identifier binding.sessionId ∧ binding.inputDigest.utf8ByteSize = 64 ∧
    plain binding.rationale (16 * 1024)) (invalid "invalid planner session binding")
  let row ← .find (·.sessions.find binding.sessionId) (invalid "planner session is missing")
  let session ← .check (row.load binding.sessionId)
  let path ← .ask PlanStore.path
  let incarnation ← .ask PlanStore.incarnation
  .require (session.input.projectStore = path ∧ session.input.storeIncarnation = incarnation)
    .conflict
  .require (session.inputDigest = binding.inputDigest ∧
    session.input.parentPlanRevision = parent) .conflict

/-- `sessions::validate_binding` of the binding of a proposal that has one. -/
def validatePlanner (planner : Option PlannerBinding) (parent : Nat) : PlanTx Unit :=
  match planner with
  | none => pure ()
  | some binding => validateBinding binding parent

/-! ## Changes -/

/-- The envelope's identities match the store, the key and the parent. -/
def Envelope.names (envelope : Envelope) (key : String) (parent : Nat) (db : PlanStore) : Bool :=
  envelope.projectId = Plans.projectId db.path && envelope.storeIncarnation = db.incarnation &&
    envelope.idempotencyKey = key && envelope.expectedPlanRevision = parent

/-- `changes::validate_identity`. -/
def validateIdentity (proposal : ParsedProposal) (key : String) (parent : Nat) : PlanTx Unit :=
  match proposal.envelope with
  | none => pure ()
  | some envelope => do
    let named ← .ask (envelope.names key parent)
    .require (named = true) .conflict
    let existing ← .ask (·.requests.find envelope.requestId)
    .require (existing = none) .conflict

/-- `changes::validate_replay`. -/
def validateReplay (proposal : ParsedProposal) (key : String) (parent : Nat) (id : String) :
    PlanTx Unit :=
  match proposal.envelope with
  | none => pure ()
  | some envelope => do
    let linked ← .ask fun db => (db.requests.find envelope.requestId).any (·.proposalId = id)
    let named ← .ask (envelope.names key parent)
    .require (named = true ∧ linked = true) .conflict

/-- The stored intent that a change expects, with its proposal. -/
def PlanStore.expectedIntent (db : PlanStore) (task : TaskId) :
    Option (PlanTaskIntent × PlanProposal) :=
  (db.intents.find task).bind fun intent =>
    (db.proposals.find intent.proposalId).map fun proposal => (intent, proposal)

/-- `changes::current`. -/
def currentIntent (task : TaskId) (expected : IntentReference) : PlanTx ProposedContract := do
  let (intent, proposal) ← .find (·.expectedIntent task) .conflict
  .require (intent.proposalId = expected.proposalId ∧ intent.planRevision = expected.planRevision ∧
    proposal.payloadDigest = expected.payloadDigest) .conflict
  .require (Documents.sha256 proposal.payload = proposal.payloadDigest)
    (.corrupt "prior plan intent digest mismatch")
  let parsed ← .check (parseProposal proposal.payload)
  match parsed.contracts.find? (·.taskId = task) with
  | none => throw (.corrupt "prior plan intent is missing")
  | some prior =>
    .require (prior.dependencies = intent.dependencies ∧
      prior.cancellationReason = intent.cancellationReason)
      (.corrupt "prior plan intent projection mismatch")
    pure prior

/-- `changes::unstarted`. -/
def unstarted (task : TaskId) : PlanTx Unit := do
  let started ← .ask fun db =>
    ((db.tasks.find task).any fun t => t.activeAttempt.isSome || t.state ∉ [.draft, .queued]) ||
      db.attempts.rows.any fun a => a.task = task && !a.terminationObserved
  .require (started = false)
    (invalid "running or completed task requires reviewed rework, not unstarted supersession")

/-- `changes::dependencies`: a map from predecessor to requirement, as its sorted entries. -/
def dependencyMap (values : List Dependency) : Except StoreError (List Dependency) :=
  if (values.map (·.predecessor)).Nodup then
    .ok (values.insertionSort fun a b => a.predecessor.val ≤ b.predecessor.val)
  else .error (invalid "duplicate dependency")

/-- The checks of an `AddDependencies` change. -/
def validateAddition (prior next : ProposedContract) (added : List Dependency) :
    Except StoreError Unit := do
  if prior.cancellationReason.isSome ∨ next.cancellationReason.isSome ∨ next.text ≠ prior.text then
    throw (invalid "dependency addition cannot change contract text or cancellation")
  let old ← dependencyMap prior.dependencies
  let added ← dependencyMap added
  if added.any fun d => old.any fun o => o.predecessor = d.predecessor then
    throw (invalid "added dependency already exists")
  let expected ← dependencyMap (old ++ added)
  let result ← dependencyMap next.dependencies
  if expected ≠ result then throw (invalid "resulting dependencies do not match additions")

/-- `changes::validate_changes` for one change. -/
def validateChange (contracts : List ProposedContract) (change : Change) : PlanTx Unit :=
  match contracts.find? (·.taskId = change.task) with
  | none => throw (invalid "missing resulting intent")
  | some next =>
    match change with
    | .createContract task => do
      let taken ← .ask fun db => (db.intents.find task).isSome || task ∈ db.contracts
      .require (taken = false ∧ next.cancellationReason = none) .conflict
      unstarted task
    | .supersedeUnstarted task expected => do
      let _ ← currentIntent task expected
      unstarted task
      .require (next.cancellationReason = none)
        (invalid "supersession cannot request cancellation")
    | .addDependencies task expected added => do
      let prior ← currentIntent task expected
      .check (validateAddition prior next added)
    | .requestCancellation task expected reason => do
      let prior ← currentIntent task expected
      .require (prior.cancellationReason = none ∧ next.text = prior.text ∧
        next.dependencies = prior.dependencies ∧ next.cancellationReason = some reason)
        (invalid "cancellation must preserve contract intent and record the exact reason")

def validateChanges (proposal : ParsedProposal) : PlanTx Unit :=
  .forEach (validateChange proposal.contracts) proposal.changes

/-! ## The dependency graph -/

/-- `queue.insert(id, dependencies)` of a map of dependencies. -/
def overlay (queue : List QueueRecord) (id : TaskId) (dependencies : List Dependency) :
    List QueueRecord :=
  queue.filter (fun q => q.task ≠ id) ++ [⟨id, 0, 0, 0, dependencies⟩]

/-- The queue under the accepted intents. -/
def overlayIntents (queue : List QueueRecord) (intents : List PlanTaskIntent) :
    List QueueRecord :=
  intents.foldl (fun q i => overlay q i.taskId i.dependencies) queue

/-- The queue under the contracts of a proposal. -/
def overlayContracts (queue : List QueueRecord) (contracts : List ProposedContract) :
    List QueueRecord :=
  contracts.foldl (fun q c => overlay q c.taskId c.dependencies) queue

/-- The entries of the map in key order. -/
def byTask (queue : List QueueRecord) : List QueueRecord :=
  queue.insertionSort fun a b => a.task.val ≤ b.task.val

/-- `validate_graph`. -/
def validateGraph (nodes : List TaskId) (queue : List QueueRecord) : Except StoreError Unit :=
  if 10000 < queue.length then .error (invalid "queued task inventory exceeds 10000")
  else if 100000 < (queue.map (·.dependencies.length)).sum then
    .error (invalid "dependency inventory exceeds bounds")
  else graphIds nodes (byTask queue)

/-- The predecessors of a queue's entries. -/
def predecessors (queue : List QueueRecord) : List TaskId :=
  queue.flatMap fun q => q.dependencies.map (·.predecessor)

/-- `graph::validate`: the stored queue alone, and then under the accepted intents and this
proposal. -/
def rejectCycles (proposal : ParsedProposal) : PlanTx Unit := do
  let queue ← .ask (·.queue.rows)
  let tasks ← .ask fun db => db.tasks.rows.map (·.id)
  .require (queue.length ≤ 10000) (invalid "queued task inventory exceeds 10000")
  .require (∀ q ∈ queue, q.task ∈ tasks) (.corrupt "queued task is missing")
  .require ((predecessors queue).length ≤ 100000) (invalid "dependency inventory exceeds bounds")
  .require (∀ p ∈ predecessors queue, p ∈ tasks) (.corrupt "dependency task is missing")
  .require (∀ q ∈ queue, q.dependencies.length ≤ 256)
    (invalid "dependency inventory exceeds bounds")
  let stored := queue.map (·.task) ++ predecessors queue
  .check (validateGraph stored queue)
  let intents ← .ask (·.intents.rows)
  .require (intents.length ≤ 10000) (invalid "planned task inventory exceeds 10000")
  .require (∀ i ∈ intents, i.dependencies.length ≤ 256)
    (invalid "dependency inventory exceeds bounds")
  .require ((intents.map (·.dependencies.length)).sum ≤ 100000)
    (invalid "planned dependency inventory exceeds bounds")
  let planned := overlayContracts (overlayIntents queue intents) proposal.contracts
  let nodes := stored ++ intents.map (·.taskId) ++ proposal.contracts.map (·.taskId)
  .require (∀ p ∈ predecessors planned, p ∈ nodes ∨ p ∈ tasks) (invalid "missing dependency task")
  .check (validateGraph (nodes ++ predecessors planned) planned)

/-! ## Acceptance -/

structure PlanProposalReceipt where
  planRevision : Nat
  proposalId : String
  digest : String
  replayed : Bool
deriving DecidableEq, Repr

/-- `lookup_proposal`. -/
def PlanStore.lookupProposal (db : PlanStore) (key : String) : Option PlanProposal :=
  db.proposals.rows.find? fun p => p.projectStore = db.path && p.idempotencyKey = key

/-- The automatic request that a key answers. -/
def PlanStore.automaticReplan (db : PlanStore) (key : String) : Option ReplanRequest :=
  (db.replans.find key).filter fun r => r.outcome = .automatic

/-- The upsert of one contract by the trigger `plan_task_intents_accept`. -/
def upsertIntent (intents : Table PlanTaskIntent PlanTaskIntent.taskId) (next : PlanTaskIntent) :
    Table PlanTaskIntent PlanTaskIntent.taskId :=
  match intents.insert? next, intents.find next.taskId with
  | some added, _ => added
  | none, some old => if old.planRevision < next.planRevision then intents.update next else intents
  | none, none => intents

/-- The trigger `plan_task_intents_accept`. -/
def acceptIntents (row : PlanProposal) (intents : Table PlanTaskIntent PlanTaskIntent.taskId) :
    Table PlanTaskIntent PlanTaskIntent.taskId :=
  match Documents.proposal row.payload with
  | none => intents
  | some document => document.contracts.foldl (fun t c => upsertIntent t
      ⟨c.taskId, row.proposalId, row.planRevision, c.dependencies, c.cancellationReason⟩) intents

/-- `INSERT INTO plan_proposals` with its constraints and its trigger. -/
def insertProposal (row : PlanProposal) : PlanTx Unit :=
  .insert (fun db =>
    if db.proposals.rows.any fun p => (p.projectStore = row.projectStore &&
        p.idempotencyKey = row.idempotencyKey) || p.planRevision = row.planRevision then none
    else (db.proposals.insert? row).map fun proposals =>
      { db with proposals := proposals, intents := acceptIntents row db.intents }) .conflict

def insertRevision (row : PlanRevision) : PlanTx Unit :=
  .insert (fun db =>
    if db.revisions.rows.any fun r => r.proposalId = row.proposalId then none
    else (db.revisions.insert? row).map fun revisions => { db with revisions := revisions })
    .conflict

/-- `changes::record`. -/
def record (proposal : ParsedProposal) (id : String) : PlanTx Unit :=
  match proposal.envelope with
  | none => pure ()
  | some envelope =>
    .insert (fun db =>
      if db.requests.rows.any fun r => r.proposalId = id then none
      else (db.requests.insert? ⟨envelope.requestId, id⟩).map fun requests =>
        { db with requests := requests }) .conflict

def recordInput (planner : Option PlannerBinding) (id : String) : PlanTx Unit :=
  match planner with
  | none => pure ()
  | some binding =>
    .insert (fun db => (db.inputs.insert? ⟨id, binding.sessionId, binding.inputDigest⟩).map
      fun inputs => { db with inputs := inputs }) .conflict

/-- `record_replan_reset`. -/
def recordReplanReset (planRevision : Nat) (now : Int) : PlanTx Unit :=
  .insert (fun db => (db.resets.insert? ⟨planRevision, now⟩).map fun resets =>
    { db with resets := resets }) .conflict

/-- The identity of the inbox item that asks for a replan. -/
def replanNotice (replanId : String) : String := sha256Text ("replan-notice\x00" ++ replanId)

def InboxRow.finish (row : InboxRow) : InboxRow :=
  if row.done then row
  else { row with revision := row.revision + 1, seen := true, done := true }

/-- The answer to an automatic replan request. -/
def recordResponse (key proposalId : String) (planRevision : Nat) (now : Int) : PlanTx Unit := do
  .insert (fun db =>
    if db.responses.rows.any fun r => r.proposalId = proposalId then none
    else (db.responses.insert? ⟨key, proposalId, now⟩).map fun responses =>
      { db with responses := responses }) .conflict
  logEvent key 1 (.replanResponded proposalId planRevision)
  let notice ← .ask (·.inbox.find (replanNotice key))
  match notice with
  | none => pure ()
  | some row => do
    .write fun db => { db with inbox := db.inbox.update row.finish }
    logEvent row.id row.finish.revision .inboxDone

/-- The answer to the request that the key names, when there is one. -/
def respond (replan : Option ReplanRequest) (key proposalId : String) (planRevision : Nat)
    (now : Int) : PlanTx Unit :=
  match replan with
  | none => pure ()
  | some _ => recordResponse key proposalId planRevision now

/-- A known key: the same bytes get the stored receipt again. -/
def replayProposal (raw : Bytes) (key : String) (existing : PlanProposal) :
    PlanTx PlanProposalReceipt := do
  .require (Documents.sha256 existing.payload = existing.payloadDigest)
    (.corrupt "plan proposal digest mismatch")
  .require (existing.payloadDigest = Documents.sha256 raw) .conflict
  let proposal ← .check (parseProposal raw)
  validateReplay proposal key (existing.planRevision - 1) existing.proposalId
  validatePlanner proposal.planner (existing.planRevision - 1)
  let linked ← .ask fun db => proposal.planner.all fun binding =>
    (db.inputs.find existing.proposalId).any fun i =>
      i.sessionId = binding.sessionId && i.inputDigest = binding.inputDigest
  .require (linked = true) (.corrupt "planner proposal input link missing")
  let answered ← .ask fun db => (db.automaticReplan key).all fun _ =>
    (db.responses.find key).any fun r => r.proposalId = existing.proposalId
  .require (answered = true) .conflict
  pure ⟨existing.planRevision, existing.proposalId, existing.payloadDigest, true⟩

/-- The writes of an accepted proposal. -/
def acceptProposal (raw : Bytes) (key : String) (proposal : ParsedProposal) (current : Nat)
    (replan : Option ReplanRequest) (now : Int) : PlanTx PlanProposalReceipt := do
  .require (current + 1 < 2 ^ 64) (invalid "plan revision exhausted")
  let digest := Documents.sha256 raw
  let path ← .ask PlanStore.path
  let proposalId := sha256Text (path ++ "\x00" ++ key ++ "\x00" ++ digest)
  logEvent proposalId (current + 1) (.planProposed proposalId digest current
    proposal.contracts.length)
  insertProposal ⟨proposalId, path, key, digest, raw, current, current + 1, now⟩
  insertRevision ⟨current + 1, current, proposalId, digest, proposal.contractTexts, now⟩
  record proposal proposalId
  recordInput proposal.planner proposalId
  recordReplanReset (current + 1) now
  respond replan key proposalId (current + 1) now
  pure ⟨current + 1, proposalId, digest, false⟩

/-- A new key. -/
def newProposal (raw : Bytes) (expectedParent : Nat) (key : String) (now : Int) :
    PlanTx PlanProposalReceipt := do
  let proposal ← .check (parseProposal raw)
  let current ← .ask PlanStore.currentRevision
  .require (current = expectedParent) (.stalePlanParent current)
  validatePlanner proposal.planner current
  let replan ← .ask (·.automaticReplan key)
  .require (replan.all (·.planRevision = current) = true) (.stalePlanParent current)
  validateIdentity proposal key current
  validateChanges proposal
  rejectCycles proposal
  acceptProposal raw key proposal current replan now

/-- `apply_plan_proposal_with_budget`. A busy database or an exhausted read budget aborts the call
with `fault`. -/
def applyPlanProposal (raw : Bytes) (expectedParent : Nat) (key : String) (now : Int)
    (fault : Option StoreError) : PlanTx PlanProposalReceipt := do
  .outside fault
  .require (¬ raw.isEmpty ∧ raw.length ≤ proposalLimit) (invalid "plan proposal exceeds 256 KiB")
  .require (identifier key) (invalid "invalid plan idempotency key")
  let path ← .ask PlanStore.path
  .require (¬ path.isEmpty ∧ path.utf8ByteSize ≤ 4096)
    (invalid "plan project store path is invalid")
  let existing ← .ask (·.lookupProposal key)
  match existing with
  | some existing => replayProposal raw key existing
  | none => newProposal raw expectedParent key now

/-! ## Runs -/

/-- What other writers of the store do between two proposals. They own the tables that proposals
only read, and add sessions and replan requests; a session or request whose identity is taken is
refused, and the identity of a request is not the key of a proposal that was accepted before it. -/
structure Elsewhere where
  events : List PlanEvent
  tasks : Table Task Task.id
  attempts : Table Attempt Attempt.id
  queue : Table QueueRecord QueueRecord.task
  contracts : List TaskId
  inbox : Table InboxRow InboxRow.id
  feedback : Table FeedbackItem FeedbackItem.feedbackId
  claims : Table ClaimRow ClaimRow.key
  links : Table FeedbackLink FeedbackLink.feedbackId
  autoReplans : Bool
  active : Bool
  sessions : List PlannerSessionRow
  replans : List ReplanRequest

def addSession (sessions : Table PlannerSessionRow PlannerSessionRow.sessionId)
    (row : PlannerSessionRow) : Table PlannerSessionRow PlannerSessionRow.sessionId :=
  (sessions.insert? row).getD sessions

def addReplan (accepted : List String) (replans : Table ReplanRequest ReplanRequest.replanId)
    (row : ReplanRequest) : Table ReplanRequest ReplanRequest.replanId :=
  if row.replanId ∈ accepted then replans else (replans.insert? row).getD replans

def Elsewhere.apply (e : Elsewhere) (db : PlanStore) : PlanStore :=
  { db with
    events := db.events ++ e.events
    tasks := e.tasks
    attempts := e.attempts
    queue := e.queue
    contracts := e.contracts
    inbox := e.inbox
    feedback := e.feedback
    claims := e.claims
    links := e.links
    autoReplans := e.autoReplans
    active := e.active
    sessions := e.sessions.foldl addSession db.sessions
    replans := e.replans.foldl (addReplan (db.proposals.rows.map (·.idempotencyKey))) db.replans }

inductive Call where
  | apply (raw : Bytes) (expectedParent : Nat) (key : String) (now : Int)
      (fault : Option StoreError)
  | elsewhere (change : Elsewhere)

/-- Other writers answer nothing. -/
abbrev Answer := Option (Except StoreError PlanProposalReceipt)

def exec : Call → PlanStore → Answer × PlanStore
  | .apply raw expectedParent key now fault, db =>
    let (answer, db) := (applyPlanProposal raw expectedParent key now fault).commit db
    (some answer, db)
  | .elsewhere change, db => (none, change.apply db)

end Herdr.Plans
