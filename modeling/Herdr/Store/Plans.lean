import Herdr.Domain.Records
import Herdr.Lib.Run
import Herdr.Lib.Table
import Herdr.Lib.Transaction

/-!
# Plans: documents and tables

The documents of `src/store/plans.rs`, `src/store/plans/changes.rs` and
`src/store/plans/sessions.rs`, and the tables that plan proposals, feedback and replan requests live
in. The store is at the current schema version.
-/

namespace Herdr.Plans

abbrev Bytes := List UInt8

/-! ## Proposal documents -/

structure ProposedContract where
  taskId : TaskId
  text : String
  dependencies : List Dependency
  cancellationReason : Option String
deriving DecidableEq, Repr

structure PlannerBinding where
  sessionId : String
  inputDigest : String
  rationale : String
deriving DecidableEq, Repr

structure Envelope where
  schemaVersion : Nat
  projectId : String
  storeIncarnation : String
  requestId : String
  idempotencyKey : String
  actorId : String
  delegation : Option VersionedReference
  expectedPlanRevision : Nat
  payloadDigest : String
deriving DecidableEq, Repr

structure IntentReference where
  proposalId : String
  planRevision : Nat
  payloadDigest : String
deriving DecidableEq, Repr

inductive Change where
  | createContract (taskId : TaskId)
  | supersedeUnstarted (taskId : TaskId) (expected : IntentReference)
  | addDependencies (taskId : TaskId) (expected : IntentReference) (dependencies : List Dependency)
  | requestCancellation (taskId : TaskId) (expected : IntentReference) (reason : String)
deriving DecidableEq, Repr

def Change.task : Change → TaskId
  | .createContract task | .supersedeUnstarted task _ | .addDependencies task _ _
  | .requestCancellation task _ _ => task

def Change.expected : Change → Option IntentReference
  | .createContract _ => none
  | .supersedeUnstarted _ expected | .addDependencies _ expected _
  | .requestCancellation _ expected _ => some expected

structure ProposalFile where
  version : Nat
  contracts : List ProposedContract
  planner : Option PlannerBinding
  envelope : Option Envelope
  changes : List Change
deriving DecidableEq, Repr

structure ParsedProposal where
  contracts : List ProposedContract
  contractTexts : String
  planner : Option PlannerBinding
  envelope : Option Envelope
  changes : List Change
deriving DecidableEq, Repr

/-- The fields of a planner input that a binding is checked against. -/
structure PlannerInput where
  version : Nat
  sessionId : String
  projectStore : String
  storeIncarnation : String
  parentPlanRevision : Nat
  intent : String
  intentDigest : String
deriving DecidableEq, Repr

/-- The codecs that the store takes from its libraries. Nothing in this development depends on
which functions they are. -/
class Documents where
  /-- SHA-256 as lowercase hexadecimal. -/
  sha256 : Bytes → String
  /-- `serde_json::from_slice` of a proposal in UTF-8. -/
  proposal : Bytes → Option ProposalFile
  /-- `serde_json::from_slice` of a planner input. -/
  input : Bytes → Option PlannerInput
  /-- The sorted JSON of contracts, planner and changes that an envelope's digest is about. -/
  payload : ProposalFile → Bytes
  /-- `jiff::Timestamp::from_millisecond` as text. -/
  timestamp : Int → Option String

variable [Documents]

def sha256Text (text : String) : String := Documents.sha256 text.toUTF8.toList

/-! ## Tables -/

structure PlannerSessionRow where
  sessionId : String
  input : Bytes
  inputDigest : String
deriving DecidableEq, Repr

structure PlanProposal where
  proposalId : String
  projectStore : String
  idempotencyKey : String
  payloadDigest : String
  payload : Bytes
  parentRevision : Nat
  planRevision : Nat
  createdUnixMs : Int
deriving DecidableEq, Repr

structure PlanRevision where
  planRevision : Nat
  parentRevision : Nat
  proposalId : String
  payloadDigest : String
  contractTexts : String
  createdUnixMs : Int
deriving DecidableEq, Repr

structure PlanTaskIntent where
  taskId : TaskId
  proposalId : String
  planRevision : Nat
  dependencies : List Dependency
  cancellationReason : Option String
deriving DecidableEq, Repr

structure PlanProposalRequest where
  requestId : String
  proposalId : String
deriving DecidableEq, Repr

structure PlannerProposalInput where
  proposalId : String
  sessionId : String
  inputDigest : String
deriving DecidableEq, Repr

structure ReplanBudgetReset where
  planRevision : Nat
  resetUnixMs : Int
deriving DecidableEq, Repr

inductive ReplanOutcome where
  | automatic | escalated
deriving DecidableEq, Repr

structure ReplanRequest where
  replanId : String
  feedbackId : String
  planRevision : Nat
  blockerFingerprint : String
  outcome : ReplanOutcome
  proposalId : Option String
  inboxId : Option String
  createdUnixMs : Int
deriving DecidableEq, Repr

structure ReplanResponse where
  replanId : String
  proposalId : String
  createdUnixMs : Int
deriving DecidableEq, Repr

structure InboxContent where
  id : String
  kind : String
  subject : String
  created : String
  summary : String
  body : String
deriving DecidableEq, Repr

structure InboxRow where
  id : String
  revision : Nat
  payload : String
  payloadHash : String
  seen : Bool
  done : Bool
deriving DecidableEq, Repr

inductive FeedbackCategory where
  | verifierRejection | integratorRejection | integratorConflict | invalidation
deriving DecidableEq, Repr

def FeedbackCategory.asStr : FeedbackCategory → String
  | .verifierRejection => "verifier_rejection"
  | .integratorRejection => "integrator_rejection"
  | .integratorConflict => "integrator_conflict"
  | .invalidation => "invalidation"

inductive FeedbackState where
  | opened | claimed | acked
deriving DecidableEq, Repr

structure FeedbackItem where
  feedbackId : String
  operationId : String
  outcomeRevision : Int
  category : FeedbackCategory
  taskId : TaskId
  reason : String
  state : FeedbackState
  replanProposalId : Option String
  createdUnixMs : Int
deriving DecidableEq, Repr

inductive ClaimState where
  | active | expired | acked
deriving DecidableEq, Repr

/-- A row of `feedback_claims`. -/
structure ClaimRow where
  feedbackId : String
  claimEpoch : Nat
  owner : String
  leaseUntilMs : Int
  state : ClaimState
  claimedUnixMs : Int
deriving DecidableEq, Repr

def ClaimRow.key (row : ClaimRow) : String × Nat := (row.feedbackId, row.claimEpoch)

structure FeedbackLink where
  feedbackId : String
  replanId : String
deriving DecidableEq, Repr

/-- What a plan event records. -/
inductive PlanEventBody where
  | planProposed (proposalId digest : String) (parentRevision contractCount : Nat)
  | replanResponded (proposalId : String) (planRevision : Nat)
  | inboxDone
  | replanRequested (inboxId feedbackId : String) (planRevision : Nat)
  | replanEscalated (feedbackId : String) (task : TaskId) (planRevision : Nat)
  | feedbackLinked (replanId : String)
  | other (kind payload : String)
deriving DecidableEq, Repr

structure PlanEvent where
  entity : String
  revision : Nat
  body : PlanEventBody
deriving DecidableEq, Repr

structure PlanStore where
  /-- The canonical path of the database file. -/
  path : String
  /-- The incarnation of `active_work_meta`. -/
  incarnation : String
  events : List PlanEvent
  tasks : Table Task Task.id
  attempts : Table Attempt Attempt.id
  /-- `task_queue`, each row with its `task_dependencies`. -/
  queue : Table QueueRecord QueueRecord.task
  /-- The tasks of `task_contracts`. -/
  contracts : List TaskId
  sessions : Table PlannerSessionRow PlannerSessionRow.sessionId
  proposals : Table PlanProposal PlanProposal.proposalId
  revisions : Table PlanRevision PlanRevision.planRevision
  intents : Table PlanTaskIntent PlanTaskIntent.taskId
  requests : Table PlanProposalRequest PlanProposalRequest.requestId
  inputs : Table PlannerProposalInput PlannerProposalInput.proposalId
  resets : Table ReplanBudgetReset ReplanBudgetReset.planRevision
  replans : Table ReplanRequest ReplanRequest.replanId
  responses : Table ReplanResponse ReplanResponse.replanId
  inbox : Table InboxRow InboxRow.id
  feedback : Table FeedbackItem FeedbackItem.feedbackId
  claims : Table ClaimRow ClaimRow.key
  links : Table FeedbackLink FeedbackLink.feedbackId
  /-- `auto_replan_control` is enabled. -/
  autoReplans : Bool
  /-- `project_control` is active. -/
  active : Bool
deriving DecidableEq

/-- A new store. -/
def PlanStore.created (path incarnation : String) : PlanStore where
  path := path
  incarnation := incarnation
  events := []
  tasks := .empty
  attempts := .empty
  queue := .empty
  contracts := []
  sessions := .empty
  proposals := .empty
  revisions := .empty
  intents := .empty
  requests := .empty
  inputs := .empty
  resets := .empty
  replans := .empty
  responses := .empty
  inbox := .empty
  feedback := .empty
  claims := .empty
  links := .empty
  autoReplans := false
  active := false

abbrev PlanTx (α : Type) := Tx PlanStore StoreError α

def invalid (message : String) : StoreError := .invalid message

def proposalLimit : Nat := 256 * 1024

/-- `identifier`. -/
def identifier (value : String) : Bool :=
  1 ≤ value.utf8ByteSize && value.utf8ByteSize ≤ 128 &&
    value.toList.all fun c => asciiAlphanumeric c || "-_.:".toList.contains c

/-- `plain`. -/
def plain (value : String) (max : Nat) : Bool :=
  !value.isEmpty && value.utf8ByteSize ≤ max && !hasControl value

/-- `integer`. -/
def integer (value : Nat) : PlanTx Unit :=
  .require (value ≤ i64Max) (invalid "integer exceeds SQLite range")

/-- `INSERT INTO events`. -/
def logEvent (entity : String) (revision : Nat) (body : PlanEventBody) : PlanTx Unit := do
  integer revision
  .write fun db => { db with events := db.events ++ [⟨entity, revision, body⟩] }

/-- `current_revision`: the largest stored plan revision. -/
def PlanStore.currentRevision (db : PlanStore) : Nat :=
  (db.revisions.rows.map (·.planRevision)).foldl max 0

/-! ## Inbox items -/

/-- `InboxContent::validate`. -/
def InboxContent.validate (c : InboxContent) : Except StoreError Unit :=
  if c.id.isEmpty ∨ 512 < c.id.utf8ByteSize ∨ c.id.toList.head? = some '.' ∨
      (c.id.toList.zip (c.id.toList.drop 1)).any (· = ('.', '.')) ∨
      ¬ c.id.toList.all (fun b => asciiAlphanumeric b || "-_.".toList.contains b) then
    .error (invalid "invalid inbox identity")
  else .ok ()

/-- `serde_json::to_string` of an inbox item's content. -/
def InboxContent.json (c : InboxContent) : String :=
  Json.object [("id", Json.string c.id), ("kind", Json.string c.kind),
    ("subject", Json.string c.subject), ("created", Json.string c.created),
    ("summary", Json.string c.summary), ("body", Json.string c.body)]

/-- `INSERT INTO inbox_items` of an unread item. -/
def insertInbox (c : InboxContent) : PlanTx Unit :=
  .insert (fun db => (db.inbox.insert?
    ⟨c.id, 1, c.json, sha256Text c.json, false, false⟩).map fun inbox => { db with inbox := inbox })
    .conflict

end Herdr.Plans
