import Herdr.Store.Proposals

/-!
# Feedback leases and replan requests

`src/store/feedback.rs`, and the replan half of `src/store/plans.rs` with
`src/store/plans/replan_service.rs`: two automatic replans for one blocker inside a plan revision,
then one escalation that later feedback about the same blocker joins.
-/

namespace Herdr.Plans

variable [Documents]

/-! ## Feedback -/

structure LocalFeedback where
  operationId : String
  outcomeRevision : Int
  category : FeedbackCategory
  taskId : TaskId
  reason : String
deriving DecidableEq, Repr

/-- `reason_ok`. -/
def reasonOk (value : String) : Bool :=
  1 ≤ value.utf8ByteSize && value.utf8ByteSize ≤ 128 &&
    value.toList.all fun c => c.val ≤ 0x7f && !isControl c

/-- `insert_feedback`: once for each operation, outcome revision and category. -/
def insertFeedback (item : LocalFeedback) (now : Int) : PlanTx Unit := do
  .require (identifier item.operationId ∧ identifier item.taskId.val)
    (invalid "feedback identifier is invalid")
  .require (0 < item.outcomeRevision ∧ reasonOk item.reason) (invalid "feedback outcome is invalid")
  let existing ← .ask fun db => db.feedback.rows.find? fun f =>
    f.operationId = item.operationId && f.outcomeRevision = item.outcomeRevision &&
      f.category = item.category
  match existing with
  | some f => .require (f.taskId = item.taskId ∧ f.reason = item.reason) .conflict
  | none =>
    .insert (fun db => (db.feedback.insert? ⟨sha256Text (item.operationId ++ "\x00" ++
      toString item.outcomeRevision ++ "\x00" ++ item.category.asStr), item.operationId,
      item.outcomeRevision, item.category, item.taskId, item.reason, .opened, none, now⟩).map
      fun feedback => { db with feedback := feedback }) .conflict

/-- The active claim of a feedback item. -/
def PlanStore.activeClaim (db : PlanStore) (feedbackId : String) : Option ClaimRow :=
  db.claims.rows.find? fun c => c.feedbackId = feedbackId && c.state = .active

/-- `coalesce(max(claim_epoch), 0)`. -/
def PlanStore.latestEpoch (db : PlanStore) (feedbackId : String) : Nat :=
  ((db.claims.rows.filter fun c => c.feedbackId = feedbackId).map (·.claimEpoch)).foldl max 0

def setClaim (row : ClaimRow) (state : ClaimState) : PlanTx Unit :=
  .write fun db => { db with claims := db.claims.update { row with state := state } }

/-- `INSERT INTO feedback_claims` at the next epoch. The index `feedback_claims_one_active` refuses
a second active claim. -/
def insertClaim (feedbackId owner : String) (leaseUntil now : Int) : PlanTx ClaimRow := do
  let epoch ← .ask fun db => db.latestEpoch feedbackId + 1
  let row : ClaimRow := ⟨feedbackId, epoch, owner, leaseUntil, .active, now⟩
  .insert (fun db =>
    if (db.activeClaim feedbackId).isSome then none
    else (db.claims.insert? row).map fun claims => { db with claims := claims }) .conflict
  pure row

def setFeedback (item : FeedbackItem) : PlanTx Unit :=
  .write fun db => { db with feedback := db.feedback.update item }

structure FeedbackClaim where
  feedbackId : String
  claimEpoch : Nat
  owner : String
  leaseUntilMs : Int
deriving DecidableEq, Repr

def ClaimRow.claim (row : ClaimRow) : FeedbackClaim :=
  ⟨row.feedbackId, row.claimEpoch, row.owner, row.leaseUntilMs⟩

/-- Take the next epoch and mark the item claimed. -/
def takeFeedback (item : FeedbackItem) (owner : String) (leaseUntil now : Int) :
    PlanTx FeedbackClaim := do
  let row ← insertClaim item.feedbackId owner leaseUntil now
  setFeedback { item with state := .claimed }
  pure row.claim

/-- `claim_feedback_item`. An unexpired lease stays with its owner; an expired one can be taken at
a new epoch. -/
def claimFeedbackItem (feedbackId owner : String) (now leaseMs : Int) : PlanTx FeedbackClaim := do
  .require (identifier feedbackId ∧ identifier owner) (invalid "feedback identifier is invalid")
  .require (0 ≤ now ∧ now ≤ i64Max - 600000) (invalid "clock outside supported range")
  .require (1 ≤ leaseMs ∧ leaseMs ≤ 300000) (invalid "lease must be 1..300000 ms")
  let item ← .find (·.feedback.find feedbackId) .conflict
  .require (item.state ≠ .acked) .conflict
  let active ← .ask (·.activeClaim feedbackId)
  match active with
  | some claim =>
    if now < claim.leaseUntilMs then
      .require (claim.owner = owner) .conflict
      pure claim.claim
    else
      setClaim claim .expired
      takeFeedback item owner (now + leaseMs) now
  | none => takeFeedback item owner (now + leaseMs) now

/-- `ack_feedback_item`. -/
def ackFeedbackItem (feedbackId : String) (claimEpoch : Nat) (owner replanProposalId : String)
    (now : Int) : PlanTx Unit := do
  .require (identifier feedbackId ∧ identifier owner ∧ identifier replanProposalId)
    (invalid "feedback identifier is invalid")
  .require (0 < claimEpoch) (invalid "feedback claim is invalid")
  .require (0 ≤ now ∧ now ≤ i64Max - 600000) (invalid "clock outside supported range")
  let item ← .find (·.feedback.find feedbackId) .conflict
  .require (item.state = .claimed) .conflict
  let claim ← .find (·.claims.find (feedbackId, claimEpoch)) .conflict
  let latest ← .ask (·.latestEpoch feedbackId)
  .require (claimEpoch = latest ∧ claim.state = .active ∧ claim.owner = owner ∧
    now < claim.leaseUntilMs) .conflict
  setClaim claim .acked
  .require (item.replanProposalId = none) .conflict
  setFeedback { item with state := .acked, replanProposalId := some replanProposalId }

/-! ## Replan requests -/

inductive ReplanDecision where
  | automatic (replanId proposalId : String) (automaticCount : Nat)
  | escalated (replanId inboxId : String)
deriving DecidableEq, Repr

def ReplanDecision.replanId : ReplanDecision → String
  | .automatic replanId _ _ | .escalated replanId _ => replanId

def ReplanDecision.outcome : ReplanDecision → ReplanOutcome
  | .automatic .. => .automatic
  | .escalated .. => .escalated

def replanOwner : String := "replan-controller"

def automaticReplans : Nat := 2

/-- `blocker_fingerprint`. -/
def blockerFingerprint (item : FeedbackItem) : String :=
  sha256Text (item.taskId.val ++ "\x00" ++ item.category.asStr ++ "\x00" ++ item.reason)

/-- The requests of one blocker inside one plan revision that ended in `outcome`. -/
def ReplanRequest.charges (planRevision : Nat) (fingerprint : String) (outcome : ReplanOutcome)
    (r : ReplanRequest) : Bool :=
  r.planRevision = planRevision && r.blockerFingerprint = fingerprint && r.outcome = outcome

/-- `automatic_count`. Revisions, not clocks, delimit the budget. -/
def PlanStore.automaticCount (db : PlanStore) (planRevision : Nat) (fingerprint : String) : Nat :=
  db.replans.rows.countP (ReplanRequest.charges planRevision fingerprint .automatic)

/-- `decision_from_row`. -/
def decisionFromRow (r : ReplanRequest) (automaticCount : Nat) :
    Except StoreError ReplanDecision :=
  match r.outcome, r.proposalId, r.inboxId with
  | .automatic, some proposalId, _ => .ok (.automatic r.replanId proposalId automaticCount)
  | .automatic, none, _ => .error (.corrupt "automatic replan lacks a proposal")
  | .escalated, _, some inboxId => .ok (.escalated r.replanId inboxId)
  | .escalated, _, none => .error (.corrupt "escalated replan lacks an inbox item")

/-- The request that a feedback item is linked to. -/
def PlanStore.linked (db : PlanStore) (feedbackId : String) : Option ReplanRequest :=
  (db.links.find feedbackId).bind fun link => db.replans.find link.replanId

/-- `existing_replan`. -/
def existingReplan (feedbackId : String) : PlanTx (Option ReplanDecision) := do
  let row ← .ask (·.linked feedbackId)
  match row with
  | none => pure none
  | some r => do
    let count ← .ask (·.automaticCount r.planRevision r.blockerFingerprint)
    let decision ← .check (decisionFromRow r count)
    pure (some decision)

/-- `existing_escalation`. -/
def PlanStore.existingEscalation (db : PlanStore) (planRevision : Nat) (fingerprint : String) :
    Option ReplanRequest :=
  db.replans.rows.find? (ReplanRequest.charges planRevision fingerprint .escalated)

/-- The inbox item that asks for a plan proposal. -/
def noticeContent (r : ReplanRequest) (item : FeedbackItem) (created : String) : InboxContent where
  id := replanNotice r.replanId
  kind := "replan-request"
  subject := item.taskId.val
  created := created
  summary := "plan revision requested for " ++ item.taskId.val
  body := Json.object [("category", Json.string item.category.asStr),
    ("expected_plan_revision", toString r.planRevision),
    ("feedback_id", Json.string r.feedbackId),
    ("idempotency_key", Json.string r.replanId),
    ("operation_id", Json.string item.operationId),
    ("reason", Json.string item.reason),
    ("replan_id", Json.string r.replanId),
    ("response", Json.string ("Submit an unsigned plan proposal using the expected plan revision " ++
      "and idempotency key. This request grants no execution authority.")),
    ("schema_version", "1"),
    ("task_id", Json.string item.taskId.val)]

def timestamp (ms : Int) : Except StoreError String :=
  match Documents.timestamp ms with
  | some text => .ok text
  | none => .error (invalid "timestamp out of range")

/-- `ensure_replan_notice`. -/
def ensureReplanNotice : ReplanDecision → PlanTx Unit
  | .escalated .. => pure ()
  | .automatic replanId _ _ => do
    let r ← .find (·.automaticReplan replanId) .noRows
    let item ← .find (·.feedback.find r.feedbackId) (.corrupt "replan feedback is missing")
    let created ← .check (timestamp r.createdUnixMs)
    let content := noticeContent r item created
    .check content.validate
    let existing ← .ask (·.inbox.find content.id)
    match existing with
    | some row =>
      .require (row.payload = content.json ∧ row.payloadHash = sha256Text content.json)
        (.corrupt "replan notice identity mismatch")
    | none => do
      insertInbox content
      logEvent replanId 1 (.replanRequested content.id r.feedbackId r.planRevision)

/-- `replan_service::available`. -/
def PlanStore.available (db : PlanStore) (feedbackId : String) (now : Int) : Bool :=
  (db.feedback.find feedbackId).any (·.state ≠ .acked) &&
    !db.claims.rows.any fun c => c.feedbackId = feedbackId && c.state = .active &&
      now < c.leaseUntilMs && c.owner ≠ replanOwner

/-- `insert_replan_claim`. -/
def insertReplanClaim (feedbackId : String) (now : Int) : PlanTx ClaimRow := do
  .require (now + 60000 ≤ i64Max) (invalid "lease exceeds clock range")
  insertClaim feedbackId replanOwner (now + 60000) now

/-- The claim that acknowledges an item: a live one of the controller, or the next epoch. -/
def replanClaim (feedbackId : String) (now : Int) : PlanTx ClaimRow := do
  let active ← .ask (·.activeClaim feedbackId)
  match active with
  | some claim =>
    if now < claim.leaseUntilMs then
      .require (claim.owner = replanOwner) .conflict
      pure claim
    else
      setClaim claim .expired
      insertReplanClaim feedbackId now
  | none => insertReplanClaim feedbackId now

/-- `ack_replan_proposal`. An unexpired claim held by someone else conflicts. -/
def ackReplanProposal (feedbackId proposalId : String) (now : Int) : PlanTx Unit := do
  let item ← .find (·.feedback.find feedbackId) .noRows
  if item.state = .acked then
    .require (item.replanProposalId = some proposalId) .conflict
  else
    let claim ← replanClaim feedbackId now
    .require (item.replanProposalId = none) .conflict
    setClaim claim .acked
    setFeedback { item with state := .acked, replanProposalId := some proposalId }

/-- `INSERT INTO replan_requests` with its constraints. -/
def insertReplan (r : ReplanRequest) : PlanTx Unit :=
  .insert (fun db =>
    if (db.replans.rows.any fun q => q.feedbackId = r.feedbackId) ||
        (r.outcome = .escalated &&
          (db.existingEscalation r.planRevision r.blockerFingerprint).isSome) then none
    else (db.replans.insert? r).map fun replans => { db with replans := replans }) .conflict

/-- `replan_service::link`. -/
def link (feedbackId : String) (decision : ReplanDecision) : PlanTx Unit := do
  .insert (fun db => (db.links.insert? ⟨feedbackId, decision.replanId⟩).map fun links =>
    { db with links := links }) .conflict
  logEvent feedbackId 1 (.feedbackLinked decision.replanId)

/-- The inbox item of an escalation. -/
def escalationContent (inboxId : String) (item : FeedbackItem) (planRevision : Nat)
    (created : String) : InboxContent where
  id := inboxId
  kind := "replan-escalation"
  subject := item.taskId.val
  created := created
  summary := "replan budget exhausted for " ++ item.taskId.val
  body := "impact: " ++ item.reason ++ " blocks " ++ item.taskId.val ++ " at plan " ++
    toString planRevision ++ ". evidence: feedback " ++ item.feedbackId ++ " (" ++
    item.category.asStr ++ "). options: approve a new plan revision or stop this blocker."

/-- `insert_escalation_inbox`. -/
def insertEscalationInbox (inboxId : String) (item : FeedbackItem) (planRevision : Nat)
    (now : Int) : PlanTx Unit := do
  let created ← .check (timestamp now)
  let content := escalationContent inboxId item planRevision created
  .check content.validate
  insertInbox content
  logEvent inboxId 1 (.replanEscalated item.feedbackId item.taskId planRevision)

def replanIdOf (feedbackId : String) : String := sha256Text ("replan\x00" ++ feedbackId)

/-- One more automatic replan inside the budget. -/
def automaticRequest (feedbackId fingerprint : String) (planRevision used : Nat) (now : Int) :
    PlanTx ReplanDecision := do
  let replanId := replanIdOf feedbackId
  insertReplan ⟨replanId, feedbackId, planRevision, fingerprint, .automatic, some replanId, none,
    now⟩
  ackReplanProposal feedbackId replanId now
  let decision := ReplanDecision.automatic replanId replanId (used + 1)
  ensureReplanNotice decision
  link feedbackId decision
  pure decision

/-- The escalation once the budget is spent. -/
def escalate (item : FeedbackItem) (fingerprint : String) (planRevision : Nat) (now : Int) :
    PlanTx ReplanDecision := do
  let replanId := replanIdOf item.feedbackId
  let inboxId := sha256Text ("escalate\x00" ++ toString planRevision ++ "\x00" ++ fingerprint)
  insertEscalationInbox inboxId item planRevision now
  insertReplan ⟨replanId, item.feedbackId, planRevision, fingerprint, .escalated, none,
    some inboxId, now⟩
  let decision := ReplanDecision.escalated replanId inboxId
  link item.feedbackId decision
  pure decision

/-- Join the escalation that exists. -/
def joinEscalation (feedbackId : String) (r : ReplanRequest) : PlanTx ReplanDecision := do
  let decision ← .check (decisionFromRow r 0)
  link feedbackId decision
  pure decision

/-- A feedback item that has no decision yet. -/
def decide (item : FeedbackItem) (now : Int) : PlanTx ReplanDecision := do
  let available ← .ask (·.available item.feedbackId now)
  .require (available = true) .conflict
  let planRevision ← .ask PlanStore.currentRevision
  let fingerprint := blockerFingerprint item
  let used ← .ask (·.automaticCount planRevision fingerprint)
  let escalation ← .ask (·.existingEscalation planRevision fingerprint)
  if used < automaticReplans then
    automaticRequest item.feedbackId fingerprint planRevision used now
  else match escalation with
    | some r => joinEscalation item.feedbackId r
    | none => escalate item fingerprint planRevision now

/-- `request_replan_selected`. The service asks with `automatic`, which needs the control. Every
category of feedback that the table can hold triggers a replan. -/
def requestReplan (feedbackId : String) (automatic : Bool) (now : Int)
    (fault : Option StoreError) : PlanTx ReplanDecision := do
  .outside fault
  .require (identifier feedbackId) (invalid "replan requires a schema 29 feedback row")
  let enabled ← .ask fun db => db.autoReplans && db.active
  .require (automatic = true → enabled = true) .conflict
  let existing ← existingReplan feedbackId
  match existing with
  | some decision => do
    ensureReplanNotice decision
    pure decision
  | none => do
    let item ← .find (·.feedback.find feedbackId)
      (invalid "replan requires a schema 29 feedback row")
    Plans.decide item now

/-! ## Runs -/

/-- What other writers of the store do. They own the tables that no operation here writes, add
planner sessions and inbox items, and read inbox items. -/
structure Others where
  events : List PlanEvent
  tasks : Table Task Task.id
  attempts : Table Attempt Attempt.id
  queue : Table QueueRecord QueueRecord.task
  contracts : List TaskId
  autoReplans : Bool
  active : Bool
  sessions : List PlannerSessionRow
  inbox : List InboxRow
  finished : List String

def addInbox (inbox : Table InboxRow InboxRow.id) (row : InboxRow) : Table InboxRow InboxRow.id :=
  (inbox.insert? row).getD inbox

def finishInbox (inbox : Table InboxRow InboxRow.id) (id : String) : Table InboxRow InboxRow.id :=
  match inbox.find id with
  | some row => inbox.update row.finish
  | none => inbox

def Others.apply (o : Others) (db : PlanStore) : PlanStore :=
  { db with
    events := db.events ++ o.events
    tasks := o.tasks
    attempts := o.attempts
    queue := o.queue
    contracts := o.contracts
    autoReplans := o.autoReplans
    active := o.active
    sessions := o.sessions.foldl addSession db.sessions
    inbox := o.finished.foldl finishInbox (o.inbox.foldl addInbox db.inbox) }

inductive ReplanCall where
  | request (feedbackId : String) (automatic : Bool) (now : Int) (fault : Option StoreError)
  | claim (feedbackId owner : String) (now leaseMs : Int)
  | ack (feedbackId : String) (claimEpoch : Nat) (owner replanProposalId : String) (now : Int)
  | feedback (item : LocalFeedback) (now : Int)
  | propose (raw : Bytes) (expectedParent : Nat) (key : String) (now : Int)
      (fault : Option StoreError)
  | others (change : Others)

inductive ReplanAnswer where
  | decision (d : ReplanDecision)
  | lease (claim : FeedbackClaim)
  | receipt (receipt : PlanProposalReceipt)
  | done
deriving DecidableEq, Repr

/-- Commit a body and wrap its result. -/
def answer {α : Type} (wrap : α → ReplanAnswer) (body : PlanTx α) (db : PlanStore) :
    Except StoreError ReplanAnswer × PlanStore :=
  ((body.commit db).1.map wrap, (body.commit db).2)

def execReplan : ReplanCall → PlanStore → Except StoreError ReplanAnswer × PlanStore
  | .request feedbackId automatic now fault =>
    answer .decision (requestReplan feedbackId automatic now fault)
  | .claim feedbackId owner now leaseMs =>
    answer .lease (claimFeedbackItem feedbackId owner now leaseMs)
  | .ack feedbackId claimEpoch owner replanProposalId now =>
    answer (fun _ => .done) (ackFeedbackItem feedbackId claimEpoch owner replanProposalId now)
  | .feedback item now => answer (fun _ => .done) (insertFeedback item now)
  | .propose raw expectedParent key now fault =>
    answer .receipt (applyPlanProposal raw expectedParent key now fault)
  | .others change => fun db => (.ok .done, change.apply db)

end Herdr.Plans
