import Herdr.Domain.Records
import Herdr.Domain.Text
import Herdr.Lib.Table
import Herdr.Lib.Patch
import Herdr.Lib.Transaction
import Herdr.Lib.Watermark

/-!
# Finding triage

`src/store/finding_triage.rs` and migration 0055: review findings become submissions with revisioned
claim sets, the triage authority decides claims, and canonical findings are merged and unmerged.
Every change is one row of `finding_log`, whose sequence numbers are shared with the other ledgers,
and `finding_state` replays the history to any sequence number.

The tables of migration 0056 and those of the factory that the replay reads are part of the same
store. Sequence numbers are unbounded here; schema checks are not modelled. JSON columns hold the
values that were encoded, and the excerpt of a title is a parameter.
-/

namespace Herdr.Findings

open Watermark

/-! ## Ledgers -/

/-- The `kind` column of `finding_log`. -/
inductive FindingKind where
  | submitted | decided | split | restored | merged | unmerged
deriving DecidableEq, Repr

/-- The `kind` column of `fix_log`. -/
inductive FixKind where
  | repairOpened | attemptBound | proposed | verified | integrated | repairClosed | reopened
  | introduced | credited | retracted
deriving DecidableEq, Repr

def FixKind.asStr : FixKind → String
  | .repairOpened => "repair_opened"
  | .attemptBound => "attempt_bound"
  | .proposed => "proposed"
  | .verified => "verified"
  | .integrated => "integrated"
  | .repairClosed => "repair_closed"
  | .reopened => "reopened"
  | .introduced => "introduced"
  | .credited => "credited"
  | .retracted => "retracted"

/-- A row of `finding_log` or `fix_log`. -/
structure LedgerRow (κ : Type) where
  seq : Int
  kind : κ
  principal : String
  authority : String
  expectedSeq : Option Int
  recordedUnixMs : Int
deriving DecidableEq, Repr

/-- A value of an event's subject. -/
inductive Cell where
  | null
  | int (n : Int)
  | text (s : String)
  | ints (ns : List Int)
  | texts (ss : List String)
  | shares (ss : List (String × String))
deriving DecidableEq, Repr

def Cell.int? (n : Option Int) : Cell := n.elim .null .int

def Cell.text? (s : Option String) : Cell := s.elim .null .text

abbrev Subject := List (String × Cell)

/-- A history row with what it changed. -/
structure FindingEvent (κ : Type) where
  row : LedgerRow κ
  subject : Subject
deriving DecidableEq, Repr

/-! ## Tables of migration 0055 -/

structure FindingSubmission where
  submissionId : Int
  seq : Int
  sessionId : String
  findingRef : String
  title : Option String
  trust : String
deriving DecidableEq, Repr

inductive ClaimSetKind where
  | initial | split | restore
deriving DecidableEq, Repr

structure ClaimSet where
  seq : Int
  submissionId : Int
  revision : Int
  kind : ClaimSetKind
  restores : Option Int
deriving DecidableEq, Repr

def ClaimSet.key (c : ClaimSet) : Int × Int := (c.submissionId, c.revision)

structure FindingClaim where
  claimId : Int
  submissionId : Int
  revision : Int
  ordinal : Int
  title : Option String
deriving DecidableEq, Repr

def FindingClaim.set (c : FindingClaim) : Int × Int := (c.submissionId, c.revision)

structure CanonicalFinding where
  findingId : String
  seq : Int
  title : Option String
deriving DecidableEq, Repr

/-- The recorded outcome of a claim. -/
inductive ClaimOutcome where
  | pending | validated | rejected | duplicate
deriving DecidableEq, Repr

def ClaimOutcome.asStr : ClaimOutcome → String
  | .pending => "pending"
  | .validated => "validated"
  | .rejected => "rejected"
  | .duplicate => "duplicate"

structure FindingDecision where
  seq : Int
  claimId : Int
  outcome : ClaimOutcome
  findingId : Option String
  reason : Option String
  severity : Option String
  severityPolicy : Option String
  evidenceRefs : List String
  supersedes : Option Int
deriving DecidableEq, Repr

inductive RelationshipKind where
  | merge | unmerge
deriving DecidableEq, Repr

structure FindingRelationship where
  seq : Int
  kind : RelationshipKind
  sourceFinding : String
  targetFinding : String
  reverses : Option Int
deriving DecidableEq, Repr

/-! ## Tables of migration 0056 -/

structure RepairOpportunity where
  seq : Int
  findingId : String
  configurationId : Option String
  profileDigest : Option String
  policy : String
  horizonMs : Int
deriving DecidableEq, Repr

/-- The `assignment` column: a group is either a configuration with its profile, or explicitly
unassigned. -/
def RepairOpportunity.assignment (o : RepairOpportunity) : String :=
  if o.configurationId.isSome then "configuration" else "unassigned"

structure RepairAttempt where
  seq : Int
  repairSeq : Int
  attemptId : String
  ordinal : Int
  configurationId : Option String
deriving DecidableEq, Repr

structure FixProposal where
  seq : Int
  repairSeq : Int
  submissionId : String
  attemptId : String
  candidateOid : String
deriving DecidableEq, Repr

structure VerificationRow where
  seq : Int
  proposalSeq : Int
  runId : String
  resultId : String
  commitOid : String
  assurance : String
  evidenceRefs : List String
deriving DecidableEq, Repr

structure IntegrationRow where
  seq : Int
  proposalSeq : Int
  verificationSeq : Int
  integratedId : String
  commitOid : String
  integratedUnixMs : Int
deriving DecidableEq, Repr

structure RepairClosure where
  seq : Int
  repairSeq : Int
  outcome : String
deriving DecidableEq, Repr

structure ReopeningRow where
  seq : Int
  findingId : String
  integrationSeq : Int
  reason : String
  observedOid : String
  evidenceRefs : List String
deriving DecidableEq, Repr

inductive IntroductionStatus where
  | attributed | unattributable
deriving DecidableEq, Repr

def IntroductionStatus.asStr : IntroductionStatus → String
  | .attributed => "attributed"
  | .unattributable => "unattributable"

structure IntroductionDecision where
  seq : Int
  findingId : String
  status : IntroductionStatus
  method : Option String
  introducingOid : Option String
  evidenceRefs : List String
deriving DecidableEq, Repr

inductive CreditRole where
  | discovery | implementation
deriving DecidableEq, Repr

def CreditRole.asStr : CreditRole → String
  | .discovery => "discovery"
  | .implementation => "implementation"

structure CreditAllocation where
  seq : Int
  findingId : String
  role : CreditRole
  proposalSeq : Option Int
  evidenceRefs : List String
deriving DecidableEq, Repr

structure ShareRow where
  seq : Int
  attemptId : String
  shareNum : Nat
  shareDen : Nat
deriving DecidableEq, Repr

structure FixRetraction where
  seq : Int
  reverses : Int
deriving DecidableEq, Repr

/-! ## Other tables that the replay or a check reads -/

/-- `seed_detections`: an evaluation artefact linked to a claim. -/
structure SeedDetection where
  seq : Int
  claimId : Int
deriving DecidableEq, Repr

structure SeedRetraction where
  seq : Int
  reverses : Int
deriving DecidableEq, Repr

structure ReviewSession where
  sessionId : String
  opportunityId : String
  attemptId : String
deriving DecidableEq, Repr

structure ReviewOpportunity where
  opportunityId : String
  candidateOid : String
deriving DecidableEq, Repr

/-- An attempt with the configuration of its row in `dispatch_decisions`, which the transaction
that creates the attempt writes and nothing changes; `none` where the attempt predates that log. -/
structure AttemptRow where
  id : String
  state : AttemptState
  configuration : Option String
deriving DecidableEq, Repr

structure ResultRow where
  submissionId : String
  attemptId : String
  candidateOid : String
deriving DecidableEq, Repr

structure RunRow where
  runId : String
  submissionId : String
  commitOid : String
  state : String
deriving DecidableEq, Repr

structure VerifiedRow where
  resultId : String
  runId : String
  submissionId : String
  commitOid : String
deriving DecidableEq, Repr

/-- `integrated_commits` left joined with its operation's verified result and its candidate. -/
structure IntegratedRow where
  integratedId : String
  commitOid : String
  createdUnixMs : Int
  verifiedSubmission : Option String
  verifiedCommit : Option String
  parentVerified : Option String
deriving DecidableEq, Repr

instance {κ : Type} : Stamped (LedgerRow κ) := ⟨(·.seq)⟩
instance : Stamped FindingSubmission := ⟨(·.seq)⟩
instance : Stamped ClaimSet := ⟨(·.seq)⟩
instance : Stamped CanonicalFinding := ⟨(·.seq)⟩
instance : Stamped FindingDecision := ⟨(·.seq)⟩
instance : Stamped FindingRelationship := ⟨(·.seq)⟩
instance : Stamped RepairOpportunity := ⟨(·.seq)⟩
instance : Stamped RepairAttempt := ⟨(·.seq)⟩
instance : Stamped FixProposal := ⟨(·.seq)⟩
instance : Stamped VerificationRow := ⟨(·.seq)⟩
instance : Stamped IntegrationRow := ⟨(·.seq)⟩
instance : Stamped RepairClosure := ⟨(·.seq)⟩
instance : Stamped ReopeningRow := ⟨(·.seq)⟩
instance : Stamped IntroductionDecision := ⟨(·.seq)⟩
instance : Stamped CreditAllocation := ⟨(·.seq)⟩
instance : Stamped ShareRow := ⟨(·.seq)⟩
instance : Stamped FixRetraction := ⟨(·.seq)⟩
instance : Stamped SeedDetection := ⟨(·.seq)⟩
instance : Stamped SeedRetraction := ⟨(·.seq)⟩

structure Ledgers where
  findingLog : List (LedgerRow FindingKind)
  submissions : List FindingSubmission
  claimSets : List ClaimSet
  claims : List FindingClaim
  canonicalFindings : List CanonicalFinding
  decisions : List FindingDecision
  relationships : List FindingRelationship
  fixLog : List (LedgerRow FixKind)
  repairs : List RepairOpportunity
  repairAttempts : List RepairAttempt
  proposals : List FixProposal
  verifications : List VerificationRow
  integrations : List IntegrationRow
  closures : List RepairClosure
  reopenings : List ReopeningRow
  introductions : List IntroductionDecision
  allocations : List CreditAllocation
  shares : List ShareRow
  retractions : List FixRetraction
  /-- The sequence numbers of `protocol_log`, `seed_log`, `review_log`, `review_decision_log` and
  `review_opportunity_log`. -/
  otherLogs : List Int
  seedDetections : List SeedDetection
  seedRetractions : List SeedRetraction
  sessions : Table ReviewSession ReviewSession.sessionId
  opportunities : Table ReviewOpportunity ReviewOpportunity.opportunityId
  attempts : Table AttemptRow AttemptRow.id
  results : Table ResultRow ResultRow.submissionId
  runs : Table RunRow RunRow.runId
  verified : Table VerifiedRow VerifiedRow.resultId
  integrated : Table IntegratedRow IntegratedRow.integratedId

/-- A store without history. -/
def Ledgers.empty : Ledgers :=
  ⟨[], [], [], [], [], [], [], [], [], [], [], [], [], [], [], [], [], [], [], [], [], [],
    .empty, .empty, .empty, .empty, .empty, .empty, .empty⟩

/-- `coalesce(max(..),0)`. -/
def maxOf (ns : List Int) : Int := ns.foldl max 0

/-- `head`: the watermark of the one ordering. -/
def Ledgers.head (db : Ledgers) : Int :=
  max (maxOf (db.findingLog.map (·.seq))) (max (maxOf (db.fixLog.map (·.seq))) (maxOf db.otherLogs))

abbrev FindingTx (α : Type) := Tx Ledgers String α

def constraintFailed : String := "UNIQUE constraint failed"
def foreignKeyFailed : String := "FOREIGN KEY constraint failed"
def noRows : String := "Query returned no rows"

/-! ## Checks -/

def triagePrincipal : String := "operator:cli"
def triageAuthorityText : String := "operator_owner.v1"
def severityPolicyText : String := "finding_severity.v1"
def severities : List String := ["critical", "high", "medium", "low", "informational"]
def rejectReasons : List String := ["insufficient_evidence", "intended_behavior", "out_of_scope"]
def pendingReasons : List String := ["reopened", "decided_in_error"]
def maxClaims : Nat := 32
def maxEvidence : Nat := 64

/-- The bytes of a text. -/
def textBytes (value : String) : List UInt8 := value.toByteArray.data.toList

/-- A lowercase hexadecimal digit. -/
def hexByte (b : UInt8) : Bool := (48 ≤ b && b ≤ 57) || (97 ≤ b && b ≤ 102)

def hex64 (value : List UInt8) : Bool := value.length = 64 && value.all hexByte

/-- `value.strip_prefix(begins)`, on bytes. -/
def stripped (begins value : String) : Option (List UInt8) :=
  (textBytes begins).isPrefixOf? (textBytes value)

def evidenceRef (value : String) : Bool :=
  ((stripped "sha256:" value).or (stripped "verification_run:" value)).any hex64

/-- `evidence`: the references, sorted; a duplicate or another text is refused. -/
def evidence (values : List String) : Except String (List String) :=
  let sorted := values.insertionSort (· ≤ ·)
  if maxEvidence < values.length then .error s!"at most {maxEvidence} evidence references"
  else if sorted.dedup.length ≠ values.length then .error "duplicate evidence reference"
  else match sorted.findIdx? fun v => !evidenceRef v with
    | some bad => .error s!"evidence reference {bad + 1} is not an allowed reference"
    | none => .ok sorted

/-- The excerpt of a title, `crate::domain::excerpt` with the owner's home directory. -/
class TitleExcerpt where
  titleExcerpt : String → Option String

def excerptOf [TitleExcerpt] (title : Option String) : Option String :=
  title.bind TitleExcerpt.titleExcerpt

/-- `triage_authority`: only the project owner triages. -/
def triageAuthority (principal : String) : FindingTx Unit := do
  .require (principal ≠ "" ∧ principal.utf8ByteSize ≤ 128) "invalid principal"
  let bare := stripped "worker:" principal
  let isAttempt ← .ask fun db => db.attempts.rows.any fun a =>
    textBytes a.id = bare.getD (textBytes principal)
  .require (bare.isNone ∧ isAttempt = false)
    "a worker cannot triage findings: a worker's report is a proposal"
  .require ((stripped "import:" principal).isNone)
    "an untrusted import cannot triage findings: imported reports stay proposals"
  .require (principal = triagePrincipal)
    s!"no finding triage authority for {principal}: only {triagePrincipal} (the project owner) triages until a reviewer-authority producer exists"

/-- The checks of `log`, and the next sequence number. -/
def nextSeq (principal : String) (expected : Option Int) : FindingTx Int := do
  triageAuthority principal
  let head ← .ask Ledgers.head
  .require (∀ e ∈ expected, e = head)
    s!"finding history moved: head is {head}, expected {expected.getD 0}"
  pure (head + 1)

/-- `log`: append the owner's history row. -/
def log (kind : FindingKind) (principal : String) (expected : Option Int) (now : Int) :
    FindingTx (LedgerRow FindingKind) := do
  let seq ← nextSeq principal expected
  let row : LedgerRow FindingKind := ⟨seq, kind, principal, triageAuthorityText, expected, now⟩
  .write fun db => { db with findingLog := db.findingLog ++ [row] }
  pure row

/-! ## Claim revisions and merges -/

/-- A bound that every sequence number is below, `i64::MAX`. -/
def i64Bound : Int := 2 ^ 63 - 1

/-- `claim_revision`: the current revision, and the one whose claims apply. -/
def Ledgers.claimRevision (db : Ledgers) (submission mark : Int) : Option (Int × Int) :=
  ((replay mark db.claimSets).filter (·.submissionId = submission)).getLast?.map fun c =>
    (c.revision, c.restores.getD c.revision)

def findingExists (finding : String) : FindingTx Unit := do
  let known ← .ask fun db => db.canonicalFindings.any (·.findingId = finding)
  .require (known = true) s!"no canonical finding {finding}"

/-- An active merge. -/
structure MergeEdge where
  source : String
  target : String
  seq : Int
deriving DecidableEq, Repr

abbrev MergeEdges := Table MergeEdge MergeEdge.source

def FindingRelationship.apply (edges : MergeEdges) (r : FindingRelationship) : MergeEdges :=
  match r.kind with
  | .merge => edges.put ⟨r.sourceFinding, r.targetFinding, r.seq⟩
  | .unmerge => edges.erase r.sourceFinding

/-- `merges`: the active merge edges. -/
def Ledgers.merges (db : Ledgers) (mark : Int) : MergeEdges :=
  (replay mark db.relationships).foldl FindingRelationship.apply .empty

/-- At most `n` steps along the edges. -/
def MergeEdges.follow (edges : MergeEdges) : Nat → String → String
  | 0, finding => finding
  | n + 1, finding =>
    match edges.find finding with
    | none => finding
    | some e => follow edges n e.target

/-- `root`: one step more than there are edges, and no further on a corrupt store. -/
def MergeEdges.root (edges : MergeEdges) (finding : String) : String :=
  edges.follow (edges.rows.length + 1) finding

/-! ## Submissions -/

/-- The next `INTEGER PRIMARY KEY`. -/
def nextId (ids : List Int) : Int := maxOf ids + 1

/-- One turn of `record_submissions`. -/
def recordSubmission (session : String) (title : Option String) (principal : String) (now : Int)
    (finding : String) : FindingTx Int := do
  let seq ← .ask fun db => db.head + 1
  let submission ← .ask fun db => nextId (db.submissions.map (·.submissionId))
  let claim ← .ask fun db => nextId (db.claims.map (·.claimId))
  .write fun db => { db with
    findingLog := db.findingLog ++ [⟨seq, .submitted, principal, "proposal", none, now⟩] }
  let known ← .ask fun db => (db.sessions.find session).isSome
  .require (known = true) foreignKeyFailed
  let fresh ← .ask fun db => db.submissions.all fun s =>
    s.submissionId ≠ submission && !(s.sessionId = session && s.findingRef = finding)
  .require (fresh = true) constraintFailed
  .write fun db => { db with
    submissions := db.submissions ++ [⟨submission, seq, session, finding, title, "proposal"⟩] }
  let unused ← .ask fun db => db.claimSets.all (·.key ≠ (submission, 1))
  .require (unused = true) constraintFailed
  .write fun db => { db with
    claimSets := db.claimSets ++ [⟨seq, submission, 1, .initial, none⟩]
    claims := db.claims ++ [⟨claim, submission, 1, 1, none⟩] }
  pure submission

/-- `record_submissions`: one submission for each finding reference of a completion. -/
def recordSubmissions (session : String) (titles : String → Option String) (principal : String)
    (now : Int) : List String → FindingTx (List Int)
  | [] => pure []
  | finding :: refs => do
    let id ← recordSubmission session (titles finding) principal now finding
    let ids ← recordSubmissions session titles principal now refs
    pure (id :: ids)

/-! ## Triage -/

inductive FindingTarget where
  | new (title : Option String)
  | existing (finding : String)
deriving DecidableEq, Repr

inductive TriageOutcome where
  | validated (target : FindingTarget) (severity : String)
  | rejected (reason : String)
  | duplicate (of : String)
  | pending (reason : Option String)
deriving DecidableEq, Repr

structure TriageRequest where
  outcome : TriageOutcome
  evidence : List String
  expectedSeq : Option Int
deriving DecidableEq, Repr

/-- What a request decides: the outcome, its target, reason and severity. -/
structure Ruling where
  outcome : ClaimOutcome
  target : Option FindingTarget
  reason : Option String
  severity : Option String
deriving DecidableEq, Repr

def TriageOutcome.ruling (evidence : List String) : TriageOutcome → Except String Ruling
  | .validated target severity =>
    if severity ∉ severities then .error s!"unknown severity {severity}"
    else if evidence = [] then .error "a validated finding needs at least one evidence reference"
    else .ok ⟨.validated, some target, none, some severity⟩
  | .rejected reason =>
    if reason ∉ rejectReasons then .error s!"unknown rejection reason {reason}"
    else .ok ⟨.rejected, none, some reason, none⟩
  | .duplicate finding => .ok ⟨.duplicate, some (.existing finding), none, none⟩
  | .pending none => .ok ⟨.pending, none, none, none⟩
  | .pending (some reason) =>
    if reason ∉ pendingReasons then .error s!"unknown pending reason {reason}"
    else .ok ⟨.pending, none, some reason, none⟩

variable [TitleExcerpt]

/-- The title of a claim, or of its submission. -/
def Ledgers.claimTitle (db : Ledgers) (claim : FindingClaim) : Option String :=
  claim.title.or ((db.submissions.find? (·.submissionId = claim.submissionId)).bind (·.title))

/-- The finding that a decision names; a new one is minted. -/
def decideTarget (claim : FindingClaim) (seq : Int) :
    Option FindingTarget → FindingTx (Option String)
  | none => pure none
  | some (.existing finding) => pure (some finding)
  | some (.new title) => do
    let finding := s!"finding:canonical-{seq}"
    let own ← .ask fun db => db.claimTitle claim
    .write fun db => { db with
      canonicalFindings := db.canonicalFindings ++ [⟨finding, seq, (excerptOf title).or own⟩] }
    pure (some finding)

def requireTarget : Option FindingTarget → FindingTx Unit
  | some (.existing finding) => findingExists finding
  | _ => pure ()

/-- `triage_finding_claim`. -/
def triageFindingClaim (claim : Int) (request : TriageRequest) (principal : String) (now : Int) :
    FindingTx (FindingEvent FindingKind) := do
  let evidence ← .check (evidence request.evidence)
  let ruling ← .check (request.outcome.ruling evidence)
  triageAuthority principal
  let row ← .find (fun db => db.claims.find? (·.claimId = claim)) s!"no finding claim {claim}"
  let current ← .ask fun db => (db.claimRevision row.submissionId i64Bound).map (·.2)
  let submission := row.submissionId
  .require (current = some row.revision)
    s!"claim {claim} is not in submission {submission}'s current claim set"
  requireTarget ruling.target
  let previous ← .ask fun db =>
    ((db.decisions.filter (·.claimId = claim)).map (·.seq)).max?
  let entry ← log .decided principal request.expectedSeq now
  let finding ← decideTarget row entry.seq ruling.target
  .write fun db => { db with
    decisions := db.decisions ++ [⟨entry.seq, claim, ruling.outcome, finding, ruling.reason,
      ruling.severity, ruling.severity.map fun _ => severityPolicyText, evidence, previous⟩] }
  pure ⟨entry, [("claim_id", .int claim), ("submission_id", .int submission),
    ("outcome", .text ruling.outcome.asStr), ("finding_id", .text? finding),
    ("reason", .text? ruling.reason), ("severity", .text? ruling.severity),
    ("evidence_refs", .texts evidence), ("supersedes", .int? previous)]⟩

/-- The claims of a split, with consecutive ids from `first` and ordinals from `ordinal`. -/
def splitClaims (submission revision : Int) : Int → Int → List (Option String) → List FindingClaim
  | _, _, [] => []
  | id, ordinal, title :: titles =>
    ⟨id, submission, revision, ordinal, excerptOf title⟩ ::
      splitClaims submission revision (id + 1) (ordinal + 1) titles

/-- `split_finding_submission`. -/
def splitFindingSubmission (submission : Int) (titles : List (Option String))
    (expected : Option Int) (principal : String) (now : Int) :
    FindingTx (FindingEvent FindingKind) := do
  .require (2 ≤ titles.length ∧ titles.length ≤ maxClaims) s!"a split has 2 to {maxClaims} claims"
  triageAuthority principal
  let current ← .find (fun db => db.claimRevision submission i64Bound)
    s!"no finding submission {submission}"
  let entry ← log .split principal expected now
  let revision := current.1 + 1
  let unused ← .ask fun db => db.claimSets.all (·.key ≠ (submission, revision))
  .require (unused = true) constraintFailed
  let first ← .ask fun db => nextId (db.claims.map (·.claimId))
  let claims := splitClaims submission revision first 1 titles
  .write fun db => { db with
    claimSets := db.claimSets ++ [⟨entry.seq, submission, revision, .split, none⟩]
    claims := db.claims ++ claims }
  pure ⟨entry, [("submission_id", .int submission), ("revision", .int revision),
    ("claims", .ints (claims.map (·.claimId)))]⟩

omit [TitleExcerpt]

/-- `restore_finding_claims`. -/
def restoreFindingClaims (submission revision : Int) (expected : Option Int) (principal : String)
    (now : Int) : FindingTx (FindingEvent FindingKind) := do
  triageAuthority principal
  let current ← .find (fun db => db.claimRevision submission i64Bound)
    s!"no finding submission {submission}"
  let set ← .find (fun db => db.claimSets.find? (·.key = (submission, revision)))
    s!"submission {submission} has no claim revision {revision}"
  .require (set.kind ≠ .restore)
    s!"claim revision {revision} is itself a restore; name the revision it restored"
  .require (revision ≠ current.2) s!"claim revision {revision} is already current"
  let entry ← log .restored principal expected now
  let next := current.1 + 1
  let unused ← .ask fun db => db.claimSets.all (·.key ≠ (submission, next))
  .require (unused = true) constraintFailed
  .write fun db => { db with
    claimSets := db.claimSets ++ [⟨entry.seq, submission, next, .restore, some revision⟩] }
  pure ⟨entry, [("submission_id", .int submission), ("revision", .int next),
    ("restores", .int revision)]⟩

/-- `merge_findings`. -/
def mergeFindings (source target : String) (expected : Option Int) (principal : String)
    (now : Int) : FindingTx (FindingEvent FindingKind) := do
  triageAuthority principal
  findingExists source
  findingExists target
  let edges ← .ask fun db => db.merges i64Bound
  let into := ((edges.find source).map (·.target)).getD ""
  .require ((edges.find source).isNone) s!"finding {source} is already merged into {into}"
  .require (edges.root target ≠ edges.root source)
    s!"findings {source} and {target} are already one group; a merge would form a cycle"
  let entry ← log .merged principal expected now
  .write fun db => { db with
    relationships := db.relationships ++ [⟨entry.seq, .merge, source, target, none⟩] }
  pure ⟨entry, [("source_finding", .text source), ("target_finding", .text target)]⟩

/-- `unmerge_findings`. -/
def unmergeFindings (mergeSeq : Int) (expected : Option Int) (principal : String) (now : Int) :
    FindingTx (FindingEvent FindingKind) := do
  triageAuthority principal
  let merge ← .find (fun db => db.relationships.find? fun r => r.seq = mergeSeq ∧ r.kind = .merge)
    s!"no finding merge at seq {mergeSeq}"
  let active ← .ask fun db => ((db.merges i64Bound).find merge.sourceFinding).map (·.seq)
  .require (active = some mergeSeq) s!"the merge at seq {mergeSeq} is not active"
  let entry ← log .unmerged principal expected now
  .write fun db => { db with
    relationships := db.relationships ++
      [⟨entry.seq, .unmerge, merge.sourceFinding, merge.targetFinding, some mergeSeq⟩] }
  pure ⟨entry, [("source_finding", .text merge.sourceFinding),
    ("target_finding", .text merge.targetFinding), ("reverses", .int mergeSeq)]⟩

end Herdr.Findings
