import Herdr.Store.Findings

/-!
# Replay of the finding history

`finding_state` of `src/store/finding_triage.rs` with `seed_linked_claims` of
`src/store/review_ledger.rs`: one definition for each query, with the cut at the watermark that the
query makes, and the folds over their rows.
-/

namespace Herdr.Findings

open Watermark

/-! ## Values -/

structure ClaimState where
  claimId : Int
  ordinal : Int
  title : Option String
  decisionSeq : Option Int
  decided : ClaimOutcome
  outcome : ClaimOutcome
  findingId : Option String
  canonicalFinding : Option String
  severity : Option String
  reason : Option String
  evidenceRefs : List String
  seedLinked : Bool
deriving DecidableEq, Repr

inductive SubmissionOutcome where
  | pending | validatedOnly | rejectedOnly | duplicateOnly | mixed
deriving DecidableEq, Repr

structure SubmissionState where
  submissionId : Int
  seq : Int
  sessionId : String
  findingRef : String
  opportunityId : String
  reporterAttemptId : String
  title : Option String
  recordedUnixMs : Int
  trust : String
  claimRevision : Int
  claims : List ClaimState
  /-- Derived from the claims once their outcomes are settled; `none` before. -/
  outcome : Option SubmissionOutcome
  hasValidatedClaim : Bool
deriving DecidableEq, Repr

inductive GroupStatus where
  | validated | merged | unvalidated
deriving DecidableEq, Repr

def GroupStatus.asStr : GroupStatus → String
  | .validated => "validated"
  | .merged => "merged"
  | .unvalidated => "unvalidated"

structure FindingGroupState where
  findingId : String
  title : Option String
  mintedSeq : Int
  mergedInto : Option String
  root : String
  status : GroupStatus
  discoveryClaim : Option Int
  validatedClaims : List Int
  duplicateClaims : List Int
deriving DecidableEq, Repr

/-- The claim-level counts, a `BTreeMap` with these four keys. -/
structure ClaimCounts where
  pending : Nat
  validated : Nat
  rejected : Nat
  duplicate : Nat
deriving DecidableEq, Repr

structure FindingSummary where
  submissions : Nat
  pending : Nat
  adjudicated : Nat
  validatedOnly : Nat
  rejectedOnly : Nat
  duplicateOnly : Nat
  mixed : Nat
  hasValidatedClaim : Nat
  claims : ClaimCounts
deriving DecidableEq, Repr

structure FindingState where
  headSeq : Int
  asOfSeq : Int
  uniqueFindings : Nat
  summary : FindingSummary
  submissions : List SubmissionState
  findings : List FindingGroupState
  history : List (FindingEvent FindingKind)
deriving DecidableEq, Repr

/-! ## Queries -/

/-- `seed_linked_claims`. -/
def Ledgers.seedLinkedClaims (db : Ledgers) (mark : Int) : List Int :=
  ((upTo mark db.seedDetections).filter fun d =>
    !(upTo mark db.seedRetractions).any (·.reverses = d.seq)).map (·.claimId)

/-- The latest decision of a claim. -/
def Ledgers.decisionOf (db : Ledgers) (mark claim : Int) : Option FindingDecision :=
  ((replay mark db.decisions).filter (·.claimId = claim)).getLast?

/-- A submission joined with its history row and its review session. -/
structure SubmissionRow where
  submission : FindingSubmission
  session : ReviewSession
  recorded : Int
deriving DecidableEq, Repr

def Ledgers.joinSubmission (db : Ledgers) (s : FindingSubmission) : Option SubmissionRow :=
  (rowAt db.findingLog s.seq).bind fun l =>
    (db.sessions.find s.sessionId).map fun r => ⟨s, r, l.recordedUnixMs⟩

def Ledgers.submissionRows (db : Ledgers) (mark : Int) : List SubmissionRow :=
  (replay mark db.submissions).filterMap db.joinSubmission

/-- The claims of a revision, which this query does not cut. -/
def Ledgers.claimsOf (db : Ledgers) (submission revision : Int) : List FindingClaim :=
  orderBy (·.ordinal) (db.claims.filter fun c => c.set = (submission, revision))

/-! ## Submissions and groups -/

/-- A claim with its latest decision, before the groups' discovery claims are known. -/
def Ledgers.claimState (db : Ledgers) (mark : Int) (title : Option String) (claim : FindingClaim) :
    ClaimState :=
  let d := db.decisionOf mark claim.claimId
  let decided := d.elim .pending (·.outcome)
  let findingId := d.bind (·.findingId)
  { claimId := claim.claimId
    ordinal := claim.ordinal
    title := claim.title.or title
    decisionSeq := d.map (·.seq)
    decided
    outcome := decided
    findingId
    canonicalFinding := findingId.map (db.merges mark).root
    severity := d.bind (·.severity)
    reason := d.bind (·.reason)
    evidenceRefs := d.elim [] (·.evidenceRefs)
    seedLinked := (db.seedLinkedClaims mark).contains claim.claimId }

def Ledgers.submissionState (db : Ledgers) (mark : Int) (row : SubmissionRow) :
    Except String SubmissionState :=
  let s := row.submission
  match db.claimRevision s.submissionId mark with
  | none =>
    let id := s.submissionId
    .error s!"finding submission {id} has no claim set"
  | some (revision, effective) => .ok {
      submissionId := s.submissionId
      seq := s.seq
      sessionId := s.sessionId
      findingRef := s.findingRef
      opportunityId := row.session.opportunityId
      reporterAttemptId := row.session.attemptId
      title := s.title
      recordedUnixMs := row.recorded
      trust := s.trust
      claimRevision := revision
      claims := (db.claimsOf s.submissionId effective).map (db.claimState mark s.title)
      outcome := none
      hasValidatedClaim := false }

/-- A validated claim in the discovery order of its group: submission, ordinal, claim. -/
abbrev DiscoveryKey := Int × Int × Int

def DiscoveryKey.before (a b : DiscoveryKey) : Bool :=
  a.1 < b.1 || (a.1 = b.1 && (a.2.1 < b.2.1 || (a.2.1 = b.2.1 && a.2.2 ≤ b.2.2)))

def SubmissionState.validated (s : SubmissionState) : List (String × DiscoveryKey) :=
  s.claims.filterMap fun c =>
    if c.decided = .validated then c.canonicalFinding.map (·, (s.seq, c.ordinal, c.claimId))
    else none

/-- The earliest validated claim of a group. -/
def discoveryOf (submissions : List SubmissionState) (root : String) : Option Int :=
  let group := ((submissions.flatMap (·.validated)).filter (·.1 = root)).map (·.2)
  (group.insertionSort fun a b => DiscoveryKey.before a b).head?.map (·.2.2)

/-- `derive_outcome`. -/
def deriveOutcome (s : SubmissionState) : SubmissionState :=
  let has o := s.claims.any (·.outcome = o)
  let all o := s.claims.all (·.outcome = o)
  { s with
    hasValidatedClaim := has .validated
    outcome := some (if has .pending then .pending
      else if all .validated then .validatedOnly
      else if all .rejected then .rejectedOnly
      else if all .duplicate then .duplicateOnly
      else .mixed) }

/-- Only the discovery claim of its group stays validated. -/
def settleClaim (discovery : String → Option Int) (c : ClaimState) : ClaimState :=
  if c.decided = .validated ∧ c.canonicalFinding.bind discovery ≠ some c.claimId then
    { c with outcome := .duplicate }
  else c

def settleSubmission (discovery : String → Option Int) (s : SubmissionState) : SubmissionState :=
  deriveOutcome { s with claims := s.claims.map (settleClaim discovery) }

def ClaimCounts.add (n : ClaimCounts) : ClaimOutcome → ClaimCounts
  | .pending => { n with pending := n.pending + 1 }
  | .validated => { n with validated := n.validated + 1 }
  | .rejected => { n with rejected := n.rejected + 1 }
  | .duplicate => { n with duplicate := n.duplicate + 1 }

def FindingSummary.none : FindingSummary := ⟨0, 0, 0, 0, 0, 0, 0, 0, ⟨0, 0, 0, 0⟩⟩

/-- Count one submission. -/
def FindingSummary.add (n : FindingSummary) (s : SubmissionState) : FindingSummary :=
  let n := { n with
    submissions := n.submissions + 1
    claims := s.claims.foldl (fun counts (c : ClaimState) => counts.add c.outcome) n.claims }
  let adjudicated := { n with
    adjudicated := n.adjudicated + 1
    hasValidatedClaim := n.hasValidatedClaim + if s.hasValidatedClaim then 1 else 0 }
  match s.outcome with
  | some .pending => { n with pending := n.pending + 1 }
  | some .validatedOnly => { adjudicated with validatedOnly := n.validatedOnly + 1 }
  | some .rejectedOnly => { adjudicated with rejectedOnly := n.rejectedOnly + 1 }
  | some .duplicateOnly => { adjudicated with duplicateOnly := n.duplicateOnly + 1 }
  | _ => { adjudicated with mixed := n.mixed + 1 }

/-- `FindingSummary::of`. -/
def FindingSummary.of (submissions : List SubmissionState) : FindingSummary :=
  submissions.foldl FindingSummary.add FindingSummary.none

/-- A canonical finding with its group. -/
def groupState (edges : MergeEdges) (discovery : String → Option Int)
    (submissions : List SubmissionState) (f : CanonicalFinding) : FindingGroupState :=
  let root := edges.root f.findingId
  let members outcome := ((submissions.flatMap (·.claims)).filter fun c =>
    c.findingId = some f.findingId && c.outcome = outcome).map (·.claimId)
  let discoveryClaim := if root = f.findingId then discovery f.findingId else none
  { findingId := f.findingId
    title := f.title
    mintedSeq := f.seq
    mergedInto := (edges.find f.findingId).map (·.target)
    root
    status := if root ≠ f.findingId then .merged
      else if discoveryClaim.isSome then .validated else .unvalidated
    discoveryClaim
    validatedClaims := members .validated
    duplicateClaims := members .duplicate }

/-! ## History -/

/-- What a history row changed, read from the table of its kind. -/
def Ledgers.findingSubject (db : Ledgers) (l : LedgerRow FindingKind) : Option Subject :=
  match l.kind with
  | .submitted => (rowAt db.submissions l.seq).map fun s =>
    [("submission_id", .int s.submissionId), ("session_id", .text s.sessionId),
      ("finding_ref", .text s.findingRef)]
  | .decided => (rowAt db.decisions l.seq).map fun d =>
    [("claim_id", .int d.claimId), ("outcome", .text d.outcome.asStr),
      ("finding_id", .text? d.findingId), ("reason", .text? d.reason),
      ("severity", .text? d.severity), ("supersedes", .int? d.supersedes)]
  | .split | .restored => (rowAt db.claimSets l.seq).map fun c =>
    [("submission_id", .int c.submissionId), ("revision", .int c.revision),
      ("restores", .int? c.restores)]
  | .merged | .unmerged => (rowAt db.relationships l.seq).map fun r =>
    [("source_finding", .text r.sourceFinding), ("target_finding", .text r.targetFinding),
      ("reverses", .int? r.reverses)]

/-- A query for one row, which must be there. -/
def one {α : Type} : Option α → Except String α
  | some a => .ok a
  | none => .error noRows

/-- `history`. -/
def Ledgers.findingHistory (db : Ledgers) (mark : Int) :
    Except String (List (FindingEvent FindingKind)) :=
  (replay mark db.findingLog).mapM fun l => (one (db.findingSubject l)).map (⟨l, ·⟩)

/-! ## State -/

/-- The watermark of a request: the head, unless it names an earlier sequence. -/
def Ledgers.watermark (db : Ledgers) (asOf : Option Int) : Except String Int :=
  let head := db.head
  let mark := asOf.getD head
  if mark < 0 ∨ head < mark then
    .error s!"as-of seq {mark} is outside the finding history 0..={head}"
  else .ok mark

/-- The state at a watermark, with the head that the store has now. -/
def Ledgers.findingStateAt (db : Ledgers) (mark : Int) : Except String FindingState := do
  let edges := db.merges mark
  let undecided ← (db.submissionRows mark).mapM (db.submissionState mark)
  let discovery := discoveryOf undecided
  let submissions := undecided.map (settleSubmission discovery)
  let findings := (replay mark db.canonicalFindings).map (groupState edges discovery submissions)
  let history ← db.findingHistory mark
  pure {
    headSeq := db.head
    asOfSeq := mark
    uniqueFindings := (findings.filter (·.status = .validated)).length
    summary := FindingSummary.of submissions
    submissions
    findings
    history }

/-- `finding_state`. -/
def Ledgers.findingState (db : Ledgers) (asOf : Option Int) : Except String FindingState := do
  let mark ← db.watermark asOf
  db.findingStateAt mark

end Herdr.Findings
