import Herdr.Store.FindingState

/-!
# Replay of the fix history

`fix_state` of `src/store/fix_attribution.rs`: repairs with their attempts, proposals,
verifications, integrations and closures, the resolution intervals of every finding, and the role
credits. It is defined before the operations because these check the current state.
-/

namespace Herdr.Findings

open Watermark

/-! ## Values -/

def creditUnit : Nat := 720720

/-- `credit_text`: units as a reduced fraction. -/
def creditText (units : Nat) : String :=
  let g := max (Nat.gcd units creditUnit) 1
  let n := units / g
  let d := creditUnit / g
  if d = 1 then s!"{n}" else s!"{n}/{d}"

structure CreditShare where
  contributor : String
  attemptId : Option String
  configurationId : Option String
  share : String
  units : Nat
deriving DecidableEq, Repr

structure RoleCredit where
  policy : String
  sourceSeq : Option Int
  shares : List CreditShare
  allocated : String
  unallocated : String
  unallocatedReason : Option String
  allocatedUnits : Nat
deriving DecidableEq, Repr

structure Introduction where
  status : String
  method : Option String
  introducingOid : Option String
  detectionOid : Option String
  evidenceRefs : List String
  credit : RoleCredit
deriving DecidableEq, Repr

inductive EndedBy where
  | reopened | superseded
deriving DecidableEq, Repr

structure ResolutionInterval where
  integrationSeq : Int
  proposalSeq : Int
  repairSeq : Int
  integratedId : String
  commitOid : String
  integratedUnixMs : Int
  /-- Null while the resolution is current. -/
  endedSeq : Option Int
  endedBy : Option EndedBy
deriving DecidableEq, Repr

structure Reopening where
  seq : Int
  reason : String
  observedOid : String
  integrationSeq : Int
  evidenceRefs : List String
  recordedUnixMs : Int
  retractedSeq : Option Int
deriving DecidableEq, Repr

inductive Remediation where
  | resolved | fixVerified | fixProposed | reopened | repairOpen | unrepaired
deriving DecidableEq, Repr

structure FindingFixState where
  findingId : String
  status : GroupStatus
  root : String
  remediation : Remediation
  verified : Bool
  integrated : Bool
  currentlyResolved : Bool
  resolutions : List ResolutionInterval
  reopenings : List Reopening
  repairs : List Int
  discovery : Option RoleCredit
  validation : Option RoleCredit
  implementation : Option RoleCredit
  verification : Option RoleCredit
  integration : Option RoleCredit
  introduction : Option Introduction
  seededEvaluation : Bool
  discoveredUnixMs : Option Int
deriving DecidableEq, Repr

structure RepairAttemptState where
  seq : Int
  attemptId : String
  ordinal : Int
  configurationId : Option String
  reassignment : Bool
  boundUnixMs : Int
deriving DecidableEq, Repr

structure FixVerification where
  seq : Int
  runId : String
  resultId : String
  commitOid : String
  assurance : String
  evidenceRefs : List String
  recordedUnixMs : Int
deriving DecidableEq, Repr

structure FixIntegration where
  seq : Int
  integratedId : String
  commitOid : String
  integratedUnixMs : Int
  recordedUnixMs : Int
deriving DecidableEq, Repr

structure ProposalState where
  seq : Int
  submissionId : String
  attemptId : String
  candidateOid : String
  verification : Option FixVerification
  integration : Option FixIntegration
deriving DecidableEq, Repr

inductive RepairOutcome where
  | currentlyResolved | integrated | verified | proposed | noCandidate
deriving DecidableEq, Repr

structure RepairState where
  repairSeq : Int
  findingId : String
  assignment : String
  configurationId : Option String
  profileDigest : Option String
  policy : String
  horizonMs : Int
  openedUnixMs : Int
  attempts : List RepairAttemptState
  proposals : List ProposalState
  closure : Option String
  closedUnixMs : Option Int
  outcome : RepairOutcome
deriving DecidableEq, Repr

structure FixState where
  headSeq : Int
  asOfSeq : Int
  findings : List FindingFixState
  repairs : List RepairState
  history : List (FindingEvent FixKind)
  triage : FindingState
deriving DecidableEq, Repr

/-! ## Repairs -/

/-- The retraction of a history row. -/
def Ledgers.retractedAt (db : Ledgers) (mark target : Int) : Option Int :=
  ((upTo mark db.retractions).find? (·.reverses = target)).map (·.seq)

def Ledgers.recordedAt (db : Ledgers) (seq : Int) : Option Int :=
  (rowAt db.fixLog seq).map (·.recordedUnixMs)

def Ledgers.attemptStates (db : Ledgers) (mark repair : Int) : List RepairAttemptState :=
  (orderBy (·.ordinal) ((upTo mark db.repairAttempts).filter (·.repairSeq = repair))).filterMap
    fun a => (db.recordedAt a.seq).map fun recorded =>
      ⟨a.seq, a.attemptId, a.ordinal, a.configurationId, a.ordinal > 1, recorded⟩

def Ledgers.verificationOf (db : Ledgers) (mark proposal : Int) : Option FixVerification :=
  ((upTo mark db.verifications).find? (·.proposalSeq = proposal)).bind fun v =>
    (db.recordedAt v.seq).map fun recorded =>
      ⟨v.seq, v.runId, v.resultId, v.commitOid, v.assurance, v.evidenceRefs, recorded⟩

def Ledgers.integrationOf (db : Ledgers) (mark proposal : Int) : Option FixIntegration :=
  ((upTo mark db.integrations).find? (·.proposalSeq = proposal)).bind fun i =>
    (db.recordedAt i.seq).map fun recorded =>
      ⟨i.seq, i.integratedId, i.commitOid, i.integratedUnixMs, recorded⟩

def Ledgers.proposalState (db : Ledgers) (mark : Int) (p : FixProposal) : ProposalState :=
  ⟨p.seq, p.submissionId, p.attemptId, p.candidateOid, db.verificationOf mark p.seq,
    db.integrationOf mark p.seq⟩

def Ledgers.proposalStates (db : Ledgers) (mark repair : Int) : List ProposalState :=
  ((replay mark db.proposals).filter (·.repairSeq = repair)).map (db.proposalState mark)

def Ledgers.closureOf (db : Ledgers) (mark repair : Int) : Option (String × Int) :=
  ((upTo mark db.closures).find? (·.repairSeq = repair)).bind fun c =>
    (db.recordedAt c.seq).map fun recorded => (c.outcome, recorded)

/-- A repair before its outcome is known. -/
def Ledgers.repairState (db : Ledgers) (mark : Int) (o : RepairOpportunity) : Option RepairState :=
  (db.recordedAt o.seq).map fun recorded =>
    { repairSeq := o.seq
      findingId := o.findingId
      assignment := o.assignment
      configurationId := o.configurationId
      profileDigest := o.profileDigest
      policy := o.policy
      horizonMs := o.horizonMs
      openedUnixMs := recorded
      attempts := db.attemptStates mark o.seq
      proposals := db.proposalStates mark o.seq
      closure := (db.closureOf mark o.seq).map (·.1)
      closedUnixMs := (db.closureOf mark o.seq).map (·.2)
      outcome := .noCandidate }

def Ledgers.repairStates (db : Ledgers) (mark : Int) : List RepairState :=
  (replay mark db.repairs).filterMap (db.repairState mark)

/-- The reopenings of a finding, with their retractions. -/
def Ledgers.reopeningsOf (db : Ledgers) (mark : Int) (finding : String) : List Reopening :=
  ((replay mark db.reopenings).filter (·.findingId = finding)).filterMap fun r =>
    (db.recordedAt r.seq).map fun recorded =>
      ⟨r.seq, r.reason, r.observedOid, r.integrationSeq, r.evidenceRefs, recorded,
        db.retractedAt mark r.seq⟩

/-! ## Resolution intervals -/

/-- An integration with its proposal and repair. -/
structure Integrated where
  repair : RepairState
  proposal : ProposalState
  integration : FixIntegration
deriving DecidableEq, Repr

def RepairState.integrated (r : RepairState) : List Integrated :=
  r.proposals.filterMap fun p => p.integration.map (⟨r, p, ·⟩)

/-- The integrations of all findings in the order of their sequence numbers. -/
def integratedInOrder (repairs : List RepairState) : List Integrated :=
  orderBy (·.integration.seq) (repairs.flatMap (·.integrated))

/-- End the first open interval. -/
def supersedeFirst (seq : Int) : List ResolutionInterval → List ResolutionInterval
  | [] => []
  | r :: rs =>
    if r.endedSeq.isNone then { r with endedSeq := some seq, endedBy := some .superseded } :: rs
    else r :: supersedeFirst seq rs

/-- The first reopening of an integration that is not retracted. -/
def reopenedAt (reopenings : List Reopening) (integration : Int) : Option Int :=
  (reopenings.find? fun o => o.integrationSeq = integration ∧ o.retractedSeq.isNone).map (·.seq)

/-- One turn of the loop: the new integration supersedes the open interval and starts its own. -/
def addInterval (reopenings : List Reopening) (list : List ResolutionInterval) (i : Integrated) :
    List ResolutionInterval :=
  let ended := reopenedAt reopenings i.integration.seq
  supersedeFirst i.integration.seq list ++
    [{ integrationSeq := i.integration.seq
       proposalSeq := i.proposal.seq
       repairSeq := i.repair.repairSeq
       integratedId := i.integration.integratedId
       commitOid := i.integration.commitOid
       integratedUnixMs := i.integration.integratedUnixMs
       endedSeq := ended
       endedBy := ended.map fun _ => .reopened }]

/-- The resolution intervals of one finding. The loop of the source keeps a list for each finding
and each turn touches the list of its own finding only. -/
def intervalsOf (repairs : List RepairState) (reopenings : List Reopening) (finding : String) :
    List ResolutionInterval :=
  ((integratedInOrder repairs).filter (·.repair.findingId = finding)).foldl
    (addInterval reopenings) []

def Ledgers.resolutionsOf (db : Ledgers) (mark : Int) (finding : String) :
    List ResolutionInterval :=
  intervalsOf (db.repairStates mark) (db.reopeningsOf mark finding) finding

/-- The findings that a repair names. -/
def repairedFindings (repairs : List RepairState) : List String :=
  (repairs.map (·.findingId)).dedup

/-- The integrations that resolve some finding now. -/
def Ledgers.currentIntegrations (db : Ledgers) (mark : Int) : List Int :=
  (repairedFindings (db.repairStates mark)).flatMap fun finding =>
    ((db.resolutionsOf mark finding).filter (·.endedSeq.isNone)).map (·.integrationSeq)

def RepairState.settled (current : List Int) (r : RepairState) : RepairState :=
  let has p := r.proposals.any p
  { r with outcome :=
      if has (fun p => p.integration.any fun i => current.contains i.seq) then .currentlyResolved
      else if has (·.integration.isSome) then .integrated
      else if has (·.verification.isSome) then .verified
      else if r.proposals ≠ [] then .proposed
      else .noCandidate }

/-! ## Role credit -/

/-- `configuration`. -/
def Ledgers.configuration (db : Ledgers) (attempt : String) : Option String :=
  (db.attempts.find attempt).bind (·.configuration)

/-- `load_shares`: the shares of a history row, which this query does not cut. -/
def Ledgers.loadShares (db : Ledgers) (seq : Int) : List CreditShare :=
  ((db.shares.filter (·.seq = seq)).insertionSort fun a b => a.attemptId ≤ b.attemptId).map
    fun s =>
      let units := s.shareNum * (creditUnit / max s.shareDen 1)
      let attempt := s.attemptId
      ⟨s!"attempt:{attempt}", some attempt, db.configuration attempt, creditText units, units⟩

/-- `role`. -/
def roleCredit (policy : String) (source : Option Int) (shares : List CreditShare)
    (reason : Option String) : RoleCredit :=
  let allocated := (shares.map (·.units)).sum
  let unallocated := creditUnit - allocated
  { policy
    sourceSeq := source
    shares
    allocated := creditText allocated
    unallocated := creditText unallocated
    unallocatedReason := if 0 < unallocated then some (reason.getD "unallocated") else none
    allocatedUnits := allocated }

/-- `whole`: the full credit of one contributor. -/
def Ledgers.whole (db : Ledgers) (contributor : String) (attempt : Option String) : CreditShare :=
  ⟨contributor, attempt, attempt.bind db.configuration, "1", creditUnit⟩

def Ledgers.wholeAttempt (db : Ledgers) (attempt : String) : CreditShare :=
  db.whole s!"attempt:{attempt}" (some attempt)

/-- The latest allocation of a role that is not retracted. -/
def Ledgers.allocationOf (db : Ledgers) (mark : Int) (finding : String) (role : CreditRole)
    (proposal : Option Int) : Option Int :=
  (((replay mark db.allocations).filter fun a =>
    (db.retractedAt mark a.seq).isNone && a.findingId = finding && a.role = role &&
      a.proposalSeq = proposal).map (·.seq)).getLast?

/-- The latest introduction decision that is not retracted. -/
def Ledgers.introductionOf (db : Ledgers) (mark : Int) (finding : String) :
    Option IntroductionDecision :=
  ((replay mark db.introductions).filter fun d =>
    (db.retractedAt mark d.seq).isNone && d.findingId = finding).getLast?

/-! ## Findings -/

/-- The submission that holds a group's discovery claim. -/
def discoverySubmission (triage : FindingState) (group : FindingGroupState) :
    Option (Int × SubmissionState) :=
  group.discoveryClaim.bind fun claim =>
    (triage.submissions.find? fun s => s.claims.any (·.claimId = claim)).map (claim, ·)

def Ledgers.discoveryCredit (db : Ledgers) (mark : Int) (id : String) (s : SubmissionState) :
    RoleCredit :=
  match db.allocationOf mark id .discovery none with
  | some seq => roleCredit "owner_allocation.v1" (some seq) (db.loadShares seq)
      (some "shared_discovery_unallocated")
  | none => roleCredit "earliest_validated.v1" (some s.seq) [db.wholeAttempt s.reporterAttemptId] none

def Ledgers.validationCredit (db : Ledgers) (triage : FindingState) (claim : Int)
    (s : SubmissionState) : RoleCredit :=
  let decision := (s.claims.find? (·.claimId = claim)).bind (·.decisionSeq)
  let principal := ((triage.history.find? fun e => some e.row.seq = decision).map
    (·.row.principal)).getD triagePrincipal
  roleCredit "triage_decision.v1" decision [db.whole s!"principal:{principal}" none] none

def Ledgers.detectionOid (db : Ledgers) (s : SubmissionState) : Option String :=
  (db.opportunities.find s.opportunityId).map (·.candidateOid)

/-- The credit of a fix's implementation. -/
def Ledgers.implementationCredit (db : Ledgers) (mark : Int) (id : String) (repair : RepairState)
    (proposal : ProposalState) : RoleCredit :=
  let seq := proposal.seq
  match db.allocationOf mark id .implementation (some seq) with
  | some allocation => roleCredit "owner_allocation.v1" (some allocation) (db.loadShares allocation)
      (some "mixed_contribution_unallocated")
  | none =>
    match repair.attempts.filter (·.seq < seq) with
    | [only] =>
      if only.attemptId = proposal.attemptId then
        roleCredit "sole_attempt.v1" (some seq) [db.wholeAttempt proposal.attemptId] none
      else roleCredit "sole_attempt.v1" (some seq) [] (some "mixed_contribution_unallocated")
    | _ => roleCredit "sole_attempt.v1" (some seq) [] (some "mixed_contribution_unallocated")

def Ledgers.introductionCredit (db : Ledgers) (mark : Int) (id : String)
    (detection : Option String) : Introduction :=
  match db.introductionOf mark id with
  | none => ⟨"unattributed", none, none, detection, [],
      roleCredit "introduction_decision.v1" none [] (some "unattributed")⟩
  | some d => ⟨d.status.asStr, d.method, d.introducingOid, detection, d.evidenceRefs,
      roleCredit "introduction_decision.v1" (some d.seq) (db.loadShares d.seq)
        (some (if d.status = .unattributable then "unattributable" else "unattributed"))⟩

/-- The fix credited now: the current resolution's, else the latest verified one. -/
def creditedProposal (intervals : List ResolutionInterval)
    (proposals : List (RepairState × ProposalState)) : Option (RepairState × ProposalState) :=
  let current := (intervals.find? (·.endedSeq.isNone)).map (·.proposalSeq)
  let verified := ((proposals.filter (·.2.verification.isSome)).map (·.2.seq)).max?
  (current.or verified).bind fun seq => proposals.find? (·.2.seq = seq)

def remediationOf (own : List RepairState) (proposals : List (RepairState × ProposalState))
    (currentlyResolved : Bool) (reopenings : List Reopening) : Remediation :=
  let lastReopen := maxOf ((reopenings.filter (·.retractedSeq.isNone)).map (·.seq))
  if currentlyResolved then .resolved
  else if proposals.any fun p => lastReopen < p.2.seq && p.2.verification.isSome then .fixVerified
  else if proposals.any fun p => lastReopen < p.2.seq then .fixProposed
  else if 0 < lastReopen then .reopened
  else if own.any (·.closure.isNone) then .repairOpen
  else .unrepaired

/-- The fix state of one canonical finding. -/
def Ledgers.findingFixState (db : Ledgers) (mark : Int) (triage : FindingState)
    (repairs : List RepairState) (group : FindingGroupState) : FindingFixState :=
  let id := group.findingId
  let own := repairs.filter (·.findingId = id)
  let proposals := own.flatMap fun r => r.proposals.map (r, ·)
  let intervals := db.resolutionsOf mark id
  let reopenings := db.reopeningsOf mark id
  let resolved := intervals.any (·.endedSeq.isNone)
  let validated := group.status = .validated
  let discovery := if validated then discoverySubmission triage group else none
  let credited := if validated then creditedProposal intervals proposals else none
  let detection := discovery.bind (db.detectionOid ·.2)
  { findingId := id
    status := group.status
    root := group.root
    remediation := remediationOf own proposals resolved reopenings
    verified := proposals.any (·.2.verification.isSome)
    integrated := intervals ≠ []
    currentlyResolved := resolved
    resolutions := intervals
    reopenings
    repairs := own.map (·.repairSeq)
    discovery := discovery.map fun d => db.discoveryCredit mark id d.2
    validation := discovery.map fun d => db.validationCredit triage d.1 d.2
    implementation := credited.map fun p => db.implementationCredit mark id p.1 p.2
    verification := credited.bind fun p => p.2.verification.map fun v =>
      roleCredit "native_verifier.v1" (some v.seq) [db.whole "service:native_verifier" none] none
    integration := credited.bind fun p => p.2.integration.map fun i =>
      roleCredit "integrator.v1" (some i.seq) [db.whole "service:integrator" none] none
    introduction := if validated then some (db.introductionCredit mark id detection) else none
    seededEvaluation := validated &&
      group.discoveryClaim.any fun c => (db.seedLinkedClaims mark).contains c
    discoveredUnixMs := discovery.map (·.2.recordedUnixMs) }

/-! ## History and state -/

/-- What a history row changed, read from the table of its kind. -/
def Ledgers.fixSubject (db : Ledgers) (l : LedgerRow FixKind) : Option Subject :=
  match l.kind with
  | .repairOpened => (rowAt db.repairs l.seq).map fun o =>
    [("finding_id", .text o.findingId), ("assignment", .text o.assignment),
      ("configuration_id", .text? o.configurationId), ("horizon_ms", .int o.horizonMs)]
  | .attemptBound => (rowAt db.repairAttempts l.seq).map fun a =>
    [("repair_seq", .int a.repairSeq), ("attempt_id", .text a.attemptId),
      ("ordinal", .int a.ordinal), ("configuration_id", .text? a.configurationId)]
  | .proposed => (rowAt db.proposals l.seq).map fun p =>
    [("repair_seq", .int p.repairSeq), ("submission_id", .text p.submissionId),
      ("attempt_id", .text p.attemptId), ("candidate_oid", .text p.candidateOid)]
  | .verified => (rowAt db.verifications l.seq).map fun v =>
    [("proposal_seq", .int v.proposalSeq), ("run_id", .text v.runId),
      ("commit_oid", .text v.commitOid), ("assurance", .text v.assurance)]
  | .integrated => (rowAt db.integrations l.seq).map fun i =>
    [("proposal_seq", .int i.proposalSeq), ("integrated_id", .text i.integratedId),
      ("commit_oid", .text i.commitOid)]
  | .repairClosed => (rowAt db.closures l.seq).map fun c =>
    [("repair_seq", .int c.repairSeq), ("outcome", .text c.outcome)]
  | .reopened => (rowAt db.reopenings l.seq).map fun r =>
    [("finding_id", .text r.findingId), ("integration_seq", .int r.integrationSeq),
      ("reason", .text r.reason), ("observed_oid", .text r.observedOid)]
  | .introduced => (rowAt db.introductions l.seq).map fun d =>
    [("finding_id", .text d.findingId), ("status", .text d.status.asStr),
      ("method", .text? d.method), ("introducing_oid", .text? d.introducingOid)]
  | .credited => (rowAt db.allocations l.seq).map fun a =>
    [("finding_id", .text a.findingId), ("role", .text a.role.asStr),
      ("proposal_seq", .int? a.proposalSeq)]
  | .retracted => (rowAt db.retractions l.seq).map fun r => [("reverses", .int r.reverses)]

def Ledgers.fixHistory (db : Ledgers) (mark : Int) : Except String (List (FindingEvent FixKind)) :=
  (replay mark db.fixLog).mapM fun l => (one (db.fixSubject l)).map (⟨l, ·⟩)

/-- The fix state over a triage state. -/
def Ledgers.fixStateOver (db : Ledgers) (triage : FindingState) : Except String FixState := do
  let mark := triage.asOfSeq
  let repairs := (db.repairStates mark).map (·.settled (db.currentIntegrations mark))
  let history ← db.fixHistory mark
  pure {
    headSeq := triage.headSeq
    asOfSeq := mark
    findings := triage.findings.map (db.findingFixState mark triage repairs)
    repairs
    history
    triage }

/-- `fix_state`. -/
def Ledgers.fixState (db : Ledgers) (asOf : Option Int) : Except String FixState := do
  let triage ← db.findingState asOf
  db.fixStateOver triage

end Herdr.Findings
