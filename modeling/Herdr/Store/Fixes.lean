import Herdr.Lib.Run
import Herdr.Store.FixState

/-!
# Fix attribution

The operations of `src/store/fix_attribution.rs`, each one immediate transaction that appends one
row of `fix_log`, and the calls that a store answers: these, the operations of finding triage, and
the writes of the rest of the factory to the tables that they read.
-/

namespace Herdr.Findings

open Watermark

def repairPolicy : String := "repair_assignment.v1"
def closeOutcomes : List String := ["fixed", "no_fix", "cancelled"]
def assurances : List String := ["regression_reproduced", "approved_alternative"]
def reopenReasons : List String := ["regression", "reverted"]
def introductionMethods : List String :=
  ["controlled_reproducer", "reliable_bisect", "minimized_patch"]
def inferences : List String := ["blame", "last_editor", "temporal_proximity", "fixer"]
def maxShares : Nat := 32

def terminalStates : List AttemptState := [.completed, .failed, .cancelled, .lost]

def attemptStateText : AttemptState → String
  | .reserved => "reserved"
  | .launching => "launching"
  | .running => "running"
  | .awaitingInput => "awaiting_input"
  | .completed => "completed"
  | .failed => "failed"
  | .cancelled => "cancelled"
  | .lost => "lost"

/-- `oid`: an exact commit id. -/
def isOid (value : String) : Bool :=
  let bytes := textBytes value
  (bytes.length = 40 || bytes.length = 64) && bytes.all hexByte

/-- `log`: append the owner's attribution row. -/
def fixLog (kind : FixKind) (principal : String) (expected : Option Int) (now : Int) :
    FindingTx (LedgerRow FixKind) := do
  let seq ← nextSeq principal expected
  let row : LedgerRow FixKind := ⟨seq, kind, principal, triageAuthorityText, expected, now⟩
  .write fun db => { db with fixLog := db.fixLog ++ [row] }
  pure row

/-- `current`: the state at the head. -/
def current : FindingTx FixState := .query fun db => db.fixState none

def validatedRoot (state : FixState) (finding : String) : FindingTx FindingFixState := do
  let f ← .find (fun _ => state.findings.find? (·.findingId = finding))
    s!"no canonical finding {finding}"
  let status := f.status.asStr
  .require (f.status = .validated)
    s!"finding {finding} is {status}: attribution applies to a validated unique finding (its group root)"
  pure f

/-! ## Shares -/

/-- One contributor's exact share. -/
structure CreditShareSpec where
  attemptId : String
  num : Nat
  den : Nat
deriving DecidableEq, Repr

def CreditShareSpec.units (s : CreditShareSpec) : Nat := s.num * (creditUnit / s.den)

/-- The loop of `shares`. -/
def sharesFrom (seen : List String) (total : Nat) : List CreditShareSpec → Except String Nat
  | [] =>
    if creditUnit < total then
      .error "the shares of one role sum to more than 1: mixed contributions cannot each receive full credit"
    else .ok total
  | s :: rest =>
    let attempt := s.attemptId
    let num := s.num
    let den := s.den
    if attempt ∈ seen then .error s!"attempt {attempt} has two shares"
    else if ¬(1 ≤ den ∧ den ≤ 16) ∨ num = 0 ∨ den < num then
      .error s!"share {num}/{den} must be a fraction in (0, 1] with a denominator of 1 to 16"
    else sharesFrom (attempt :: seen) (total + s.units) rest

/-- `shares`. -/
def shares (specs : List CreditShareSpec) : Except String Nat :=
  if maxShares < specs.length then .error s!"at most {maxShares} shares" else sharesFrom [] 0 specs

/-- `insert_shares`: the rows of one history row. Its `attempt_id` is a foreign key. -/
def insertShares (seq : Int) (specs : List CreditShareSpec) : FindingTx Unit := do
  let known ← .ask fun db => specs.all fun s => (db.attempts.find s.attemptId).isSome
  .require (known = true) foreignKeyFailed
  .write fun db => { db with
    shares := db.shares ++ specs.map fun s => ⟨seq, s.attemptId, s.num, s.den⟩ }

/-- `share_json`. -/
def shareCell (specs : List CreditShareSpec) : Cell :=
  .shares (specs.map fun s => (s.attemptId, creditText s.units))

/-! ## Repairs -/

/-- A repair's initial assignment group. -/
inductive RepairAssignment where
  | profile (name : String)
  | unassigned
deriving DecidableEq, Repr

/-- The configuration and the profile digest of a group; `retained` is what `retained_profile` and
`agent_configuration` give for a profile. -/
def RepairAssignment.resolve (retained : String → Except String (String × String)) :
    RepairAssignment → Except String (Option String × Option String)
  | .unassigned => .ok (none, none)
  | .profile name => (retained name).map fun p => (some p.1, some p.2)

/-- `open_repair`. -/
def openRepair (finding : String) (assignment : RepairAssignment)
    (retained : String → Except String (String × String)) (horizonMs : Int) (expected : Option Int)
    (principal : String) (now : Int) : FindingTx (FindingEvent FixKind) := do
  .require (0 < horizonMs) "the repair horizon must be positive"
  triageAuthority principal
  let state ← current
  let f ← validatedRoot state finding
  .require (f.currentlyResolved = false)
    s!"finding {finding} is currently resolved; record a reopening before a new repair"
  let opened := state.repairs.find? fun r => r.findingId = finding ∧ r.closure.isNone
  let openSeq := (opened.map (·.repairSeq)).getD 0
  .require (opened.isNone) s!"finding {finding} already has open repair opportunity {openSeq}"
  let group ← .check (assignment.resolve retained)
  let entry ← fixLog .repairOpened principal expected now
  let row : RepairOpportunity := ⟨entry.seq, finding, group.1, group.2, repairPolicy, horizonMs⟩
  .write fun db => { db with repairs := db.repairs ++ [row] }
  pure ⟨entry, [("repair_seq", .int entry.seq), ("finding_id", .text finding),
    ("assignment", .text row.assignment), ("configuration_id", .text? group.1),
    ("profile_digest", .text? group.2), ("policy", .text repairPolicy),
    ("horizon_ms", .int horizonMs)]⟩

/-- The repair opportunity exists. -/
def requireRepair (repair : Int) : FindingTx Unit := do
  let known ← .ask fun db => db.repairs.any (·.seq = repair)
  .require (known = true) s!"no repair opportunity {repair}"

/-- The repair opportunity has no closure; the callers word the refusal. -/
def requireOpen (repair : Int) (refusal : String) : FindingTx Unit := do
  let closed ← .ask fun db => db.closures.any (·.repairSeq = repair)
  .require (closed = false) refusal

/-- `bind_repair_attempt`. -/
def bindRepairAttempt (repair : Int) (attempt : String) (expected : Option Int)
    (principal : String) (now : Int) : FindingTx (FindingEvent FixKind) := do
  triageAuthority principal
  requireRepair repair
  requireOpen repair s!"repair opportunity {repair} is closed"
  let row ← .find (fun db => db.attempts.find attempt) s!"no attempt {attempt}"
  let state := attemptStateText row.state
  .require (row.state ∉ terminalStates)
    s!"attempt {attempt} is already {state}: an attempt is bound before its outcome is known"
  let hasResult ← .ask fun db => db.results.rows.any (·.attemptId = attempt)
  .require (hasResult = false)
    s!"attempt {attempt} already has a result: an attempt is bound before its outcome is known"
  let bound ← .ask fun db => (db.repairAttempts.find? (·.attemptId = attempt)).map (·.repairSeq)
  let other := bound.getD 0
  .require (bound.isNone) s!"attempt {attempt} is already bound to repair opportunity {other}"
  let ordinal ← .ask fun db => Int.ofNat (db.repairAttempts.countP (·.repairSeq = repair)) + 1
  let entry ← fixLog .attemptBound principal expected now
  .write fun db => { db with
    repairAttempts := db.repairAttempts ++ [⟨entry.seq, repair, attempt, ordinal, row.configuration⟩] }
  pure ⟨entry, [("repair_seq", .int repair), ("attempt_id", .text attempt),
    ("ordinal", .int ordinal), ("configuration_id", .text? row.configuration)]⟩

/-- `propose_fix`. -/
def proposeFix (repair : Int) (submission : String) (expected : Option Int) (principal : String)
    (now : Int) : FindingTx (FindingEvent FixKind) := do
  triageAuthority principal
  requireRepair repair
  requireOpen repair s!"repair opportunity {repair} is closed"
  let result ← .find (fun db => db.results.find submission) s!"no result submission {submission}"
  let attempt := result.attemptId
  let bound ← .ask fun db => (db.repairAttempts.find? (·.attemptId = attempt)).map (·.repairSeq)
  .require (bound = some repair)
    s!"submission {submission} is by attempt {attempt}, which is not bound to repair opportunity {repair}"
  let proposed ← .ask fun db => db.proposals.any (·.submissionId = submission)
  .require (proposed = false) s!"submission {submission} is already a fix proposal"
  let entry ← fixLog .proposed principal expected now
  .write fun db => { db with
    proposals := db.proposals ++ [⟨entry.seq, repair, submission, attempt, result.candidateOid⟩] }
  pure ⟨entry, [("repair_seq", .int repair), ("submission_id", .text submission),
    ("attempt_id", .text attempt), ("candidate_oid", .text result.candidateOid)]⟩

/-- `verify_fix`. -/
def verifyFix (proposal : Int) (run assurance : String) (refs : List String)
    (expected : Option Int) (principal : String) (now : Int) :
    FindingTx (FindingEvent FixKind) := do
  .require (assurance ∈ assurances) s!"unknown assurance {assurance}"
  let evidence ← .check (evidence refs)
  .require (evidence ≠ [])
    "a verified fix needs at least one evidence reference linking it to the finding"
  triageAuthority principal
  let p ← .find (fun db => rowAt db.proposals proposal) s!"no fix proposal {proposal}"
  let repair := p.repairSeq
  requireOpen repair s!"repair opportunity {repair} is closed"
  let verified ← .ask fun db => db.verifications.any (·.proposalSeq = proposal)
  .require (verified = false) s!"fix proposal {proposal} is already verified"
  let r ← .find (fun db => db.runs.find run) s!"no verification run {run}"
  let commit := r.commitOid
  let checked := r.submissionId
  let candidate := p.candidateOid
  .require (r.submissionId = p.submissionId ∧ r.commitOid = p.candidateOid)
    s!"verification run {run} checked commit {commit} of submission {checked}, not the fix's exact candidate {candidate}: passing checks on one commit cannot verify another"
  let state := r.state
  .require (r.state = "accepted") s!"verification run {run} was {state}"
  let result ← .find (fun db => db.verified.rows.find? fun v =>
    v.runId = run ∧ v.submissionId = p.submissionId ∧ v.commitOid = p.candidateOid)
    s!"verification run {run} has no verified result"
  let entry ← fixLog .verified principal expected now
  .write fun db => { db with
    verifications := db.verifications ++
      [⟨entry.seq, proposal, run, result.resultId, p.candidateOid, assurance, evidence⟩] }
  pure ⟨entry, [("proposal_seq", .int proposal), ("run_id", .text run),
    ("result_id", .text result.resultId), ("commit_oid", .text p.candidateOid),
    ("assurance", .text assurance), ("evidence_refs", .texts evidence)]⟩

/-- `integrate_fix`. A closed repair is not refused. -/
def integrateFix (proposal : Int) (integrated : String) (expected : Option Int)
    (principal : String) (now : Int) : FindingTx (FindingEvent FixKind) := do
  triageAuthority principal
  let p ← .find (fun db => rowAt db.proposals proposal) s!"no fix proposal {proposal}"
  let v ← .find (fun db => db.verifications.find? (·.proposalSeq = proposal))
    s!"fix proposal {proposal} is not verified: only a verified fix can be integrated"
  let already ← .ask fun db => db.integrations.any (·.proposalSeq = proposal)
  .require (already = false) s!"fix proposal {proposal} is already integrated"
  let c ← .find (fun db => db.integrated.find integrated) s!"no integrated commit {integrated}"
  let candidate := p.candidateOid
  .require (c.verifiedSubmission = some p.submissionId ∧ c.verifiedCommit = some p.candidateOid ∧
      c.parentVerified = some p.candidateOid)
    s!"integration {integrated} did not integrate the fix's exact verified candidate {candidate}"
  let entry ← fixLog .integrated principal expected now
  let used ← .ask fun db => db.integrations.any (·.integratedId = integrated)
  .require (used = false) constraintFailed
  .write fun db => { db with
    integrations := db.integrations ++
      [⟨entry.seq, proposal, v.seq, integrated, c.commitOid, c.createdUnixMs⟩] }
  pure ⟨entry, [("proposal_seq", .int proposal), ("verification_seq", .int v.seq),
    ("integrated_id", .text integrated), ("commit_oid", .text c.commitOid),
    ("integrated_unix_ms", .int c.createdUnixMs)]⟩

/-- A proposal of the repair is verified. -/
def Ledgers.hasVerifiedFix (db : Ledgers) (repair : Int) : Bool :=
  db.proposals.any fun p => p.repairSeq = repair && db.verifications.any (·.proposalSeq = p.seq)

/-- `close_repair`. -/
def closeRepair (repair : Int) (outcome : String) (expected : Option Int) (principal : String)
    (now : Int) : FindingTx (FindingEvent FixKind) := do
  .require (outcome ∈ closeOutcomes) s!"unknown repair outcome {outcome}"
  triageAuthority principal
  requireRepair repair
  requireOpen repair s!"repair opportunity {repair} is already closed"
  let verified ← .ask fun db => db.hasVerifiedFix repair
  let has := if verified then "has a" else "has no"
  let close := if verified then "fixed" else "no_fix or cancelled"
  .require (verified = decide (outcome = "fixed"))
    s!"repair opportunity {repair} {has} verified fix: close it {close}"
  let entry ← fixLog .repairClosed principal expected now
  .write fun db => { db with closures := db.closures ++ [⟨entry.seq, repair, outcome⟩] }
  pure ⟨entry, [("repair_seq", .int repair), ("outcome", .text outcome)]⟩

/-- `reopen_finding`. -/
def reopenFinding (finding reason observedOid : String) (refs : List String)
    (expected : Option Int) (principal : String) (now : Int) :
    FindingTx (FindingEvent FixKind) := do
  .require (reason ∈ reopenReasons) s!"unknown reopen reason {reason}"
  .require (isOid observedOid = true) "the observed revision must be an exact commit id"
  let evidence ← .check (evidence refs)
  .require (evidence ≠ []) "a reopening needs at least one evidence reference for the occurrence"
  triageAuthority principal
  let state ← current
  let f ← validatedRoot state finding
  let open_ ← .find (fun _ => f.resolutions.find? (·.endedSeq.isNone))
    s!"finding {finding} is not currently resolved: only an integrated fix can be reopened"
  let entry ← fixLog .reopened principal expected now
  .write fun db => { db with
    reopenings := db.reopenings ++
      [⟨entry.seq, finding, open_.integrationSeq, reason, observedOid, evidence⟩] }
  pure ⟨entry, [("finding_id", .text finding), ("integration_seq", .int open_.integrationSeq),
    ("reason", .text reason), ("observed_oid", .text observedOid),
    ("evidence_refs", .texts evidence)]⟩

/-! ## Introduction and credit -/

inductive IntroductionRequest where
  | attributed (introducingOid method : String) (contributors : List CreditShareSpec)
  | unattributable
deriving DecidableEq, Repr

/-- The status, method, commit and contributors that a request decides. -/
def IntroductionRequest.ruling : IntroductionRequest →
    Except String (IntroductionStatus × Option String × Option String × List CreditShareSpec)
  | .unattributable => .ok (.unattributable, none, none, [])
  | .attributed introducingOid method contributors =>
    if method ∈ inferences then
      .error s!"{method} is inference, not causal evidence: use a controlled reproducer, a reliable bisect or a minimized patch"
    else if method ∉ introductionMethods then .error s!"unknown introduction method {method}"
    else if isOid introducingOid = false then
      .error "the introducing revision must be an exact commit id"
    else .ok (.attributed, some method, some introducingOid, contributors)

/-- An attributed contributor authored the introducing commit, and not as a fix of the finding. -/
def requireAuthored (finding : String) (introducing : Option String) (c : CreditShareSpec) :
    FindingTx Unit := do
  let attempt := c.attemptId
  let authored ← .ask fun db => db.results.rows.any fun r =>
    r.attemptId = attempt && some r.candidateOid = introducing
  .require (authored = true)
    s!"attempt {attempt} has no candidate at the introducing commit: introduction is not inferred from other work"
  let ownFix ← .ask fun db => db.proposals.any fun p =>
    p.attemptId = attempt && some p.candidateOid = introducing &&
      db.repairs.any fun o => o.seq = p.repairSeq && o.findingId = finding
  .require (ownFix = false)
    s!"attempt {attempt}'s candidate is a fix for {finding}: the fixer is not charged with introducing what it repaired"

/-- `attribute_introduction`. -/
def attributeIntroduction (finding : String) (request : IntroductionRequest) (refs : List String)
    (expected : Option Int) (principal : String) (now : Int) :
    FindingTx (FindingEvent FixKind) := do
  let evidence ← .check (evidence refs)
  .require (evidence ≠ []) "an introduction decision needs at least one evidence reference"
  let (status, method, introducing, contributors) ← .check request.ruling
  let _ ← .check (shares contributors)
  triageAuthority principal
  let state ← current
  let _ ← validatedRoot state finding
  .forEach (requireAuthored finding introducing) contributors
  let entry ← fixLog .introduced principal expected now
  .write fun db => { db with
    introductions := db.introductions ++
      [⟨entry.seq, finding, status, method, introducing, evidence⟩] }
  insertShares entry.seq contributors
  pure ⟨entry, [("finding_id", .text finding), ("status", .text status.asStr),
    ("method", .text? method), ("introducing_oid", .text? introducing),
    ("contributors", shareCell contributors), ("evidence_refs", .texts evidence)]⟩

/-- The attempts that a role's credit may be allocated among. -/
def eligibleAttempts (state : FixState) (finding : String) (role : String)
    (proposal : Option Int) : Except String (CreditRole × List String) :=
  if role = "discovery" then
    match proposal with
    | none => .ok (.discovery, (state.triage.submissions.filter fun s => s.claims.any fun c =>
        c.canonicalFinding = some finding && (c.decided = .validated || c.decided = .duplicate)).map
          (·.reporterAttemptId))
    | some _ => .error "discovery credit is per finding, not per fix proposal"
  else if role = "implementation" then
    match proposal with
    | none => .error "implementation credit names the verified fix proposal"
    | some proposal =>
      match state.repairs.find? fun r => r.findingId = finding ∧
          r.proposals.any fun p => p.seq = proposal && p.verification.isSome with
      | none => .error s!"fix proposal {proposal} is not a verified fix of {finding}"
      | some repair => .ok (.implementation, repair.attempts.map (·.attemptId))
  else .error s!"unknown credit role {role}: allocate discovery or implementation"

/-- `allocate_credit`. -/
def allocateCredit (finding role : String) (proposal : Option Int) (specs : List CreditShareSpec)
    (refs : List String) (expected : Option Int) (principal : String) (now : Int) :
    FindingTx (FindingEvent FixKind) := do
  let evidence ← .check (evidence refs)
  .require (evidence ≠ [])
    "a credit allocation needs at least one evidence reference: timing alone does not prove a contribution"
  .require (specs ≠ []) "a credit allocation names at least one share"
  let _ ← .check (shares specs)
  triageAuthority principal
  let state ← current
  let _ ← validatedRoot state finding
  let (kind, eligible) ← .check (eligibleAttempts state finding role proposal)
  let bad := specs.find? fun s => !eligible.contains s.attemptId
  let attempt := (bad.map (·.attemptId)).getD ""
  .require (bad.isNone) s!"attempt {attempt} did not contribute to the {role} of {finding}"
  let entry ← fixLog .credited principal expected now
  .write fun db => { db with
    allocations := db.allocations ++ [⟨entry.seq, finding, kind, proposal, evidence⟩] }
  insertShares entry.seq specs
  pure ⟨entry, [("finding_id", .text finding), ("role", .text role),
    ("proposal_seq", .int? proposal), ("shares", shareCell specs),
    ("evidence_refs", .texts evidence)]⟩

/-- An integration of a finding later than `seq`. -/
def Ledgers.integratedAfter (db : Ledgers) (finding : Option String) (seq : Int) : Bool :=
  db.integrations.any fun i => seq < i.seq && db.proposals.any fun p => p.seq = i.proposalSeq &&
    db.repairs.any fun o => o.seq = p.repairSeq && some o.findingId = finding

/-- `retract_attribution`. -/
def retractAttribution (target : Int) (expected : Option Int) (principal : String) (now : Int) :
    FindingTx (FindingEvent FixKind) := do
  triageAuthority principal
  let row ← .find (fun db => rowAt db.fixLog target) s!"no fix history row {target}"
  let kind := row.kind.asStr
  .require (row.kind ∈ [FixKind.credited, .reopened, .introduced])
    s!"history row {target} is {kind}: only a credit allocation, reopening or introduction can be retracted"
  let retracted ← .ask fun db => db.retractions.any (·.reverses = target)
  .require (retracted = false) s!"history row {target} is already retracted"
  let later ← .ask fun db =>
    db.integratedAfter ((rowAt db.reopenings target).map (·.findingId)) target
  -- a resolution restored by the retraction must not overlap a later one
  .require (row.kind = .reopened → later = false)
    s!"a later fix of the finding was integrated after reopening {target}; retracting it would rewrite that repair"
  let entry ← fixLog .retracted principal expected now
  .write fun db => { db with retractions := db.retractions ++ [⟨entry.seq, target⟩] }
  pure ⟨entry, [("reverses", .int target), ("kind", .text kind)]⟩

/-! ## Calls -/

/-- What the rest of the factory writes to the tables that triage and attribution read. Rows of
`review_sessions`, `review_opportunities`, `result_submissions`, `verified_results`,
`integrated_commits` and of the seed tables are written once; an attempt is created with its
dispatch decision, and it and a verification run change state. Which of these the other operations
admit is not modelled: only their keys and foreign keys are. -/
inductive FactoryWrite where
  | attempt (row : AttemptRow)
  | attemptState (id : String) (state : AttemptState)
  | opportunity (row : ReviewOpportunity)
  | session (row : ReviewSession)
  | result (row : ResultRow)
  | run (row : RunRow)
  | runState (id state : String)
  | verifiedResult (row : VerifiedRow)
  | integratedCommit (row : IntegratedRow)
  | seedDetection (claim : Int)
  | seedRetraction (reverses : Int)
  | otherLedger
deriving DecidableEq, Repr

/-- A row of one of the other ledgers, at the next sequence number. -/
def otherLog : FindingTx Int := do
  let seq ← .ask fun db => db.head + 1
  .write fun db => { db with otherLogs := db.otherLogs ++ [seq] }
  pure seq

def requireAttempt (id : String) : FindingTx Unit := do
  let known ← .ask fun db => (db.attempts.find id).isSome
  .require (known = true) foreignKeyFailed

def FactoryWrite.body : FactoryWrite → FindingTx Unit
  | .attempt row => .insert
      (fun db => (db.attempts.insert? row).map ({ db with attempts := · })) constraintFailed
  | .attemptState id state => .write fun db =>
      match db.attempts.find id with
      | none => db
      | some row => { db with attempts := db.attempts.update { row with state } }
  | .opportunity row => .insert
      (fun db => (db.opportunities.insert? row).map ({ db with opportunities := · }))
      constraintFailed
  | .session row => do
    requireAttempt row.attemptId
    let known ← .ask fun db => (db.opportunities.find row.opportunityId).isSome
    .require (known = true) foreignKeyFailed
    .insert (fun db => (db.sessions.insert? row).map ({ db with sessions := · })) constraintFailed
  | .result row => do
    requireAttempt row.attemptId
    .insert (fun db => (db.results.insert? row).map ({ db with results := · })) constraintFailed
  | .run row => .insert
      (fun db => (db.runs.insert? row).map ({ db with runs := · })) constraintFailed
  | .runState id state => .write fun db =>
      match db.runs.find id with
      | none => db
      | some row => { db with runs := db.runs.update { row with state } }
  | .verifiedResult row => .insert
      (fun db => (db.verified.insert? row).map ({ db with verified := · })) constraintFailed
  | .integratedCommit row => .insert
      (fun db => (db.integrated.insert? row).map ({ db with integrated := · })) constraintFailed
  | .seedDetection claim => do
    let seq ← otherLog
    .write fun db => { db with seedDetections := db.seedDetections ++ [⟨seq, claim⟩] }
  | .seedRetraction reverses => do
    let seq ← otherLog
    .write fun db => { db with seedRetractions := db.seedRetractions ++ [⟨seq, reverses⟩] }
  | .otherLedger => (fun _ => ()) <$> otherLog

inductive Call where
  | recordSubmissions (session : String) (titles : String → Option String) (principal : String)
      (now : Int) (refs : List String)
  | triageFindingClaim (claim : Int) (request : TriageRequest) (principal : String) (now : Int)
  | splitFindingSubmission (submission : Int) (titles : List (Option String))
      (expected : Option Int) (principal : String) (now : Int)
  | restoreFindingClaims (submission revision : Int) (expected : Option Int) (principal : String)
      (now : Int)
  | mergeFindings (source target : String) (expected : Option Int) (principal : String) (now : Int)
  | unmergeFindings (mergeSeq : Int) (expected : Option Int) (principal : String) (now : Int)
  | openRepair (finding : String) (assignment : RepairAssignment)
      (retained : String → Except String (String × String)) (horizonMs : Int)
      (expected : Option Int) (principal : String) (now : Int)
  | bindRepairAttempt (repair : Int) (attempt : String) (expected : Option Int)
      (principal : String) (now : Int)
  | proposeFix (repair : Int) (submission : String) (expected : Option Int) (principal : String)
      (now : Int)
  | verifyFix (proposal : Int) (run assurance : String) (refs : List String)
      (expected : Option Int) (principal : String) (now : Int)
  | integrateFix (proposal : Int) (integrated : String) (expected : Option Int)
      (principal : String) (now : Int)
  | closeRepair (repair : Int) (outcome : String) (expected : Option Int) (principal : String)
      (now : Int)
  | reopenFinding (finding reason observedOid : String) (refs : List String)
      (expected : Option Int) (principal : String) (now : Int)
  | attributeIntroduction (finding : String) (request : IntroductionRequest) (refs : List String)
      (expected : Option Int) (principal : String) (now : Int)
  | allocateCredit (finding role : String) (proposal : Option Int) (specs : List CreditShareSpec)
      (refs : List String) (expected : Option Int) (principal : String) (now : Int)
  | retractAttribution (target : Int) (expected : Option Int) (principal : String) (now : Int)
  | factory (w : FactoryWrite)

variable [TitleExcerpt]

/-- The transaction of a call. -/
def callBody : Call → FindingTx Unit
  | .recordSubmissions session titles principal now refs =>
    (fun _ => ()) <$> recordSubmissions session titles principal now refs
  | .triageFindingClaim claim request principal now =>
    (fun _ => ()) <$> triageFindingClaim claim request principal now
  | .splitFindingSubmission submission titles expected principal now =>
    (fun _ => ()) <$> splitFindingSubmission submission titles expected principal now
  | .restoreFindingClaims submission revision expected principal now =>
    (fun _ => ()) <$> restoreFindingClaims submission revision expected principal now
  | .mergeFindings source target expected principal now =>
    (fun _ => ()) <$> mergeFindings source target expected principal now
  | .unmergeFindings mergeSeq expected principal now =>
    (fun _ => ()) <$> unmergeFindings mergeSeq expected principal now
  | .openRepair finding assignment retained horizonMs expected principal now =>
    (fun _ => ()) <$> openRepair finding assignment retained horizonMs expected principal now
  | .bindRepairAttempt repair attempt expected principal now =>
    (fun _ => ()) <$> bindRepairAttempt repair attempt expected principal now
  | .proposeFix repair submission expected principal now =>
    (fun _ => ()) <$> proposeFix repair submission expected principal now
  | .verifyFix proposal run assurance refs expected principal now =>
    (fun _ => ()) <$> verifyFix proposal run assurance refs expected principal now
  | .integrateFix proposal integrated expected principal now =>
    (fun _ => ()) <$> integrateFix proposal integrated expected principal now
  | .closeRepair repair outcome expected principal now =>
    (fun _ => ()) <$> closeRepair repair outcome expected principal now
  | .reopenFinding finding reason observedOid refs expected principal now =>
    (fun _ => ()) <$> reopenFinding finding reason observedOid refs expected principal now
  | .attributeIntroduction finding request refs expected principal now =>
    (fun _ => ()) <$> attributeIntroduction finding request refs expected principal now
  | .allocateCredit finding role proposal specs refs expected principal now =>
    (fun _ => ()) <$> allocateCredit finding role proposal specs refs expected principal now
  | .retractAttribution target expected principal now =>
    (fun _ => ()) <$> retractAttribution target expected principal now
  | .factory w => w.body

/-- Every call is one immediate transaction. -/
def Call.exec (c : Call) (db : Ledgers) : Except String Unit × Ledgers := Tx.commit (callBody c) db

/-- The store after a history of calls. -/
def after (calls : List Call) (db : Ledgers) : Ledgers :=
  ((Run.start db).calls Call.exec calls).state

end Herdr.Findings
