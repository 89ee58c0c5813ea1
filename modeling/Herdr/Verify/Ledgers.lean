import Herdr.Store.Fixes
import Mathlib.Logic.Relation

/-!
# What a call can do to the finding and fix ledgers

`Effect db db'` names every change that one history row makes, with the guards that its operation
has passed. A successful call is a sequence of effects: `record_submissions` makes one for each
finding reference, every other call at most one.
-/

namespace Herdr.Findings

open Watermark

variable {db db' : Ledgers} {α : Type}

/-- The name of the finding that the decision at `seq` mints. -/
def canonicalId (seq : Int) : String := s!"finding:canonical-{seq}"

/-- The merge is between two findings of different groups, and its source is a root. -/
def Ledgers.Mergeable (db : Ledgers) (r : FindingRelationship) : Prop :=
  (∃ f ∈ db.canonicalFindings, f.findingId = r.targetFinding) ∧
    (db.merges i64Bound).find r.sourceFinding = none ∧
      (db.merges i64Bound).root r.targetFinding ≠ (db.merges i64Bound).root r.sourceFinding

def ShareRow.spec (s : ShareRow) : CreditShareSpec := ⟨s.attemptId, s.shareNum, s.shareDen⟩

/-- `shares` accepts the rows. -/
def Accepted (rows : List ShareRow) : Prop := ∃ total, shares (rows.map (·.spec)) = .ok total

/-- The change of one history row. -/
inductive Effect (db : Ledgers) : Ledgers → Prop where
  | submitted {row : LedgerRow FindingKind} {s : FindingSubmission} {set : ClaimSet}
      {claim : FindingClaim} (hrow : row.seq = db.head + 1)
      (hkind : row.kind = .submitted) (hs : s.seq = row.seq)
      (hset : set.seq = row.seq) (hof : set.submissionId = s.submissionId)
      (hrestores : set.restores = none) (hclaim : claim.set = set.key)
      (fresh : ∀ c ∈ db.claimSets, c.key ≠ set.key)
      (session : (db.sessions.find s.sessionId).isSome)
      (newId : ∀ s' ∈ db.submissions, s'.submissionId ≠ s.submissionId)
      (newClaim : ∀ c ∈ db.claims, c.claimId < claim.claimId) :
      Effect db { db with
        findingLog := db.findingLog ++ [row]
        submissions := db.submissions ++ [s]
        claimSets := db.claimSets ++ [set]
        claims := db.claims ++ [claim] }
  | decided {row : LedgerRow FindingKind} {minted : List CanonicalFinding} {d : FindingDecision}
      (hrow : row.seq = db.head + 1)
      (hkind : row.kind = .decided) (hminted : ∀ f ∈ minted, f.seq = row.seq)
      (hd : d.seq = row.seq)
      (names : (minted.map (·.findingId)).Sublist [canonicalId row.seq])
      (known : ∀ f ∈ d.findingId, f ∈ (db.canonicalFindings ++ minted).map (·.findingId)) :
      Effect db { db with
        findingLog := db.findingLog ++ [row]
        canonicalFindings := db.canonicalFindings ++ minted
        decisions := db.decisions ++ [d] }
  | split {row : LedgerRow FindingKind} {set : ClaimSet} {claims : List FindingClaim}
      (hrow : row.seq = db.head + 1)
      (hkind : row.kind = .split) (hset : set.seq = row.seq) (hrestores : set.restores = none)
      (hclaims : ∀ c ∈ claims, c.set = set.key) (fresh : ∀ c ∈ db.claimSets, c.key ≠ set.key)
      (newClaims : ∀ c ∈ db.claims, ∀ c' ∈ claims, c.claimId < c'.claimId)
      (distinct : (claims.map (·.claimId)).Nodup) :
      Effect db { db with
        findingLog := db.findingLog ++ [row]
        claimSets := db.claimSets ++ [set]
        claims := db.claims ++ claims }
  | restored {row : LedgerRow FindingKind} {set : ClaimSet} {old : ClaimSet}
      (hrow : row.seq = db.head + 1)
      (hkind : row.kind = .restored) (hset : set.seq = row.seq) (hold : old ∈ db.claimSets)
      (hkey : old.submissionId = set.submissionId) (hrestores : set.restores = some old.revision) :
      Effect db { db with
        findingLog := db.findingLog ++ [row]
        claimSets := db.claimSets ++ [set] }
  | related {row : LedgerRow FindingKind} {r : FindingRelationship} (hrow : row.seq = db.head + 1)
      (hkind : row.kind = .merged ∨ row.kind = .unmerged)
      (hr : r.seq = row.seq) (merge : r.kind = .merge → db.Mergeable r) :
      Effect db { db with
        findingLog := db.findingLog ++ [row]
        relationships := db.relationships ++ [r] }
  | repairOpened {row : LedgerRow FixKind} {o : RepairOpportunity} {state : FixState}
      (hrow : row.seq = db.head + 1)
      (hkind : row.kind = .repairOpened) (ho : o.seq = row.seq) (hstate : db.fixState none = .ok state)
      (closed : ∀ r ∈ state.repairs, r.findingId = o.findingId → r.closure ≠ none) :
      Effect db { db with fixLog := db.fixLog ++ [row], repairs := db.repairs ++ [o] }
  | attemptBound {row : LedgerRow FixKind} {a : RepairAttempt} (hrow : row.seq = db.head + 1)
      (hkind : row.kind = .attemptBound)
      (ha : a.seq = row.seq) :
      Effect db { db with fixLog := db.fixLog ++ [row], repairAttempts := db.repairAttempts ++ [a] }
  | proposed {row : LedgerRow FixKind} {p : FixProposal} {o : RepairOpportunity}
      (hrow : row.seq = db.head + 1)
      (hkind : row.kind = .proposed) (hp : p.seq = row.seq) (ho : o ∈ db.repairs)
      (hrepair : p.repairSeq = o.seq) (result : ∃ r ∈ db.results.rows, r.attemptId = p.attemptId) :
      Effect db { db with fixLog := db.fixLog ++ [row], proposals := db.proposals ++ [p] }
  | verified {row : LedgerRow FixKind} {v : VerificationRow} (hrow : row.seq = db.head + 1)
      (hkind : row.kind = .verified)
      (hv : v.seq = row.seq) :
      Effect db { db with fixLog := db.fixLog ++ [row], verifications := db.verifications ++ [v] }
  | integrated {row : LedgerRow FixKind} {i : IntegrationRow} {p : FixProposal}
      (hrow : row.seq = db.head + 1)
      (hkind : row.kind = .integrated) (hi : i.seq = row.seq) (hp : p ∈ db.proposals)
      (hproposal : i.proposalSeq = p.seq)
      (fresh : ∀ j ∈ db.integrations, j.proposalSeq ≠ i.proposalSeq) :
      Effect db { db with fixLog := db.fixLog ++ [row], integrations := db.integrations ++ [i] }
  | closed {row : LedgerRow FixKind} {c : RepairClosure} (hrow : row.seq = db.head + 1)
      (hkind : row.kind = .repairClosed)
      (hc : c.seq = row.seq) :
      Effect db { db with fixLog := db.fixLog ++ [row], closures := db.closures ++ [c] }
  | reopened {row : LedgerRow FixKind} {o : ReopeningRow} {state : FixState} {f : FindingFixState}
      {r : ResolutionInterval} (hrow : row.seq = db.head + 1)
      (hkind : row.kind = .reopened) (ho : o.seq = row.seq)
      (hstate : db.fixState none = .ok state) (hf : f ∈ state.findings)
      (hfinding : f.findingId = o.findingId) (hr : r ∈ f.resolutions) (current : r.endedSeq = none)
      (hintegration : o.integrationSeq = r.integrationSeq) :
      Effect db { db with fixLog := db.fixLog ++ [row], reopenings := db.reopenings ++ [o] }
  | introduced {row : LedgerRow FixKind} {d : IntroductionDecision} {shares : List ShareRow}
      (hrow : row.seq = db.head + 1)
      (hkind : row.kind = .introduced) (hd : d.seq = row.seq) (hshares : ∀ s ∈ shares, s.seq = row.seq)
      (attempts : ∀ s ∈ shares, (db.attempts.find s.attemptId).isSome) (accepted : Accepted shares) :
      Effect db { db with
        fixLog := db.fixLog ++ [row]
        introductions := db.introductions ++ [d]
        shares := db.shares ++ shares }
  | credited {row : LedgerRow FixKind} {a : CreditAllocation} {shares : List ShareRow}
      (hrow : row.seq = db.head + 1)
      (hkind : row.kind = .credited) (ha : a.seq = row.seq) (hshares : ∀ s ∈ shares, s.seq = row.seq)
      (attempts : ∀ s ∈ shares, (db.attempts.find s.attemptId).isSome) (accepted : Accepted shares) :
      Effect db { db with
        fixLog := db.fixLog ++ [row]
        allocations := db.allocations ++ [a]
        shares := db.shares ++ shares }
  | retracted {row : LedgerRow FixKind} {r : FixRetraction} (hrow : row.seq = db.head + 1)
      (hkind : row.kind = .retracted)
      (hr : r.seq = row.seq) :
      Effect db { db with fixLog := db.fixLog ++ [row], retractions := db.retractions ++ [r] }
  | attemptCreated {row : AttemptRow} {t} (h : db.attempts.insert? row = some t) :
      Effect db { db with attempts := t }
  | attemptChanged {row : AttemptRow} {id : String} {state : AttemptState}
      (h : db.attempts.find id = some row) :
      Effect db { db with attempts := db.attempts.update { row with state } }
  | opportunity {row : ReviewOpportunity} {t} (h : db.opportunities.insert? row = some t) :
      Effect db { db with opportunities := t }
  | session {row : ReviewSession} {t} (h : db.sessions.insert? row = some t)
      (attempt : (db.attempts.find row.attemptId).isSome)
      (opportunity : (db.opportunities.find row.opportunityId).isSome) :
      Effect db { db with sessions := t }
  | result {row : ResultRow} {t} (h : db.results.insert? row = some t)
      (attempt : (db.attempts.find row.attemptId).isSome) :
      Effect db { db with results := t }
  | verification {runs verified integrated} : Effect db { db with runs, verified, integrated }
  | otherLedger {detections : List SeedDetection} {retractions : List SeedRetraction}
      (hd : ∀ d ∈ detections, d.seq = db.head + 1) (hr : ∀ r ∈ retractions, r.seq = db.head + 1) :
      Effect db { db with
        otherLogs := db.otherLogs ++ [db.head + 1]
        seedDetections := db.seedDetections ++ detections
        seedRetractions := db.seedRetractions ++ retractions }

/-- A sequence of effects. -/
abbrev Effects := Relation.ReflTransGen Effect

/-! ## Shared statements -/

theorem maxOf_le_append (ns ms : List Int) : maxOf ns ≤ maxOf (ns ++ ms) := by
  rw [maxOf, maxOf, List.foldl_append]
  generalize ns.foldl max 0 = n
  induction ms generalizing n with
  | nil => exact Int.le_refl n
  | cons m ms ih => exact Int.le_trans (Int.le_max_left n m) (ih (max n m))

theorem le_maxOf {ns : List Int} {n : Int} (h : n ∈ ns) : n ≤ maxOf ns := by
  obtain ⟨pre, post, rfl⟩ := List.append_of_mem h
  have hle := maxOf_le_append (pre ++ [n]) post
  rw [List.append_assoc, List.singleton_append] at hle
  refine Int.le_trans ?_ hle
  rw [maxOf, List.foldl_append]
  exact Int.le_max_right _ _

theorem reads_triageAuthority (principal : String) : Tx.Reads (triageAuthority principal) :=
  .bind (.require _ _) fun _ => .bind (.ask _) fun _ => .bind (.require _ _) fun _ =>
    .bind (.require _ _) fun _ => .require _ _

theorem nextSeq_ok {principal : String} {expected : Option Int} {seq : Int}
    (h : nextSeq principal expected db = .ok (seq, db')) : seq = db.head + 1 ∧ db = db' := by
  obtain ⟨_, -, h⟩ := (reads_triageAuthority principal).peel.mp h
  have h := Tx.ask_bind.mp h
  obtain ⟨-, h⟩ := Tx.require_bind.mp h
  obtain ⟨rfl, rfl⟩ := Tx.pure_ok.mp h
  exact ⟨rfl, rfl⟩

theorem log_ok {kind : FindingKind} {principal : String} {expected : Option Int} {now : Int}
    {row : LedgerRow FindingKind} (h : log kind principal expected now db = .ok (row, db')) :
    row.seq = db.head + 1 ∧ row.kind = kind ∧
      db' = { db with findingLog := db.findingLog ++ [row] } := by
  obtain ⟨seq, t, hnext, h⟩ := Tx.bind_ok.mp h
  obtain ⟨hseq, rfl⟩ := nextSeq_ok hnext
  have h := Tx.write_bind.mp h
  obtain ⟨rfl, rfl⟩ := Tx.pure_ok.mp h
  exact ⟨hseq, rfl, rfl⟩

theorem fixLog_ok {kind : FixKind} {principal : String} {expected : Option Int} {now : Int}
    {row : LedgerRow FixKind} (h : fixLog kind principal expected now db = .ok (row, db')) :
    row.seq = db.head + 1 ∧ row.kind = kind ∧ db' = { db with fixLog := db.fixLog ++ [row] } := by
  obtain ⟨seq, t, hnext, h⟩ := Tx.bind_ok.mp h
  obtain ⟨hseq, rfl⟩ := nextSeq_ok hnext
  have h := Tx.write_bind.mp h
  obtain ⟨rfl, rfl⟩ := Tx.pure_ok.mp h
  exact ⟨hseq, rfl, rfl⟩

theorem reads_findingExists (finding : String) : Tx.Reads (findingExists finding) :=
  .bind (.ask _) fun _ => .require _ _

theorem findingExists_ok {finding : String} {u : Unit}
    (h : findingExists finding db = .ok (u, db')) :
    ∃ f ∈ db.canonicalFindings, f.findingId = finding := by
  have h := Tx.ask_bind.mp h
  obtain ⟨hany, -⟩ := Tx.require_ok.mp h
  simpa using hany

theorem reads_requireRepair (repair : Int) : Tx.Reads (requireRepair repair) :=
  .bind (.ask _) fun _ => .require _ _

theorem requireRepair_ok {repair : Int} {u : Unit} (h : requireRepair repair db = .ok (u, db')) :
    ∃ o ∈ db.repairs, o.seq = repair := by
  have h := Tx.ask_bind.mp h
  obtain ⟨hany, -⟩ := Tx.require_ok.mp h
  simpa using hany

theorem reads_requireOpen (repair : Int) (refusal : String) : Tx.Reads (requireOpen repair refusal) :=
  .bind (.ask _) fun _ => .require _ _

theorem reads_requireTarget (target : Option FindingTarget) : Tx.Reads (requireTarget target) := by
  match target with
  | none => exact .pure ()
  | some (.new _) => exact .pure ()
  | some (.existing finding) => exact reads_findingExists finding

theorem reads_validatedRoot (state : FixState) (finding : String) :
    Tx.Reads (validatedRoot state finding) :=
  .bind (.find _ _) fun _ => .bind (.require _ _) fun _ => .pure _

theorem validatedRoot_ok {state : FixState} {finding : String} {f : FindingFixState}
    (h : validatedRoot state finding db = .ok (f, db')) :
    f ∈ state.findings ∧ f.findingId = finding := by
  obtain ⟨g, hg, h⟩ := Tx.find_bind.mp h
  obtain ⟨-, h⟩ := Tx.require_bind.mp h
  obtain ⟨rfl, -⟩ := Tx.pure_ok.mp h
  exact ⟨List.mem_of_find?_eq_some hg, by simpa using List.find?_some hg⟩

theorem reads_requireAuthored (finding : String) (introducing : Option String)
    (c : CreditShareSpec) : Tx.Reads (requireAuthored finding introducing c) :=
  .bind (.ask _) fun _ => .bind (.require _ _) fun _ => .bind (.ask _) fun _ => .require _ _

theorem insertShares_ok {seq : Int} {specs : List CreditShareSpec} {u : Unit} {total : Nat}
    (hspecs : shares specs = .ok total) (h : insertShares seq specs db = .ok (u, db')) :
    ∃ rows : List ShareRow, (∀ s ∈ rows, s.seq = seq) ∧
      (∀ s ∈ rows, (db.attempts.find s.attemptId).isSome) ∧ Accepted rows ∧
      db' = { db with shares := db.shares ++ rows } := by
  have h := Tx.ask_bind.mp h
  obtain ⟨hknown, h⟩ := Tx.require_bind.mp h
  have h := Tx.write_ok.mp h
  refine ⟨_, ?_, ?_, ⟨total, ?_⟩, h.symm⟩
  · intro s hs
    obtain ⟨spec, -, rfl⟩ := List.mem_map.mp hs
    rfl
  · intro s hs
    obtain ⟨spec, hspec, rfl⟩ := List.mem_map.mp hs
    exact List.all_eq_true.mp hknown spec hspec
  · rw [List.map_map]
    exact (congrArg shares (List.map_id specs)).trans hspecs

theorem otherLog_ok {seq : Int} (h : otherLog db = .ok (seq, db')) :
    seq = db.head + 1 ∧ db' = { db with otherLogs := db.otherLogs ++ [db.head + 1] } := by
  have h := Tx.ask_bind.mp h
  have h := Tx.write_bind.mp h
  obtain ⟨rfl, rfl⟩ := Tx.pure_ok.mp h
  exact ⟨rfl, rfl⟩

/-! ## Finding triage -/

theorem lt_nextId {ids : List Int} {n : Int} (h : n ∈ ids) : n < nextId ids :=
  Int.lt_add_one_of_le (le_maxOf h)

theorem recordSubmission_effect {session principal finding : String} {title : Option String}
    {now id : Int} (h : recordSubmission session title principal now finding db = .ok (id, db')) :
    Effect db db' := by
  have h := Tx.ask_bind.mp h
  have h := Tx.ask_bind.mp h
  have h := Tx.ask_bind.mp h
  have h := Tx.write_bind.mp h
  have h := Tx.ask_bind.mp h
  obtain ⟨hsession, h⟩ := Tx.require_bind.mp h
  have h := Tx.ask_bind.mp h
  obtain ⟨-, h⟩ := Tx.require_bind.mp h
  have h := Tx.write_bind.mp h
  have h := Tx.ask_bind.mp h
  obtain ⟨hunused, h⟩ := Tx.require_bind.mp h
  have h := Tx.write_bind.mp h
  obtain ⟨-, rfl⟩ := Tx.pure_ok.mp h
  refine .submitted rfl rfl rfl rfl rfl rfl rfl (fun c hc => ?_) hsession (fun s hs => ?_)
    fun c hc => ?_
  · exact of_decide_eq_true (List.all_eq_true.mp hunused c hc)
  · exact (lt_nextId (List.mem_map_of_mem hs)).ne
  · exact lt_nextId (List.mem_map_of_mem hc)

theorem recordSubmissions_effects {session principal : String} {titles : String → Option String}
    {now : Int} {refs : List String} {ids : List Int}
    (h : recordSubmissions session titles principal now refs db = .ok (ids, db')) :
    Effects db db' := by
  induction refs generalizing db ids with
  | nil =>
    obtain ⟨-, rfl⟩ := Tx.pure_ok.mp h
    exact .refl
  | cons finding refs ih =>
    obtain ⟨id, t, hone, h⟩ := Tx.bind_ok.mp h
    obtain ⟨ids, t', hrest, h⟩ := Tx.bind_ok.mp h
    obtain ⟨-, rfl⟩ := Tx.pure_ok.mp h
    exact .head (recordSubmission_effect hone) (ih hrest)

section Excerpt

variable [TitleExcerpt]

omit [TitleExcerpt] in
theorem requireTarget_ok {target : Option FindingTarget} {u : Unit}
    (h : requireTarget target db = .ok (u, db')) {finding : String}
    (htarget : target = some (.existing finding)) :
    finding ∈ db.canonicalFindings.map (·.findingId) := by
  subst htarget
  obtain ⟨f, hf, rfl⟩ := findingExists_ok h
  exact List.mem_map_of_mem hf

theorem decideTarget_ok {claim : FindingClaim} {seq : Int} {target : Option FindingTarget}
    {finding : Option String} (h : decideTarget claim seq target db = .ok (finding, db'))
    (hexisting : ∀ f, target = some (.existing f) →
      f ∈ db.canonicalFindings.map (·.findingId)) :
    ∃ minted : List CanonicalFinding, (∀ f ∈ minted, f.seq = seq) ∧
      (minted.map (·.findingId)).Sublist [canonicalId seq] ∧
      (∀ f ∈ finding, f ∈ (db.canonicalFindings ++ minted).map (·.findingId)) ∧
      db' = { db with canonicalFindings := db.canonicalFindings ++ minted } := by
  match target with
  | none =>
    obtain ⟨rfl, rfl⟩ := Tx.pure_ok.mp h
    exact ⟨[], by simp, by simp, by simp, by simp⟩
  | some (.existing f) =>
    obtain ⟨rfl, rfl⟩ := Tx.pure_ok.mp h
    refine ⟨[], by simp, by simp, fun f' hf' => ?_, by simp⟩
    obtain rfl := Option.mem_some_iff.mp hf'
    rw [List.append_nil]
    exact hexisting f rfl
  | some (.new title) =>
    have h := Tx.ask_bind.mp h
    have h := Tx.write_bind.mp h
    obtain ⟨rfl, rfl⟩ := Tx.pure_ok.mp h
    refine ⟨_, ?_, ?_, fun f hf => ?_, rfl⟩
    · simp
    · exact .refl _
    · obtain rfl := Option.mem_some_iff.mp hf
      rw [List.map_append]
      exact List.mem_append_right _ (List.mem_singleton_self _)

theorem triageFindingClaim_effect {claim now : Int} {request : TriageRequest} {principal : String}
    {event : FindingEvent FindingKind}
    (h : triageFindingClaim claim request principal now db = .ok (event, db')) : Effect db db' := by
  obtain ⟨_, -, h⟩ := Tx.check_bind.mp h
  obtain ⟨_, -, h⟩ := Tx.check_bind.mp h
  obtain ⟨_, -, h⟩ := (reads_triageAuthority _).peel.mp h
  obtain ⟨_, -, h⟩ := Tx.find_bind.mp h
  have h := Tx.ask_bind.mp h
  obtain ⟨-, h⟩ := Tx.require_bind.mp h
  obtain ⟨_, hexisting, h⟩ := (reads_requireTarget _).peel.mp h
  have h := Tx.ask_bind.mp h
  obtain ⟨row, t, hlog, h⟩ := Tx.bind_ok.mp h
  obtain ⟨hrow, hkind, rfl⟩ := log_ok hlog
  obtain ⟨finding, t, htarget, h⟩ := Tx.bind_ok.mp h
  obtain ⟨minted, hminted, hnames, hknown, rfl⟩ :=
    decideTarget_ok htarget fun _ => requireTarget_ok hexisting
  have h := Tx.write_bind.mp h
  obtain ⟨-, rfl⟩ := Tx.pure_ok.mp h
  exact .decided hrow hkind hminted rfl hnames hknown

theorem splitClaims_set {submission revision id ordinal : Int} {titles : List (Option String)} :
    ∀ c ∈ splitClaims submission revision id ordinal titles, c.set = (submission, revision) := by
  induction titles generalizing id ordinal with
  | nil => simp [splitClaims]
  | cons title titles ih =>
    intro c hc
    rcases List.mem_cons.mp hc with rfl | hc
    · rfl
    · exact ih c hc

theorem splitClaims_ids {submission revision id ordinal : Int} {titles : List (Option String)} :
    (∀ c ∈ splitClaims submission revision id ordinal titles, id ≤ c.claimId) ∧
      ((splitClaims submission revision id ordinal titles).map (·.claimId)).Nodup := by
  induction titles generalizing id ordinal with
  | nil => simp [splitClaims]
  | cons title titles ih =>
    obtain ⟨hge, hnodup⟩ := @ih (id + 1) (ordinal + 1)
    refine ⟨fun c hc => ?_, List.nodup_cons.mpr ⟨fun hmem => ?_, hnodup⟩⟩
    · rcases List.mem_cons.mp hc with rfl | hc
      · exact le_rfl
      · have := hge c hc
        omega
    · obtain ⟨c, hc, hid⟩ := List.mem_map.mp hmem
      have := hge c hc
      dsimp only at hid
      omega

theorem splitFindingSubmission_effect {submission now : Int} {titles : List (Option String)}
    {expected : Option Int} {principal : String} {event : FindingEvent FindingKind}
    (h : splitFindingSubmission submission titles expected principal now db = .ok (event, db')) :
    Effect db db' := by
  obtain ⟨-, h⟩ := Tx.require_bind.mp h
  obtain ⟨_, -, h⟩ := (reads_triageAuthority _).peel.mp h
  obtain ⟨current, -, h⟩ := Tx.find_bind.mp h
  obtain ⟨row, t, hlog, h⟩ := Tx.bind_ok.mp h
  obtain ⟨hrow, hkind, rfl⟩ := log_ok hlog
  have h := Tx.ask_bind.mp h
  obtain ⟨hunused, h⟩ := Tx.require_bind.mp h
  have h := Tx.ask_bind.mp h
  have h := Tx.write_bind.mp h
  obtain ⟨-, rfl⟩ := Tx.pure_ok.mp h
  refine .split hrow hkind rfl rfl splitClaims_set (fun c hc => ?_) (fun c hc c' hc' => ?_)
    splitClaims_ids.2
  · exact of_decide_eq_true (List.all_eq_true.mp hunused c hc)
  · exact (lt_nextId (List.mem_map_of_mem hc)).trans_le (splitClaims_ids.1 c' hc')

end Excerpt

theorem restoreFindingClaims_effect {submission revision now : Int} {expected : Option Int}
    {principal : String} {event : FindingEvent FindingKind}
    (h : restoreFindingClaims submission revision expected principal now db = .ok (event, db')) :
    Effect db db' := by
  obtain ⟨_, -, h⟩ := (reads_triageAuthority _).peel.mp h
  obtain ⟨current, -, h⟩ := Tx.find_bind.mp h
  obtain ⟨old, hold, h⟩ := Tx.find_bind.mp h
  obtain ⟨-, h⟩ := Tx.require_bind.mp h
  obtain ⟨-, h⟩ := Tx.require_bind.mp h
  obtain ⟨row, t, hlog, h⟩ := Tx.bind_ok.mp h
  obtain ⟨hrow, hkind, rfl⟩ := log_ok hlog
  have h := Tx.ask_bind.mp h
  obtain ⟨-, h⟩ := Tx.require_bind.mp h
  have h := Tx.write_bind.mp h
  obtain ⟨-, rfl⟩ := Tx.pure_ok.mp h
  have hkey : old.key = (submission, revision) := by simpa using List.find?_some hold
  obtain ⟨hsubmission, hrevision⟩ := Prod.mk.inj hkey
  exact .restored hrow hkind rfl (List.mem_of_find?_eq_some hold) hsubmission
    (congrArg some hrevision.symm)

theorem mergeFindings_effect {source target principal : String} {expected : Option Int} {now : Int}
    {event : FindingEvent FindingKind}
    (h : mergeFindings source target expected principal now db = .ok (event, db')) :
    Effect db db' := by
  obtain ⟨_, -, h⟩ := (reads_triageAuthority _).peel.mp h
  obtain ⟨_, -, h⟩ := (reads_findingExists _).peel.mp h
  obtain ⟨_, htarget, h⟩ := (reads_findingExists _).peel.mp h
  have h := Tx.ask_bind.mp h
  obtain ⟨hsource, h⟩ := Tx.require_bind.mp h
  obtain ⟨hroots, h⟩ := Tx.require_bind.mp h
  obtain ⟨row, t, hlog, h⟩ := Tx.bind_ok.mp h
  obtain ⟨hrow, hkind, rfl⟩ := log_ok hlog
  have h := Tx.write_bind.mp h
  obtain ⟨-, rfl⟩ := Tx.pure_ok.mp h
  exact .related hrow (.inl hkind) rfl fun _ =>
    ⟨findingExists_ok htarget, Option.isNone_iff_eq_none.mp hsource, hroots⟩

theorem unmergeFindings_effect {mergeSeq now : Int} {expected : Option Int} {principal : String}
    {event : FindingEvent FindingKind}
    (h : unmergeFindings mergeSeq expected principal now db = .ok (event, db')) :
    Effect db db' := by
  obtain ⟨_, -, h⟩ := (reads_triageAuthority _).peel.mp h
  obtain ⟨_, -, h⟩ := Tx.find_bind.mp h
  have h := Tx.ask_bind.mp h
  obtain ⟨-, h⟩ := Tx.require_bind.mp h
  obtain ⟨row, t, hlog, h⟩ := Tx.bind_ok.mp h
  obtain ⟨hrow, hkind, rfl⟩ := log_ok hlog
  have h := Tx.write_bind.mp h
  obtain ⟨-, rfl⟩ := Tx.pure_ok.mp h
  exact .related hrow (.inr hkind) rfl nofun

/-! ## Fix attribution -/

theorem openRepair_effect {finding principal : String} {assignment : RepairAssignment}
    {retained : String → Except String (String × String)} {horizonMs now : Int}
    {expected : Option Int} {event : FindingEvent FixKind}
    (h : openRepair finding assignment retained horizonMs expected principal now db =
      .ok (event, db')) : Effect db db' := by
  obtain ⟨-, h⟩ := Tx.require_bind.mp h
  obtain ⟨_, -, h⟩ := (reads_triageAuthority _).peel.mp h
  obtain ⟨state, hstate, h⟩ := Tx.query_bind.mp h
  obtain ⟨_, -, h⟩ := (reads_validatedRoot _ _).peel.mp h
  obtain ⟨-, h⟩ := Tx.require_bind.mp h
  obtain ⟨hopen, h⟩ := Tx.require_bind.mp h
  obtain ⟨_, -, h⟩ := Tx.check_bind.mp h
  obtain ⟨row, t, hlog, h⟩ := Tx.bind_ok.mp h
  obtain ⟨hrow, hkind, rfl⟩ := fixLog_ok hlog
  have h := Tx.write_bind.mp h
  obtain ⟨-, rfl⟩ := Tx.pure_ok.mp h
  refine .repairOpened hrow hkind rfl hstate fun r hr hfinding hclosure => ?_
  have hnone := List.find?_eq_none.mp (Option.isNone_iff_eq_none.mp hopen) r hr
  exact hnone (decide_eq_true ⟨hfinding, by rw [hclosure]; rfl⟩)

theorem bindRepairAttempt_effect {repair now : Int} {attempt principal : String}
    {expected : Option Int} {event : FindingEvent FixKind}
    (h : bindRepairAttempt repair attempt expected principal now db = .ok (event, db')) :
    Effect db db' := by
  obtain ⟨_, -, h⟩ := (reads_triageAuthority _).peel.mp h
  obtain ⟨_, -, h⟩ := (reads_requireRepair _).peel.mp h
  obtain ⟨_, -, h⟩ := (reads_requireOpen _ _).peel.mp h
  obtain ⟨_, -, h⟩ := Tx.find_bind.mp h
  obtain ⟨-, h⟩ := Tx.require_bind.mp h
  have h := Tx.ask_bind.mp h
  obtain ⟨-, h⟩ := Tx.require_bind.mp h
  have h := Tx.ask_bind.mp h
  obtain ⟨-, h⟩ := Tx.require_bind.mp h
  have h := Tx.ask_bind.mp h
  obtain ⟨row, t, hlog, h⟩ := Tx.bind_ok.mp h
  obtain ⟨hrow, hkind, rfl⟩ := fixLog_ok hlog
  have h := Tx.write_bind.mp h
  obtain ⟨-, rfl⟩ := Tx.pure_ok.mp h
  exact .attemptBound hrow hkind rfl

theorem proposeFix_effect {repair now : Int} {submission principal : String}
    {expected : Option Int} {event : FindingEvent FixKind}
    (h : proposeFix repair submission expected principal now db = .ok (event, db')) :
    Effect db db' := by
  obtain ⟨_, -, h⟩ := (reads_triageAuthority _).peel.mp h
  obtain ⟨_, hrepair, h⟩ := (reads_requireRepair _).peel.mp h
  obtain ⟨o, ho, hseq⟩ := requireRepair_ok hrepair
  obtain ⟨_, -, h⟩ := (reads_requireOpen _ _).peel.mp h
  obtain ⟨result, hresult, h⟩ := Tx.find_bind.mp h
  have h := Tx.ask_bind.mp h
  obtain ⟨-, h⟩ := Tx.require_bind.mp h
  have h := Tx.ask_bind.mp h
  obtain ⟨-, h⟩ := Tx.require_bind.mp h
  obtain ⟨row, t, hlog, h⟩ := Tx.bind_ok.mp h
  obtain ⟨hrow, hkind, rfl⟩ := fixLog_ok hlog
  have h := Tx.write_bind.mp h
  obtain ⟨-, rfl⟩ := Tx.pure_ok.mp h
  exact .proposed hrow hkind rfl ho hseq.symm ⟨result, Table.mem_of_find hresult, rfl⟩

theorem verifyFix_effect {proposal now : Int} {run assurance principal : String}
    {refs : List String} {expected : Option Int} {event : FindingEvent FixKind}
    (h : verifyFix proposal run assurance refs expected principal now db = .ok (event, db')) :
    Effect db db' := by
  obtain ⟨-, h⟩ := Tx.require_bind.mp h
  obtain ⟨_, -, h⟩ := Tx.check_bind.mp h
  obtain ⟨-, h⟩ := Tx.require_bind.mp h
  obtain ⟨_, -, h⟩ := (reads_triageAuthority _).peel.mp h
  obtain ⟨_, -, h⟩ := Tx.find_bind.mp h
  obtain ⟨_, -, h⟩ := (reads_requireOpen _ _).peel.mp h
  have h := Tx.ask_bind.mp h
  obtain ⟨-, h⟩ := Tx.require_bind.mp h
  obtain ⟨_, -, h⟩ := Tx.find_bind.mp h
  obtain ⟨-, h⟩ := Tx.require_bind.mp h
  obtain ⟨-, h⟩ := Tx.require_bind.mp h
  obtain ⟨_, -, h⟩ := Tx.find_bind.mp h
  obtain ⟨row, t, hlog, h⟩ := Tx.bind_ok.mp h
  obtain ⟨hrow, hkind, rfl⟩ := fixLog_ok hlog
  have h := Tx.write_bind.mp h
  obtain ⟨-, rfl⟩ := Tx.pure_ok.mp h
  exact .verified hrow hkind rfl

theorem integrateFix_effect {proposal now : Int} {integrated principal : String}
    {expected : Option Int} {event : FindingEvent FixKind}
    (h : integrateFix proposal integrated expected principal now db = .ok (event, db')) :
    Effect db db' := by
  obtain ⟨_, -, h⟩ := (reads_triageAuthority _).peel.mp h
  obtain ⟨p, hp, h⟩ := Tx.find_bind.mp h
  obtain ⟨hmem, hseq⟩ := rowAt_mem hp
  obtain ⟨_, -, h⟩ := Tx.find_bind.mp h
  have h := Tx.ask_bind.mp h
  obtain ⟨halready, h⟩ := Tx.require_bind.mp h
  obtain ⟨_, -, h⟩ := Tx.find_bind.mp h
  obtain ⟨-, h⟩ := Tx.require_bind.mp h
  obtain ⟨row, t, hlog, h⟩ := Tx.bind_ok.mp h
  obtain ⟨hrow, hkind, rfl⟩ := fixLog_ok hlog
  have h := Tx.ask_bind.mp h
  obtain ⟨-, h⟩ := Tx.require_bind.mp h
  have h := Tx.write_bind.mp h
  obtain ⟨-, rfl⟩ := Tx.pure_ok.mp h
  refine .integrated hrow hkind rfl hmem hseq.symm fun j hj heq => ?_
  exact List.any_eq_false.mp halready j hj (decide_eq_true heq)

theorem closeRepair_effect {repair now : Int} {outcome principal : String}
    {expected : Option Int} {event : FindingEvent FixKind}
    (h : closeRepair repair outcome expected principal now db = .ok (event, db')) :
    Effect db db' := by
  obtain ⟨-, h⟩ := Tx.require_bind.mp h
  obtain ⟨_, -, h⟩ := (reads_triageAuthority _).peel.mp h
  obtain ⟨_, -, h⟩ := (reads_requireRepair _).peel.mp h
  obtain ⟨_, -, h⟩ := (reads_requireOpen _ _).peel.mp h
  have h := Tx.ask_bind.mp h
  obtain ⟨-, h⟩ := Tx.require_bind.mp h
  obtain ⟨row, t, hlog, h⟩ := Tx.bind_ok.mp h
  obtain ⟨hrow, hkind, rfl⟩ := fixLog_ok hlog
  have h := Tx.write_bind.mp h
  obtain ⟨-, rfl⟩ := Tx.pure_ok.mp h
  exact .closed hrow hkind rfl

theorem reopenFinding_effect {finding reason observedOid principal : String} {refs : List String}
    {expected : Option Int} {now : Int} {event : FindingEvent FixKind}
    (h : reopenFinding finding reason observedOid refs expected principal now db =
      .ok (event, db')) : Effect db db' := by
  obtain ⟨-, h⟩ := Tx.require_bind.mp h
  obtain ⟨-, h⟩ := Tx.require_bind.mp h
  obtain ⟨_, -, h⟩ := Tx.check_bind.mp h
  obtain ⟨-, h⟩ := Tx.require_bind.mp h
  obtain ⟨_, -, h⟩ := (reads_triageAuthority _).peel.mp h
  obtain ⟨state, hstate, h⟩ := Tx.query_bind.mp h
  obtain ⟨f, hf, h⟩ := (reads_validatedRoot _ _).peel.mp h
  obtain ⟨hmem, hfinding⟩ := validatedRoot_ok hf
  obtain ⟨r, hr, h⟩ := Tx.find_bind.mp h
  obtain ⟨row, t, hlog, h⟩ := Tx.bind_ok.mp h
  obtain ⟨hrow, hkind, rfl⟩ := fixLog_ok hlog
  have h := Tx.write_bind.mp h
  obtain ⟨-, rfl⟩ := Tx.pure_ok.mp h
  have hcurrent : r.endedSeq = none := by simpa using List.find?_some hr
  exact .reopened hrow hkind rfl hstate hmem hfinding (List.mem_of_find?_eq_some hr) hcurrent rfl

theorem attributeIntroduction_effect {finding principal : String} {request : IntroductionRequest}
    {refs : List String} {expected : Option Int} {now : Int} {event : FindingEvent FixKind}
    (h : attributeIntroduction finding request refs expected principal now db =
      .ok (event, db')) : Effect db db' := by
  obtain ⟨_, -, h⟩ := Tx.check_bind.mp h
  obtain ⟨-, h⟩ := Tx.require_bind.mp h
  obtain ⟨⟨status, method, introducing, contributors⟩, -, h⟩ := Tx.check_bind.mp h
  obtain ⟨_, hspecs, h⟩ := Tx.check_bind.mp h
  obtain ⟨_, -, h⟩ := (reads_triageAuthority _).peel.mp h
  obtain ⟨_, -, h⟩ := Tx.query_bind.mp h
  obtain ⟨_, -, h⟩ := (reads_validatedRoot _ _).peel.mp h
  obtain ⟨_, -, h⟩ := (Tx.Reads.forEach (reads_requireAuthored _ _) _).peel.mp h
  obtain ⟨row, t, hlog, h⟩ := Tx.bind_ok.mp h
  obtain ⟨hrow, hkind, rfl⟩ := fixLog_ok hlog
  have h := Tx.write_bind.mp h
  obtain ⟨_, t, hshares, h⟩ := Tx.bind_ok.mp h
  obtain ⟨shares, hseq, hattempts, haccepted, rfl⟩ := insertShares_ok hspecs hshares
  obtain ⟨-, rfl⟩ := Tx.pure_ok.mp h
  exact .introduced hrow hkind rfl hseq hattempts haccepted

theorem allocateCredit_effect {finding role principal : String} {proposal : Option Int}
    {specs : List CreditShareSpec} {refs : List String} {expected : Option Int} {now : Int}
    {event : FindingEvent FixKind}
    (h : allocateCredit finding role proposal specs refs expected principal now db =
      .ok (event, db')) : Effect db db' := by
  obtain ⟨_, -, h⟩ := Tx.check_bind.mp h
  obtain ⟨-, h⟩ := Tx.require_bind.mp h
  obtain ⟨-, h⟩ := Tx.require_bind.mp h
  obtain ⟨_, hspecs, h⟩ := Tx.check_bind.mp h
  obtain ⟨_, -, h⟩ := (reads_triageAuthority _).peel.mp h
  obtain ⟨_, -, h⟩ := Tx.query_bind.mp h
  obtain ⟨_, -, h⟩ := (reads_validatedRoot _ _).peel.mp h
  obtain ⟨⟨kind, eligible⟩, -, h⟩ := Tx.check_bind.mp h
  obtain ⟨-, h⟩ := Tx.require_bind.mp h
  obtain ⟨row, t, hlog, h⟩ := Tx.bind_ok.mp h
  obtain ⟨hrow, hkind, rfl⟩ := fixLog_ok hlog
  have h := Tx.write_bind.mp h
  obtain ⟨_, t, hshares, h⟩ := Tx.bind_ok.mp h
  obtain ⟨shares, hseq, hattempts, haccepted, rfl⟩ := insertShares_ok hspecs hshares
  obtain ⟨-, rfl⟩ := Tx.pure_ok.mp h
  exact .credited hrow hkind rfl hseq hattempts haccepted

theorem retractAttribution_effect {target now : Int} {expected : Option Int} {principal : String}
    {event : FindingEvent FixKind}
    (h : retractAttribution target expected principal now db = .ok (event, db')) :
    Effect db db' := by
  obtain ⟨_, -, h⟩ := (reads_triageAuthority _).peel.mp h
  obtain ⟨_, -, h⟩ := Tx.find_bind.mp h
  obtain ⟨-, h⟩ := Tx.require_bind.mp h
  have h := Tx.ask_bind.mp h
  obtain ⟨-, h⟩ := Tx.require_bind.mp h
  have h := Tx.ask_bind.mp h
  obtain ⟨-, h⟩ := Tx.require_bind.mp h
  obtain ⟨row, t, hlog, h⟩ := Tx.bind_ok.mp h
  obtain ⟨hrow, hkind, rfl⟩ := fixLog_ok hlog
  have h := Tx.write_bind.mp h
  obtain ⟨-, rfl⟩ := Tx.pure_ok.mp h
  exact .retracted hrow hkind rfl

/-! ## Other writers -/

theorem reads_requireAttempt (id : String) : Tx.Reads (requireAttempt id) :=
  .bind (.ask _) fun _ => .require _ _

theorem requireAttempt_ok {id : String} {u : Unit} (h : requireAttempt id db = .ok (u, db')) :
    (db.attempts.find id).isSome := by
  have h := Tx.ask_bind.mp h
  exact (Tx.require_ok.mp h).1

theorem FactoryWrite.effects {w : FactoryWrite} {u : Unit} (h : w.body db = .ok (u, db')) :
    Effects db db' := by
  cases w with
  | attempt row =>
    simp only [FactoryWrite.body, Tx.insert_ok, Option.map_eq_some_iff] at h
    obtain ⟨t, ht, rfl⟩ := h
    exact .single (.attemptCreated ht)
  | attemptState id state =>
    simp only [FactoryWrite.body, Tx.write_ok] at h
    cases hfind : db.attempts.find id with
    | none =>
      rw [hfind] at h
      rw [← h]
    | some row =>
      rw [hfind] at h
      rw [← h]
      exact .single (.attemptChanged hfind)
  | opportunity row =>
    simp only [FactoryWrite.body, Tx.insert_ok, Option.map_eq_some_iff] at h
    obtain ⟨t, ht, rfl⟩ := h
    exact .single (.opportunity ht)
  | session row =>
    obtain ⟨_, hattempt, h⟩ := (reads_requireAttempt _).peel.mp h
    have h := Tx.ask_bind.mp h
    obtain ⟨hopportunity, h⟩ := Tx.require_bind.mp h
    simp only [Tx.insert_ok, Option.map_eq_some_iff] at h
    obtain ⟨t, ht, rfl⟩ := h
    exact .single (.session ht (requireAttempt_ok hattempt) hopportunity)
  | result row =>
    obtain ⟨_, hattempt, h⟩ := (reads_requireAttempt _).peel.mp h
    simp only [Tx.insert_ok, Option.map_eq_some_iff] at h
    obtain ⟨t, ht, rfl⟩ := h
    exact .single (.result ht (requireAttempt_ok hattempt))
  | run row =>
    simp only [FactoryWrite.body, Tx.insert_ok, Option.map_eq_some_iff] at h
    obtain ⟨t, ht, rfl⟩ := h
    exact .single .verification
  | runState id state =>
    simp only [FactoryWrite.body, Tx.write_ok] at h
    cases hfind : db.runs.find id with
    | none =>
      rw [hfind] at h
      rw [← h]
    | some row =>
      rw [hfind] at h
      rw [← h]
      exact .single .verification
  | verifiedResult row =>
    simp only [FactoryWrite.body, Tx.insert_ok, Option.map_eq_some_iff] at h
    obtain ⟨t, ht, rfl⟩ := h
    exact .single .verification
  | integratedCommit row =>
    simp only [FactoryWrite.body, Tx.insert_ok, Option.map_eq_some_iff] at h
    obtain ⟨t, ht, rfl⟩ := h
    exact .single .verification
  | seedDetection claim =>
    obtain ⟨seq, t, hlog, h⟩ := Tx.bind_ok.mp h
    obtain ⟨hseq, rfl⟩ := otherLog_ok hlog
    rw [← Tx.write_ok.mp h]
    have heffect := @Effect.otherLedger db [⟨seq, claim⟩] [] (by simpa using hseq) (by simp)
    exact .single (by simpa using heffect)
  | seedRetraction reverses =>
    obtain ⟨seq, t, hlog, h⟩ := Tx.bind_ok.mp h
    obtain ⟨hseq, rfl⟩ := otherLog_ok hlog
    rw [← Tx.write_ok.mp h]
    have heffect := @Effect.otherLedger db [] [⟨seq, reverses⟩] (by simp) (by simpa using hseq)
    exact .single (by simpa using heffect)
  | otherLedger =>
    obtain ⟨seq, hlog, -⟩ := Tx.map_ok.mp h
    obtain ⟨-, rfl⟩ := otherLog_ok hlog
    have heffect := @Effect.otherLedger db [] [] (by simp) (by simp)
    exact .single (by simpa using heffect)

/-! ## Calls -/

variable [TitleExcerpt]

/-- **What a call can do.** -/
theorem callBody_effects {c : Call} {u : Unit} (h : callBody c db = .ok (u, db')) :
    Effects db db' := by
  cases c with
  | factory w => exact FactoryWrite.effects h
  | recordSubmissions session titles principal now refs =>
    obtain ⟨_, h, -⟩ := Tx.map_ok.mp h
    exact recordSubmissions_effects h
  | triageFindingClaim claim request principal now =>
    obtain ⟨_, h, -⟩ := Tx.map_ok.mp h
    exact .single (triageFindingClaim_effect h)
  | splitFindingSubmission submission titles expected principal now =>
    obtain ⟨_, h, -⟩ := Tx.map_ok.mp h
    exact .single (splitFindingSubmission_effect h)
  | restoreFindingClaims submission revision expected principal now =>
    obtain ⟨_, h, -⟩ := Tx.map_ok.mp h
    exact .single (restoreFindingClaims_effect h)
  | mergeFindings source target expected principal now =>
    obtain ⟨_, h, -⟩ := Tx.map_ok.mp h
    exact .single (mergeFindings_effect h)
  | unmergeFindings mergeSeq expected principal now =>
    obtain ⟨_, h, -⟩ := Tx.map_ok.mp h
    exact .single (unmergeFindings_effect h)
  | openRepair finding assignment retained horizonMs expected principal now =>
    obtain ⟨_, h, -⟩ := Tx.map_ok.mp h
    exact .single (openRepair_effect h)
  | bindRepairAttempt repair attempt expected principal now =>
    obtain ⟨_, h, -⟩ := Tx.map_ok.mp h
    exact .single (bindRepairAttempt_effect h)
  | proposeFix repair submission expected principal now =>
    obtain ⟨_, h, -⟩ := Tx.map_ok.mp h
    exact .single (proposeFix_effect h)
  | verifyFix proposal run assurance refs expected principal now =>
    obtain ⟨_, h, -⟩ := Tx.map_ok.mp h
    exact .single (verifyFix_effect h)
  | integrateFix proposal integrated expected principal now =>
    obtain ⟨_, h, -⟩ := Tx.map_ok.mp h
    exact .single (integrateFix_effect h)
  | closeRepair repair outcome expected principal now =>
    obtain ⟨_, h, -⟩ := Tx.map_ok.mp h
    exact .single (closeRepair_effect h)
  | reopenFinding finding reason observedOid refs expected principal now =>
    obtain ⟨_, h, -⟩ := Tx.map_ok.mp h
    exact .single (reopenFinding_effect h)
  | attributeIntroduction finding request refs expected principal now =>
    obtain ⟨_, h, -⟩ := Tx.map_ok.mp h
    exact .single (attributeIntroduction_effect h)
  | allocateCredit finding role proposal specs refs expected principal now =>
    obtain ⟨_, h, -⟩ := Tx.map_ok.mp h
    exact .single (allocateCredit_effect h)
  | retractAttribution target expected principal now =>
    obtain ⟨_, h, -⟩ := Tx.map_ok.mp h
    exact .single (retractAttribution_effect h)

/-- A history of calls is a sequence of effects. -/
theorem after_effects (calls : List Call) (db : Ledgers) : Effects db (after calls db) :=
  Run.preserves (r := Run.start db) (fun _ => .refl) .trans fun _ _ _ =>
    Tx.commit_preserves .refl callBody_effects

end Herdr.Findings
