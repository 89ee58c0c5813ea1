import Herdr.Verify.Ledgers

/-!
# As-of replay is stable

Every history row is appended above the head, and what a replay reads without a cut at the
watermark belongs to rows that are never written again: the claims of a claim set, the shares of a
history row, the session and the opportunity of a submission, and the configuration of an attempt.
So a replay to a sequence number reads the same rows whatever is recorded later.
-/

namespace Herdr.Findings

open Watermark

variable {db db' db'' : Ledgers} {mark h : Int}

/-! ## Foreign keys -/

/-- The references that the replay follows without a cut lead to rows that are there. -/
structure Sound (db : Ledgers) : Prop where
  restores : ∀ c ∈ db.claimSets, ∀ r ∈ c.restores, (c.submissionId, r) ∈ db.claimSets.map ClaimSet.key
  submissions : ∀ s ∈ db.submissions, (db.sessions.find s.sessionId).isSome
  sessions : ∀ r ∈ db.sessions.rows, (db.attempts.find r.attemptId).isSome ∧
    (db.opportunities.find r.opportunityId).isSome
  results : ∀ r ∈ db.results.rows, (db.attempts.find r.attemptId).isSome
  proposals : ∀ p ∈ db.proposals, (db.attempts.find p.attemptId).isSome
  shares : ∀ s ∈ db.shares, (db.attempts.find s.attemptId).isSome

/-! ## Growth -/

/-- Every table grew above `h` only, and no row that a replay reads uncut changed. -/
structure GrowsAbove (h : Int) (db db' : Ledgers) : Prop where
  findingLog : Appended h db.findingLog db'.findingLog := by exact .refl _ _
  submissions : Appended h db.submissions db'.submissions := by exact .refl _ _
  claimSets : Appended h db.claimSets db'.claimSets := by exact .refl _ _
  claims : ∃ more, db'.claims = db.claims ++ more ∧
    ∀ c ∈ more, c.set ∉ db.claimSets.map ClaimSet.key := by exact ⟨[], by simp, by simp⟩
  canonicalFindings : Appended h db.canonicalFindings db'.canonicalFindings := by exact .refl _ _
  decisions : Appended h db.decisions db'.decisions := by exact .refl _ _
  relationships : Appended h db.relationships db'.relationships := by exact .refl _ _
  fixLog : Appended h db.fixLog db'.fixLog := by exact .refl _ _
  repairs : Appended h db.repairs db'.repairs := by exact .refl _ _
  repairAttempts : Appended h db.repairAttempts db'.repairAttempts := by exact .refl _ _
  proposals : Appended h db.proposals db'.proposals := by exact .refl _ _
  verifications : Appended h db.verifications db'.verifications := by exact .refl _ _
  integrations : Appended h db.integrations db'.integrations := by exact .refl _ _
  closures : Appended h db.closures db'.closures := by exact .refl _ _
  reopenings : Appended h db.reopenings db'.reopenings := by exact .refl _ _
  introductions : Appended h db.introductions db'.introductions := by exact .refl _ _
  allocations : Appended h db.allocations db'.allocations := by exact .refl _ _
  shares : Appended h db.shares db'.shares := by exact .refl _ _
  retractions : Appended h db.retractions db'.retractions := by exact .refl _ _
  otherLogs : db.otherLogs <+: db'.otherLogs := by exact List.prefix_rfl
  seedDetections : Appended h db.seedDetections db'.seedDetections := by exact .refl _ _
  seedRetractions : Appended h db.seedRetractions db'.seedRetractions := by exact .refl _ _
  sessions : db.sessions.Extends db'.sessions := by exact .refl _
  opportunities : db.opportunities.Extends db'.opportunities := by exact .refl _
  attempts : ∀ id, (db.attempts.find id).isSome →
    (db'.attempts.find id).isSome ∧ db'.configuration id = db.configuration id := by
      exact fun _ hid => ⟨hid, rfl⟩

/-- A later store of the same history. -/
def Grows (db db' : Ledgers) : Prop := GrowsAbove db.head db db'

theorem Appended.maxOf_le {κ : Type} {l l' : List (LedgerRow κ)} (hl : Appended h l l') :
    maxOf (l.map (·.seq)) ≤ maxOf (l'.map (·.seq)) := by
  obtain ⟨more, rfl, -⟩ := hl
  rw [List.map_append]
  exact maxOf_le_append _ _

theorem GrowsAbove.head_le (g : GrowsAbove h db db') : db.head ≤ db'.head := by
  have hfinding := Appended.maxOf_le g.findingLog
  have hfix := Appended.maxOf_le g.fixLog
  obtain ⟨more, hother⟩ := g.otherLogs
  have hothers := maxOf_le_append db.otherLogs more
  rw [hother] at hothers
  unfold Ledgers.head
  omega

theorem Grows.refl (db : Ledgers) : Grows db db := {}

theorem Grows.trans (g : Grows db db') (g' : Grows db' db'') : Grows db db'' := by
  have hle := g.head_le
  refine
    { findingLog := g.findingLog.trans g'.findingLog hle
      submissions := g.submissions.trans g'.submissions hle
      claimSets := g.claimSets.trans g'.claimSets hle
      claims := ?_
      canonicalFindings := g.canonicalFindings.trans g'.canonicalFindings hle
      decisions := g.decisions.trans g'.decisions hle
      relationships := g.relationships.trans g'.relationships hle
      fixLog := g.fixLog.trans g'.fixLog hle
      repairs := g.repairs.trans g'.repairs hle
      repairAttempts := g.repairAttempts.trans g'.repairAttempts hle
      proposals := g.proposals.trans g'.proposals hle
      verifications := g.verifications.trans g'.verifications hle
      integrations := g.integrations.trans g'.integrations hle
      closures := g.closures.trans g'.closures hle
      reopenings := g.reopenings.trans g'.reopenings hle
      introductions := g.introductions.trans g'.introductions hle
      allocations := g.allocations.trans g'.allocations hle
      shares := g.shares.trans g'.shares hle
      retractions := g.retractions.trans g'.retractions hle
      otherLogs := g.otherLogs.trans g'.otherLogs
      seedDetections := g.seedDetections.trans g'.seedDetections hle
      seedRetractions := g.seedRetractions.trans g'.seedRetractions hle
      sessions := g.sessions.trans g'.sessions
      opportunities := g.opportunities.trans g'.opportunities
      attempts := ?_ }
  · obtain ⟨more, hmore, hset⟩ := g.claims
    obtain ⟨more', hmore', hset'⟩ := g'.claims
    refine ⟨more ++ more', by rw [hmore', hmore, List.append_assoc], fun c hc => ?_⟩
    rcases List.mem_append.mp hc with hc | hc
    · exact hset c hc
    · intro hold
      obtain ⟨set, hs, hkey⟩ := List.mem_map.mp hold
      exact hset' c hc (List.mem_map.mpr ⟨set, g.claimSets.mem hs, hkey⟩)
  · intro id hid
    obtain ⟨hsome, hsame⟩ := g.attempts id hid
    obtain ⟨hsome', hsame'⟩ := g'.attempts id hsome
    exact ⟨hsome', hsame'.trans hsame⟩

/-! ## One effect -/

theorem attempts_of_insert? {row : AttemptRow} {t : Table AttemptRow AttemptRow.id}
    (ht : db.attempts.insert? row = some t) (id : String) (hid : (db.attempts.find id).isSome) :
    t.find id = db.attempts.find id := by
  obtain ⟨a, ha⟩ := Option.isSome_iff_exists.mp hid
  rw [Table.find_insert?_of_some ht ha, ha]

theorem attempts_of_update {row : AttemptRow} {key : String} (state : AttemptState)
    (hrow : db.attempts.find key = some row) (id : String) (hid : (db.attempts.find id).isSome) :
    ((db.attempts.update { row with state }).find id).isSome ∧
      ((db.attempts.update { row with state }).find id).bind (·.configuration) =
        (db.attempts.find id).bind (·.configuration) := by
  rw [Table.find_update]
  by_cases he : row.id = id
  · have hid : db.attempts.find id = some row := by rw [← he, Table.find_key hrow, hrow]
    rw [if_pos he, hid]
    exact ⟨rfl, rfl⟩
  · rw [if_neg he]
    exact ⟨hid, rfl⟩

/-- A row at the next sequence number is above the head. -/
theorem above_head {n m : Int} (hrow : n = db.head + 1) (hm : m = n) : db.head < m := by omega

theorem Effect.grows (e : Effect db db') : Grows db db' := by
  cases e with
  | @submitted row s set claim hrow _ hs hset _ _ hclaim fresh _ _ _ =>
    refine { findingLog := .one (above_head hrow rfl), submissions := .one (above_head hrow hs),
             claimSets := .one (above_head hrow hset), claims := ?_ }
    refine ⟨[claim], rfl, fun c hc hold => ?_⟩
    obtain rfl := List.mem_singleton.mp hc
    obtain ⟨old, hold, hkey⟩ := List.mem_map.mp hold
    exact fresh old hold (hkey.trans hclaim)
  | decided hrow _ hminted hd _ _ =>
    exact { findingLog := .one (above_head hrow rfl),
            canonicalFindings := .all fun f hf => above_head hrow (hminted f hf),
            decisions := .one (above_head hrow hd) }
  | @split row set claims hrow _ hset _ hclaims fresh _ _ =>
    refine { findingLog := .one (above_head hrow rfl), claimSets := .one (above_head hrow hset),
             claims := ?_ }
    refine ⟨claims, rfl, fun c hc hold => ?_⟩
    obtain ⟨old, hold, hkey⟩ := List.mem_map.mp hold
    exact fresh old hold (hkey.trans (hclaims c hc))
  | restored hrow _ hset _ _ _ =>
    exact { findingLog := .one (above_head hrow rfl), claimSets := .one (above_head hrow hset) }
  | related hrow _ hr _ =>
    exact { findingLog := .one (above_head hrow rfl), relationships := .one (above_head hrow hr) }
  | repairOpened hrow _ ho _ _ =>
    exact { fixLog := .one (above_head hrow rfl), repairs := .one (above_head hrow ho) }
  | attemptBound hrow _ ha =>
    exact { fixLog := .one (above_head hrow rfl), repairAttempts := .one (above_head hrow ha) }
  | proposed hrow _ hp _ _ _ =>
    exact { fixLog := .one (above_head hrow rfl), proposals := .one (above_head hrow hp) }
  | verified hrow _ hv =>
    exact { fixLog := .one (above_head hrow rfl), verifications := .one (above_head hrow hv) }
  | integrated hrow _ hi _ _ _ =>
    exact { fixLog := .one (above_head hrow rfl), integrations := .one (above_head hrow hi) }
  | closed hrow _ hc =>
    exact { fixLog := .one (above_head hrow rfl), closures := .one (above_head hrow hc) }
  | reopened hrow _ ho _ _ _ _ _ _ =>
    exact { fixLog := .one (above_head hrow rfl), reopenings := .one (above_head hrow ho) }
  | introduced hrow _ hd hshares _ _ =>
    exact { fixLog := .one (above_head hrow rfl), introductions := .one (above_head hrow hd),
            shares := .all fun s hs => above_head hrow (hshares s hs) }
  | credited hrow _ ha hshares _ _ =>
    exact { fixLog := .one (above_head hrow rfl), allocations := .one (above_head hrow ha),
            shares := .all fun s hs => above_head hrow (hshares s hs) }
  | retracted hrow _ hr =>
    exact { fixLog := .one (above_head hrow rfl), retractions := .one (above_head hrow hr) }
  | attemptCreated ht =>
    refine { attempts := fun id hid => ?_ }
    have hfind := attempts_of_insert? ht id hid
    exact ⟨by rw [hfind]; exact hid, by simp only [Ledgers.configuration, hfind]⟩
  | attemptChanged hrow => exact { attempts := fun id hid => attempts_of_update _ hrow id hid }
  | opportunity ht => exact { opportunities := .insert? ht }
  | session ht _ _ => exact { sessions := .insert? ht }
  | result ht _ => exact {}
  | verification => exact {}
  | otherLedger hd hr =>
    exact { otherLogs := List.prefix_append _ _,
            seedDetections := .all fun d hd' => above_head rfl (hd d hd'),
            seedRetractions := .all fun r hr' => above_head rfl (hr r hr') }

theorem Effects.grows (e : Effects db db') : Grows db db' := by
  induction e with
  | refl => exact .refl db
  | tail _ e ih => exact ih.trans e.grows

/-! ### Foreign keys are kept -/

theorem Sound.empty : Sound .empty := by
  constructor <;> simp [Ledgers.empty, Table.empty]

/-- A reference to a row of a grown table is still a reference to a row. -/
theorem Grows.attempt_isSome (g : Grows db db') {id : String}
    (hid : (db.attempts.find id).isSome) : (db'.attempts.find id).isSome := (g.attempts id hid).1

theorem isSome_of_extends {α κ : Type} {key : α → κ} [DecidableEq κ] {t t' : Table α key} {k : κ}
    (ht : t.Extends t') (hk : (t.find k).isSome) : (t'.find k).isSome := by
  obtain ⟨a, ha⟩ := Option.isSome_iff_exists.mp hk
  rw [ht.find ha]
  rfl

/-- What the tables say, before the rows that an effect adds. -/
theorem Sound.grown (hs : Sound db) (g : Grows db db') :
    (∀ c ∈ db.claimSets, ∀ r ∈ c.restores, (c.submissionId, r) ∈ db'.claimSets.map ClaimSet.key) ∧
    (∀ s ∈ db.submissions, (db'.sessions.find s.sessionId).isSome) ∧
    (∀ r ∈ db.sessions.rows, (db'.attempts.find r.attemptId).isSome ∧
      (db'.opportunities.find r.opportunityId).isSome) ∧
    (∀ r ∈ db.results.rows, (db'.attempts.find r.attemptId).isSome) ∧
    (∀ p ∈ db.proposals, (db'.attempts.find p.attemptId).isSome) ∧
    ∀ s ∈ db.shares, (db'.attempts.find s.attemptId).isSome := by
  refine ⟨fun c hc r hr => ?_, fun s hs' => ?_, fun r hr => ?_, fun r hr => ?_, fun p hp => ?_,
    fun s hs' => ?_⟩
  · obtain ⟨set, hset, hkey⟩ := List.mem_map.mp (hs.restores c hc r hr)
    exact List.mem_map.mpr ⟨set, g.claimSets.mem hset, hkey⟩
  · exact isSome_of_extends g.sessions (hs.submissions s hs')
  · obtain ⟨hattempt, hopportunity⟩ := hs.sessions r hr
    exact ⟨g.attempt_isSome hattempt, isSome_of_extends g.opportunities hopportunity⟩
  · exact g.attempt_isSome (hs.results r hr)
  · exact g.attempt_isSome (hs.proposals p hp)
  · exact g.attempt_isSome (hs.shares s hs')

theorem forall_append {α : Type} {l more : List α} {P : α → Prop} (hl : ∀ a ∈ l, P a)
    (hmore : ∀ a ∈ more, P a) : ∀ a ∈ l ++ more, P a := by
  intro a ha
  rcases List.mem_append.mp ha with ha | ha
  · exact hl a ha
  · exact hmore a ha

theorem Effect.sound (e : Effect db db') (hs : Sound db) : Sound db' := by
  obtain ⟨hrestores, hsubmissions, hsessions, hresults, hproposals, hshares⟩ := hs.grown e.grows
  cases e with
  | submitted _ _ _ _ _ hset _ _ hsession _ _ =>
    exact ⟨forall_append hrestores (by simp [hset]),
      forall_append hsubmissions (by simpa using hsession), hsessions, hresults, hproposals, hshares⟩
  | split _ _ _ hset _ _ _ _ =>
    exact ⟨forall_append hrestores (by simp [hset]), hsubmissions, hsessions, hresults, hproposals,
      hshares⟩
  | @restored row set old _ _ _ hold hkey hset =>
    refine ⟨forall_append hrestores ?_, hsubmissions, hsessions, hresults, hproposals, hshares⟩
    intro c hc r hr
    obtain rfl := List.mem_singleton.mp hc
    rw [hset] at hr
    obtain rfl := Option.mem_some_iff.mp hr
    exact List.mem_map.mpr ⟨old, List.mem_append_left _ hold, by rw [ClaimSet.key, hkey]⟩
  | proposed _ _ _ _ _ hresult =>
    obtain ⟨r, hr, hattempt⟩ := hresult
    have hnew := hresults r hr
    rw [hattempt] at hnew
    exact ⟨hrestores, hsubmissions, hsessions, hresults,
      forall_append hproposals (by simpa using hnew), hshares⟩
  | introduced _ _ _ _ hattempts _ =>
    exact ⟨hrestores, hsubmissions, hsessions, hresults, hproposals,
      forall_append hshares hattempts⟩
  | credited _ _ _ _ hattempts _ =>
    exact ⟨hrestores, hsubmissions, hsessions, hresults, hproposals,
      forall_append hshares hattempts⟩
  | session ht hattempt hopportunity =>
    refine ⟨hrestores, hsubmissions, fun r hr => ?_, hresults, hproposals, hshares⟩
    rcases (Table.mem_insert? ht).mp hr with hr | rfl
    · exact hsessions r hr
    · exact ⟨hattempt, hopportunity⟩
  | result ht hattempt =>
    refine ⟨hrestores, hsubmissions, hsessions, fun r hr => ?_, hproposals, hshares⟩
    rcases (Table.mem_insert? ht).mp hr with hr | rfl
    · exact hresults r hr
    · exact hattempt
  | _ => exact ⟨hrestores, hsubmissions, hsessions, hresults, hproposals, hshares⟩

theorem Effects.sound (e : Effects db db') (hs : Sound db) : Sound db' := by
  induction e with
  | refl => exact hs
  | tail _ e ih => exact e.sound ih

/-! ### Every history row has its subject -/

/-- The table of a history row's kind has a row at its sequence number. -/
def Ledgers.FindingRecorded (db : Ledgers) (l : LedgerRow FindingKind) : Prop :=
  match l.kind with
  | .submitted => ∃ s ∈ db.submissions, s.seq = l.seq
  | .decided => ∃ d ∈ db.decisions, d.seq = l.seq
  | .split | .restored => ∃ c ∈ db.claimSets, c.seq = l.seq
  | .merged | .unmerged => ∃ r ∈ db.relationships, r.seq = l.seq

def Ledgers.FixRecorded (db : Ledgers) (l : LedgerRow FixKind) : Prop :=
  match l.kind with
  | .repairOpened => ∃ o ∈ db.repairs, o.seq = l.seq
  | .attemptBound => ∃ a ∈ db.repairAttempts, a.seq = l.seq
  | .proposed => ∃ p ∈ db.proposals, p.seq = l.seq
  | .verified => ∃ v ∈ db.verifications, v.seq = l.seq
  | .integrated => ∃ i ∈ db.integrations, i.seq = l.seq
  | .repairClosed => ∃ c ∈ db.closures, c.seq = l.seq
  | .reopened => ∃ r ∈ db.reopenings, r.seq = l.seq
  | .introduced => ∃ d ∈ db.introductions, d.seq = l.seq
  | .credited => ∃ a ∈ db.allocations, a.seq = l.seq
  | .retracted => ∃ r ∈ db.retractions, r.seq = l.seq

structure Recorded (db : Ledgers) : Prop where
  findings : ∀ l ∈ db.findingLog, db.FindingRecorded l
  fixes : ∀ l ∈ db.fixLog, db.FixRecorded l
  claimSets : ∀ s ∈ db.submissions, ∃ c ∈ db.claimSets,
    c.submissionId = s.submissionId ∧ c.seq = s.seq

theorem FindingRecorded.subject {l : LedgerRow FindingKind} (hl : db.FindingRecorded l) :
    ∃ subject, db.findingSubject l = some subject := by
  rw [← Option.isSome_iff_exists]
  unfold Ledgers.FindingRecorded at hl
  unfold Ledgers.findingSubject
  cases hk : l.kind <;> rw [hk] at hl <;> rw [Option.isSome_map] <;> exact rowAt_isSome.mpr hl

theorem FixRecorded.subject {l : LedgerRow FixKind} (hl : db.FixRecorded l) :
    ∃ subject, db.fixSubject l = some subject := by
  rw [← Option.isSome_iff_exists]
  unfold Ledgers.FixRecorded at hl
  unfold Ledgers.fixSubject
  cases hk : l.kind <;> rw [hk] at hl <;> rw [Option.isSome_map] <;> exact rowAt_isSome.mpr hl

theorem exists_mono {α : Type} [Stamped α] {rows rows' : List α} (ha : Appended h rows rows')
    {P : α → Prop} (hr : ∃ r ∈ rows, P r) : ∃ r ∈ rows', P r := by
  obtain ⟨r, hr, hp⟩ := hr
  exact ⟨r, ha.mem hr, hp⟩

theorem FindingRecorded.mono {l : LedgerRow FindingKind} (g : Grows db db')
    (hl : db.FindingRecorded l) : db'.FindingRecorded l := by
  unfold Ledgers.FindingRecorded at *
  cases hk : l.kind <;> rw [hk] at hl
  case submitted => exact exists_mono g.submissions hl
  case decided => exact exists_mono g.decisions hl
  case split => exact exists_mono g.claimSets hl
  case restored => exact exists_mono g.claimSets hl
  case merged => exact exists_mono g.relationships hl
  case unmerged => exact exists_mono g.relationships hl

theorem FixRecorded.mono {l : LedgerRow FixKind} (g : Grows db db') (hl : db.FixRecorded l) :
    db'.FixRecorded l := by
  unfold Ledgers.FixRecorded at *
  cases hk : l.kind <;> rw [hk] at hl
  case repairOpened => exact exists_mono g.repairs hl
  case attemptBound => exact exists_mono g.repairAttempts hl
  case proposed => exact exists_mono g.proposals hl
  case verified => exact exists_mono g.verifications hl
  case integrated => exact exists_mono g.integrations hl
  case repairClosed => exact exists_mono g.closures hl
  case reopened => exact exists_mono g.reopenings hl
  case introduced => exact exists_mono g.introductions hl
  case credited => exact exists_mono g.allocations hl
  case retracted => exact exists_mono g.retractions hl

theorem Recorded.empty : Recorded .empty := by
  constructor <;> simp [Ledgers.empty]

theorem Effect.recorded (e : Effect db db') (hr : Recorded db) : Recorded db' := by
  have g := e.grows
  have hfindings : ∀ l ∈ db.findingLog, db'.FindingRecorded l := fun l hl =>
    FindingRecorded.mono g (hr.findings l hl)
  have hfixes : ∀ l ∈ db.fixLog, db'.FixRecorded l := fun l hl =>
    FixRecorded.mono g (hr.fixes l hl)
  have hsets : ∀ s ∈ db.submissions, ∃ c ∈ db'.claimSets,
      c.submissionId = s.submissionId ∧ c.seq = s.seq := fun s hs =>
    exists_mono g.claimSets (hr.claimSets s hs)
  cases e with
  | submitted _ hkind hs hset hof _ _ _ _ _ _ =>
    refine ⟨forall_append hfindings ?_, hfixes, forall_append hsets ?_⟩
    · simp [Ledgers.FindingRecorded, hkind, hs]
    · simp [hof, hset, hs]
  | decided _ hkind _ hd _ _ =>
    exact ⟨forall_append hfindings (by simp [Ledgers.FindingRecorded, hkind, hd]), hfixes, hsets⟩
  | split _ hkind hset _ _ _ _ _ =>
    exact ⟨forall_append hfindings (by simp [Ledgers.FindingRecorded, hkind, hset]), hfixes, hsets⟩
  | restored _ hkind hset _ _ _ =>
    exact ⟨forall_append hfindings (by simp [Ledgers.FindingRecorded, hkind, hset]), hfixes, hsets⟩
  | related _ hkind hr' _ =>
    refine ⟨forall_append hfindings ?_, hfixes, hsets⟩
    rcases hkind with hkind | hkind <;> simp [Ledgers.FindingRecorded, hkind, hr']
  | repairOpened _ hkind ho _ _ =>
    exact ⟨hfindings, forall_append hfixes (by simp [Ledgers.FixRecorded, hkind, ho]), hsets⟩
  | attemptBound _ hkind ha =>
    exact ⟨hfindings, forall_append hfixes (by simp [Ledgers.FixRecorded, hkind, ha]), hsets⟩
  | proposed _ hkind hp _ _ _ =>
    exact ⟨hfindings, forall_append hfixes (by simp [Ledgers.FixRecorded, hkind, hp]), hsets⟩
  | verified _ hkind hv =>
    exact ⟨hfindings, forall_append hfixes (by simp [Ledgers.FixRecorded, hkind, hv]), hsets⟩
  | integrated _ hkind hi _ _ _ =>
    exact ⟨hfindings, forall_append hfixes (by simp [Ledgers.FixRecorded, hkind, hi]), hsets⟩
  | closed _ hkind hc =>
    exact ⟨hfindings, forall_append hfixes (by simp [Ledgers.FixRecorded, hkind, hc]), hsets⟩
  | reopened _ hkind ho _ _ _ _ _ _ =>
    exact ⟨hfindings, forall_append hfixes (by simp [Ledgers.FixRecorded, hkind, ho]), hsets⟩
  | introduced _ hkind hd _ _ _ =>
    exact ⟨hfindings, forall_append hfixes (by simp [Ledgers.FixRecorded, hkind, hd]), hsets⟩
  | credited _ hkind ha _ _ _ =>
    exact ⟨hfindings, forall_append hfixes (by simp [Ledgers.FixRecorded, hkind, ha]), hsets⟩
  | retracted _ hkind hr' =>
    exact ⟨hfindings, forall_append hfixes (by simp [Ledgers.FixRecorded, hkind, hr']), hsets⟩
  | _ => exact ⟨hfindings, hfixes, hsets⟩

theorem Effects.recorded (e : Effects db db') (hr : Recorded db) : Recorded db' := by
  induction e with
  | refl => exact hr
  | tail _ e ih => exact e.recorded ih

/-! ## The queries at a watermark -/

section Stable

variable (g : Grows db db') (hs : Sound db) (hm : mark ≤ db.head)

include g hm

theorem claimRevision_stable (submission : Int) :
    db'.claimRevision submission mark = db.claimRevision submission mark := by
  rw [Ledgers.claimRevision, g.claimSets.replay_eq hm, ← Ledgers.claimRevision]

theorem merges_stable : db'.merges mark = db.merges mark := by
  rw [Ledgers.merges, g.relationships.replay_eq hm, ← Ledgers.merges]

theorem seedLinkedClaims_stable : db'.seedLinkedClaims mark = db.seedLinkedClaims mark := by
  rw [Ledgers.seedLinkedClaims, g.seedDetections.upTo_eq hm, g.seedRetractions.upTo_eq hm,
    ← Ledgers.seedLinkedClaims]

theorem decisionOf_stable (claim : Int) : db'.decisionOf mark claim = db.decisionOf mark claim := by
  rw [Ledgers.decisionOf, g.decisions.replay_eq hm, ← Ledgers.decisionOf]

theorem claimState_stable (title : Option String) (claim : FindingClaim) :
    db'.claimState mark title claim = db.claimState mark title claim := by
  unfold Ledgers.claimState
  rw [decisionOf_stable g hm, merges_stable g hm, seedLinkedClaims_stable g hm]

theorem findingHistory_stable : db'.findingHistory mark = db.findingHistory mark := by
  rw [Ledgers.findingHistory, g.findingLog.replay_eq hm, Ledgers.findingHistory]
  refine mapM_congr fun l hl => ?_
  have hl : l.seq ≤ db.head := Int.le_trans (mem_replay.mp hl).2 hm
  unfold Ledgers.findingSubject
  rw [g.submissions.rowAt_eq hl, g.decisions.rowAt_eq hl, g.claimSets.rowAt_eq hl,
    g.relationships.rowAt_eq hl]

include hs

/-- A submission's history row and session are those it was recorded with. -/
theorem joinSubmission_stable {s : FindingSubmission} (hmem : s ∈ db.submissions)
    (hseq : s.seq ≤ mark) : db'.joinSubmission s = db.joinSubmission s := by
  obtain ⟨r, hr⟩ := Option.isSome_iff_exists.mp (hs.submissions s hmem)
  rw [Ledgers.joinSubmission, g.findingLog.rowAt_eq (Int.le_trans hseq hm), g.sessions.find hr,
    Ledgers.joinSubmission, hr]

theorem submissionRows_stable : db'.submissionRows mark = db.submissionRows mark := by
  rw [Ledgers.submissionRows, g.submissions.replay_eq hm, Ledgers.submissionRows]
  refine List.filterMap_congr fun s hmem => ?_
  obtain ⟨hmem, hseq⟩ := mem_replay.mp hmem
  exact joinSubmission_stable g hs hm hmem hseq

omit g hm in
/-- The revision whose claims apply is a recorded claim set. -/
theorem claimRevision_recorded {submission revision effective : Int}
    (hrev : db.claimRevision submission mark = some (revision, effective)) :
    (submission, effective) ∈ db.claimSets.map ClaimSet.key := by
  obtain ⟨c, hc, heq⟩ := Option.map_eq_some_iff.mp hrev
  obtain ⟨rfl, rfl⟩ := Prod.mk.inj heq
  obtain ⟨hmem, hsubmission⟩ := List.mem_filter.mp (List.mem_of_getLast? hc)
  obtain rfl := of_decide_eq_true hsubmission
  have hmem := (mem_replay.mp hmem).1
  cases hrestores : c.restores with
  | none => exact List.mem_map.mpr ⟨c, hmem, rfl⟩
  | some r => exact hs.restores c hmem r (by rw [hrestores]; exact Option.mem_some_self r)

omit hs hm in
/-- The claims of a recorded claim set never change. -/
theorem claimsOf_stable {submission revision : Int}
    (hset : (submission, revision) ∈ db.claimSets.map ClaimSet.key) :
    db'.claimsOf submission revision = db.claimsOf submission revision := by
  obtain ⟨more, hclaims, hnew⟩ := g.claims
  have hnone : more.filter (fun c => c.set = (submission, revision)) = [] := by
    refine List.filter_eq_nil_iff.mpr fun c hc heq => ?_
    rw [← of_decide_eq_true heq] at hset
    exact hnew c hc hset
  rw [Ledgers.claimsOf, hclaims, List.filter_append, hnone, List.append_nil, ← Ledgers.claimsOf]

theorem submissionState_stable (row : SubmissionRow) :
    db'.submissionState mark row = db.submissionState mark row := by
  have hclaim := funext (claimState_stable g hm row.submission.title)
  simp only [Ledgers.submissionState, claimRevision_stable g hm]
  cases hrev : db.claimRevision row.submission.submissionId mark with
  | none => rfl
  | some r =>
    obtain ⟨revision, effective⟩ := r
    simp only
    rw [claimsOf_stable g (claimRevision_recorded hs hrev), hclaim]

/-- The state at a watermark differs in the head only. -/
theorem findingStateAt_stable : db'.findingStateAt mark =
    (db.findingStateAt mark).map fun st => { st with headSeq := db'.head } := by
  unfold Ledgers.findingStateAt
  rw [submissionRows_stable g hs hm, funext (submissionState_stable g hs hm), merges_stable g hm,
    g.canonicalFindings.replay_eq hm, findingHistory_stable g hm]
  cases (db.submissionRows mark).mapM (db.submissionState mark) with
  | error e => rfl
  | ok undecided =>
    cases db.findingHistory mark with
    | error e => rfl
    | ok history => rfl

/-! ### Repairs -/

omit hs hm in
theorem recordedAt_stable {k : Int} (hk : k ≤ db.head) : db'.recordedAt k = db.recordedAt k := by
  rw [Ledgers.recordedAt, g.fixLog.rowAt_eq hk, ← Ledgers.recordedAt]

omit hs

theorem retractedAt_stable (target : Int) :
    db'.retractedAt mark target = db.retractedAt mark target := by
  rw [Ledgers.retractedAt, g.retractions.upTo_eq hm, ← Ledgers.retractedAt]

theorem attemptStates_stable (repair : Int) :
    db'.attemptStates mark repair = db.attemptStates mark repair := by
  rw [Ledgers.attemptStates, g.repairAttempts.upTo_eq hm, Ledgers.attemptStates]
  refine List.filterMap_congr fun a ha => ?_
  have hseq : a.seq ≤ mark := (mem_upTo.mp (List.mem_filter.mp (mem_orderBy.mp ha)).1).2
  rw [recordedAt_stable g (Int.le_trans hseq hm)]

/-- A row that a query found below the watermark joins the history row it was recorded with. -/
theorem joined_stable {α β : Type} [Stamped α] {rows : List α} {p : α → Bool}
    (f : α → Int → β) :
    (((upTo mark rows).find? p).bind fun a => (db'.recordedAt (Stamped.seq a)).map (f a)) =
      ((upTo mark rows).find? p).bind fun a => (db.recordedAt (Stamped.seq a)).map (f a) := by
  cases ha : (upTo mark rows).find? p with
  | none => rfl
  | some a =>
    have hseq := (mem_upTo.mp (List.mem_of_find?_eq_some ha)).2
    rw [Option.bind_some, Option.bind_some, recordedAt_stable g (Int.le_trans hseq hm)]

theorem verificationOf_stable (proposal : Int) :
    db'.verificationOf mark proposal = db.verificationOf mark proposal := by
  rw [Ledgers.verificationOf, g.verifications.upTo_eq hm]
  exact joined_stable g hm _

theorem integrationOf_stable (proposal : Int) :
    db'.integrationOf mark proposal = db.integrationOf mark proposal := by
  rw [Ledgers.integrationOf, g.integrations.upTo_eq hm]
  exact joined_stable g hm _

theorem closureOf_stable (repair : Int) : db'.closureOf mark repair = db.closureOf mark repair := by
  rw [Ledgers.closureOf, g.closures.upTo_eq hm]
  exact joined_stable g hm _

theorem proposalState_stable (p : FixProposal) :
    db'.proposalState mark p = db.proposalState mark p := by
  rw [Ledgers.proposalState, verificationOf_stable g hm, integrationOf_stable g hm,
    ← Ledgers.proposalState]

theorem proposalStates_stable (repair : Int) :
    db'.proposalStates mark repair = db.proposalStates mark repair := by
  rw [Ledgers.proposalStates, g.proposals.replay_eq hm, funext (proposalState_stable g hm),
    ← Ledgers.proposalStates]

theorem repairStates_stable : db'.repairStates mark = db.repairStates mark := by
  rw [Ledgers.repairStates, g.repairs.replay_eq hm, Ledgers.repairStates]
  refine List.filterMap_congr fun o ho => ?_
  have hseq : o.seq ≤ mark := (mem_replay.mp ho).2
  rw [Ledgers.repairState, recordedAt_stable g (Int.le_trans hseq hm), attemptStates_stable g hm,
    proposalStates_stable g hm, closureOf_stable g hm, ← Ledgers.repairState]

theorem reopeningsOf_stable (finding : String) :
    db'.reopeningsOf mark finding = db.reopeningsOf mark finding := by
  rw [Ledgers.reopeningsOf, g.reopenings.replay_eq hm, Ledgers.reopeningsOf]
  refine List.filterMap_congr fun r hr => ?_
  have hseq : r.seq ≤ mark := (mem_replay.mp (List.mem_filter.mp hr).1).2
  rw [recordedAt_stable g (Int.le_trans hseq hm), retractedAt_stable g hm]

theorem resolutionsOf_stable (finding : String) :
    db'.resolutionsOf mark finding = db.resolutionsOf mark finding := by
  rw [Ledgers.resolutionsOf, repairStates_stable g hm, reopeningsOf_stable g hm,
    ← Ledgers.resolutionsOf]

theorem currentIntegrations_stable :
    db'.currentIntegrations mark = db.currentIntegrations mark := by
  rw [Ledgers.currentIntegrations, repairStates_stable g hm, funext (resolutionsOf_stable g hm),
    ← Ledgers.currentIntegrations]

theorem fixHistory_stable : db'.fixHistory mark = db.fixHistory mark := by
  rw [Ledgers.fixHistory, g.fixLog.replay_eq hm, Ledgers.fixHistory]
  refine mapM_congr fun l hl => ?_
  have hl : l.seq ≤ db.head := Int.le_trans (mem_replay.mp hl).2 hm
  unfold Ledgers.fixSubject
  rw [g.repairs.rowAt_eq hl, g.repairAttempts.rowAt_eq hl, g.proposals.rowAt_eq hl,
    g.verifications.rowAt_eq hl, g.integrations.rowAt_eq hl, g.closures.rowAt_eq hl,
    g.reopenings.rowAt_eq hl, g.introductions.rowAt_eq hl, g.allocations.rowAt_eq hl,
    g.retractions.rowAt_eq hl]

/-! ### Credit -/

theorem allocationOf_stable (finding : String) (role : CreditRole) (proposal : Option Int) :
    db'.allocationOf mark finding role proposal = db.allocationOf mark finding role proposal := by
  rw [Ledgers.allocationOf, g.allocations.replay_eq hm, funext (retractedAt_stable g hm),
    ← Ledgers.allocationOf]

theorem introductionOf_stable (finding : String) :
    db'.introductionOf mark finding = db.introductionOf mark finding := by
  rw [Ledgers.introductionOf, g.introductions.replay_eq hm, funext (retractedAt_stable g hm),
    ← Ledgers.introductionOf]

omit hm in
theorem wholeAttempt_stable {attempt : String} (ha : (db.attempts.find attempt).isSome) :
    db'.wholeAttempt attempt = db.wholeAttempt attempt := by
  simp only [Ledgers.wholeAttempt, Ledgers.whole, Option.bind_some, (g.attempts attempt ha).2]

omit g hm in
theorem allocationOf_le {finding : String} {role : CreditRole} {proposal : Option Int} {seq : Int}
    (h : db.allocationOf mark finding role proposal = some seq) : seq ≤ mark := by
  obtain ⟨a, ha, rfl⟩ := List.mem_map.mp (List.mem_of_getLast? h)
  exact (mem_replay.mp (List.mem_filter.mp ha).1).2

omit g hm in
theorem introductionOf_le {finding : String} {d : IntroductionDecision}
    (h : db.introductionOf mark finding = some d) : d.seq ≤ mark :=
  (mem_replay.mp (List.mem_filter.mp (List.mem_of_getLast? h)).1).2

include hs

omit hm in
/-- The shares of a recorded history row never change. -/
theorem loadShares_stable {k : Int} (hk : k ≤ db.head) : db'.loadShares k = db.loadShares k := by
  have hrows : db'.shares.filter (·.seq = k) = db.shares.filter (·.seq = k) :=
    g.shares.filter_eq fun s hs => by
      have hseq : s.seq = k := of_decide_eq_true hs
      change s.seq ≤ db.head
      omega
  unfold Ledgers.loadShares
  rw [hrows]
  refine List.map_congr_left fun s hmem => ?_
  have hmem := (List.mem_filter.mp ((List.perm_insertionSort _ _).mem_iff.mp hmem)).1
  simp only [(g.attempts s.attemptId (hs.shares s hmem)).2]

theorem introductionCredit_stable (id : String) (detection : Option String) :
    db'.introductionCredit mark id detection = db.introductionCredit mark id detection := by
  unfold Ledgers.introductionCredit
  rw [introductionOf_stable g hm]
  cases hd : db.introductionOf mark id with
  | none => rfl
  | some d =>
    simp only
    rw [loadShares_stable g hs (Int.le_trans (introductionOf_le hd) hm)]

theorem discoveryCredit_stable (id : String) {s : SubmissionState}
    (ha : (db.attempts.find s.reporterAttemptId).isSome) :
    db'.discoveryCredit mark id s = db.discoveryCredit mark id s := by
  unfold Ledgers.discoveryCredit
  rw [allocationOf_stable g hm]
  cases halloc : db.allocationOf mark id .discovery none with
  | none =>
    simp only
    rw [wholeAttempt_stable g ha]
  | some seq =>
    simp only
    rw [loadShares_stable g hs (Int.le_trans (allocationOf_le halloc) hm)]

theorem implementationCredit_stable (id : String) (repair : RepairState) {p : ProposalState}
    (ha : (db.attempts.find p.attemptId).isSome) :
    db'.implementationCredit mark id repair p = db.implementationCredit mark id repair p := by
  simp only [Ledgers.implementationCredit, allocationOf_stable g hm, wholeAttempt_stable g ha]
  cases halloc : db.allocationOf mark id .implementation (some p.seq) with
  | none => rfl
  | some seq =>
    simp only
    rw [loadShares_stable g hs (Int.le_trans (allocationOf_le halloc) hm)]

/-! ### Findings -/

/-- What a triage state names is there: the reporter and the opportunity of each submission. -/
def TriageKnown (db : Ledgers) (triage : FindingState) : Prop :=
  ∀ s ∈ triage.submissions, (db.attempts.find s.reporterAttemptId).isSome ∧
    (db.opportunities.find s.opportunityId).isSome

omit g hm in
theorem submissionRows_known {row : SubmissionRow} (hrow : row ∈ db.submissionRows mark) :
    (db.attempts.find row.session.attemptId).isSome ∧
      (db.opportunities.find row.session.opportunityId).isSome := by
  obtain ⟨s, -, hjoin⟩ := List.mem_filterMap.mp hrow
  obtain ⟨l, -, hjoin⟩ := Option.bind_eq_some_iff.mp hjoin
  obtain ⟨r, hr, rfl⟩ := Option.map_eq_some_iff.mp hjoin
  exact hs.sessions r (Table.mem_of_find hr)

omit g hm in
theorem submissionState_known {row : SubmissionRow} {s : SubmissionState}
    (hrow : row ∈ db.submissionRows mark) (h : db.submissionState mark row = .ok s) :
    (db.attempts.find s.reporterAttemptId).isSome ∧
      (db.opportunities.find s.opportunityId).isSome := by
  have hknown := submissionRows_known hs hrow
  cases hrev : db.claimRevision row.submission.submissionId mark with
  | none =>
    simp only [Ledgers.submissionState, hrev] at h
    cases h
  | some r =>
    simp only [Ledgers.submissionState, hrev] at h
    cases h
    exact hknown

omit g hm hs in
/-- A replayed state has settled the submissions that the queries gave. -/
theorem findingStateAt_ok {triage : FindingState} (h : db.findingStateAt mark = .ok triage) :
    ∃ undecided, (db.submissionRows mark).mapM (db.submissionState mark) = .ok undecided ∧
      triage.submissions = undecided.map (settleSubmission (discoveryOf undecided)) ∧
      triage.asOfSeq = mark := by
  obtain ⟨undecided, hsubs, h⟩ := Except.bind_ok.mp h
  obtain ⟨history, -, h⟩ := Except.bind_ok.mp h
  cases h
  exact ⟨undecided, hsubs, rfl, rfl⟩

omit g hm hs in
theorem findingStateAt_mark {triage : FindingState} (h : db.findingStateAt mark = .ok triage) :
    triage.asOfSeq = mark := by
  obtain ⟨-, -, -, hmark⟩ := findingStateAt_ok h
  exact hmark

omit g hm in
theorem findingStateAt_known {triage : FindingState} (h : db.findingStateAt mark = .ok triage) :
    TriageKnown db triage := by
  obtain ⟨undecided, hsubs, hsettled, -⟩ := findingStateAt_ok h
  intro s hmem
  rw [hsettled] at hmem
  -- settling the outcomes keeps the reporter and the opportunity
  obtain ⟨u, hu, rfl⟩ := List.mem_map.mp hmem
  obtain ⟨row, hrow, hstate⟩ := mem_of_mapM hsubs u hu
  have hknown := submissionState_known hs hrow hstate
  exact hknown

omit g hm in
theorem proposalStates_known {repair : Int} {p : ProposalState}
    (hp : p ∈ db.proposalStates mark repair) : (db.attempts.find p.attemptId).isSome := by
  obtain ⟨row, hrow, rfl⟩ := List.mem_map.mp hp
  exact hs.proposals row (mem_replay.mp (List.mem_filter.mp hrow).1).1

/-- The proposals of every repair are by attempts of the store. -/
def RepairsKnown (db : Ledgers) (repairs : List RepairState) : Prop :=
  ∀ r ∈ repairs, ∀ p ∈ r.proposals, (db.attempts.find p.attemptId).isSome

omit g hm in
theorem repairStates_known (current : List Int) :
    RepairsKnown db ((db.repairStates mark).map (·.settled current)) := by
  intro r hr p hp
  obtain ⟨u, hu, rfl⟩ := List.mem_map.mp hr
  obtain ⟨o, -, hstate⟩ := List.mem_filterMap.mp hu
  obtain ⟨recorded, -, rfl⟩ := Option.map_eq_some_iff.mp hstate
  exact proposalStates_known hs hp

theorem findingFixState_stable {triage : FindingState} {repairs : List RepairState}
    (htriage : TriageKnown db triage) (hrepairs : RepairsKnown db repairs) (head : Int)
    (group : FindingGroupState) :
    db'.findingFixState mark { triage with headSeq := head } repairs group =
      db.findingFixState mark triage repairs group := by
  have hdiscovery : ∀ d, discoverySubmission triage group = some d →
      (db.attempts.find d.2.reporterAttemptId).isSome ∧
        (db.opportunities.find d.2.opportunityId).isSome := by
    intro d hd
    obtain ⟨claim, -, hfind⟩ := Option.bind_eq_some_iff.mp hd
    obtain ⟨s, hfound, rfl⟩ := Option.map_eq_some_iff.mp hfind
    exact htriage s (List.mem_of_find?_eq_some hfound)
  have hcredited : ∀ intervals p, creditedProposal intervals
      ((repairs.filter (·.findingId = group.findingId)).flatMap fun r => r.proposals.map (r, ·)) =
        some p → (db.attempts.find p.2.attemptId).isSome := by
    intro intervals p hp
    obtain ⟨seq, -, hfind⟩ := Option.bind_eq_some_iff.mp hp
    obtain ⟨r, hr, hmem⟩ := List.mem_flatMap.mp (List.mem_of_find?_eq_some hfind)
    obtain ⟨q, hq, rfl⟩ := List.mem_map.mp hmem
    exact hrepairs r (List.mem_filter.mp hr).1 q hq
  have hdetection : ∀ d, discoverySubmission triage group = some d →
      db'.detectionOid d.2 = db.detectionOid d.2 := by
    intro d hd
    obtain ⟨o, ho⟩ := Option.isSome_iff_exists.mp (hdiscovery d hd).2
    rw [Ledgers.detectionOid, g.opportunities.find ho, Ledgers.detectionOid, ho]
  have hsame : discoverySubmission { triage with headSeq := head } group =
      discoverySubmission triage group := rfl
  simp only [Ledgers.findingFixState, hsame, resolutionsOf_stable g hm, reopeningsOf_stable g hm,
    introductionCredit_stable g hs hm, seedLinkedClaims_stable g hm]
  generalize hdisc : (if group.status = .validated then discoverySubmission triage group
    else none) = discovery
  generalize hcred : (if group.status = .validated then creditedProposal _ _ else none) = credited
  have hdiscovered : ∀ d, discovery = some d → discoverySubmission triage group = some d := by
    intro d hd
    rw [hd] at hdisc
    split at hdisc
    · exact hdisc
    · cases hdisc
  have hcredit : discovery.map (fun d => db'.discoveryCredit mark group.findingId d.2) =
      discovery.map fun d => db.discoveryCredit mark group.findingId d.2 := by
    cases discovery with
    | none => rfl
    | some d =>
      exact congrArg some
        (discoveryCredit_stable g hs hm _ (hdiscovery d (hdiscovered d rfl)).1)
  have hoid : discovery.bind (fun d => db'.detectionOid d.2) =
      discovery.bind fun d => db.detectionOid d.2 := by
    cases discovery with
    | none => rfl
    | some d => exact hdetection d (hdiscovered d rfl)
  have himplementation :
      credited.map (fun p => db'.implementationCredit mark group.findingId p.1 p.2) =
        credited.map fun p => db.implementationCredit mark group.findingId p.1 p.2 := by
    cases credited with
    | none => rfl
    | some p =>
      split at hcred
      · exact congrArg some (implementationCredit_stable g hs hm _ _ (hcredited _ p hcred))
      · cases hcred
  rw [hcredit, hoid, himplementation]
  rfl

/-- The fix state over one triage state differs in the head only. -/
theorem fixStateOver_stable {triage : FindingState} (htriage : TriageKnown db triage)
    (hmark : triage.asOfSeq = mark) (head : Int) :
    db'.fixStateOver { triage with headSeq := head } =
      (db.fixStateOver triage).map fun st =>
        { st with headSeq := head, triage := { st.triage with headSeq := head } } := by
  subst hmark
  have hrepairs : RepairsKnown db ((db.repairStates triage.asOfSeq).map
      (·.settled (db.currentIntegrations triage.asOfSeq))) := repairStates_known hs _
  have hfinding := funext (findingFixState_stable g hs hm htriage hrepairs head)
  simp only [Ledgers.fixStateOver, repairStates_stable g hm, currentIntegrations_stable g hm,
    fixHistory_stable g hm, hfinding]
  cases db.fixHistory triage.asOfSeq with
  | error e => rfl
  | ok history => rfl

end Stable

/-! ## The replay returns -/

theorem submissionState_isOk (hr : Recorded db) {row : SubmissionRow}
    (hrow : row ∈ db.submissionRows mark) : ∃ s, db.submissionState mark row = .ok s := by
  obtain ⟨s, hs, hjoin⟩ := List.mem_filterMap.mp hrow
  obtain ⟨l, -, hjoin⟩ := Option.bind_eq_some_iff.mp hjoin
  obtain ⟨r, -, rfl⟩ := Option.map_eq_some_iff.mp hjoin
  obtain ⟨hmem, hseq⟩ := mem_replay.mp hs
  obtain ⟨c, hc, hof, hcseq⟩ := hr.claimSets s hmem
  -- the claim set that the submission was recorded with is below the watermark
  have hsets : c ∈ (replay mark db.claimSets).filter (·.submissionId = s.submissionId) :=
    List.mem_filter.mpr ⟨mem_replay.mpr ⟨hc, hcseq.trans_le hseq⟩, decide_eq_true hof⟩
  cases hlast : ((replay mark db.claimSets).filter (·.submissionId = s.submissionId)).getLast? with
  | none =>
    rw [List.getLast?_eq_none_iff.mp hlast] at hsets
    cases hsets
  | some last =>
    simp only [Ledgers.submissionState, Ledgers.claimRevision, hlast, Option.map_some]
    exact ⟨_, rfl⟩

theorem findingStateAt_isOk (hr : Recorded db) (mark : Int) :
    ∃ st, db.findingStateAt mark = .ok st := by
  obtain ⟨undecided, hsubs⟩ : ∃ undecided,
      (db.submissionRows mark).mapM (db.submissionState mark) = .ok undecided :=
    mapM_isOk fun _ => submissionState_isOk hr
  obtain ⟨history, hhistory⟩ : ∃ history, db.findingHistory mark = .ok history := by
    refine mapM_isOk fun l hl => ?_
    obtain ⟨subject, hsubject⟩ := FindingRecorded.subject (hr.findings l (mem_replay.mp hl).1)
    exact ⟨_, by rw [hsubject]; rfl⟩
  simp only [Ledgers.findingStateAt, hsubs, hhistory]
  exact ⟨_, rfl⟩

theorem fixStateOver_isOk (hr : Recorded db) (triage : FindingState) :
    ∃ st, db.fixStateOver triage = .ok st := by
  obtain ⟨history, hhistory⟩ : ∃ history, db.fixHistory triage.asOfSeq = .ok history := by
    refine mapM_isOk fun l hl => ?_
    obtain ⟨subject, hsubject⟩ := FixRecorded.subject (hr.fixes l (mem_replay.mp hl).1)
    exact ⟨_, by rw [hsubject]; rfl⟩
  simp only [Ledgers.fixStateOver, hhistory]
  exact ⟨_, rfl⟩

theorem watermark_ok (h0 : 0 ≤ mark) (hm : mark ≤ db.head) :
    db.watermark (some mark) = .ok mark := by
  have hno : ¬(mark < 0 ∨ db.head < mark) := by omega
  simp only [Ledgers.watermark, Option.getD_some, if_neg hno]

theorem watermark_eq {asOf : Option Int} (h : db.watermark asOf = .ok mark) :
    mark = asOf.getD db.head := by
  simp only [Ledgers.watermark] at h
  split at h
  · cases h
  · cases h
    rfl

theorem findingState_at (h0 : 0 ≤ mark) (hm : mark ≤ db.head) :
    db.findingState (some mark) = db.findingStateAt mark := by
  rw [Ledgers.findingState, watermark_ok h0 hm]
  rfl

/-- Both replays return, and later replays to the same watermark return the same. -/
theorem replays_stable (g : Grows db db') (hs : Sound db) (hr : Recorded db) (h0 : 0 ≤ mark)
    (hm : mark ≤ db.head) :
    ∃ triage fix, db.findingState (some mark) = .ok triage ∧ db.fixState (some mark) = .ok fix ∧
      db'.findingState (some mark) = .ok { triage with headSeq := db'.head } ∧
      db'.fixState (some mark) = .ok { fix with
        headSeq := db'.head, triage := { fix.triage with headSeq := db'.head } } := by
  obtain ⟨triage, htriage⟩ := findingStateAt_isOk hr mark
  have hknown := findingStateAt_known hs htriage
  have hmark := findingStateAt_mark htriage
  obtain ⟨fix, hfix⟩ := fixStateOver_isOk hr triage
  have hold := findingState_at h0 hm
  have hnew := findingState_at h0 (Int.le_trans hm g.head_le)
  rw [findingStateAt_stable g hs hm, htriage] at hnew
  refine ⟨triage, fix, hold.trans htriage, ?_, hnew, ?_⟩
  · rw [Ledgers.fixState, hold, htriage]
    exact hfix
  · rw [Ledgers.fixState, hnew]
    exact (fixStateOver_stable g hs hm hknown hmark db'.head).trans (by rw [hfix]; rfl)

variable [TitleExcerpt]

/-- **As-of replay is stable.** For every history of calls and every sequence number up to its
head, the finding and fix states replayed to that number are returned, and after any further calls
they are the same in every field but the head. -/
theorem as_of_replay_stable (history further : List Call) (mark : Int) (h0 : 0 ≤ mark)
    (hm : mark ≤ (after history .empty).head) :
    let before := after history .empty
    let since := after further before
    ∃ triage fix, before.findingState (some mark) = .ok triage ∧
      before.fixState (some mark) = .ok fix ∧
      since.findingState (some mark) = .ok { triage with headSeq := since.head } ∧
      since.fixState (some mark) = .ok { fix with
        headSeq := since.head, triage := { fix.triage with headSeq := since.head } } := by
  have hpast := after_effects history .empty
  exact replays_stable (after_effects further _).grows (hpast.sound .empty)
    (hpast.recorded .empty) h0 hm

/-! ### A sample history -/

abbrev plainTitles : TitleExcerpt := ⟨some⟩

def sampleEvidence : List String :=
  ["sha256:0123456789abcdef0123456789abcdef0123456789abcdef0123456789abcdef"]

/-- A reviewer reports a finding, and the owner validates it. -/
def reportedOnce : List Call :=
  [.factory (.attempt ⟨"reviewer", .running, some "configuration-1"⟩),
    .factory (.opportunity ⟨"opportunity", "aaaa"⟩),
    .factory (.session ⟨"session", "opportunity", "reviewer"⟩),
    .recordSubmissions "session" (fun _ => none) "worker:reviewer" 10 ["finding:a"],
    .triageFindingClaim 1 ⟨.validated (.new none) "high", sampleEvidence, none⟩ "operator:cli" 20]

omit [TitleExcerpt] in
/-- The submission is split afterwards, which its state at the validation does not show. -/
theorem as_of_replay_stable_split : letI := plainTitles
    let before := after reportedOnce .empty
    let since := after [.splitFindingSubmission 1 [none, none] none "operator:cli" 30] before
    since.head = 3 ∧ ∃ triage fix, before.findingState (some 2) = .ok triage ∧
      before.fixState (some 2) = .ok fix ∧
      since.findingState (some 2) = .ok { triage with headSeq := since.head } ∧
      since.fixState (some 2) = .ok { fix with
        headSeq := since.head, triage := { fix.triage with headSeq := since.head } } := by
  let _ := plainTitles
  exact ⟨by decide +kernel, as_of_replay_stable reportedOnce _ 2 (by decide) (by decide +kernel)⟩

end Herdr.Findings
