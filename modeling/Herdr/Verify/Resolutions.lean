import Herdr.Verify.Findings
import Mathlib.Data.List.Chain

/-!
# Resolution intervals never overlap

The replay ends the first open interval when a later integration of the finding arrives, so all
intervals but the last have ended: `intervals` is the closed form of that loop. A reopening names
the integration of the open interval, hence the last one of its finding, and no other reopening of
it is unretracted; so at every watermark a reopening ends its own interval, before the next begins.
-/

namespace Herdr.Findings

open Watermark

variable {db db' : Ledgers} {mark : Int} {finding : String}

/-! ## The closed form of the loop -/

/-- The interval of an integration: ended by its reopening, else by the next integration. -/
def intervalOf (reopenings : List Reopening) (i : Integrated) (next : Option Int) :
    ResolutionInterval :=
  let ended := reopenedAt reopenings i.integration.seq
  { integrationSeq := i.integration.seq
    proposalSeq := i.proposal.seq
    repairSeq := i.repair.repairSeq
    integratedId := i.integration.integratedId
    commitOid := i.integration.commitOid
    integratedUnixMs := i.integration.integratedUnixMs
    endedSeq := ended.or next
    endedBy := (ended.map fun _ => .reopened).or (next.map fun _ => .superseded) }

def intervals (reopenings : List Reopening) : List Integrated → List ResolutionInterval
  | [] => []
  | [i] => [intervalOf reopenings i none]
  | i :: j :: rest =>
    intervalOf reopenings i (some j.integration.seq) :: intervals reopenings (j :: rest)

variable {reopenings : List Reopening} {i j : Integrated} {l : List Integrated}

theorem supersedeFirst_of_ended {acc : List ResolutionInterval}
    (h : ∀ r ∈ acc, r.endedSeq ≠ none) (seq : Int) (r : ResolutionInterval) :
    supersedeFirst seq (acc ++ [r]) = acc ++ supersedeFirst seq [r] := by
  induction acc with
  | nil => rfl
  | cons a acc ih =>
    have ha : ¬a.endedSeq.isNone = true := by simpa using h a (by simp)
    rw [List.cons_append, supersedeFirst, if_neg ha,
      ih fun r hr => h r (List.mem_cons_of_mem a hr), List.cons_append]

theorem supersedeFirst_intervalOf (seq : Int) :
    supersedeFirst seq [intervalOf reopenings i none] =
      [intervalOf reopenings i (some seq)] := by
  unfold supersedeFirst intervalOf
  cases reopenedAt reopenings i.integration.seq <;> rfl

theorem intervalOf_ended (seq : Int) : (intervalOf reopenings i (some seq)).endedSeq ≠ none := by
  unfold intervalOf
  cases reopenedAt reopenings i.integration.seq <;> simp

/-- One turn of the loop ends the interval before it. -/
theorem addInterval_append {acc : List ResolutionInterval} (h : ∀ r ∈ acc, r.endedSeq ≠ none) :
    addInterval reopenings (acc ++ [intervalOf reopenings i none]) j =
      acc ++ [intervalOf reopenings i (some j.integration.seq)] ++
        [intervalOf reopenings j none] := by
  have hnew : intervalOf reopenings j none =
      { integrationSeq := j.integration.seq
        proposalSeq := j.proposal.seq
        repairSeq := j.repair.repairSeq
        integratedId := j.integration.integratedId
        commitOid := j.integration.commitOid
        integratedUnixMs := j.integration.integratedUnixMs
        endedSeq := reopenedAt reopenings j.integration.seq
        endedBy := (reopenedAt reopenings j.integration.seq).map fun _ => .reopened } := by
    unfold intervalOf
    simp
  rw [addInterval, supersedeFirst_of_ended h, supersedeFirst_intervalOf, hnew]

theorem foldl_addInterval {acc : List ResolutionInterval} (h : ∀ r ∈ acc, r.endedSeq ≠ none) :
    l.foldl (addInterval reopenings) (acc ++ [intervalOf reopenings i none]) =
      acc ++ intervals reopenings (i :: l) := by
  induction l generalizing acc i with
  | nil => rfl
  | cons j l ih =>
    rw [List.foldl_cons, addInterval_append h, ih, intervals, List.append_assoc]
    · rfl
    · intro r hr
      rcases List.mem_append.mp hr with hr | hr
      · exact h r hr
      · rw [List.mem_singleton.mp hr]
        exact intervalOf_ended _

/-- The loop computes the intervals. -/
theorem foldl_addInterval_nil : l.foldl (addInterval reopenings) [] = intervals reopenings l := by
  cases l with
  | nil => rfl
  | cons i l =>
    have hfirst : addInterval reopenings [] i = [] ++ [intervalOf reopenings i none] := by
      unfold addInterval intervalOf
      simp [supersedeFirst]
    rw [List.foldl_cons, hfirst, foldl_addInterval (by simp), List.nil_append]

/-! ## Intervals in order -/

theorem intervals_seqs (reopenings : List Reopening) (l : List Integrated) :
    (intervals reopenings l).map (·.integrationSeq) = l.map (·.integration.seq) := by
  induction l with
  | nil => rfl
  | cons i l ih =>
    cases l with
    | nil => rfl
    | cons j l =>
      rw [intervals, List.map_cons, ih]
      rfl

/-- An interval is the interval of its integration, and only the last may be open. -/
theorem mem_intervals {r : ResolutionInterval} (hr : r ∈ intervals reopenings l) :
    ∃ i ∈ l, r.integrationSeq = i.integration.seq ∧
      ((reopenedAt reopenings i.integration.seq = none ∧ r.endedSeq = none ∧
          l.getLast? = some i) ∨
        (reopenedAt reopenings i.integration.seq = none ∧
          ∃ j ∈ l, r.endedSeq = some j.integration.seq) ∨
        ∃ e, reopenedAt reopenings i.integration.seq = some e ∧ r.endedSeq = some e) := by
  induction l with
  | nil => cases hr
  | cons i l ih =>
    cases l with
    | nil =>
      obtain rfl := List.mem_singleton.mp hr
      refine ⟨i, by simp, rfl, ?_⟩
      cases he : reopenedAt reopenings i.integration.seq with
      | none => exact .inl ⟨rfl, by simp [intervalOf, he], rfl⟩
      | some e => exact .inr (.inr ⟨e, rfl, by simp [intervalOf, he]⟩)
    | cons j l =>
      rcases List.mem_cons.mp hr with rfl | hr
      · refine ⟨i, by simp, rfl, .inr ?_⟩
        cases he : reopenedAt reopenings i.integration.seq with
        | none => exact .inl ⟨rfl, j, by simp, by simp [intervalOf, he]⟩
        | some e => exact .inr ⟨e, rfl, by simp [intervalOf, he]⟩
      · obtain ⟨k, hk, hseq, hcases⟩ := ih hr
        refine ⟨k, List.mem_cons_of_mem i hk, hseq, ?_⟩
        rcases hcases with ⟨hnone, hopen, hlast⟩ | ⟨hnone, m, hm, hend⟩ | hend
        · exact .inl ⟨hnone, hopen, by simpa using hlast⟩
        · exact .inr (.inl ⟨hnone, m, List.mem_cons_of_mem i hm, hend⟩)
        · exact .inr (.inr hend)

/-- Every interval but the last has ended when the next begins. -/
theorem intervals_chain (h : l.IsChain fun i j =>
      ∀ e, reopenedAt reopenings i.integration.seq = some e → e ≤ j.integration.seq) :
    (intervals reopenings l).IsChain fun a b => ∃ e, a.endedSeq = some e ∧ e ≤ b.integrationSeq := by
  induction l with
  | nil => exact .nil
  | cons i l ih =>
    cases l with
    | nil => exact .singleton _
    | cons j l =>
      obtain ⟨hij, hrest⟩ := List.isChain_cons_cons.mp h
      have hend : ∃ e, (intervalOf reopenings i (some j.integration.seq)).endedSeq = some e ∧
          e ≤ j.integration.seq := by
        cases he : reopenedAt reopenings i.integration.seq with
        | none => exact ⟨_, by simp [intervalOf, he], Int.le_refl _⟩
        | some e => exact ⟨e, by simp [intervalOf, he], hij e he⟩
      have htail := ih hrest
      rw [intervals]
      cases l with
      | nil => exact List.isChain_cons_cons.mpr ⟨hend, .singleton _⟩
      | cons k l => exact List.isChain_cons_cons.mpr ⟨hend, htail⟩

theorem intervals_open : (intervals reopenings l).countP (·.endedSeq.isNone) ≤ 1 := by
  induction l with
  | nil => simp [intervals]
  | cons i l ih =>
    cases l with
    | nil =>
      rw [intervals]
      exact List.countP_le_length
    | cons j l =>
      have hended : ¬(intervalOf reopenings i (some j.integration.seq)).endedSeq.isNone = true := by
        simpa using intervalOf_ended j.integration.seq
      rw [intervals, List.countP_cons, if_neg hended]
      exact ih

/-! ## What the tables record -/

/-- The integration is of a fix of the finding. -/
def Ledgers.IntegratesFor (db : Ledgers) (i : IntegrationRow) (finding : String) : Prop :=
  ∃ p ∈ db.proposals, ∃ o ∈ db.repairs, p.seq = i.proposalSeq ∧ o.seq = p.repairSeq ∧
    o.findingId = finding

/-- A history row of this sequence number is in `fix_log`. -/
def Ledgers.Logged (db : Ledgers) (seq : Int) : Prop := ∃ l ∈ db.fixLog, l.seq = seq

/-- The order in which repairs, integrations, reopenings and retractions were recorded. -/
structure Timeline (db : Ledgers) : Prop where
  repairsLogged : ∀ o ∈ db.repairs, db.Logged o.seq
  proposalsLogged : ∀ p ∈ db.proposals, db.Logged p.seq
  integrationsLogged : ∀ i ∈ db.integrations, db.Logged i.seq
  closuresLogged : ∀ c ∈ db.closures, db.Logged c.seq
  reopeningsLogged : ∀ o ∈ db.reopenings, db.Logged o.seq
  retractionsLogged : ∀ r ∈ db.retractions, db.Logged r.seq
  repairsNodup : (db.repairs.map (·.seq)).Nodup
  proposalsNodup : (db.proposals.map (·.seq)).Nodup
  integrationsNodup : (db.integrations.map (·.seq)).Nodup
  reopeningsNodup : (db.reopenings.map (·.seq)).Nodup
  oneIntegration : (db.integrations.map (·.proposalSeq)).Nodup
  proposalRepair : ∀ p ∈ db.proposals, ∃ o ∈ db.repairs, o.seq = p.repairSeq ∧ o.seq < p.seq
  integrationProposal : ∀ i ∈ db.integrations, ∃ p ∈ db.proposals, p.seq = i.proposalSeq ∧
    p.seq < i.seq
  /-- A repair of a finding opens after the earlier ones of that finding have closed. -/
  repairsClosed : ∀ o ∈ db.repairs, ∀ o' ∈ db.repairs, o.findingId = o'.findingId →
    o.seq < o'.seq → ∃ c ∈ db.closures, c.repairSeq = o.seq ∧ c.seq < o'.seq
  reopenedIntegration : ∀ o ∈ db.reopenings, ∃ i ∈ db.integrations, i.seq = o.integrationSeq ∧
    i.seq < o.seq ∧ db.IntegratesFor i o.findingId
  /-- No later integration of the finding comes before its reopening. -/
  reopenedLast : ∀ o ∈ db.reopenings, ∀ i ∈ db.integrations, db.IntegratesFor i o.findingId →
    i.seq ≤ o.integrationSeq ∨ o.seq < i.seq
  /-- A second reopening of an integration comes after the first was retracted. -/
  reopenedOnce : ∀ o ∈ db.reopenings, ∀ o' ∈ db.reopenings, o.integrationSeq = o'.integrationSeq →
    o.seq < o'.seq → ∃ r ∈ db.retractions, r.reverses = o.seq ∧ r.seq < o'.seq
  reopenedApart : ∀ o ∈ db.reopenings, ∀ i ∈ db.integrations, o.seq ≠ i.seq

theorem Timeline.empty : Timeline .empty := by
  constructor <;> simp [Ledgers.empty]

theorem Logged.le_head {seq : Int} (h : db.Logged seq) : seq ≤ db.head := by
  obtain ⟨l, hl, rfl⟩ := h
  have hle := le_maxOf (List.mem_map_of_mem (f := fun l : LedgerRow FixKind => l.seq) hl)
  unfold Ledgers.head
  omega

theorem Logged.recorded {seq : Int} (h : db.Logged seq) :
    ∃ recorded, db.recordedAt seq = some recorded := by
  obtain ⟨l, hl⟩ := Option.isSome_iff_exists.mp (rowAt_isSome.mpr h)
  exact ⟨l.recordedUnixMs, by rw [Ledgers.recordedAt, hl]; rfl⟩

section Read

variable (ht : Timeline db)

include ht

/-- An integration belongs to one finding. -/
theorem integratesFor_unique {i : IntegrationRow} {f f' : String} (h : db.IntegratesFor i f)
    (h' : db.IntegratesFor i f') : f = f' := by
  obtain ⟨p, hp, o, ho, hpi, hop, rfl⟩ := h
  obtain ⟨p', hp', o', ho', hpi', hop', rfl⟩ := h'
  obtain rfl := List.inj_on_of_nodup_map ht.proposalsNodup hp hp' (hpi.trans hpi'.symm)
  rw [List.inj_on_of_nodup_map ht.repairsNodup ho ho' (hop.trans hop'.symm)]

/-! ### Repairs and integrations of a replay -/

omit ht in
theorem mem_repairStates {r : RepairState} (hr : r ∈ db.repairStates mark) :
    ∃ o ∈ db.repairs, o.seq ≤ mark ∧ r.repairSeq = o.seq ∧ r.findingId = o.findingId ∧
      r.proposals = db.proposalStates mark o.seq ∧
      r.closure = (db.closureOf mark o.seq).map (·.1) := by
  obtain ⟨o, ho, hstate⟩ := List.mem_filterMap.mp hr
  obtain ⟨hmem, hseq⟩ := mem_replay.mp ho
  obtain ⟨recorded, -, rfl⟩ := Option.map_eq_some_iff.mp hstate
  exact ⟨o, hmem, hseq, rfl, rfl, rfl, rfl⟩

theorem repairStates_of_mem {o : RepairOpportunity} (ho : o ∈ db.repairs) (hseq : o.seq ≤ mark) :
    ∃ r ∈ db.repairStates mark, r.repairSeq = o.seq ∧ r.findingId = o.findingId ∧
      r.proposals = db.proposalStates mark o.seq ∧
      r.closure = (db.closureOf mark o.seq).map (·.1) := by
  obtain ⟨recorded, hrecorded⟩ := Logged.recorded (ht.repairsLogged o ho)
  obtain ⟨r, hr⟩ : ∃ r, db.repairState mark o = some r :=
    ⟨_, by rw [Ledgers.repairState, hrecorded, Option.map_some]⟩
  refine ⟨r, List.mem_filterMap.mpr ⟨o, mem_replay.mpr ⟨ho, hseq⟩, hr⟩, ?_⟩
  obtain ⟨-, -, rfl⟩ := Option.map_eq_some_iff.mp hr
  exact ⟨rfl, rfl, rfl, rfl⟩

omit ht in
theorem integrationOf_mem {proposal : Int} {fi : FixIntegration}
    (h : db.integrationOf mark proposal = some fi) :
    ∃ i ∈ db.integrations, i.seq ≤ mark ∧ i.proposalSeq = proposal ∧ fi.seq = i.seq := by
  obtain ⟨i, hi, hfi⟩ := Option.bind_eq_some_iff.mp h
  obtain ⟨recorded, -, rfl⟩ := Option.map_eq_some_iff.mp hfi
  obtain ⟨hmem, hseq⟩ := mem_upTo.mp (List.mem_of_find?_eq_some hi)
  exact ⟨i, hmem, hseq, by simpa using List.find?_some hi, rfl⟩

theorem integrationOf_of_mem {i : IntegrationRow} (hi : i ∈ db.integrations) (hseq : i.seq ≤ mark) :
    ∃ fi, db.integrationOf mark i.proposalSeq = some fi ∧ fi.seq = i.seq := by
  have hsome : ((upTo mark db.integrations).find? (·.proposalSeq = i.proposalSeq)).isSome :=
    List.find?_isSome.mpr ⟨i, mem_upTo.mpr ⟨hi, hseq⟩, by simp⟩
  obtain ⟨j, hj⟩ := Option.isSome_iff_exists.mp hsome
  have hjmem := (mem_upTo.mp (List.mem_of_find?_eq_some hj)).1
  have hproposal : j.proposalSeq = i.proposalSeq := by simpa using List.find?_some hj
  obtain rfl := List.inj_on_of_nodup_map ht.oneIntegration hjmem hi hproposal
  obtain ⟨recorded, hrecorded⟩ := Logged.recorded (ht.integrationsLogged j hjmem)
  exact ⟨_, by rw [Ledgers.integrationOf, hj, Option.bind_some, hrecorded, Option.map_some], rfl⟩

omit ht in
/-- An integration of the replay is a row of its finding. -/
theorem mem_integrated {x : Integrated}
    (hx : x ∈ (db.repairStates mark).flatMap (·.integrated)) :
    ∃ i ∈ db.integrations, i.seq ≤ mark ∧ x.integration.seq = i.seq ∧
      x.proposal.seq = i.proposalSeq ∧ db.IntegratesFor i x.repair.findingId := by
  obtain ⟨r, hr, hx⟩ := List.mem_flatMap.mp hx
  obtain ⟨p, hp, hx⟩ := List.mem_filterMap.mp hx
  obtain ⟨fi, hfi, rfl⟩ := Option.map_eq_some_iff.mp hx
  obtain ⟨o, ho, -, -, hfinding, hproposals, -⟩ := mem_repairStates hr
  rw [hproposals] at hp
  obtain ⟨row, hrow, rfl⟩ := List.mem_map.mp hp
  obtain ⟨hrow, hrepair⟩ := List.mem_filter.mp hrow
  obtain ⟨i, hi, hseq, hproposal, hfiseq⟩ := integrationOf_mem hfi
  exact ⟨i, hi, hseq, hfiseq, hproposal.symm, row, (mem_replay.mp hrow).1, o, ho, hproposal.symm,
    (of_decide_eq_true hrepair).symm, hfinding.symm⟩

/-- A row of a finding below the watermark is an integration of the replay. -/
theorem integrated_of_mem {i : IntegrationRow} (hi : i ∈ db.integrations) (hseq : i.seq ≤ mark)
    (hfor : db.IntegratesFor i finding) :
    ∃ x ∈ (db.repairStates mark).flatMap (·.integrated), x.repair.findingId = finding ∧
      x.integration.seq = i.seq := by
  obtain ⟨p, hp, o, ho, hpi, hop, rfl⟩ := hfor
  obtain ⟨p', hp', hpi', hlt⟩ := ht.integrationProposal i hi
  obtain rfl := List.inj_on_of_nodup_map ht.proposalsNodup hp hp' (hpi.trans hpi'.symm)
  obtain ⟨o', ho', hop', hlt'⟩ := ht.proposalRepair p hp
  obtain rfl := List.inj_on_of_nodup_map ht.repairsNodup ho ho' (hop.trans hop'.symm)
  have hpm : p.seq ≤ mark := by omega
  have hom : o.seq ≤ mark := by omega
  obtain ⟨r, hr, -, hfinding, hproposals, -⟩ := repairStates_of_mem ht ho hom
  obtain ⟨fi, hfi, hfiseq⟩ := integrationOf_of_mem ht hi hseq
  rw [← hpi] at hfi
  refine ⟨⟨r, db.proposalState mark p, fi⟩, ?_, hfinding, hfiseq⟩
  refine List.mem_flatMap.mpr ⟨r, hr, List.mem_filterMap.mpr ⟨db.proposalState mark p, ?_, ?_⟩⟩
  · rw [hproposals]
    exact List.mem_map_of_mem (List.mem_filter.mpr ⟨mem_replay.mpr ⟨hp, hpm⟩,
      decide_eq_true hop.symm⟩)
  · rw [Ledgers.proposalState, hfi, Option.map_some]

omit ht in
theorem sorted_replay {α : Type} [Stamped α] {rows : List α} (mark : Int)
    (h : (rows.map Stamped.seq).Nodup) :
    (replay mark rows).Pairwise (Stamped.seq · < Stamped.seq ·) :=
  sorted_orderBy (h.sublist (List.filter_sublist.map _))

omit ht in
theorem mem_proposalStates {repair : Int} {p : ProposalState}
    (hp : p ∈ db.proposalStates mark repair) :
    ∃ row ∈ db.proposals, row.repairSeq = repair ∧ p.seq = row.seq := by
  obtain ⟨row, hrow, rfl⟩ := List.mem_map.mp hp
  obtain ⟨hrow, hrepair⟩ := List.mem_filter.mp hrow
  exact ⟨row, (mem_replay.mp hrow).1, of_decide_eq_true hrepair, rfl⟩

theorem proposalStates_sorted (mark repair : Int) :
    (db.proposalStates mark repair).Pairwise (·.seq < ·.seq) := by
  have hsorted := sorted_replay mark ht.proposalsNodup
  exact List.pairwise_map.mpr (hsorted.filter _)

/-- The proposals of the integrations of a replay differ. -/
theorem integrated_proposals :
    ((db.repairStates mark).flatMap (·.integrated)).Pairwise (·.proposal.seq ≠ ·.proposal.seq) := by
  refine List.pairwise_flatMap.mpr ⟨fun r hr => ?_, ?_⟩
  · -- the proposals of one repair are in order
    obtain ⟨o, -, -, -, -, hproposals, -⟩ := mem_repairStates hr
    have hsorted := proposalStates_sorted ht mark o.seq
    rw [← hproposals] at hsorted
    refine List.pairwise_filterMap.mpr (hsorted.imp fun hlt x hx y hy => ?_)
    obtain ⟨_, -, rfl⟩ := Option.map_eq_some_iff.mp hx
    obtain ⟨_, -, rfl⟩ := Option.map_eq_some_iff.mp hy
    exact Int.ne_of_lt hlt
  · -- two repairs have no proposal in common
    have hsorted := sorted_replay mark ht.repairsNodup
    refine List.pairwise_filterMap.mpr (hsorted.imp fun hlt r hr r' hr' x hx y hy heq => ?_)
    obtain ⟨p, hp, hx⟩ := List.mem_filterMap.mp hx
    obtain ⟨p', hp', hy⟩ := List.mem_filterMap.mp hy
    obtain ⟨_, -, rfl⟩ := Option.map_eq_some_iff.mp hx
    obtain ⟨_, -, rfl⟩ := Option.map_eq_some_iff.mp hy
    obtain ⟨_, -, rfl⟩ := Option.map_eq_some_iff.mp hr
    obtain ⟨_, -, rfl⟩ := Option.map_eq_some_iff.mp hr'
    obtain ⟨row, hrow, hrepair, hseq⟩ := mem_proposalStates hp
    obtain ⟨row', hrow', hrepair', hseq'⟩ := mem_proposalStates hp'
    have hsame : row.seq = row'.seq := by rw [← hseq, ← hseq']; exact heq
    obtain rfl := List.inj_on_of_nodup_map ht.proposalsNodup hrow hrow' hsame
    exact absurd (hrepair.symm.trans hrepair') (Int.ne_of_lt hlt)

/-- The integrations of a replay have different sequence numbers. -/
theorem integrated_nodup :
    (((db.repairStates mark).flatMap (·.integrated)).map (·.integration.seq)).Nodup := by
  refine List.pairwise_map.mpr ?_
  refine List.Pairwise.imp_of_mem (fun {x y} hx hy hne heq => ?_) (integrated_proposals ht)
  obtain ⟨i, hi, -, hseq, hproposal, -⟩ := mem_integrated hx
  obtain ⟨j, hj, -, hseq', hproposal', -⟩ := mem_integrated hy
  obtain rfl := List.inj_on_of_nodup_map ht.integrationsNodup hi hj
    ((hseq.symm.trans heq).trans hseq')
  exact hne (hproposal.trans hproposal'.symm)

/-- The integrations of one finding in order, as the loop reads them. -/
def Ledgers.integratedOf (db : Ledgers) (mark : Int) (finding : String) : List Integrated :=
  (integratedInOrder (db.repairStates mark)).filter (·.repair.findingId = finding)

omit ht in
theorem resolutionsOf_eq : db.resolutionsOf mark finding =
    intervals (db.reopeningsOf mark finding) (db.integratedOf mark finding) :=
  foldl_addInterval_nil

theorem integratedOf_sorted (mark : Int) (finding : String) :
    (db.integratedOf mark finding).Pairwise (·.integration.seq < ·.integration.seq) :=
  (sorted_orderBy (integrated_nodup ht)).filter _

omit ht in
theorem mem_integratedOf {x : Integrated} (hx : x ∈ db.integratedOf mark finding) :
    ∃ i ∈ db.integrations, i.seq ≤ mark ∧ x.integration.seq = i.seq ∧
      db.IntegratesFor i finding := by
  obtain ⟨hx, hfinding⟩ := List.mem_filter.mp hx
  obtain ⟨i, hi, hle, hseq, -, hfor⟩ := mem_integrated (mem_orderBy.mp hx)
  rw [of_decide_eq_true hfinding] at hfor
  exact ⟨i, hi, hle, hseq, hfor⟩

theorem integratedOf_of_mem {i : IntegrationRow} (hi : i ∈ db.integrations) (hseq : i.seq ≤ mark)
    (hfor : db.IntegratesFor i finding) :
    ∃ x ∈ db.integratedOf mark finding, x.integration.seq = i.seq := by
  obtain ⟨x, hx, hfinding, hxseq⟩ := integrated_of_mem ht hi hseq hfor
  exact ⟨x, List.mem_filter.mpr ⟨mem_orderBy.mpr hx, decide_eq_true hfinding⟩, hxseq⟩

/-! ### Reopenings of a replay -/

omit ht in
theorem mem_reopeningsOf {o : Reopening} (ho : o ∈ db.reopeningsOf mark finding) :
    ∃ row ∈ db.reopenings, row.seq ≤ mark ∧ row.findingId = finding ∧ o.seq = row.seq ∧
      o.integrationSeq = row.integrationSeq ∧ o.retractedSeq = db.retractedAt mark row.seq := by
  obtain ⟨row, hrow, hstate⟩ := List.mem_filterMap.mp ho
  obtain ⟨hrow, hfinding⟩ := List.mem_filter.mp hrow
  obtain ⟨hmem, hseq⟩ := mem_replay.mp hrow
  obtain ⟨_, -, rfl⟩ := Option.map_eq_some_iff.mp hstate
  exact ⟨row, hmem, hseq, of_decide_eq_true hfinding, rfl, rfl, rfl⟩

theorem reopeningsOf_of_mem {row : ReopeningRow} (hrow : row ∈ db.reopenings)
    (hseq : row.seq ≤ mark) :
    ∃ o ∈ db.reopeningsOf mark row.findingId, o.seq = row.seq ∧
      o.integrationSeq = row.integrationSeq ∧ o.retractedSeq = db.retractedAt mark row.seq := by
  obtain ⟨recorded, hrecorded⟩ := Logged.recorded (ht.reopeningsLogged row hrow)
  refine ⟨⟨row.seq, row.reason, row.observedOid, row.integrationSeq, row.evidenceRefs, recorded,
    db.retractedAt mark row.seq⟩, List.mem_filterMap.mpr ⟨row, ?_, ?_⟩, rfl, rfl, rfl⟩
  · exact List.mem_filter.mpr ⟨mem_replay.mpr ⟨hrow, hseq⟩, by simp⟩
  · rw [hrecorded, Option.map_some]

omit ht in
theorem retractedAt_eq_none {target : Int} : db.retractedAt mark target = none ↔
    ∀ r ∈ db.retractions, r.seq ≤ mark → r.reverses ≠ target := by
  rw [Ledgers.retractedAt, Option.map_eq_none_iff, List.find?_eq_none]
  constructor
  · intro h r hr hle heq
    exact h r (mem_upTo.mpr ⟨hr, hle⟩) (decide_eq_true heq)
  · intro h r hr heq
    obtain ⟨hr, hle⟩ := mem_upTo.mp hr
    exact h r hr hle (of_decide_eq_true heq)

omit ht in
/-- What the first unretracted reopening of an integration is. -/
theorem reopenedAt_row {integration e : Int}
    (h : reopenedAt (db.reopeningsOf mark finding) integration = some e) :
    ∃ row ∈ db.reopenings, row.seq = e ∧ row.findingId = finding ∧
      row.integrationSeq = integration ∧ row.seq ≤ mark ∧ db.retractedAt mark row.seq = none := by
  obtain ⟨o, ho, rfl⟩ := Option.map_eq_some_iff.mp h
  obtain ⟨row, hrow, hle, hfinding, hseq, hintegration, hretracted⟩ :=
    mem_reopeningsOf (List.mem_of_find?_eq_some ho)
  have hfound := List.find?_some ho
  simp only [decide_eq_true_eq, Option.isNone_iff_eq_none] at hfound
  exact ⟨row, hrow, hseq.symm, hfinding, hintegration.symm.trans hfound.1, hle,
    hretracted.symm.trans hfound.2⟩

/-- At a watermark at most one reopening of an integration is not retracted. -/
theorem unretracted_unique {row row' : ReopeningRow} (hrow : row ∈ db.reopenings)
    (hrow' : row' ∈ db.reopenings) (hsame : row.integrationSeq = row'.integrationSeq)
    (hle : row.seq ≤ mark) (hle' : row'.seq ≤ mark) (hr : db.retractedAt mark row.seq = none)
    (hr' : db.retractedAt mark row'.seq = none) : row.seq = row'.seq := by
  rcases Int.lt_trichotomy row.seq row'.seq with hlt | heq | hlt
  · obtain ⟨r, hmem, hreverses, hseq⟩ := ht.reopenedOnce row hrow row' hrow' hsame hlt
    exact absurd hreverses (retractedAt_eq_none.mp hr r hmem (by omega))
  · exact heq
  · obtain ⟨r, hmem, hreverses, hseq⟩ := ht.reopenedOnce row' hrow' row hrow hsame.symm hlt
    exact absurd hreverses (retractedAt_eq_none.mp hr' r hmem (by omega))

/-- An unretracted reopening is the one that the replay finds. -/
theorem reopenedAt_of_mem {o : Reopening} (ho : o ∈ db.reopeningsOf mark finding)
    (hretracted : o.retractedSeq = none) :
    reopenedAt (db.reopeningsOf mark finding) o.integrationSeq = some o.seq := by
  have hsome : ((db.reopeningsOf mark finding).find? fun p =>
      p.integrationSeq = o.integrationSeq ∧ p.retractedSeq.isNone).isSome :=
    List.find?_isSome.mpr ⟨o, ho, by simp [hretracted]⟩
  obtain ⟨first, hfirst⟩ := Option.isSome_iff_exists.mp hsome
  have hat : reopenedAt (db.reopeningsOf mark finding) o.integrationSeq = some first.seq := by
    rw [reopenedAt, hfirst, Option.map_some]
  obtain ⟨row, hrow, hseq, -, hintegration, hle, hnone⟩ := reopenedAt_row hat
  obtain ⟨row', hrow', hle', -, hseq', hintegration', hretracted'⟩ := mem_reopeningsOf ho
  have heq := unretracted_unique ht hrow hrow' (hintegration.trans hintegration') hle hle' hnone
    (hretracted'.symm.trans hretracted)
  rw [hat, ← hseq, heq, hseq']

/-! ### The list of a finding -/

/-- What holds of a finding's intervals and reopenings at a watermark. -/
structure Disjoint (resolutions : List ResolutionInterval) (reopenings : List Reopening) : Prop where
  increasing : resolutions.Pairwise (·.integrationSeq < ·.integrationSeq)
  ended : resolutions.IsChain fun a b => ∃ e, a.endedSeq = some e ∧ e ≤ b.integrationSeq
  oneOpen : resolutions.countP (·.endedSeq.isNone) ≤ 1
  /-- A reopening that is not retracted ends the interval of its integration and no other. -/
  reopened : ∀ o ∈ reopenings, o.retractedSeq = none →
    (∃ r ∈ resolutions, r.integrationSeq = o.integrationSeq) ∧
      ∀ r ∈ resolutions, (r.endedSeq = some o.seq ↔ r.integrationSeq = o.integrationSeq)

theorem resolutionsOf_disjoint :
    Disjoint (db.resolutionsOf mark finding) (db.reopeningsOf mark finding) := by
  have hsorted := integratedOf_sorted ht mark finding
  rw [resolutionsOf_eq]
  refine ⟨?_, intervals_chain ?_, intervals_open, fun o ho hretracted => ?_⟩
  · have hseqs := intervals_seqs (db.reopeningsOf mark finding) (db.integratedOf mark finding)
    have hmap := List.pairwise_map.mpr hsorted
    rw [← hseqs] at hmap
    exact List.pairwise_map.mp hmap
  · -- a reopening of an integration comes before the next integration of the finding
    refine (List.Pairwise.imp_of_mem (fun {i j} hi hj hlt e he => ?_) hsorted).isChain
    obtain ⟨row, hrow, rfl, hfinding, hintegration, -, -⟩ := reopenedAt_row he
    obtain ⟨r, hr, -, hseq, hfor⟩ := mem_integratedOf hj
    rw [← hfinding] at hfor
    rcases ht.reopenedLast row hrow r hr hfor with hle | hlt'
    · omega
    · omega
  · have hat := reopenedAt_of_mem ht ho hretracted
    obtain ⟨row, hrow, hle, hfinding, hseq, hintegration, -⟩ := mem_reopeningsOf ho
    obtain ⟨i, hi, hiseq, hlt, hfor⟩ := ht.reopenedIntegration row hrow
    rw [hfinding] at hfor
    obtain ⟨x, hx, hxseq⟩ := integratedOf_of_mem ht hi (by omega : i.seq ≤ mark) hfor
    have hxo : x.integration.seq = o.integrationSeq := by rw [hxseq, hiseq, hintegration]
    refine ⟨?_, fun r hr => ?_⟩
    · have hmem := List.mem_map_of_mem (f := fun y : Integrated => y.integration.seq) hx
      rw [← intervals_seqs (db.reopeningsOf mark finding)] at hmem
      obtain ⟨r, hr, heq⟩ := List.mem_map.mp hmem
      exact ⟨r, hr, heq.trans hxo⟩
    · obtain ⟨y, hy, hry, hcases⟩ := mem_intervals hr
      constructor
      · intro hended
        rcases hcases with ⟨-, hnone, -⟩ | ⟨-, z, hz, hz'⟩ | ⟨e, he, he'⟩
        · rw [hnone] at hended
          cases hended
        · -- an interval superseded at the reopening's own sequence number
          obtain ⟨k, hk, -, hkseq, -⟩ := mem_integratedOf hz
          rw [hended] at hz'
          have hzo := Option.some.inj hz'
          have happart := ht.reopenedApart row hrow k hk
          omega
        · rw [hended] at he'
          obtain rfl := Option.some.inj he'
          obtain ⟨row', hrow', hseq', -, hintegration', -, -⟩ := reopenedAt_row he
          obtain rfl := List.inj_on_of_nodup_map ht.reopeningsNodup hrow' hrow (hseq'.trans hseq)
          rw [hry, hintegration, hintegration']
      · intro hsame
        have hyo : y.integration.seq = o.integrationSeq := hry.symm.trans hsame
        rw [hyo] at hcases
        rcases hcases with ⟨hnone, -, -⟩ | ⟨hnone, -⟩ | ⟨e, he, hended⟩
        · rw [hnone] at hat
          cases hat
        · rw [hnone] at hat
          cases hat
        · rw [hended, ← he, hat]

theorem closureOf_of_mem {c : RepairClosure} (hc : c ∈ db.closures) (hle : c.seq ≤ mark) :
    db.closureOf mark c.repairSeq ≠ none := by
  have hsome : ((upTo mark db.closures).find? (·.repairSeq = c.repairSeq)).isSome :=
    List.find?_isSome.mpr ⟨c, mem_upTo.mpr ⟨hc, hle⟩, by simp⟩
  obtain ⟨d, hd⟩ := Option.isSome_iff_exists.mp hsome
  have hmem := (mem_upTo.mp (List.mem_of_find?_eq_some hd)).1
  obtain ⟨recorded, hrecorded⟩ := Logged.recorded (ht.closuresLogged d hmem)
  rw [Ledgers.closureOf, hd, Option.bind_some, hrecorded, Option.map_some]
  exact Option.some_ne_none _

omit ht in
theorem closureOf_mem {repair : Int} (h : db.closureOf mark repair ≠ none) :
    ∃ c ∈ db.closures, c.repairSeq = repair ∧ c.seq ≤ mark := by
  obtain ⟨pair, hpair⟩ := Option.ne_none_iff_exists'.mp h
  obtain ⟨c, hc, -⟩ := Option.bind_eq_some_iff.mp hpair
  obtain ⟨hmem, hle⟩ := mem_upTo.mp (List.mem_of_find?_eq_some hc)
  exact ⟨c, hmem, by simpa using List.find?_some hc, hle⟩

theorem repairStates_sorted (mark : Int) :
    (db.repairStates mark).Pairwise (·.repairSeq < ·.repairSeq) := by
  refine List.pairwise_filterMap.mpr ((sorted_replay mark ht.repairsNodup).imp ?_)
  intro o o' hlt r hr r' hr'
  obtain ⟨_, -, rfl⟩ := Option.map_eq_some_iff.mp hr
  obtain ⟨_, -, rfl⟩ := Option.map_eq_some_iff.mp hr'
  exact hlt

/-- At most one repair of the finding has no closure. -/
theorem repairStates_open :
    (db.repairStates mark).countP (fun r => r.findingId = finding ∧ r.closure = none) ≤ 1 := by
  rw [List.countP_eq_length_filter]
  have hsorted := (repairStates_sorted ht mark).filter
    fun r => r.findingId = finding ∧ r.closure = none
  have hmem : ∀ r ∈ (db.repairStates mark).filter
      (fun r => r.findingId = finding ∧ r.closure = none), r ∈ db.repairStates mark ∧
        r.findingId = finding ∧ r.closure = none := by
    intro r hr
    obtain ⟨hr, hp⟩ := List.mem_filter.mp hr
    exact ⟨hr, of_decide_eq_true hp⟩
  generalize (db.repairStates mark).filter
    (fun r => r.findingId = finding ∧ r.closure = none) = opened at hsorted hmem
  match opened with
  | [] => exact Nat.zero_le 1
  | [_] => exact Nat.le_refl 1
  | r :: r' :: rest =>
    have hlt := (List.pairwise_cons.mp hsorted).1 r' (by simp)
    obtain ⟨hr, hfinding, hclosure⟩ := hmem r (by simp)
    obtain ⟨hr', hfinding', -⟩ := hmem r' (by simp)
    obtain ⟨o, ho, -, hseq, hof, -, hstate⟩ := mem_repairStates hr
    obtain ⟨o', ho', hle, hseq', hof', -, -⟩ := mem_repairStates hr'
    obtain ⟨c, hc, hrepair, hcseq⟩ := ht.repairsClosed o ho o' ho'
      (by rw [← hof, ← hof', hfinding, hfinding']) (by omega)
    have hclosed := closureOf_of_mem ht hc (by omega : c.seq ≤ mark)
    rw [hrepair] at hclosed
    rw [hstate, Option.map_eq_none_iff] at hclosure
    exact absurd hclosure hclosed

end Read

/-! ## Every effect keeps the order -/

theorem Logged.mono (g : Grows db db') {seq : Int} (h : db.Logged seq) : db'.Logged seq := by
  obtain ⟨l, hl, hseq⟩ := h
  exact ⟨l, g.fixLog.mem hl, hseq⟩

/-- Growth of the log alone. -/
theorem Timeline.relogged (ht : Timeline db) (g : Grows db db')
    (hrepairs : db'.repairs = db.repairs) (hproposals : db'.proposals = db.proposals)
    (hintegrations : db'.integrations = db.integrations) (hclosures : db'.closures = db.closures)
    (hreopenings : db'.reopenings = db.reopenings)
    (hretractions : db'.retractions = db.retractions) : Timeline db' := by
  constructor
  all_goals simp only [Ledgers.IntegratesFor, hrepairs, hproposals, hintegrations, hclosures, hreopenings, hretractions]
  · exact fun o ho => Logged.mono g (ht.repairsLogged o ho)
  · exact fun o ho => Logged.mono g (ht.proposalsLogged o ho)
  · exact fun o ho => Logged.mono g (ht.integrationsLogged o ho)
  · exact fun o ho => Logged.mono g (ht.closuresLogged o ho)
  · exact fun o ho => Logged.mono g (ht.reopeningsLogged o ho)
  · exact fun o ho => Logged.mono g (ht.retractionsLogged o ho)
  · exact ht.repairsNodup
  · exact ht.proposalsNodup
  · exact ht.integrationsNodup
  · exact ht.reopeningsNodup
  · exact ht.oneIntegration
  · exact ht.proposalRepair
  · exact ht.integrationProposal
  · exact ht.repairsClosed
  · exact ht.reopenedIntegration
  · exact ht.reopenedLast
  · exact ht.reopenedOnce
  · exact ht.reopenedApart

theorem nodup_snoc {α : Type} {key : α → Int} {l : List α} {a : α} (hl : (l.map key).Nodup)
    (ha : ∀ b ∈ l, key b ≠ key a) : ((l ++ [a]).map key).Nodup := by
  rw [List.map_append, List.nodup_append]
  refine ⟨hl, by simp, ?_⟩
  intro k hk k' hk' heq
  obtain ⟨b, hb, rfl⟩ := List.mem_map.mp hk
  obtain rfl := List.mem_singleton.mp hk'
  exact ha b hb heq

/-- A relation between all rows, when one row is added. -/
theorem forall_pairs_snoc {α : Type} {l : List α} {x : α} {P : α → α → Prop}
    (hold : ∀ a ∈ l, ∀ b ∈ l, P a b) (hleft : ∀ a ∈ l, P a x) (hright : ∀ b ∈ l, P x b)
    (hself : P x x) : ∀ a ∈ l ++ [x], ∀ b ∈ l ++ [x], P a b := by
  refine forall_append (fun a ha => forall_append (hold a ha) ?_) ?_
  · simpa using hleft a ha
  · intro a ha
    obtain rfl := List.mem_singleton.mp ha
    exact forall_append hright (by simpa using hself)

/-- A sequence number above every row of the six tables. -/
structure Above (db : Ledgers) (n : Int) : Prop where
  repairs : ∀ o ∈ db.repairs, o.seq < n
  proposals : ∀ p ∈ db.proposals, p.seq < n
  integrations : ∀ i ∈ db.integrations, i.seq < n
  closures : ∀ c ∈ db.closures, c.seq < n
  reopenings : ∀ o ∈ db.reopenings, o.seq < n
  retractions : ∀ r ∈ db.retractions, r.seq < n

theorem Timeline.above (ht : Timeline db) {n : Int} (hn : n = db.head + 1) : Above db n := by
  have hlt : ∀ k, db.Logged k → k < n := by
    intro k hk
    have hle := Logged.le_head hk
    omega
  exact ⟨fun o ho => hlt _ (ht.repairsLogged o ho), fun p hp => hlt _ (ht.proposalsLogged p hp),
    fun i hi => hlt _ (ht.integrationsLogged i hi), fun c hc => hlt _ (ht.closuresLogged c hc),
    fun o ho => hlt _ (ht.reopeningsLogged o ho), fun r hr => hlt _ (ht.retractionsLogged r hr)⟩

section Add

variable (ht : Timeline db) {n : Int} (ha : Above db n) (hn : db.Logged n)

include ht ha hn

theorem Timeline.addRepair {o : RepairOpportunity} (ho : o.seq = n)
    (hclosed : ∀ o' ∈ db.repairs, o'.findingId = o.findingId →
      ∃ c ∈ db.closures, c.repairSeq = o'.seq) :
    Timeline { db with repairs := db.repairs ++ [o] } := by
  have hfor : ∀ i ∈ db.integrations, ∀ f,
      Ledgers.IntegratesFor { db with repairs := db.repairs ++ [o] } i f →
        db.IntegratesFor i f := by
    rintro i hi f ⟨p, hp, o', ho', hpi, hop, hf⟩
    rcases List.mem_append.mp ho' with ho' | ho'
    · exact ⟨p, hp, o', ho', hpi, hop, hf⟩
    · -- the proposal's repair was recorded before the new one
      obtain rfl := List.mem_singleton.mp ho'
      obtain ⟨o'', ho'', hop', -⟩ := ht.proposalRepair p hp
      have hlt := ha.repairs o'' ho''
      omega
  refine { ht with
    repairsLogged := forall_append ht.repairsLogged ?_
    repairsNodup := nodup_snoc ht.repairsNodup ?_
    proposalRepair := ?_
    repairsClosed := ?_
    reopenedIntegration := ?_
    reopenedLast := fun r hr i hi h => ht.reopenedLast r hr i hi (hfor i hi _ h) }
  · intro o' ho'
    obtain rfl := List.mem_singleton.mp ho'
    rw [ho]
    exact hn
  · intro o' ho'
    have hlt := ha.repairs o' ho'
    omega
  · intro p hp
    obtain ⟨o', ho', hseq⟩ := ht.proposalRepair p hp
    exact ⟨o', List.mem_append_left _ ho', hseq⟩
  · refine forall_pairs_snoc ht.repairsClosed ?_ ?_ fun _ hlt => absurd hlt (Int.lt_irrefl _)
    · intro o' ho' hfinding _
      obtain ⟨c, hc, hrepair⟩ := hclosed o' ho' hfinding
      exact ⟨c, hc, hrepair, by rw [ho]; exact ha.closures c hc⟩
    · intro o' ho' _ hlt
      have hlt' := ha.repairs o' ho'
      omega
  · intro r hr
    obtain ⟨i, hi, hseq, hlt, p, hp, o', ho', hfor'⟩ := ht.reopenedIntegration r hr
    exact ⟨i, hi, hseq, hlt, p, hp, o', List.mem_append_left _ ho', hfor'⟩

theorem Timeline.addProposal {p : FixProposal} {o : RepairOpportunity} (hp : p.seq = n)
    (ho : o ∈ db.repairs) (hrepair : p.repairSeq = o.seq) :
    Timeline { db with proposals := db.proposals ++ [p] } := by
  have hfor : ∀ i ∈ db.integrations, ∀ f,
      Ledgers.IntegratesFor { db with proposals := db.proposals ++ [p] } i f →
        db.IntegratesFor i f := by
    rintro i hi f ⟨p', hp', o', ho', hpi, hop⟩
    rcases List.mem_append.mp hp' with hp' | hp'
    · exact ⟨p', hp', o', ho', hpi, hop⟩
    · -- the integration's proposal was recorded before the new one
      obtain rfl := List.mem_singleton.mp hp'
      obtain ⟨p'', hp'', hpi', -⟩ := ht.integrationProposal i hi
      have hlt := ha.proposals p'' hp''
      omega
  refine { ht with
    proposalsLogged := forall_append ht.proposalsLogged ?_
    proposalsNodup := nodup_snoc ht.proposalsNodup ?_
    proposalRepair := forall_append ht.proposalRepair ?_
    integrationProposal := ?_
    reopenedIntegration := ?_
    reopenedLast := fun r hr i hi h => ht.reopenedLast r hr i hi (hfor i hi _ h) }
  · intro p' hp'
    obtain rfl := List.mem_singleton.mp hp'
    rw [hp]
    exact hn
  · intro p' hp'
    have hlt := ha.proposals p' hp'
    omega
  · intro p' hp'
    obtain rfl := List.mem_singleton.mp hp'
    exact ⟨o, ho, hrepair.symm, by rw [hp]; exact ha.repairs o ho⟩
  · intro i hi
    obtain ⟨p', hp', hseq⟩ := ht.integrationProposal i hi
    exact ⟨p', List.mem_append_left _ hp', hseq⟩
  · intro r hr
    obtain ⟨i, hi, hseq, hlt, p', hp', hfor'⟩ := ht.reopenedIntegration r hr
    exact ⟨i, hi, hseq, hlt, p', List.mem_append_left _ hp', hfor'⟩

theorem Timeline.addIntegration {i : IntegrationRow} {p : FixProposal} (hi : i.seq = n)
    (hp : p ∈ db.proposals) (hproposal : i.proposalSeq = p.seq)
    (fresh : ∀ j ∈ db.integrations, j.proposalSeq ≠ i.proposalSeq) :
    Timeline { db with integrations := db.integrations ++ [i] } := by
  refine { ht with
    integrationsLogged := forall_append ht.integrationsLogged ?_
    integrationsNodup := nodup_snoc ht.integrationsNodup ?_
    oneIntegration := nodup_snoc ht.oneIntegration fresh
    integrationProposal := forall_append ht.integrationProposal ?_
    reopenedIntegration := ?_
    reopenedLast := fun r hr => forall_append (ht.reopenedLast r hr) ?_
    reopenedApart := fun r hr => forall_append (ht.reopenedApart r hr) ?_ }
  · intro j hj
    obtain rfl := List.mem_singleton.mp hj
    rw [hi]
    exact hn
  · intro j hj
    have hlt := ha.integrations j hj
    omega
  · intro j hj
    obtain rfl := List.mem_singleton.mp hj
    exact ⟨p, hp, hproposal.symm, by rw [hi]; exact ha.proposals p hp⟩
  · intro r hr
    obtain ⟨j, hj, hrest⟩ := ht.reopenedIntegration r hr
    exact ⟨j, List.mem_append_left _ hj, hrest⟩
  · intro j hj _
    obtain rfl := List.mem_singleton.mp hj
    exact .inr (by rw [hi]; exact ha.reopenings r hr)
  · intro j hj
    obtain rfl := List.mem_singleton.mp hj
    have hlt := ha.reopenings r hr
    omega

omit ha in
theorem Timeline.addClosure {c : RepairClosure} (hc : c.seq = n) :
    Timeline { db with closures := db.closures ++ [c] } := by
  refine { ht with
    closuresLogged := forall_append ht.closuresLogged ?_
    repairsClosed := ?_ }
  · intro d hd
    obtain rfl := List.mem_singleton.mp hd
    rw [hc]
    exact hn
  · intro a ha b hb hfinding hlt
    obtain ⟨d, hd, hrest⟩ := ht.repairsClosed a ha b hb hfinding hlt
    exact ⟨d, List.mem_append_left _ hd, hrest⟩

theorem Timeline.addReopening {o : ReopeningRow} {i : IntegrationRow} (ho : o.seq = n)
    (hi : i ∈ db.integrations) (hseq : i.seq = o.integrationSeq)
    (hfor : db.IntegratesFor i o.findingId)
    (hlast : ∀ j ∈ db.integrations, db.IntegratesFor j o.findingId → j.seq ≤ o.integrationSeq)
    (honce : ∀ o' ∈ db.reopenings, o'.integrationSeq = o.integrationSeq →
      ∃ r ∈ db.retractions, r.reverses = o'.seq) :
    Timeline { db with reopenings := db.reopenings ++ [o] } := by
  refine { ht with
    reopeningsLogged := forall_append ht.reopeningsLogged ?_
    reopeningsNodup := nodup_snoc ht.reopeningsNodup ?_
    reopenedIntegration := forall_append ht.reopenedIntegration ?_
    reopenedLast := forall_append ht.reopenedLast ?_
    reopenedOnce := ?_
    reopenedApart := forall_append ht.reopenedApart ?_ }
  · intro o' ho'
    obtain rfl := List.mem_singleton.mp ho'
    rw [ho]
    exact hn
  · intro o' ho'
    have hlt := ha.reopenings o' ho'
    omega
  · intro o' ho'
    obtain rfl := List.mem_singleton.mp ho'
    exact ⟨i, hi, hseq, by rw [ho]; exact ha.integrations i hi, hfor⟩
  · intro o' ho' j hj hj'
    obtain rfl := List.mem_singleton.mp ho'
    exact .inl (hlast j hj hj')
  · refine forall_pairs_snoc ht.reopenedOnce ?_ ?_ fun _ hlt => absurd hlt (Int.lt_irrefl _)
    · intro o' ho' hsame _
      obtain ⟨r, hr, hreverses⟩ := honce o' ho' hsame
      exact ⟨r, hr, hreverses, by rw [ho]; exact ha.retractions r hr⟩
    · intro o' ho' _ hlt
      have hlt' := ha.reopenings o' ho'
      omega
  · intro o' ho' j hj
    obtain rfl := List.mem_singleton.mp ho'
    have hlt := ha.integrations j hj
    omega

omit ha in
theorem Timeline.addRetraction {r : FixRetraction} (hr : r.seq = n) :
    Timeline { db with retractions := db.retractions ++ [r] } := by
  refine { ht with
    retractionsLogged := forall_append ht.retractionsLogged ?_
    reopenedOnce := ?_ }
  · intro r' hr'
    obtain rfl := List.mem_singleton.mp hr'
    rw [hr]
    exact hn
  · intro a ha b hb hsame hlt
    obtain ⟨r', hr', hrest⟩ := ht.reopenedOnce a ha b hb hsame hlt
    exact ⟨r', List.mem_append_left _ hr', hrest⟩

end Add

/-! ### What the current state shows -/

theorem findingFixState_eq {triage : FindingState} {repairs : List RepairState}
    {group : FindingGroupState} :
    (db.findingFixState mark triage repairs group).resolutions =
        db.resolutionsOf mark (db.findingFixState mark triage repairs group).findingId ∧
      (db.findingFixState mark triage repairs group).reopenings =
        db.reopeningsOf mark (db.findingFixState mark triage repairs group).findingId :=
  ⟨rfl, rfl⟩

theorem fixStateOver_parts {triage : FindingState} {state : FixState}
    (h : db.fixStateOver triage = .ok state) :
    state.repairs = (db.repairStates triage.asOfSeq).map
        (·.settled (db.currentIntegrations triage.asOfSeq)) ∧
      ∀ f ∈ state.findings, f.resolutions = db.resolutionsOf triage.asOfSeq f.findingId ∧
        f.reopenings = db.reopeningsOf triage.asOfSeq f.findingId := by
  obtain ⟨history, -, hstate⟩ := Except.bind_ok.mp h
  cases hstate
  refine ⟨rfl, fun f hf => ?_⟩
  obtain ⟨group, -, rfl⟩ := List.mem_map.mp hf
  exact findingFixState_eq

/-- The parts of a replayed fix state, at its watermark. -/
theorem fixState_parts {asOf : Option Int} {state : FixState} (h : db.fixState asOf = .ok state) :
    state.repairs = (db.repairStates (asOf.getD db.head)).map
        (·.settled (db.currentIntegrations (asOf.getD db.head))) ∧
      ∀ f ∈ state.findings, f.resolutions = db.resolutionsOf (asOf.getD db.head) f.findingId ∧
        f.reopenings = db.reopeningsOf (asOf.getD db.head) f.findingId := by
  obtain ⟨triage, htriage, hstate⟩ := Except.bind_ok.mp h
  obtain ⟨mark, hmark, hat⟩ := Except.bind_ok.mp htriage
  have hparts := fixStateOver_parts hstate
  rw [findingStateAt_mark hat, watermark_eq hmark] at hparts
  exact hparts

/-- An open interval is the one of the finding's last integration, which no reopening ends. -/
theorem open_interval (ht : Timeline db) {r : ResolutionInterval}
    (hr : r ∈ db.resolutionsOf mark finding) (hopen : r.endedSeq = none) :
    ∃ i ∈ db.integrations, i.seq = r.integrationSeq ∧ db.IntegratesFor i finding ∧
      reopenedAt (db.reopeningsOf mark finding) r.integrationSeq = none ∧
      ∀ j ∈ db.integrations, j.seq ≤ mark → db.IntegratesFor j finding →
        j.seq ≤ r.integrationSeq := by
  rw [resolutionsOf_eq] at hr
  obtain ⟨x, hx, hseq, hcases⟩ := mem_intervals hr
  obtain ⟨i, hi, -, hxi, hfor⟩ := mem_integratedOf hx
  rcases hcases with ⟨hnone, -, hlast⟩ | ⟨-, y, -, hend⟩ | ⟨e, -, hend⟩
  · refine ⟨i, hi, hxi.symm.trans hseq.symm, hfor, by rw [hseq]; exact hnone, ?_⟩
    intro j hj hle hjfor
    obtain ⟨y, hy, hyseq⟩ := integratedOf_of_mem ht hj hle hjfor
    -- the last of a sorted list is above all others
    obtain ⟨init, hinit⟩ := List.getLast?_eq_some_iff.mp hlast
    have hsorted := integratedOf_sorted ht mark finding
    rw [hinit] at hsorted hy
    rcases List.mem_append.mp hy with hy | hy
    · have hlt := (List.pairwise_append.mp hsorted).2.2 y hy x (by simp)
      omega
    · obtain rfl := List.mem_singleton.mp hy
      omega
  · rw [hopen] at hend
    cases hend
  · rw [hopen] at hend
    cases hend

theorem Effect.timeline (e : Effect db db') (ht : Timeline db) : Timeline db' := by
  have g := e.grows
  have hgrown : ∀ row : LedgerRow FixKind, row.seq = db.head + 1 →
      Timeline { db with fixLog := db.fixLog ++ [row] } ∧
        Above { db with fixLog := db.fixLog ++ [row] } row.seq ∧
        Ledgers.Logged { db with fixLog := db.fixLog ++ [row] } row.seq := by
    intro row hrow
    have hlog : Grows db { db with fixLog := db.fixLog ++ [row] } :=
      { fixLog := .one (above_head hrow rfl) }
    refine ⟨ht.relogged hlog rfl rfl rfl rfl rfl rfl, ?_, row, by simp, rfl⟩
    obtain ⟨h₁, h₂, h₃, h₄, h₅, h₆⟩ := ht.above hrow
    exact ⟨h₁, h₂, h₃, h₄, h₅, h₆⟩
  cases e with
  | @repairOpened row o state hrow _ ho hstate closed =>
    obtain ⟨ht', ha, hn⟩ := hgrown row hrow
    refine ht'.addRepair ha hn ho fun o' ho' hfinding => ?_
    obtain ⟨r, hr, hseq, hof, -, hclosure⟩ := repairStates_of_mem ht ho'
      (Logged.le_head (ht.repairsLogged o' ho'))
    have hmem : r.settled (db.currentIntegrations db.head) ∈ state.repairs := by
      rw [(fixState_parts hstate).1]
      exact List.mem_map_of_mem hr
    have hne := closed _ hmem (hof.trans hfinding)
    change r.closure ≠ none at hne
    rw [hclosure, Ne, Option.map_eq_none_iff] at hne
    obtain ⟨c, hc, hrepair, -⟩ := closureOf_mem hne
    exact ⟨c, hc, hrepair⟩
  | @proposed row p o hrow _ hp ho hrepair _ =>
    obtain ⟨ht', ha, hn⟩ := hgrown row hrow
    exact ht'.addProposal ha hn hp ho hrepair
  | @integrated row i p hrow _ hi hp hproposal fresh =>
    obtain ⟨ht', ha, hn⟩ := hgrown row hrow
    exact ht'.addIntegration ha hn hi hp hproposal fresh
  | @closed row c hrow _ hc =>
    obtain ⟨ht', -, hn⟩ := hgrown row hrow
    exact ht'.addClosure hn hc
  | @reopened row o state f r hrow _ ho hstate hf hfinding hr current hintegration =>
    obtain ⟨ht', ha, hn⟩ := hgrown row hrow
    rw [((fixState_parts hstate).2 f hf).1, hfinding] at hr
    obtain ⟨i, hi, hseq, hfor, hnone, hlast⟩ := open_interval ht hr current
    rw [← hintegration] at hseq hnone hlast
    refine ht'.addReopening ha hn ho hi hseq hfor (fun j hj hjfor => ?_) fun o' ho' hsame => ?_
    · exact hlast j hj (Logged.le_head (ht.integrationsLogged j hj)) hjfor
    · -- an earlier reopening of the same integration is retracted, or the interval had ended
      obtain ⟨i', hi', hseq', -, hfor'⟩ := ht.reopenedIntegration o' ho'
      obtain rfl := List.inj_on_of_nodup_map ht.integrationsNodup hi hi'
        (hseq.trans (hsame.symm.trans hseq'.symm))
      have hsamefinding := integratesFor_unique ht hfor' hfor
      obtain ⟨p, hp, hpseq, hpintegration, hretracted⟩ := reopeningsOf_of_mem ht ho'
        (Logged.le_head (ht.reopeningsLogged o' ho'))
      rw [hsamefinding] at hp
      by_contra hnot
      have hunretracted : db.retractedAt db.head o'.seq = none := by
        refine retractedAt_eq_none.mpr fun r hr _ hreverses => ?_
        exact hnot ⟨r, hr, hreverses⟩
      have hat := reopenedAt_of_mem ht hp (hretracted.trans hunretracted)
      rw [hpintegration, hsame] at hat
      exact absurd (hnone.symm.trans hat) (by simp)
  | @retracted row r hrow _ hr =>
    obtain ⟨ht', -, hn⟩ := hgrown row hrow
    exact ht'.addRetraction hn hr
  | _ => exact ht.relogged g rfl rfl rfl rfl rfl rfl

theorem Effects.timeline (e : Effects db db') (ht : Timeline db) : Timeline db' := by
  induction e with
  | refl => exact ht
  | tail _ e ih => exact e.timeline ih

variable [TitleExcerpt]

/-- **Resolution intervals never overlap.** After every history of calls and at every watermark the
fix state is returned; the intervals of every finding are disjoint and in order, with at most one
open, every reopening that is not retracted ends exactly the interval of its integration, and every
finding has at most one repair opportunity without a closure. -/
theorem resolution_intervals_disjoint (history : List Call) (mark : Int) (h0 : 0 ≤ mark)
    (hm : mark ≤ (after history .empty).head) :
    ∃ state, (after history .empty).fixState (some mark) = .ok state ∧
      (∀ f ∈ state.findings, Disjoint f.resolutions f.reopenings) ∧
      ∀ finding, state.repairs.countP (fun r => r.findingId = finding ∧ r.closure = none) ≤ 1 := by
  have hpast := after_effects history .empty
  have ht := hpast.timeline .empty
  obtain ⟨-, state, -, hstate, -⟩ :=
    replays_stable (Grows.refl _) (hpast.sound .empty) (hpast.recorded .empty) h0 hm
  obtain ⟨hrepairs, hfindings⟩ := fixState_parts hstate
  refine ⟨state, hstate, fun f hf => ?_, fun finding => ?_⟩
  · obtain ⟨hresolutions, hreopenings⟩ := hfindings f hf
    rw [hresolutions, hreopenings]
    exact resolutionsOf_disjoint ht
  · rw [hrepairs, List.countP_map]
    exact repairStates_open ht

/-- The finding is repaired and reopened. -/
def reopenedOnce : List Call := reportedOnce ++
  [.openRepair "finding:canonical-2" .unassigned .error 1000 none "operator:cli" 30,
    .factory (.attempt ⟨"fixer", .running, some "configuration-2"⟩),
    .bindRepairAttempt 3 "fixer" none "operator:cli" 40,
    .factory (.result ⟨"submission", "fixer", "bbbb"⟩),
    .proposeFix 3 "submission" none "operator:cli" 50,
    .factory (.run ⟨"run", "submission", "bbbb", "accepted"⟩),
    .factory (.verifiedResult ⟨"result", "run", "submission", "bbbb"⟩),
    .verifyFix 5 "run" "regression_reproduced" sampleEvidence none "operator:cli" 60,
    .factory (.integratedCommit
      ⟨"integrated", "cccc", 65, some "submission", some "bbbb", some "bbbb"⟩),
    .integrateFix 5 "integrated" none "operator:cli" 70,
    .reopenFinding "finding:canonical-2" "regression" "0123456789abcdef0123456789abcdef01234567"
      sampleEvidence none "operator:cli" 80]

omit [TitleExcerpt] in
theorem resolution_intervals_disjoint_reopened : letI := plainTitles
    ((after reopenedOnce .empty).resolutionsOf 8 "finding:canonical-2").map (·.endedSeq) =
        [some 8] ∧
      ∃ state, (after reopenedOnce .empty).fixState (some 8) = .ok state ∧
        (∀ f ∈ state.findings, Disjoint f.resolutions f.reopenings) ∧
        ∀ finding,
          state.repairs.countP (fun r => r.findingId = finding ∧ r.closure = none) ≤ 1 := by
  let _ := plainTitles
  exact ⟨by decide +kernel,
    resolution_intervals_disjoint reopenedOnce 8 (by decide) (by decide +kernel)⟩

end Herdr.Findings
