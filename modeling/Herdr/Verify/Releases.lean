import Herdr.Store.Releases
import Herdr.Verify.Waits

/-!
# Dependency wakes

A wait for dependency evidence is woken by the events of the writers that complete the last edge of
its task. Between two steps a task either becomes ready with an event that is relevant to its wait,
or was ready already and the event that is still to come is as relevant as before. Two writers break
the rule: the selection of a candidate writes no event, and queueing a failed predecessor writes one
that names the predecessor only.
-/

namespace Herdr.Releases

open Waits (Seen Subject WaitRow WaitStore WaitTx World)

/-! ## Readiness -/

namespace Factory

variable {f f' : Factory} {t : TaskId}

/-- An edge counts: its predecessor has not failed and its receipt is valid. -/
def edgeCounts (f : Factory) (d : TaskDependency) : Bool :=
  (f.tasks.find d.predecessorId).any fun p =>
    p.state ≠ .failed && p.state ≠ .cancelled &&
      f.receiptCounts d.taskId d.predecessorId d.requirement

/-- `dependency_wait_ready` answers yes. -/
def Ready (f : Factory) (t : TaskId) : Prop := f.dependencyWaitReady t = .ok true

instance : Decidable (f.Ready t) := by unfold Ready; infer_instance

theorem mem_edges {d : TaskDependency} :
    d ∈ f.edges t ↔ d ∈ f.dependencies.rows ∧ d.taskId = t := by
  rw [edges, (List.perm_insertionSort _ _).mem_iff]
  simp

/-- A receipt that counts has a valid row. -/
theorem validRow_of_receiptCounts {predecessor : TaskId} {requirement : DependencyRequirement}
    (h : f.receiptCounts t predecessor requirement = true) :
    (f.satisfactions.validRow ⟨t, predecessor, requirement⟩).isSome = true := by
  cases requirement with
  | verifiedResult =>
    simp only [receiptCounts, verifiedCounts, Bool.and_eq_true] at h
    exact Option.isSome_of_any h.2
  | integratedCommit =>
    simp only [receiptCounts, integratedCounts, Bool.and_eq_true] at h
    exact Option.isSome_of_any h.2
  | integrationCandidate => cases h
  | landedCommit => cases h

theorem validSatisfactionId_isSome {p : Task} {requirement : DependencyRequirement} :
    (f.validSatisfactionId t p requirement).isSome = true ↔
      p.state ≠ .failed ∧ p.state ≠ .cancelled ∧ f.receiptCounts t p.id requirement = true := by
  unfold validSatisfactionId dependencyBlocker
  by_cases hstate : p.state = .failed ∨ p.state = .cancelled
  · rw [if_pos hstate]
    simp only [Option.isSome_some, if_true, Option.isSome_none]
    tauto
  · rw [if_neg hstate]
    cases hcounts : f.receiptCounts t p.id requirement with
    | false => simp
    | true =>
      have hrow := validRow_of_receiptCounts hcounts
      have hsome : (Option.map (fun row : Satisfaction => row.satisfactionId)
          (f.satisfactions.validRow ⟨t, p.id, requirement⟩)).isSome = true := by
        rwa [Option.isSome_map]
      simp only [Bool.true_eq_false, if_false, Option.isSome_none]
      tauto

/-- An edge counts when its predecessor is there and its satisfaction is. -/
theorem edgeCounts_iff {d : TaskDependency} : f.edgeCounts d = true ↔
    ∃ p, f.tasks.find d.predecessorId = some p ∧
      (f.validSatisfactionId d.taskId p d.requirement).isSome = true := by
  unfold edgeCounts
  cases hp : f.tasks.find d.predecessorId with
  | none => simp
  | some p =>
    have hid : p.id = d.predecessorId := Table.find_key hp
    have hvalid : (f.validSatisfactionId d.taskId p d.requirement).isSome = true ↔
        p.state ≠ .failed ∧ p.state ≠ .cancelled ∧
          f.receiptCounts d.taskId p.id d.requirement = true := validSatisfactionId_isSome
    rw [hid] at hvalid
    simp only [Option.any_some, Option.some.injEq, exists_eq_left', hvalid, Bool.and_eq_true,
      decide_eq_true_eq]
    tauto

theorem counts_of_satisfiedEdges {ds : List TaskDependency} {es : List SatisfiedEdge}
    (ht : ∀ d ∈ ds, d.taskId = t) (h : f.satisfiedEdges t ds = .ok (some es)) :
    es.length = ds.length ∧ ∀ d ∈ ds, f.edgeCounts d = true := by
  induction ds generalizing es with
  | nil =>
    cases h
    simp
  | cons d ds ih =>
    have hd : d.taskId = t := ht d (by simp)
    simp only [satisfiedEdges] at h
    split at h
    · cases h
    · next p hp =>
      split at h
      · cases h
      · next id hs =>
        cases hrest : f.satisfiedEdges t ds with
        | error e => simp [hrest, Except.map] at h
        | ok o =>
          cases o with
          | none => simp [hrest, Except.map] at h
          | some es' =>
            obtain ⟨hlen, hcounts⟩ := ih (fun d' hd' => ht d' (List.mem_cons_of_mem d hd')) hrest
            simp only [hrest, Except.map, Option.map_some, Except.ok.injEq, Option.some.injEq] at h
            subst h
            refine ⟨by simp [hlen], List.forall_mem_cons.mpr ⟨?_, hcounts⟩⟩
            exact edgeCounts_iff.mpr ⟨p, hp, by rw [hd, hs]; rfl⟩

theorem satisfiedEdges_of_counts {ds : List TaskDependency} (ht : ∀ d ∈ ds, d.taskId = t)
    (h : ∀ d ∈ ds, f.edgeCounts d = true) :
    ∃ es, f.satisfiedEdges t ds = .ok (some es) ∧ es.length = ds.length := by
  induction ds with
  | nil => exact ⟨[], rfl, rfl⟩
  | cons d ds ih =>
    obtain ⟨hd, hds⟩ := List.forall_mem_cons.mp h
    obtain ⟨es, hes, hlen⟩ := ih (fun d' hd' => ht d' (List.mem_cons_of_mem d hd')) hds
    obtain ⟨p, hp, hs⟩ := edgeCounts_iff.mp hd
    rw [ht d (by simp)] at hs
    obtain ⟨id, hid⟩ := Option.isSome_iff_exists.mp hs
    refine ⟨⟨p.id, p.revision, d.requirement, id⟩ :: es, ?_, by simp [hlen]⟩
    simp [satisfiedEdges, hp, hid, hes, Except.map]

/-- A task is ready when it has a contract that its queue entry matches, and edges that all
count. -/
theorem ready_iff : f.Ready t ↔ (∃ c ∈ f.contracts.rows, c.taskId = t) ∧
    f.queueMatches t = .ok true ∧ f.edges t ≠ [] ∧ (f.edges t).length ≤ 256 ∧
    ∀ d ∈ f.edges t, f.edgeCounts d = true := by
  have ht : ∀ d ∈ f.edges t, d.taskId = t := fun d hd => (mem_edges.mp hd).2
  unfold Ready dependencyWaitReady satisfiedEdgesOn
  by_cases hbound : ∃ c ∈ f.contracts.rows, c.taskId = t
  · rw [if_pos (by simpa using hbound)]
    cases hq : f.queueMatches t with
    | error e => simp [Except.map]
    | ok b =>
      cases b with
      | false => simp [Except.map]
      | true =>
        by_cases hlen : 256 < (f.edges t).length
        · have : ¬(f.edges t).length ≤ 256 := by omega
          simp [hlen, this, Except.map]
        · rw [if_neg hlen]
          constructor
          · intro h
            cases hs : f.satisfiedEdges t (f.edges t) with
            | error e => simp [hs, Except.map] at h
            | ok o =>
              cases o with
              | none => simp [hs, Except.map] at h
              | some es =>
                obtain ⟨hlen', hcounts⟩ := counts_of_satisfiedEdges ht hs
                have hne : es ≠ [] := by simpa [hs, Except.map] using h
                refine ⟨hbound, rfl, fun hnil => ?_, by omega, hcounts⟩
                rw [hnil] at hlen'
                exact hne (List.length_eq_zero_iff.mp hlen')
          · rintro ⟨-, -, hne, -, hcounts⟩
            obtain ⟨es, hes, hlen'⟩ := satisfiedEdges_of_counts ht hcounts
            have hes' : es ≠ [] := by
              rintro rfl
              exact hne (List.length_eq_zero_iff.mp hlen'.symm)
            simp [hes, Except.map, hes']
  · rw [if_neg (by simpa using hbound)]
    simp [hbound]

end Factory

/-! ## What a writer leaves alone -/

/-- What the foreign keys, the triggers and the writers themselves keep: evidence is stored, a run
has its contract, a result its run and submission, an arm's submissions are of the group's task, and
every receipt has its event. -/
structure Consistent (f : Factory) (events : List Waits.Event) : Prop where
  runContract : ∀ x r, f.runs.find x = some r →
    (f.contracts.find (r.taskId, r.contractRevision)).isSome = true
  resultRun : ∀ x v, f.results.find x = some v → ∃ r s, f.runs.find v.runId = some r ∧
    f.submissions.find v.submissionId = some s ∧ s.taskId = r.taskId
  resultEvent : ∀ x v, f.results.find x = some v →
    ∃ e ∈ events, e.body.kind = "verification.accepted" ∧ e.entity = v.runId
  operationResult : ∀ x o, f.operations.find x = some o →
    (f.results.find o.verifiedResultId).isSome = true
  commitOperation : ∀ x i, f.integrated.find x = some i →
    (f.operations.find i.operationId).isSome = true
  commitEvent : ∀ x i, f.integrated.find x = some i →
    ∃ e ∈ events, e.body.kind = "integration.wake" ∧ e.entity = x
  evidence : ∀ row ∈ f.satisfactions.rows, row.evidenceKind = row.edge.requirement ∧
    (row.edge.requirement = .verifiedResult ∧ (f.results.find row.evidenceId).isSome = true ∨
      row.edge.requirement = .integratedCommit ∧ (f.integrated.find row.evidenceId).isSome = true)
  arms : ∀ b ∈ f.arms, ∀ x s, f.submissions.find x = some s → s.attemptId = b.attemptId →
    ∃ g, f.groups.find b.groupId = some g ∧ g.taskId = s.taskId

theorem Consistent.grows {f : Factory} {events events' : List Waits.Event} (h : Consistent f events)
    (hgrows : Cursor.Grows Waits.Event.sequence events events') : Consistent f events' := by
  obtain ⟨more, rfl, -⟩ := hgrows
  refine { h with resultEvent := fun x v hv => ?_, commitEvent := fun x i hi => ?_ }
  · obtain ⟨e, he, hkind⟩ := h.resultEvent x v hv
    exact ⟨e, List.mem_append_left _ he, hkind⟩
  · obtain ⟨e, he, hkind⟩ := h.commitEvent x i hi
    exact ⟨e, List.mem_append_left _ he, hkind⟩

/-- Nothing that an old receipt is judged by got better, candidate selections apart. -/
structure Frame (f f' : Factory) : Prop where
  results : ∀ x v, f.results.find x = some v → f'.results.find x = some v
  runs : ∀ x r, f.runs.find x = some r → f'.runs.find x = some r
  policies : ∀ x r, f.runs.find x = some r → f'.policies.find x = f.policies.find x
  checks : ∀ x v, f.results.find x = some v → x ∈ f'.checks → x ∈ f.checks
  contracts : ∀ k c, f.contracts.find k = some c → f'.contracts.find k = some c
  revisions : ∀ task n, (f.contracts.find (task, n)).isSome = true →
    f'.latestRevision task = some n → f.latestRevision task = some n
  integrated : ∀ x i, f.integrated.find x = some i → f'.integrated.find x = some i
  outputChecks : ∀ x i, f.integrated.find x = some i → x ∈ f'.outputChecks → x ∈ f.outputChecks
  operations : f'.operations = f.operations
  submissions : f'.submissions = f.submissions
  arms : f'.arms = f.arms
  groups : f'.groups = f.groups
  seeded : f'.seeded = f.seeded
  members : f'.members = f.members
  barriers : f'.barriers = f.barriers
  invalidations : f'.invalidations = f.invalidations
  attempts : f'.attempts = f.attempts
  released : f'.released = f.released
  taskRows : ∀ task, (f'.tasks.find task).isSome = true → (f.tasks.find task).isSome = true
  active : ∀ task, (f'.tasks.find task).bind (·.activeAttempt) =
    (f.tasks.find task).bind (·.activeAttempt)

namespace Frame

variable {f f' : Factory} {events : List Waits.Event}

/-- Tables that are the same. -/
theorem policyMatches (h : Frame f f') {edge : Edge} (hlatest : f'.latest edge.task = f.latest edge.task)
    {x : String} {v : VerifiedResult} {r : VerificationRun} (hv : f.results.find x = some v)
    (hr : f.runs.find v.runId = some r) : f'.policyMatches edge x = f.policyMatches edge x := by
  have hid : r.runId = v.runId := Table.find_key hr
  unfold Factory.policyMatches
  rw [hlatest, hv, h.results x v hv]
  simp only [Option.any_some, hr, h.runs _ r hr, hid, h.policies _ r hr]

theorem barrierCurrent (h : Frame f f') (hc : Consistent f events) {x : String}
    {v : VerifiedResult} {r : VerificationRun} (hv : f.results.find x = some v)
    (hr : f.runs.find v.runId = some r) (hb : f'.barrierCurrent x = true) :
    f.barrierCurrent x = true := by
  obtain ⟨c, hcontract⟩ := Option.isSome_iff_exists.mp (hc.runContract _ r hr)
  have hrev := h.revisions r.taskId r.contractRevision (by rw [hcontract]; rfl)
  simp only [Factory.barrierCurrent, hv, h.results x v hv, hr, h.runs _ r hr, hcontract,
    h.contracts _ c hcontract, h.released, Option.any_some, Bool.and_eq_true, List.contains_iff_mem,
    Bool.or_eq_true, decide_eq_true_eq] at hb ⊢
  obtain ⟨⟨hcheck, hlatest⟩, hreleased⟩ := hb
  exact ⟨⟨h.checks x v hv hcheck, hlatest.imp id hrev⟩, hreleased⟩

theorem currentAttempt (h : Frame f f') (task : TaskId) :
    f'.ledger.currentAttempt task = f.ledger.currentAttempt task := by
  have hactive := h.active task
  unfold Ledger.currentAttempt
  simp only [Factory.ledger, h.attempts] at hactive ⊢
  rw [hactive]

theorem currentClause (h : Frame f f') {v : VerifiedResult} {r : VerificationRun}
    (hselected : f'.ledger.selected r.taskId r.contractRevision =
      f.ledger.selected r.taskId r.contractRevision) :
    f'.ledger.currentClause v r = f.ledger.currentClause v r := by
  unfold Ledger.currentClause Ledger.attemptCurrent
  rw [hselected, h.currentAttempt]

theorem predecessorRevoked (h : Frame f f') (predecessor : TaskId) :
    f'.ledger.predecessorRevoked predecessor = f.ledger.predecessorRevoked predecessor := by
  simp only [Ledger.predecessorRevoked, Ledger.releasedAfter, Factory.ledger, h.members, h.barriers]

/-- A result that counts afterwards counted before, when its predecessor's selections did not
change. -/
theorem verifiedCounts (h : Frame f f') (hc : Consistent f events) {task predecessor : TaskId}
    (hlatest : f'.latest task = f.latest task)
    (hrow : f'.satisfactions.validRow ⟨task, predecessor, .verifiedResult⟩ =
      f.satisfactions.validRow ⟨task, predecessor, .verifiedResult⟩)
    (hclause : ∀ v r, r.taskId = predecessor → f'.ledger.currentClause v r = true →
      f.ledger.currentClause v r = true)
    (hheld : ∀ x v r, f.results.find x = some v → f.runs.find v.runId = some r →
      r.taskId = predecessor → f.heldResult x = true → f'.heldResult x = true)
    (hcounts : f'.verifiedCounts task predecessor = true) :
    f.verifiedCounts task predecessor = true := by
  unfold Factory.verifiedCounts at hcounts ⊢
  rw [hrow, h.predecessorRevoked] at hcounts
  rw [Bool.and_eq_true] at hcounts ⊢
  refine ⟨hcounts.1, ?_⟩
  have hcounts := hcounts.2
  cases hvalid : f.satisfactions.validRow ⟨task, predecessor, .verifiedResult⟩ with
  | none => simp [hvalid] at hcounts
  | some row =>
    have hmem : row ∈ f.satisfactions.rows := List.mem_of_find?_eq_some hvalid
    have hedge : row.edge = ⟨task, predecessor, .verifiedResult⟩ := by
      have := List.find?_some hvalid
      simp only [Satisfaction.validFor, decide_eq_true_eq] at this
      exact this.1
    have hstored : (f.results.find row.evidenceId).isSome = true := by
      obtain ⟨-, ⟨-, hsome⟩ | ⟨hreq, -⟩⟩ := hc.evidence row hmem
      · exact hsome
      · rw [hedge] at hreq
        cases hreq
    obtain ⟨v, hv⟩ := Option.isSome_iff_exists.mp hstored
    obtain ⟨r, s, hr, -⟩ := hc.resultRun _ v hv
    have hcontract := hc.runContract _ r hr
    simp only [hvalid, Option.any_some, hv, h.results _ v hv, hr, h.runs _ r hr, Bool.and_eq_true,
      Bool.not_eq_true', decide_eq_true_eq] at hcounts ⊢
    obtain ⟨⟨⟨⟨hseed, hnotHeld⟩, hpolicy⟩, hbarrier⟩, ⟨⟨⟨⟨⟨⟨htask, hattempt⟩, htaskRow⟩, haccepted⟩,
      hfence⟩, hcurrent⟩, hrevision⟩, hinvalid⟩ := hcounts
    refine ⟨⟨⟨⟨?_, ?_⟩, ?_⟩, h.barrierCurrent hc hv hr hbarrier⟩, ⟨⟨⟨⟨⟨⟨htask, ?_⟩,
      h.taskRows _ htaskRow⟩, haccepted⟩, hfence⟩, hclause v r htask hcurrent⟩,
      h.revisions _ _ hcontract hrevision⟩, ?_⟩
    · simpa only [Factory.seededResult, hv, h.results _ v hv, h.seeded] using hseed
    · by_contra hh
      have hh := hheld _ v r hv hr htask (by simpa using hh)
      rw [hh] at hnotHeld
      cases hnotHeld
    · rwa [h.policyMatches hlatest hv hr] at hpolicy
    · simpa only [h.attempts] using hattempt
    · simpa only [Factory.invalidated, h.invalidations] using hinvalid

theorem integratedCounts (h : Frame f f') (hc : Consistent f events) {task predecessor : TaskId}
    (hlatest : f'.latest task = f.latest task)
    (hrow : f'.satisfactions.validRow ⟨task, predecessor, .integratedCommit⟩ =
      f.satisfactions.validRow ⟨task, predecessor, .integratedCommit⟩)
    (hcounts : f'.integratedCounts task predecessor = true) :
    f.integratedCounts task predecessor = true := by
  unfold Factory.integratedCounts at hcounts ⊢
  rw [hrow, h.predecessorRevoked] at hcounts
  rw [Bool.and_eq_true] at hcounts ⊢
  refine ⟨hcounts.1, ?_⟩
  have hcounts := hcounts.2
  cases hvalid : f.satisfactions.validRow ⟨task, predecessor, .integratedCommit⟩ with
  | none => simp [hvalid] at hcounts
  | some row =>
    have hmem : row ∈ f.satisfactions.rows := List.mem_of_find?_eq_some hvalid
    have hedge : row.edge = ⟨task, predecessor, .integratedCommit⟩ := by
      have := List.find?_some hvalid
      simp only [Satisfaction.validFor, decide_eq_true_eq] at this
      exact this.1
    have hstored : (f.integrated.find row.evidenceId).isSome = true := by
      obtain ⟨-, ⟨hreq, -⟩ | ⟨-, hsome⟩⟩ := hc.evidence row hmem
      · rw [hedge] at hreq
        cases hreq
      · exact hsome
    obtain ⟨i, hi⟩ := Option.isSome_iff_exists.mp hstored
    obtain ⟨o, ho⟩ := Option.isSome_iff_exists.mp (hc.commitOperation _ i hi)
    obtain ⟨v, hv⟩ := Option.isSome_iff_exists.mp (hc.operationResult _ o ho)
    obtain ⟨r, s, hr, -⟩ := hc.resultRun _ v hv
    obtain ⟨c, hcontract⟩ := Option.isSome_iff_exists.mp (hc.runContract _ r hr)
    simp only [hvalid, Option.any_some, hi, h.integrated _ i hi, ho, h.operations, hv,
      h.results _ v hv, hr, h.runs _ r hr, Bool.and_eq_true] at hcounts ⊢
    obtain ⟨⟨⟨houtput, hpolicy⟩, hbarrier⟩, ⟨htask, haccepted⟩, hinvalid⟩ := hcounts
    refine ⟨⟨⟨?_, ?_⟩, h.barrierCurrent hc hv hr hbarrier⟩, ⟨htask, haccepted⟩, ?_⟩
    · simp only [Factory.outputChecksCurrent, hi, h.integrated _ i hi, ho, h.operations, hv,
        h.results _ v hv, hr, h.runs _ r hr, hcontract, h.contracts _ c hcontract, Option.any_some,
        Bool.or_eq_true, List.contains_iff_mem] at houtput ⊢
      exact houtput.imp id (h.outputChecks _ i hi)
    · rwa [h.policyMatches hlatest hv hr] at hpolicy
    · simpa only [Factory.invalidated, h.invalidations] using hinvalid

end Frame

/-! ## The evidence table -/

/-- Rows that the same filter keeps hold the same valid row of an edge it keeps. -/
theorem validRow_of_filter {s s' : Satisfactions} {q : Satisfaction → Bool} {edge : Edge}
    (h : s'.rows.filter q = s.rows.filter q)
    (hq : ∀ row : Satisfaction, row.edge = edge → q row = true) :
    s'.validRow edge = s.validRow edge := by
  have hfind (u : Satisfactions) : u.validRow edge = (u.rows.filter q).find? (·.validFor edge) := by
    rw [List.find?_filter, Satisfactions.validRow]
    congr 1
    funext row
    by_cases hedge : row.edge = edge
    · simp [Satisfaction.validFor, hedge, hq row hedge]
    · simp [Satisfaction.validFor, hedge]
  rw [hfind, hfind, h]

/-- The evidence of a task did not change. -/
def SameRows (t : TaskId) (s s' : Satisfactions) : Prop :=
  s'.rows.filter (fun row => row.edge.task = t) = s.rows.filter fun row => row.edge.task = t

namespace SameRows

variable {t : TaskId} {s s' s'' : Satisfactions}

theorem refl (t : TaskId) (s : Satisfactions) : SameRows t s s := rfl

theorem trans (h : SameRows t s s') (h' : SameRows t s' s'') : SameRows t s s'' := Eq.trans h' h

theorem mem_iff (h : SameRows t s s') {row : Satisfaction} (ht : row.edge.task = t) :
    row ∈ s'.rows ↔ row ∈ s.rows := by
  have hmem : row ∈ s'.rows.filter (fun row => row.edge.task = t) ↔
      row ∈ s.rows.filter fun row => row.edge.task = t := by
    rw [show s'.rows.filter _ = s.rows.filter _ from h]
  simpa [ht] using hmem

theorem validRow (h : SameRows t s s') {edge : Edge} (ht : edge.task = t) :
    s'.validRow edge = s.validRow edge :=
  validRow_of_filter h fun row hedge => by simp [hedge, ht]

end SameRows

/-- Evidence moved, on the edges and to the evidence that `P` allows. -/
structure Attaches (P : Edge → String → Prop) (s s' : Satisfactions) : Prop where
  own : ∀ t, SameRows t s s' ∨ ∃ row ∈ s'.rows, row.edge.task = t ∧ row.state = .valid ∧
    row.evidenceKind = row.edge.requirement ∧ P row.edge row.evidenceId
  rows : ∀ row ∈ s'.rows, (∃ old ∈ s.rows, row.edge = old.edge ∧
      row.evidenceKind = old.evidenceKind ∧ row.evidenceId = old.evidenceId) ∨
    row.evidenceKind = row.edge.requirement ∧ P row.edge row.evidenceId
  others : ∀ edge, (∀ x, ¬P edge x) → s'.validRow edge = s.validRow edge

namespace Attaches

variable {P : Edge → String → Prop} {s s' s'' : Satisfactions} {t : TaskId}

theorem refl (s : Satisfactions) : Attaches P s s :=
  ⟨fun _ => .inl rfl, fun row hrow => .inl ⟨row, hrow, rfl, rfl, rfl⟩, fun _ _ => rfl⟩

theorem trans (h : Attaches P s s') (h' : Attaches P s' s'') : Attaches P s s'' := by
  constructor
  · intro t
    rcases h'.own t with hsame' | hnew'
    · rcases h.own t with hsame | ⟨row, hrow, ht, hvalid⟩
      · exact .inl (hsame.trans hsame')
      · exact .inr ⟨row, (hsame'.mem_iff ht).mpr hrow, ht, hvalid⟩
    · exact .inr hnew'
  · intro row hrow
    rcases h'.rows row hrow with ⟨mid, hmid, he, hk, hi⟩ | hnew
    · rcases h.rows mid hmid with ⟨old, hold, he', hk', hi'⟩ | ⟨hkind, hP⟩
      · exact .inl ⟨old, hold, he.trans he', hk.trans hk', hi.trans hi'⟩
      · refine .inr ⟨?_, ?_⟩
        · rw [hk, hkind, he]
        · rwa [he, hi]
    · exact .inr hnew
  · exact fun edge hP => (h'.others edge hP).trans (h.others edge hP)

theorem mono {Q : Edge → String → Prop} (h : Attaches P s s') (hPQ : ∀ e x, P e x → Q e x) :
    Attaches Q s s' where
  own t := (h.own t).imp id fun ⟨row, hrow, ht, hvalid, hkind, hP⟩ =>
    ⟨row, hrow, ht, hvalid, hkind, hPQ _ _ hP⟩
  rows row hrow := (h.rows row hrow).imp id fun ⟨hkind, hP⟩ => ⟨hkind, hPQ _ _ hP⟩
  others edge hother := h.others edge fun x hx => hother x (hPQ _ _ hx)

/-- The rows of a task that no request is for stay. -/
theorem same (h : Attaches P s s') (hP : ∀ e x, P e x → e.task ≠ t) : SameRows t s s' := by
  rcases h.own t with hsame | ⟨row, -, ht, -, -, hrow⟩
  · exact hsame
  · exact absurd ht (hP _ _ hrow)

end Attaches

theorem validRow_spec {s : Satisfactions} {edge : Edge} {row : Satisfaction}
    (h : s.validRow edge = some row) : row ∈ s.rows ∧ row.edge = edge ∧ row.state = .valid := by
  have hvalid := List.find?_some h
  simp only [Satisfaction.validFor, decide_eq_true_eq] at hvalid
  exact ⟨List.mem_of_find?_eq_some h, hvalid⟩

/-- The table with the valid row of an edge retired. -/
def retired (s : Satisfactions) (edge : Edge) : Satisfactions :=
  (s.validRow edge).elim s fun old => s.update { old with state := .invalid }

/-- Retiring changes the state of a row only. -/
theorem mem_retired {s : Satisfactions} {edge : Edge} {row : Satisfaction}
    (h : row ∈ (retired s edge).rows) : ∃ old ∈ s.rows, row.edge = old.edge ∧
      row.evidenceKind = old.evidenceKind ∧ row.evidenceId = old.evidenceId := by
  unfold retired at h
  cases hold : s.validRow edge with
  | none =>
    rw [hold] at h
    exact ⟨row, h, rfl, rfl, rfl⟩
  | some old =>
    rw [hold] at h
    rcases Table.mem_update h with rfl | ⟨h, -⟩
    · exact ⟨old, (validRow_spec hold).1, rfl, rfl, rfl⟩
    · exact ⟨row, h, rfl, rfl, rfl⟩

theorem filter_retired {s : Satisfactions} {edge : Edge} {q : Satisfaction → Bool}
    (hq : ∀ row : Satisfaction, row.edge = edge → q row = false) :
    (retired s edge).rows.filter q = s.rows.filter q := by
  unfold retired
  cases hold : s.validRow edge with
  | none => rfl
  | some old =>
    obtain ⟨hmem, hedge, -⟩ := validRow_spec hold
    have hfind : s.find old.satisfactionId = some old := Table.find_of_mem hmem
    have hretire : Satisfaction.satisfactionId { old with state := .invalid } = old.satisfactionId :=
      rfl
    exact Table.filter_update _ (hretire ▸ hfind) (hq old hedge) (hq _ hedge)

/-- A new valid row after the old one was retired. -/
theorem insertRow_attaches {row : Satisfaction} {P : Edge → String → Prop} {s s' : Satisfactions}
    (hinsert : Satisfactions.insertRow row (retired s row.edge) = some s')
    (hstate : row.state = .valid) (hkind : row.evidenceKind = row.edge.requirement)
    (hP : P row.edge row.evidenceId) : Attaches P s s' := by
  unfold Satisfactions.insertRow at hinsert
  split at hinsert
  · cases hinsert
  · obtain ⟨-, hrows⟩ := Table.insert?_eq_some hinsert
    have hfilter (q : Satisfaction → Bool) (hq : ∀ r : Satisfaction, r.edge = row.edge → q r = false) :
        s'.rows.filter q = s.rows.filter q := by
      rw [hrows, List.filter_append, filter_retired hq]
      simp [hq row rfl]
    refine ⟨fun t => ?_, fun r hr => ?_, fun edge hother => ?_⟩
    · by_cases ht : row.edge.task = t
      · exact .inr ⟨row, by simp [hrows], ht, hstate, hkind, hP⟩
      · exact .inl (hfilter _ fun r hr => by simp [hr, ht])
    · rw [hrows] at hr
      rcases List.mem_append.mp hr with hr | hr
      · exact .inl (mem_retired hr)
      · rw [List.mem_singleton.mp hr]
        exact .inr ⟨hkind, hP⟩
    · have hne : row.edge ≠ edge := by
        rintro rfl
        exact hother _ hP
      refine validRow_of_filter (q := fun r => r.edge = edge) (hfilter _ fun r hr => ?_)
        fun r hr => by simp [hr]
      simp [hr, hne]

section Calls

variable [Digests]

/-- One edge. -/
theorem insertValid_attaches {l : Ledger} {now : Int} {edge : Edge} {evidence : String}
    {replace : Bool} {P : Edge → String → Prop} {s s' : Satisfactions} {u : Unit}
    (h : insertValid l now edge evidence replace s = .ok (u, s')) (hP : P edge evidence) :
    Attaches P s s' := by
  unfold insertValid at h
  split at h
  · obtain ⟨-, rfl⟩ := Tx.pure_ok.mp h
    exact .refl s
  · obtain ⟨result, _, hresult, h⟩ := Tx.bind_ok.mp h
    obtain ⟨-, rfl⟩ := Tx.find_ok.mp hresult
    split at h
    · obtain ⟨-, rfl⟩ := Tx.pure_ok.mp h
      exact .refl s
    · simp only [Tx.bind_ok, Tx.require_ok, Tx.ask_ok] at h
      obtain ⟨_, _, ⟨-, rfl⟩, existing, _, ⟨rfl, rfl⟩, h⟩ := h
      split at h
      · obtain ⟨-, rfl⟩ := Tx.pure_ok.mp h
        exact .refl s
      · simp only [replaceValid, Tx.bind_ok, Tx.ask_ok, Tx.write_ok, Tx.insert_ok] at h
        obtain ⟨_, _, ⟨rfl, rfl⟩, _, _, rfl, hinsert⟩ := h
        exact insertRow_attaches hinsert rfl rfl hP

variable {l : Ledger} {now : Int} {s s' : Satisfactions} {u : Unit}

theorem recordVerifiedResult_attaches {result : String}
    (h : recordVerifiedResult l now result s = .ok (u, s')) :
    Attaches (fun e x => e.requirement = .verifiedResult ∧ x = result) s s' := by
  obtain ⟨predecessor, _, hfind, h⟩ := Tx.bind_ok.mp h
  obtain ⟨-, rfl⟩ := Tx.find_ok.mp hfind
  exact Tx.forEach_preserves Attaches.refl Attaches.trans
    (fun _ _ _ _ _ h => insertValid_attaches h ⟨rfl, rfl⟩) h

theorem recordIntegratedCommit_attaches {integrated : String}
    (h : recordIntegratedCommit l now integrated s = .ok (u, s')) :
    Attaches (fun e x => e.requirement = .integratedCommit ∧ x = integrated) s s' := by
  obtain ⟨predecessor, _, hfind, h⟩ := Tx.bind_ok.mp h
  obtain ⟨-, rfl⟩ := Tx.find_ok.mp hfind
  exact Tx.forEach_preserves Attaches.refl Attaches.trans
    (fun _ _ _ _ _ h => insertValid_attaches h ⟨rfl, rfl⟩) h

theorem attachStoredReceipts_attaches {task : TaskId}
    (h : attachStoredReceipts l now task s = .ok (u, s')) :
    Attaches (fun e x => e.task = task ∧ l.storedEvidence e = some x) s s' := by
  obtain ⟨_, _, hlimit, h⟩ := Tx.bind_ok.mp h
  obtain ⟨-, rfl⟩ := Tx.require_ok.mp hlimit
  refine Tx.forEach_preserves Attaches.refl Attaches.trans (fun d _ s s' u h => ?_) h
  cases hevidence : l.storedEvidence ⟨task, d.predecessorId, d.requirement⟩ with
  | some evidence =>
    simp only [hevidence] at h
    exact insertValid_attaches h ⟨rfl, hevidence⟩
  | none =>
    simp only [hevidence] at h
    obtain ⟨-, rfl⟩ := Tx.pure_ok.mp h
    exact .refl s

theorem attachSelected_attaches {predecessor : TaskId}
    (h : attachSelected l now predecessor s = .ok (u, s')) :
    Attaches (fun e x => e.requirement = .verifiedResult ∧ e.predecessor = predecessor ∧
      e.task ∈ l.consumers predecessor .verifiedResult ∧
      l.currentVerified e.task predecessor = some x) s s' := by
  unfold attachSelected at h
  split at h
  · obtain ⟨-, rfl⟩ := Tx.pure_ok.mp h
    exact .refl s
  · refine Tx.forEach_preserves Attaches.refl Attaches.trans (fun task htask s s' u h => ?_) h
    cases hresult : l.currentVerified task predecessor with
    | some result =>
      simp only [hresult] at h
      exact insertValid_attaches h ⟨rfl, rfl, htask, hresult⟩
    | none =>
      simp only [hresult] at h
      obtain ⟨-, rfl⟩ := Tx.pure_ok.mp h
      exact .refl s

omit [Digests] in
theorem attach_ok {body : Ledger → Evidence Unit} {db db' : WaitStore Factory}
    (h : attach body db = .ok (u, db')) : ∃ s,
      body db.world.ledger db.world.satisfactions = .ok (u, s) ∧
      { db with world := { db.world with satisfactions := s } } = db' := by
  obtain ⟨ledger, _, hask, h⟩ := Tx.bind_ok.mp h
  obtain ⟨rfl, rfl⟩ := Tx.ask_ok.mp hask
  exact Tx.within_ok.mp h

end Calls

/-! ## Events that wake -/

/-- The event names the task, or the receipt of valid evidence of it. -/
def Matches (f : Factory) (t : TaskId) (seen : Seen) : Prop :=
  (seen.kind = "contract.installed" ∨ seen.kind = "scheduler.task_queued") ∧
      seen.entity = t.val ∨
    seen.kind = "verification.accepted" ∧ f.evidenceOfRun t seen.entity = true ∨
    seen.kind = "integration.wake" ∧ f.evidenceOfCommit t seen.entity = true ∧
      (f.integrated.find seen.entity).isSome = true

/-- The subject of a wait for the dependencies of a task. -/
def dependencySubject (t : TaskId) : Subject := ⟨t, none, .dependencyEvidence, none⟩

section Relevance

variable {f f' : Factory} {t : TaskId} {seen : Seen} {events : List Waits.Event}

theorem Matches.relevant (h : Matches f t seen) (hready : f.Ready t) :
    f.relevantWaitEvent events (dependencySubject t) seen = .ok true := by
  have hready : f.dependencyWaitReady t = .ok true := hready
  have hattempt : f.attemptOk (dependencySubject t) = true := rfl
  unfold Factory.relevantWaitEvent
  change (if seen.kind = "contract.installed" ∨ seen.kind = "scheduler.task_queued" then
      if seen.entity = t.val then f.dependencyWaitReady t else .ok false
    else if (seen.kind = "verification.accepted" ∧ f.evidenceOfRun t seen.entity = true ∨
        seen.kind = "integration.wake" ∧ f.evidenceOfCommit t seen.entity = true ∧
          (f.integrated.find seen.entity).isSome) ∧ f.attemptOk (dependencySubject t) = true then
      f.dependencyWaitReady t
    else .ok false) = .ok true
  obtain ⟨hkind, hentity⟩ | ⟨hkind, hrun⟩ | ⟨hkind, hcommit⟩ := h
  · rw [if_pos hkind, if_pos hentity, hready]
  · rw [if_neg (by simp [hkind]), if_pos ⟨.inl ⟨hkind, hrun⟩, hattempt⟩, hready]
  · rw [if_neg (by simp [hkind]), if_pos ⟨.inr ⟨hkind, hcommit⟩, hattempt⟩, hready]

/-- The acceptance of a verification matches the tasks that hold its result. -/
theorem Matches.accepted {row : Satisfaction} {v : VerifiedResult}
    (hrow : row ∈ f.satisfactions.rows) (ht : row.edge.task = t) (hvalid : row.state = .valid)
    (hkind : row.evidenceKind = .verifiedResult) (hv : f.results.find row.evidenceId = some v)
    (hseen : seen.kind = "verification.accepted") (hentity : seen.entity = v.runId) :
    Matches f t seen := by
  refine .inr (.inl ⟨hseen, ?_⟩)
  simp only [Factory.evidenceOfRun, List.any_eq_true, Bool.and_eq_true, decide_eq_true_eq]
  refine ⟨row, hrow, ⟨⟨ht, hvalid⟩, hkind⟩, ?_⟩
  rw [hv, hentity]
  simp

/-- The event of a commit matches the tasks that hold the commit. -/
theorem Matches.committed {row : Satisfaction} (hrow : row ∈ f.satisfactions.rows)
    (ht : row.edge.task = t) (hvalid : row.state = .valid)
    (hkind : row.evidenceKind = .integratedCommit)
    (hstored : (f.integrated.find row.evidenceId).isSome = true)
    (hseen : seen.kind = "integration.wake") (hentity : seen.entity = row.evidenceId) :
    Matches f t seen := by
  refine .inr (.inr ⟨hseen, ?_, by rwa [hentity]⟩)
  simp only [Factory.evidenceOfCommit, List.any_eq_true, Bool.and_eq_true, decide_eq_true_eq]
  exact ⟨row, hrow, ⟨⟨ht, hvalid⟩, hkind⟩, hentity.symm⟩

/-- Rows that stay keep an event as relevant as it was. -/
theorem Matches.same (h : Matches f t seen) (hframe : Frame f f')
    (hrows : SameRows t f.satisfactions f'.satisfactions) : Matches f' t seen := by
  obtain hnamed | ⟨hkind, hrun⟩ | ⟨hkind, hcommit, hstored⟩ := h
  · exact .inl hnamed
  · refine .inr (.inl ⟨hkind, ?_⟩)
    simp only [Factory.evidenceOfRun, List.any_eq_true, Bool.and_eq_true, decide_eq_true_eq] at hrun ⊢
    obtain ⟨row, hrow, ⟨⟨htask, hvalid⟩, hevidence⟩, hresult⟩ := hrun
    refine ⟨row, (hrows.mem_iff htask).mpr hrow, ⟨⟨htask, hvalid⟩, hevidence⟩, ?_⟩
    cases hv : f.results.find row.evidenceId with
    | none => simp [hv] at hresult
    | some v =>
      rw [hv] at hresult
      rwa [hframe.results _ v hv]
  · refine .inr (.inr ⟨hkind, ?_, ?_⟩)
    · simp only [Factory.evidenceOfCommit, List.any_eq_true, Bool.and_eq_true,
        decide_eq_true_eq] at hcommit ⊢
      obtain ⟨row, hrow, ⟨⟨htask, hvalid⟩, hevidence⟩, hid⟩ := hcommit
      exact ⟨row, (hrows.mem_iff htask).mpr hrow, ⟨⟨htask, hvalid⟩, hevidence⟩, hid⟩
    · obtain ⟨i, hi⟩ := Option.isSome_iff_exists.mp hstored
      rw [hframe.integrated _ i hi]
      rfl

/-- A receipt that counts afterwards counted before. -/
theorem Frame.receiptCounts (h : Frame f f') (hc : Consistent f events)
    (hlatest : f'.latest t = f.latest t) {p : TaskId} {requirement : DependencyRequirement}
    (hrow : f'.satisfactions.validRow ⟨t, p, requirement⟩ =
      f.satisfactions.validRow ⟨t, p, requirement⟩)
    (hclause : requirement = .verifiedResult → ∀ v r, r.taskId = p →
      f'.ledger.currentClause v r = true → f.ledger.currentClause v r = true)
    (hheld : requirement = .verifiedResult → ∀ x v r, f.results.find x = some v →
      f.runs.find v.runId = some r → r.taskId = p → f.heldResult x = true →
      f'.heldResult x = true)
    (hcounts : f'.receiptCounts t p requirement = true) : f.receiptCounts t p requirement = true := by
  cases requirement with
  | verifiedResult =>
    exact h.verifiedCounts hc hlatest hrow (hclause rfl) (hheld rfl) hcounts
  | integratedCommit => exact h.integratedCounts hc hlatest hrow hcounts
  | integrationCandidate => cases hcounts
  | landedCommit => cases hcounts

/-- An edge that counts afterwards counted before. -/
theorem Frame.edgeCounts {d : TaskDependency}
    (hstate : ∀ p', f'.tasks.find d.predecessorId = some p' → p'.state ≠ .failed →
      p'.state ≠ .cancelled → ∃ p, f.tasks.find d.predecessorId = some p ∧ p.state ≠ .failed ∧
        p.state ≠ .cancelled)
    (hreceipt : f'.receiptCounts d.taskId d.predecessorId d.requirement = true →
      f.receiptCounts d.taskId d.predecessorId d.requirement = true)
    (hcounts : f'.edgeCounts d = true) : f.edgeCounts d = true := by
  unfold Factory.edgeCounts at hcounts ⊢
  cases hp' : f'.tasks.find d.predecessorId with
  | none => simp [hp'] at hcounts
  | some p' =>
    simp only [hp', Option.any_some, Bool.and_eq_true, decide_eq_true_eq] at hcounts
    obtain ⟨⟨hfailed, hcancelled⟩, hcounts⟩ := hcounts
    obtain ⟨p, hp, hpf, hpc⟩ := hstate p' hp' hfailed hcancelled
    simp only [hp, Option.any_some, Bool.and_eq_true, decide_eq_true_eq]
    exact ⟨⟨hpf, hpc⟩, hreceipt hcounts⟩

/-- A task that is ready afterwards was ready before. -/
theorem Frame.ready (hlatest : f'.latest t = f.latest t)
    (hbound : (∃ c ∈ f'.contracts.rows, c.taskId = t) → ∃ c ∈ f.contracts.rows, c.taskId = t)
    (hedges : f'.edges t = f.edges t)
    (hcounts : ∀ d ∈ f.edges t, f'.edgeCounts d = true → f.edgeCounts d = true)
    (hready : f'.Ready t) : f.Ready t := by
  obtain ⟨hb, hq, hne, hlen, hall⟩ := Factory.ready_iff.mp hready
  rw [hedges] at hne hlen hall
  refine Factory.ready_iff.mpr ⟨hbound hb, ?_, hne, hlen, fun d hd => hcounts d hd (hall d hd)⟩
  simpa only [Factory.queueMatches, hlatest, hedges] using hq

end Relevance

/-! ## Writers -/

/-- What a writer did, as the wait of one task sees it. -/
structure Wrote (safe : Prop) (db db' : WaitStore Factory) (t : TaskId) : Prop where
  waits : db'.waits = db.waits
  triggers : db'.triggers = db.triggers
  quiet : Waits.Quiet db.events db'.events
  consistent : Consistent db'.world db'.events
  /-- The task became ready with an event that names it, or it was ready and what was relevant
  still is. -/
  wakes : safe → db'.world.Ready t →
    (∃ e ∈ db'.events, db.head < e.sequence ∧ Matches db'.world t e.seen) ∨
    db.world.Ready t ∧ ∀ seen, Matches db.world t seen → Matches db'.world t seen

theorem Wrote.refl {safe : Prop} {db : WaitStore Factory} {t : TaskId}
    (hc : Consistent db.world db.events) : Wrote safe db db t :=
  ⟨rfl, rfl, .refl _, hc, fun _ h => .inr ⟨h, fun _ h => h⟩⟩

theorem Quiet.mem {events events' : List Waits.Event} (h : Waits.Quiet events events')
    {e : Waits.Event} (he : e ∈ events) : e ∈ events' := by
  obtain ⟨more, rfl, -⟩ := h.grows
  exact List.mem_append_left _ he

namespace Factory

/-- Every edge of a task to another predecessor counts. -/
def othersCount (f : Factory) (t p : TaskId) : Bool :=
  (f.edges t).all fun d => d.predecessorId = p || f.edgeCounts d

/-- The predecessor has failed, and the task waits for nothing else. -/
def waitsForFailed (f : Factory) (t p : TaskId) : Bool :=
  (f.tasks.find p).any (·.state = .failed) && (f.edges t).any (·.predecessorId = p) &&
    (f.edges t).all (fun d => d.predecessorId ≠ p || f.receiptCounts t p d.requirement) &&
    f.othersCount t p

/-- The task waits for a verified result of the predecessor, which has one, and for nothing
else. -/
def waitsForVerified (f : Factory) (t p : TaskId) : Bool :=
  (f.edges t).any (fun d => d.predecessorId = p && d.requirement = .verifiedResult) &&
    f.results.rows.any (fun v => (f.runs.find v.runId).any (·.taskId = p)) && f.othersCount t p

end Factory

section Writers

variable [Digests] {safe : Prop} {db db' : WaitStore Factory} {t : TaskId} {u : Unit}

omit [Digests] in
theorem logOther_ok {entity kind : String} {revision : Nat}
    (h : logOther entity revision kind db = .ok (u, db')) :
    { db with events := db.events ++ [⟨db.head + 1, entity, revision, .other kind ""⟩] } = db' :=
  Tx.write_ok.mp h

omit [Digests] in
theorem insert_ok {g : Factory → Option Factory} (h : insert g db = .ok (u, db')) :
    ∃ f, g db.world = some f ∧ { db with world := f } = db' := by
  simp only [insert, Tx.insert_ok, Option.map_eq_some_iff] at h
  exact h

omit [Digests] in
/-- What a writer adds is stored with what it refers to. -/
theorem Consistent.extend {f f' : Factory} {events events' : List Waits.Event}
    (h : Consistent f events) (hframe : Frame f f') (hevents : ∀ e ∈ events, e ∈ events')
    (hrun : ∀ x r, f'.runs.find x = some r → f.runs.find x = some r ∨
      (f'.contracts.find (r.taskId, r.contractRevision)).isSome = true)
    (hresult : ∀ x v, f'.results.find x = some v → f.results.find x = some v ∨
      (∃ r s, f'.runs.find v.runId = some r ∧ f'.submissions.find v.submissionId = some s ∧
        s.taskId = r.taskId) ∧
      ∃ e ∈ events', e.body.kind = "verification.accepted" ∧ e.entity = v.runId)
    (hcommit : ∀ x i, f'.integrated.find x = some i → f.integrated.find x = some i ∨
      (f'.operations.find i.operationId).isSome = true ∧
      ∃ e ∈ events', e.body.kind = "integration.wake" ∧ e.entity = x)
    (hrows : ∀ row ∈ f'.satisfactions.rows, (∃ old ∈ f.satisfactions.rows, row.edge = old.edge ∧
        row.evidenceKind = old.evidenceKind ∧ row.evidenceId = old.evidenceId) ∨
      row.evidenceKind = row.edge.requirement ∧
        (row.edge.requirement = .verifiedResult ∧
          (f'.results.find row.evidenceId).isSome = true ∨
        row.edge.requirement = .integratedCommit ∧
          (f'.integrated.find row.evidenceId).isSome = true)) :
    Consistent f' events' where
  runContract x r hr := by
    rcases hrun x r hr with hr | hr
    · obtain ⟨c, hc⟩ := Option.isSome_iff_exists.mp (h.runContract x r hr)
      rw [hframe.contracts _ c hc]
      rfl
    · exact hr
  resultRun x v hv := by
    rcases hresult x v hv with hv | ⟨hv, -⟩
    · obtain ⟨r, s, hr, hs, ht⟩ := h.resultRun x v hv
      exact ⟨r, s, hframe.runs _ r hr, hframe.submissions ▸ hs, ht⟩
    · exact hv
  resultEvent x v hv := by
    rcases hresult x v hv with hv | ⟨-, hv⟩
    · obtain ⟨e, he, hkind⟩ := h.resultEvent x v hv
      exact ⟨e, hevents e he, hkind⟩
    · exact hv
  operationResult x o ho := by
    rw [hframe.operations] at ho
    obtain ⟨v, hv⟩ := Option.isSome_iff_exists.mp (h.operationResult x o ho)
    rw [hframe.results _ v hv]
    rfl
  commitOperation x i hi := by
    rcases hcommit x i hi with hi | ⟨hi, -⟩
    · rw [hframe.operations]
      exact h.commitOperation x i hi
    · exact hi
  commitEvent x i hi := by
    rcases hcommit x i hi with hi | ⟨-, hi⟩
    · obtain ⟨e, he, hkind⟩ := h.commitEvent x i hi
      exact ⟨e, hevents e he, hkind⟩
    · exact hi
  evidence row hrow := by
    rcases hrows row hrow with ⟨old, hold, hedge, hkind, hid⟩ | hnew
    · rw [hedge, hkind, hid]
      obtain ⟨hreq, ⟨hverified, hsome⟩ | ⟨hcommitted, hsome⟩⟩ := h.evidence old hold
      · obtain ⟨v, hv⟩ := Option.isSome_iff_exists.mp hsome
        exact ⟨hreq, .inl ⟨hverified, by rw [hframe.results _ v hv]; rfl⟩⟩
      · obtain ⟨i, hi⟩ := Option.isSome_iff_exists.mp hsome
        exact ⟨hreq, .inr ⟨hcommitted, by rw [hframe.integrated _ i hi]; rfl⟩⟩
    · exact hnew
  arms b hb x s hs := by
    rw [hframe.arms] at hb
    rw [hframe.submissions] at hs
    rw [hframe.groups]
    exact h.arms b hb x s hs

omit [Digests] in
/-- The selections of a frame that did not touch them. -/
theorem Frame.selections {f f' : Factory} (h : Frame f f') (hselections : f'.selections = f.selections) :
    (∀ v r, f'.ledger.currentClause v r = f.ledger.currentClause v r) ∧
      ∀ x v, f.results.find x = some v → f'.heldResult x = f.heldResult x := by
  constructor
  · intro v r
    refine h.currentClause ?_
    simp only [Ledger.selected, Factory.ledger, hselections, h.groups]
  · intro x v hv
    have harm : f'.heldArm = f.heldArm := by
      funext s
      simp only [Factory.heldArm, h.arms, hselections]
    simp only [Factory.heldResult, hv, h.results x v hv, h.submissions, harm]

omit [Digests] in
theorem Frame.receiptCounts_of_selections {f f' : Factory} {events : List Waits.Event}
    (h : Frame f f') (hc : Consistent f events) {p : TaskId} {requirement : DependencyRequirement}
    (hlatest : f'.latest t = f.latest t) (hrows : SameRows t f.satisfactions f'.satisfactions)
    (hselections : f'.selections = f.selections)
    (hcounts : f'.receiptCounts t p requirement = true) : f.receiptCounts t p requirement = true := by
  obtain ⟨hclause, hheld⟩ := h.selections hselections
  exact h.receiptCounts hc hlatest (hrows.validRow rfl) (fun _ v r _ hv => hclause v r ▸ hv)
    (fun _ x v r hv _ _ hx => (hheld x v hv).trans hx) hcounts

omit [Digests] in
/-- Readiness of a task that a writer did not touch: its rows, contract, queue entry, tasks and
selections stay. -/
theorem Frame.ready_of_same {f f' : Factory} {events : List Waits.Event} (h : Frame f f')
    (hc : Consistent f events) (hcontracts : f'.contracts = f.contracts)
    (hdependencies : f'.dependencies = f.dependencies) (htasks : f'.tasks = f.tasks)
    (hselections : f'.selections = f.selections)
    (hrows : SameRows t f.satisfactions f'.satisfactions) (hready : f'.Ready t) : f.Ready t := by
  have hlatest : f'.latest t = f.latest t := by
    simp only [Factory.latest, Factory.latestRevision, hcontracts]
  refine Frame.ready hlatest (by rw [hcontracts]; exact id)
    (by simp only [Factory.edges, hdependencies]) (fun d hd => ?_) hready
  rw [← (Factory.mem_edges.mp hd).2] at hlatest hrows
  exact Frame.edgeCounts (fun p' hp' hfailed hcancelled => ⟨p', htasks ▸ hp', hfailed, hcancelled⟩)
    (h.receiptCounts_of_selections hc hlatest hrows hselections)

/-- The run, the policy, the result, its check and the evidence. -/
structure Accepted (f : Factory) (s : Submission) (run : VerificationRun) (policy : RunPolicy)
    (v : VerifiedResult) (f' : Factory) : Prop where
  submission : f.submissions.find v.submissionId = some s
  contract : (f.contracts.find (s.taskId, s.contractRevision)).isSome = true
  ofSubmission : run.taskId = s.taskId ∧ run.contractRevision = s.contractRevision
  ofRun : v.runId = run.runId ∧ policy.runId = run.runId
  runs : f.runs.insert? run = some f'.runs
  policies : f.policies.insert? policy = some f'.policies
  results : f.results.insert? v = some f'.results
  evidence : Attaches (fun e x => e.requirement = .verifiedResult ∧ x = v.resultId) f.satisfactions
    f'.satisfactions
  rest : { f with
    runs := f'.runs
    policies := f'.policies
    results := f'.results
    checks := f.checks ++ [v.resultId]
    satisfactions := f'.satisfactions } = f'

theorem acceptVerification_ok {submission runId resultId policyId policyDigest : String}
    {memoryFence : Nat} {now : Int}
    (h : acceptVerification submission runId resultId policyId policyDigest memoryFence now db =
      .ok (u, db')) : ∃ s run policy v f', Accepted db.world s run policy v f' ∧
      { db with
        world := f'
        events := db.events ++ [⟨db.head + 1, v.runId, 1, .other "verification.accepted" ""⟩] } =
        db' := by
  simp only [acceptVerification, Tx.bind_ok, Tx.find_ok, Tx.ask_ok, Tx.require_ok] at h
  obtain ⟨s, _, ⟨hs, rfl⟩, contract, _, ⟨rfl, rfl⟩, attempt, _, ⟨rfl, rfl⟩, _, _, ⟨⟨hcontract, -⟩, rfl⟩,
    _, _, h₁, _, _, h₂, _, _, h₃, _, _, h₄, _, _, hattach, hlog⟩ := h
  obtain ⟨_, hf, rfl⟩ := insert_ok h₁
  obtain ⟨runs, hruns, rfl⟩ := Option.map_eq_some_iff.mp hf
  obtain ⟨_, hf, rfl⟩ := insert_ok h₂
  obtain ⟨policies, hpolicies, rfl⟩ := Option.map_eq_some_iff.mp hf
  obtain ⟨_, hf, rfl⟩ := insert_ok h₃
  obtain ⟨results, hresults, rfl⟩ := Option.map_eq_some_iff.mp hf
  obtain rfl := Tx.write_ok.mp h₄
  obtain ⟨rows, hrecord, rfl⟩ := attach_ok hattach
  obtain rfl := logOther_ok hlog
  refine ⟨s, ⟨runId, s.taskId, s.contractRevision, s.attemptId, memoryFence, .accepted⟩,
    ⟨runId, policyId, policyDigest⟩, ⟨resultId, runId, submission, isolation, memoryFence, now⟩, _,
    ?_, rfl⟩
  exact ⟨hs, hcontract, ⟨rfl, rfl⟩, ⟨rfl, rfl⟩, hruns, hpolicies, hresults,
    recordVerifiedResult_attaches hrecord, rfl⟩

omit [Digests] in
theorem Accepted.frame {f f' : Factory} {s : Submission} {run : VerificationRun}
    {policy : RunPolicy} {v : VerifiedResult} (h : Accepted f s run policy v f') : Frame f f' := by
  obtain ⟨-, -, -, ⟨-, hpolicy⟩, hruns, hpolicies, hresults, -, hrest⟩ := h
  have hrunFresh := (Table.insert?_eq_some hruns).1
  have hresultFresh := (Table.insert?_eq_some hresults).1
  refine ⟨fun x v hv => Table.find_insert?_of_some hresults hv,
    fun x r hr => Table.find_insert?_of_some hruns hr, fun x r hr => ?_, fun x w hw hx => ?_,
    ?_, ?_, ?_, ?_, ?_, ?_, ?_, ?_, ?_, ?_, ?_, ?_, ?_, ?_, ?_, ?_⟩
  · have hne : policy.runId ≠ x := by
      rintro rfl
      rw [hpolicy, hrunFresh] at hr
      cases hr
    rw [Table.find_insert? hpolicies, if_neg hne]
  · rw [← hrest] at hx
    rcases List.mem_append.mp hx with hx | hx
    · exact hx
    · rw [List.mem_singleton.mp hx, hresultFresh] at hw
      cases hw
  all_goals rw [← hrest]
  · exact fun _ _ h => h
  · exact fun _ _ _ h => h
  · exact fun _ _ h => h
  · exact fun _ _ _ h => h
  · exact fun _ h => h
  · exact fun _ => rfl

/-- The acceptance of a verification names, through its run, every task whose evidence it
renewed. -/
theorem acceptVerification_wrote {submission runId resultId policyId policyDigest : String}
    {memoryFence : Nat} {now : Int} (hc : Consistent db.world db.events)
    (h : acceptVerification submission runId resultId policyId policyDigest memoryFence now db =
      .ok (u, db')) : Wrote safe db db' t := by
  obtain ⟨s, run, policy, v, f', haccepted, rfl⟩ := acceptVerification_ok h
  have hframe := haccepted.frame
  have hstored := Table.find_insert? (k := v.resultId) haccepted.results
  have hrunStored := Table.find_insert? (k := v.runId) haccepted.runs
  rw [if_pos rfl] at hstored
  rw [if_pos haccepted.ofRun.1.symm] at hrunStored
  have hrest := haccepted.rest
  refine ⟨rfl, rfl, .one (by simp [Waits.EventBody.kind]), ?_, fun _ hready => ?_⟩
  · refine hc.extend hframe (fun e he => List.mem_append_left _ he) (fun x r hr => ?_)
      (fun x w hw => ?_) (fun x i hi => .inl (by rw [← hrest] at hi; exact hi)) (fun row hrow => ?_)
    · rw [Table.find_insert? haccepted.runs] at hr
      split at hr
      · cases hr
        rw [haccepted.ofSubmission.1, haccepted.ofSubmission.2, ← hrest]
        exact .inr haccepted.contract
      · exact .inl hr
    · rw [Table.find_insert? haccepted.results] at hw
      split at hw
      · cases hw
        refine .inr ⟨⟨run, s, hrunStored, ?_, haccepted.ofSubmission.1.symm⟩, _,
          List.mem_append_right _ (List.mem_singleton.mpr rfl), rfl, rfl⟩
        rw [hframe.submissions]
        exact haccepted.submission
      · exact .inl hw
    · rcases haccepted.evidence.rows row hrow with hold | ⟨hkind, hreq, hid⟩
      · exact .inl hold
      · exact .inr ⟨hkind, .inl ⟨hreq, by rw [hid, hstored]; rfl⟩⟩
  · rcases haccepted.evidence.own t with hsame | ⟨row, hrow, ht, hvalid, hkind, hreq, hid⟩
    · refine .inr ⟨hframe.ready_of_same hc ?_ ?_ ?_ ?_ hsame hready,
        fun seen hmatch => hmatch.same hframe hsame⟩
      all_goals rw [← hrest]
    · exact .inl ⟨_, List.mem_append_right _ (List.mem_singleton.mpr rfl), Nat.lt_succ_self _,
        .accepted hrow ht hvalid (hkind.trans hreq) (hid ▸ hstored) rfl rfl⟩

/-- The commit, its check and the evidence. -/
structure Committed (f : Factory) (i : IntegratedCommit) (f' : Factory) : Prop where
  operation : (f.operations.find i.operationId).isSome = true
  integrated : f.integrated.insert? i = some f'.integrated
  evidence : Attaches (fun e x => e.requirement = .integratedCommit ∧ x = i.integratedId)
    f.satisfactions f'.satisfactions
  rest : { f with
    integrated := f'.integrated
    outputChecks := f.outputChecks ++ [i.integratedId]
    satisfactions := f'.satisfactions } = f'

theorem confirmIntegration_ok {integrated : String} {operation : OperationId} {now : Int}
    (h : confirmIntegration integrated operation now db = .ok (u, db')) :
    ∃ i f', Committed db.world i f' ∧
      { db with
        world := f'
        events := db.events ++ [⟨db.head + 1, i.integratedId, 1, .other "integration.wake" ""⟩] } =
        db' := by
  simp only [confirmIntegration, Tx.bind_ok, Tx.ask_ok, Tx.require_ok] at h
  obtain ⟨known, _, ⟨rfl, rfl⟩, _, _, ⟨hknown, rfl⟩, _, _, h₁, _, _, h₂, _, _, hattach, hlog⟩ := h
  obtain ⟨_, hf, rfl⟩ := insert_ok h₁
  obtain ⟨commits, hcommits, rfl⟩ := Option.map_eq_some_iff.mp hf
  obtain rfl := Tx.write_ok.mp h₂
  obtain ⟨rows, hrecord, rfl⟩ := attach_ok hattach
  obtain rfl := logOther_ok hlog
  rw [Bool.and_eq_true] at hknown
  exact ⟨⟨integrated, operation, now⟩, _, ⟨hknown.1, hcommits,
    recordIntegratedCommit_attaches hrecord, rfl⟩, rfl⟩

omit [Digests] in
theorem Committed.frame {f f' : Factory} {i : IntegratedCommit} (h : Committed f i f') :
    Frame f f' := by
  obtain ⟨-, hintegrated, -, hrest⟩ := h
  have hfresh := (Table.insert?_eq_some hintegrated).1
  refine ⟨?_, ?_, ?_, ?_, ?_, ?_, fun x j hj => Table.find_insert?_of_some hintegrated hj,
    fun x j hj hx => ?_, ?_, ?_, ?_, ?_, ?_, ?_, ?_, ?_, ?_, ?_, ?_, ?_⟩
  rotate_left 6
  · rw [← hrest] at hx
    rcases List.mem_append.mp hx with hx | hx
    · exact hx
    · rw [List.mem_singleton.mp hx, hfresh] at hj
      cases hj
  all_goals rw [← hrest]
  · exact fun _ h => h
  · exact fun _ => rfl
  · exact fun _ _ h => h
  · exact fun _ _ h => h
  · exact fun _ _ _ => rfl
  · exact fun _ _ _ h => h
  · exact fun _ _ h => h
  · exact fun _ _ _ h => h

/-- The confirmation of an integration names the commit of every task whose evidence it renewed. -/
theorem confirmIntegration_wrote {integrated : String} {operation : OperationId} {now : Int}
    (hc : Consistent db.world db.events)
    (h : confirmIntegration integrated operation now db = .ok (u, db')) : Wrote safe db db' t := by
  obtain ⟨i, f', hcommitted, rfl⟩ := confirmIntegration_ok h
  have hframe := hcommitted.frame
  have hstored := Table.find_insert? (k := i.integratedId) hcommitted.integrated
  rw [if_pos rfl] at hstored
  have hrest := hcommitted.rest
  refine ⟨rfl, rfl, .one (by simp [Waits.EventBody.kind]), ?_, fun _ hready => ?_⟩
  · refine hc.extend hframe (fun e he => List.mem_append_left _ he)
      (fun x r hr => .inl (by rw [← hrest] at hr; exact hr))
      (fun x v hv => .inl (by rw [← hrest] at hv; exact hv)) (fun x j hj => ?_) (fun row hrow => ?_)
    · rw [Table.find_insert? hcommitted.integrated] at hj
      split at hj
      · next hid =>
        cases hj
        rw [hframe.operations]
        exact .inr ⟨hcommitted.operation, _, List.mem_append_right _ (List.mem_singleton.mpr rfl),
          rfl, hid⟩
      · exact .inl hj
    · rcases hcommitted.evidence.rows row hrow with hold | ⟨hkind, hreq, hid⟩
      · exact .inl hold
      · exact .inr ⟨hkind, .inr ⟨hreq, by rw [hid, hstored]; rfl⟩⟩
  · rcases hcommitted.evidence.own t with hsame | ⟨row, hrow, ht, hvalid, hkind, hreq, hid⟩
    · refine .inr ⟨hframe.ready_of_same hc ?_ ?_ ?_ ?_ hsame hready,
        fun seen hmatch => hmatch.same hframe hsame⟩
      all_goals rw [← hrest]
    · exact .inl ⟨_, List.mem_append_right _ (List.mem_singleton.mpr rfl), Nat.lt_succ_self _,
        .committed hrow ht hvalid (hkind.trans hreq) (by rw [hid, hstored]; rfl) rfl hid.symm⟩

omit [Digests] in
/-- Stored evidence is stored. -/
theorem storedEvidence_stored {l : Ledger} {e : Edge} {x : String}
    (h : l.storedEvidence e = some x) :
    e.requirement = .verifiedResult ∧ (l.results.find x).isSome = true ∨
      e.requirement = .integratedCommit ∧ (l.integrated.find x).isSome = true := by
  unfold Ledger.storedEvidence at h
  split at h
  · next hreq =>
    obtain ⟨v, hv, rfl⟩ := Option.map_eq_some_iff.mp h
    have hmem := List.mem_of_find?_eq_some hv
    rw [(List.perm_insertionSort _ _).mem_iff] at hmem
    exact .inl ⟨hreq, by rw [Table.find_of_mem (List.mem_of_mem_filter hmem)]; rfl⟩
  · next hreq =>
    obtain ⟨i, hi, rfl⟩ := Option.map_eq_some_iff.mp h
    have hmem := List.mem_of_find?_eq_some hi
    rw [(List.perm_insertionSort _ _).mem_iff] at hmem
    exact .inr ⟨hreq, by rw [Table.find_of_mem (List.mem_of_mem_filter hmem)]; rfl⟩
  · cases h

/-- The evidence of one task was attached again from what is stored. -/
def Reattaches (f : Factory) (task : TaskId) (s : Satisfactions) : Prop :=
  Attaches (fun e x => e.task = task ∧
    (e.requirement = .verifiedResult ∧ (f.results.find x).isSome = true ∨
      e.requirement = .integratedCommit ∧ (f.integrated.find x).isSome = true)) f.satisfactions s

theorem attachStoredReceipts_reattaches {f : Factory} {task : TaskId} {now : Int}
    {s : Satisfactions}
    (h : attachStoredReceipts f.ledger now task f.satisfactions = .ok (u, s)) :
    Reattaches f task s :=
  (attachStoredReceipts_attaches h).mono fun _ _ ⟨htask, hstored⟩ =>
    ⟨htask, storedEvidence_stored hstored⟩

/-- The contract and the evidence of its task. -/
structure Installed (f : Factory) (c : SignedContract) (f' : Factory) : Prop where
  contracts : f.contracts.insert? c = some f'.contracts
  evidence : Reattaches f c.taskId f'.satisfactions
  rest : { f with contracts := f'.contracts, satisfactions := f'.satisfactions } = f'

theorem installContract_ok {contract : SignedContract} {expectedHead : Nat}
    {graph : Option StoreError} {now : Int}
    (h : installContract contract expectedHead graph now db = .ok (u, db')) :
    db = db' ∨ ∃ f', Installed db.world contract f' ∧
      { db with
        world := f'
        events := db.events ++ [⟨db.head + 1, contract.taskId.val, contract.contractRevision,
          .other "contract.installed" ""⟩] } = db' := by
  obtain ⟨existing, _, hask, h⟩ := Tx.bind_ok.mp h
  obtain ⟨-, rfl⟩ := Tx.ask_ok.mp hask
  cases existing with
  | some stored => exact .inl (Tx.require_ok.mp h).2
  | none =>
    simp only [Tx.bind_ok, Tx.ask_ok, Tx.require_ok, Tx.outside_ok] at h
    obtain ⟨_, _, ⟨-, rfl⟩, _, _, ⟨-, rfl⟩, _, _, ⟨-, rfl⟩, _, _, ⟨-, rfl⟩, _, _, ⟨-, rfl⟩, _, _,
      ⟨-, rfl⟩, _, _, ⟨-, rfl⟩, _, _, hlog, _, _, hinsert, hattach⟩ := h
    obtain rfl := logOther_ok hlog
    obtain ⟨_, hf, rfl⟩ := insert_ok hinsert
    obtain ⟨contracts, hcontracts, rfl⟩ := Option.map_eq_some_iff.mp hf
    obtain ⟨rows, hreceipts, rfl⟩ := attach_ok hattach
    have hevidence : Reattaches { db.world with contracts := contracts } contract.taskId rows :=
      attachStoredReceipts_reattaches hreceipts
    refine .inr ⟨_, ?_, rfl⟩
    exact ⟨hcontracts, hevidence, rfl⟩

omit [Digests] in
/-- A new contract of another task is not a revision that was there. -/
theorem Installed.frame {f f' : Factory} {c : SignedContract} (h : Installed f c f') :
    Frame f f' := by
  obtain ⟨hcontracts, -, hrest⟩ := h
  have hrows := (Table.insert?_eq_some hcontracts).2
  refine ⟨?_, ?_, ?_, ?_, fun k d hd => Table.find_insert?_of_some hcontracts hd,
    fun task n hn hlatest => ?_, ?_, ?_, ?_, ?_, ?_, ?_, ?_, ?_, ?_, ?_, ?_, ?_, ?_, ?_⟩
  rotate_left 4
  · obtain ⟨d, hd⟩ := Option.isSome_iff_exists.mp hn
    have hkey : d.key = (task, n) := Table.find_key hd
    have hkey : d.taskId = task ∧ d.contractRevision = n := Prod.mk.inj hkey
    rw [Factory.latestRevision, List.max?_eq_some_iff] at hlatest ⊢
    refine ⟨List.mem_map.mpr ⟨d, ?_, hkey.2⟩, fun m hm => hlatest.2 m ?_⟩
    · simpa using ⟨Table.mem_of_find hd, hkey.1⟩
    · obtain ⟨e, he, rfl⟩ := List.mem_map.mp hm
      refine List.mem_map_of_mem ?_
      rw [hrows, List.filter_append]
      exact List.mem_append_left _ he
  all_goals rw [← hrest]
  · exact fun _ _ h => h
  · exact fun _ _ _ h => h
  · exact fun _ h => h
  · exact fun _ => rfl
  · exact fun _ _ h => h
  · exact fun _ _ h => h
  · exact fun _ _ _ => rfl
  · exact fun _ _ _ h => h

omit [Digests] in
/-- What is attached again is stored. -/
theorem Reattaches.stored {f : Factory} {task : TaskId} {s : Satisfactions}
    (h : Reattaches f task s) {row : Satisfaction} (hrow : row ∈ s.rows) :
    (∃ old ∈ f.satisfactions.rows, row.edge = old.edge ∧
      row.evidenceKind = old.evidenceKind ∧ row.evidenceId = old.evidenceId) ∨
    row.evidenceKind = row.edge.requirement ∧
      (row.edge.requirement = .verifiedResult ∧ (f.results.find row.evidenceId).isSome = true ∨
      row.edge.requirement = .integratedCommit ∧
        (f.integrated.find row.evidenceId).isSome = true) :=
  (h.rows row hrow).imp id fun ⟨hkind, _, hstored⟩ => ⟨hkind, hstored⟩

omit [Digests] in
theorem Reattaches.same {f : Factory} {task : TaskId} {s : Satisfactions}
    (h : Reattaches f task s) (ht : task ≠ t) : SameRows t f.satisfactions s :=
  Attaches.same h fun e x hP => by rw [hP.1]; exact ht

/-- A contract that is installed names its task; another task is as ready as it was. -/
theorem installContract_wrote {contract : SignedContract} {expectedHead : Nat}
    {graph : Option StoreError} {now : Int} (hc : Consistent db.world db.events)
    (h : installContract contract expectedHead graph now db = .ok (u, db')) : Wrote safe db db' t := by
  obtain rfl | ⟨f', hinstalled, rfl⟩ := installContract_ok h
  · exact .refl hc
  have hframe := hinstalled.frame
  have hrest := hinstalled.rest
  have hrows := (Table.insert?_eq_some hinstalled.contracts).2
  refine ⟨rfl, rfl, .one (by simp [Waits.EventBody.kind]), ?_, fun _ hready => ?_⟩
  · refine hc.extend hframe (fun e he => List.mem_append_left _ he)
      (fun x r hr => .inl (by rw [← hrest] at hr; exact hr))
      (fun x v hv => .inl (by rw [← hrest] at hv; exact hv))
      (fun x i hi => .inl (by rw [← hrest] at hi; exact hi)) (fun row hrow => ?_)
    have hstored := hinstalled.evidence.stored hrow
    rw [← hrest]
    exact hstored
  · by_cases ht : contract.taskId = t
    · exact .inl ⟨_, List.mem_append_right _ (List.mem_singleton.mpr rfl), Nat.lt_succ_self _,
        .inl ⟨.inl rfl, congrArg TaskId.val ht⟩⟩
    · have hsame := hinstalled.evidence.same ht
      have hrevision : f'.latestRevision t = db.world.latestRevision t := by
        simp [Factory.latestRevision, hrows, List.filter_append, ht]
      have hlatest : f'.latest t = db.world.latest t := by
        unfold Factory.latest
        rw [hrevision]
        cases db.world.latestRevision t with
        | none => rfl
        | some n =>
          have hkey : contract.key ≠ (t, n) := fun hkey => ht (Prod.mk.inj hkey).1
          simp only [Option.bind_some, Table.find_insert? hinstalled.contracts, if_neg hkey]
      refine .inr ⟨?_, fun seen hmatch => hmatch.same hframe hsame⟩
      refine Frame.ready hlatest ?_ (by rw [← hrest]; rfl) (fun d hd => ?_) hready
      · rintro ⟨c, hcmem, hct⟩
        rcases (Table.mem_insert? hinstalled.contracts).mp hcmem with hcmem | rfl
        · exact ⟨c, hcmem, hct⟩
        · exact absurd hct ht
      · rw [← (Factory.mem_edges.mp hd).2] at hlatest hsame
        refine Frame.edgeCounts (fun p hp hfailed hcancelled => ⟨p, ?_, hfailed, hcancelled⟩)
          (hframe.receiptCounts_of_selections hc hlatest hsame (by rw [← hrest]))
        rw [← hrest] at hp
        exact hp

/-- The dependencies of one task were replaced. -/
structure Redepends (task : TaskId) (db db' : WaitStore Factory) : Prop where
  rest : { db with world := { db.world with dependencies := db'.world.dependencies } } = db'
  others : ∀ t, t ≠ task → db'.world.edges t = db.world.edges t

omit [Digests] in
theorem Redepends.trans {task : TaskId} {db'' : WaitStore Factory} (h : Redepends task db db')
    (h' : Redepends task db' db'') : Redepends task db db'' := by
  refine ⟨?_, fun t ht => (h'.others t ht).trans (h.others t ht)⟩
  rw [← h'.rest, ← h.rest]

omit [Digests] in
theorem replaceDependencies_ok {task : TaskId} {edges : List Dependency}
    (h : replaceDependencies task edges db = .ok (u, db')) : Redepends task db db' := by
  obtain ⟨_, t₁, hdelete, h⟩ := Tx.bind_ok.mp h
  obtain rfl := Tx.write_ok.mp hdelete
  refine Redepends.trans ⟨rfl, fun t ht => ?_⟩ (Tx.forEach_preserves (fun s => ⟨rfl, fun _ _ => rfl⟩)
    Redepends.trans (fun d _ s s' u hinsert => ?_) h)
  · simp only [Factory.edges, List.filter_filter]
    congr 2
    funext d
    by_cases hd : d.taskId = t
    · simp [hd, ht]
    · simp [hd]
  · obtain ⟨_, hf, rfl⟩ := insert_ok hinsert
    obtain ⟨dependencies, hinserted, rfl⟩ := Option.map_eq_some_iff.mp hf
    refine ⟨rfl, fun t ht => ?_⟩
    have hrows := (Table.insert?_eq_some hinserted).2
    simp only [Factory.edges, hrows, List.filter_append]
    simp [Ne.symm ht]

/-- The task is queued again, with its dependencies and their evidence. -/
structure Queued (f : Factory) (task : Task) (f' : Factory) : Prop where
  found : f.tasks.find task.id = some task
  idle : task.activeAttempt = none ∧ task.state ≠ .cancelled
  tasks : f'.tasks = f.tasks.update { task with revision := task.revision + 1, state := .queued }
  edges : ∀ t, t ≠ task.id → f'.edges t = f.edges t
  evidence : Reattaches f task.id f'.satisfactions
  rest : { f with
    tasks := f'.tasks
    queue := f'.queue
    dependencies := f'.dependencies
    satisfactions := f'.satisfactions } = f'

theorem enqueue_ok {task : Task} {record : QueueRecord} {now : Int}
    (hfound : db.world.tasks.find task.id = some task)
    (hidle : task.activeAttempt = none ∧ task.state ≠ .cancelled)
    (h : enqueue task record now db = .ok (u, db')) :
    Queued db.world task db'.world ∧ ∃ n m,
      { db with
        world := db'.world
        events := db.events ++ [⟨db.head + 1, task.id.val, n, .other "task.changed" ""⟩] ++
          [⟨db.head + 2, task.id.val, m, .other "scheduler.task_queued" ""⟩] } = db' := by
  simp only [enqueue, upsertQueue, write, Tx.bind_ok, Tx.require_ok, Tx.write_ok] at h
  obtain ⟨_, _, ⟨-, rfl⟩, _, _, rfl, _, _, hlog, _, _, rfl, _, t, hdepends, _, _, hattach, hlog'⟩ := h
  obtain rfl := logOther_ok hlog
  obtain ⟨hdependencies, hothers⟩ := replaceDependencies_ok hdepends
  generalize t.world.dependencies = dependencies at hdependencies
  subst hdependencies
  obtain ⟨rows, hreceipts, rfl⟩ := attach_ok hattach
  obtain rfl := logOther_ok hlog'
  have hevidence := attachStoredReceipts_reattaches hreceipts
  refine ⟨⟨hfound, hidle, rfl, hothers, hevidence, rfl⟩, task.revision + 1, task.revision + 1, ?_⟩
  simp only [WaitStore.head, Cursor.head_concat]

theorem queueTask_ok {id : TaskId} {revision expectedHead : Nat} {request : QueueRequest}
    {now : Int} {fault : Option StoreError}
    (h : queueTask id revision expectedHead request now fault db = .ok (u, db')) :
    db = db' ∨ ∃ task, task.id = id ∧ Queued db.world task db'.world ∧ ∃ n m,
      { db with
        world := db'.world
        events := db.events ++ [⟨db.head + 1, id.val, n, .other "task.changed" ""⟩] ++
          [⟨db.head + 2, id.val, m, .other "scheduler.task_queued" ""⟩] } = db' := by
  simp only [queueTask, Tx.bind_ok, Tx.require_ok, Tx.ask_ok, Tx.find_ok, Tx.check_ok, Tx.ite_ok,
    Tx.outside_ok, Tx.pure_ok] at h
  obtain ⟨_, _, ⟨-, rfl⟩, _, _, ⟨-, rfl⟩, _, _, ⟨-, rfl⟩, _, _, ⟨-, rfl⟩, f, _, ⟨rfl, rfl⟩, task, _,
    ⟨htask, rfl⟩, _, _, ⟨-, rfl⟩, _, _, ⟨⟨hactive, -, -, hcancelled, -⟩, rfl⟩, _, _, ⟨-, rfl⟩,
    ⟨-, -, rfl⟩ | ⟨-, _, _, ⟨-, rfl⟩, _, _, ⟨-, rfl⟩, _, _, ⟨-, rfl⟩, h⟩⟩ := h
  · exact .inl rfl
  · obtain rfl : task.id = id := Table.find_key htask
    exact .inr ⟨task, rfl, enqueue_ok htask ⟨hactive, hcancelled⟩ h⟩

omit [Digests] in
theorem Queued.frame {f f' : Factory} {task : Task} (h : Queued f task f') : Frame f f' := by
  obtain ⟨hfound, ⟨hactive, -⟩, htasks, -, -, hrest⟩ := h
  have hfind (p : TaskId) := Table.find_update (t := f.tasks) (k := p)
    (a := { task with revision := task.revision + 1, state := .queued })
  refine ⟨?_, ?_, ?_, ?_, ?_, ?_, ?_, ?_, ?_, ?_, ?_, ?_, ?_, ?_, ?_, ?_, ?_, ?_, fun p hp => ?_,
    fun p => ?_⟩
  rotate_right 2
  · rw [htasks, hfind] at hp
    split at hp
    · rwa [Option.isSome_map] at hp
    · exact hp
  · rw [htasks, hfind]
    split
    · next hid =>
      obtain rfl : task.id = p := hid
      rw [hfound]
      rfl
    · rfl
  all_goals rw [← hrest]
  · exact fun _ _ h => h
  · exact fun _ _ h => h
  · exact fun _ _ _ => rfl
  · exact fun _ _ _ h => h
  · exact fun _ _ h => h
  · exact fun _ _ _ h => h
  · exact fun _ _ h => h
  · exact fun _ _ _ h => h

omit [Digests] in
/-- Another task is as ready as it was, unless it waits for nothing but a predecessor that had
failed. -/
theorem Queued.ready {f f' : Factory} {events : List Waits.Event} {task : Task}
    (h : Queued f task f') (hc : Consistent f events) (ht : task.id ≠ t)
    (hsafe : f.waitsForFailed t task.id = false) (hready : f'.Ready t) : f.Ready t := by
  have hframe := h.frame
  have hsame := h.evidence.same ht
  have hrest := h.rest
  have hlatest : f'.latest t = f.latest t := by
    rw [← hrest]
    rfl
  have hedges := h.edges t (Ne.symm ht)
  have hreceipt (p : TaskId) (requirement : DependencyRequirement) :
      f'.receiptCounts t p requirement = true → f.receiptCounts t p requirement = true :=
    hframe.receiptCounts_of_selections hc hlatest hsame (by rw [← hrest])
  -- edges to other tasks are what they were
  have hother : ∀ d ∈ f.edges t, d.predecessorId ≠ task.id → f'.edgeCounts d = true →
      f.edgeCounts d = true := by
    intro d hd hne
    obtain rfl := (Factory.mem_edges.mp hd).2
    refine Frame.edgeCounts (fun p hp hfailed hcancelled => ⟨p, ?_, hfailed, hcancelled⟩)
      (hreceipt d.predecessorId d.requirement)
    have hkey : Task.id { task with revision := task.revision + 1, state := .queued } ≠
      d.predecessorId := Ne.symm hne
    rwa [h.tasks, Table.find_update_ne hkey] at hp
  obtain ⟨-, -, -, -, hall⟩ := Factory.ready_iff.mp hready
  rw [hedges] at hall
  refine Frame.ready hlatest (by rw [← hrest]; exact id) hedges (fun d hd hcounts => ?_) hready
  by_cases hp : d.predecessorId = task.id
  · -- the safe case: the predecessor had not failed
    by_cases hfailed : task.state = .failed
    · have hblocked : f.waitsForFailed t task.id = true := by
        simp only [Factory.waitsForFailed, Factory.othersCount, Bool.and_eq_true, List.all_eq_true,
          List.any_eq_true, Bool.or_eq_true, decide_eq_true_eq, h.found, Option.any_some]
        refine ⟨⟨⟨hfailed, d, hd, hp⟩, fun e he => ?_⟩, fun e he => ?_⟩
        · by_cases hep : e.predecessorId = task.id
          · refine .inr (hreceipt _ _ ?_)
            have hcount := hall e he
            simp only [Factory.edgeCounts, Option.any_eq_true, Bool.and_eq_true] at hcount
            obtain ⟨-, -, -, hcount⟩ := hcount
            rwa [(Factory.mem_edges.mp he).2, hep] at hcount
          · exact .inl hep
        · by_cases hep : e.predecessorId = task.id
          · exact .inl hep
          · exact .inr (hother e he hep (hall e he))
      rw [hsafe] at hblocked
      cases hblocked
    · obtain rfl := (Factory.mem_edges.mp hd).2
      refine Frame.edgeCounts (fun p hp' _ _ => ⟨task, hp ▸ h.found, hfailed, h.idle.2⟩)
        (hreceipt d.predecessorId d.requirement) hcounts
  · exact hother d hd hp hcounts

/-- A task that is queued is named. Another task is as ready as it was, unless it waits for nothing
but a predecessor that had failed. -/
theorem queueTask_wrote {id : TaskId} {revision expectedHead : Nat} {request : QueueRequest}
    {now : Int} {fault : Option StoreError} (hc : Consistent db.world db.events)
    (h : queueTask id revision expectedHead request now fault db = .ok (u, db')) :
    Wrote (id = t ∨ db.world.waitsForFailed t id = false) db db' t := by
  obtain rfl | ⟨task, rfl, hqueued, n, m, hdb⟩ := queueTask_ok h
  · exact .refl hc
  generalize db'.world = f' at hqueued hdb
  subst hdb
  have hframe := hqueued.frame
  have hrest := hqueued.rest
  have hhead : db.head + 2 = Cursor.head Waits.Event.sequence (db.events ++
      [⟨db.head + 1, task.id.val, n, .other "task.changed" ""⟩]) + 1 := by
    rw [Cursor.head_concat]
  have hquiet : Waits.Quiet db.events (db.events ++
      [⟨db.head + 1, task.id.val, n, .other "task.changed" ""⟩] ++
      [⟨db.head + 2, task.id.val, m, .other "scheduler.task_queued" ""⟩]) := by
    rw [hhead]
    exact (Waits.Quiet.one (by simp [Waits.EventBody.kind])).trans
      (.one (by simp [Waits.EventBody.kind]))
  refine ⟨rfl, rfl, hquiet, ?_, fun hsafe hready => ?_⟩
  · refine hc.extend hframe (fun e he => Quiet.mem hquiet he)
      (fun x r hr => .inl (by rw [← hrest] at hr; exact hr))
      (fun x v hv => .inl (by rw [← hrest] at hv; exact hv))
      (fun x i hi => .inl (by rw [← hrest] at hi; exact hi)) (fun row hrow => ?_)
    have hstored := hqueued.evidence.stored hrow
    rw [← hrest]
    exact hstored
  · by_cases ht : task.id = t
    · refine .inl ⟨⟨db.head + 2, task.id.val, m, .other "scheduler.task_queued" ""⟩, ?_, ?_,
        .inl ⟨.inr rfl, congrArg TaskId.val ht⟩⟩
      · exact List.mem_append_right _ (List.mem_singleton.mpr rfl)
      · show db.head < db.head + 2
        omega
    · have hsame := hqueued.evidence.same ht
      exact .inr ⟨hqueued.ready hc ht (hsafe.resolve_left ht) hready,
        fun seen hmatch => hmatch.same hframe hsame⟩

/-- The selection, and for a winner the evidence of the consumers of its task. -/
structure Selected (f : Factory) (g : CandidateGroup) (picked : Option Picked) (f' : Factory) :
    Prop where
  found : f.groups.find g.groupId = some g
  selections : f.selections.insert? (Picked.selection g.groupId picked) = some f'.selections
  evidence : Attaches (fun e x => e.requirement = .verifiedResult ∧ e.predecessor = g.taskId ∧
      (∃ d ∈ f.edges e.task, d.predecessorId = g.taskId ∧ d.requirement = .verifiedResult) ∧
      (f.results.find x).isSome = true) f.satisfactions f'.satisfactions
  unselected : picked = none → f'.satisfactions = f.satisfactions
  rest : { f with selections := f'.selections, satisfactions := f'.satisfactions } = f'

omit [Digests] in
theorem mem_consumers {f : Factory} {p task : TaskId} {requirement : DependencyRequirement}
    (h : task ∈ f.ledger.consumers p requirement) :
    ∃ d ∈ f.edges task, d.predecessorId = p ∧ d.requirement = requirement := by
  rw [Ledger.consumers, (List.perm_insertionSort _ _).mem_iff] at h
  obtain ⟨d, hd, rfl⟩ := List.mem_map.mp h
  rw [List.mem_filter] at hd
  obtain ⟨hd, hpred⟩ := hd
  exact ⟨d, Factory.mem_edges.mpr ⟨hd, rfl⟩, by simpa using hpred⟩

theorem insertSelection_ok {group : String} {picked : Option Picked} {now : Int}
    (h : insertSelection group picked now db = .ok (u, db')) :
    ∃ g, g.groupId = group ∧ Selected db.world g picked db'.world ∧
      { db with world := db'.world } = db' := by
  simp only [insertSelection, Tx.bind_ok, Tx.find_ok, Tx.ask_ok, Tx.require_ok] at h
  obtain ⟨g, _, ⟨hg, rfl⟩, _, _, ⟨-, rfl⟩, _, _, ⟨-, rfl⟩, _, _, ⟨-, rfl⟩, _, _, ⟨-, rfl⟩, _, _, hinsert,
    hattach⟩ := h
  obtain rfl : g.groupId = group := Table.find_key hg
  obtain ⟨_, hf, rfl⟩ := insert_ok hinsert
  obtain ⟨selections, hselections, rfl⟩ := Option.map_eq_some_iff.mp hf
  cases picked with
  | none =>
    obtain ⟨-, rfl⟩ := Tx.pure_ok.mp hattach
    exact ⟨g, rfl, ⟨hg, hselections, .refl _, fun _ => rfl, rfl⟩, rfl⟩
  | some picked =>
    obtain ⟨rows, hattached, rfl⟩ := attach_ok hattach
    refine ⟨g, rfl, ⟨hg, hselections, ?_, by simp, rfl⟩, rfl⟩
    refine (attachSelected_attaches hattached).mono fun e x hx => ?_
    obtain ⟨hreq, hpred, htask, hcurrent⟩ := hx
    have hstored := storedEvidence_stored (e := ⟨e.task, g.taskId, .verifiedResult⟩) hcurrent
    refine ⟨hreq, hpred, mem_consumers htask, ?_⟩
    exact (hstored.resolve_right (by simp)).2

omit [Digests] in
theorem Selected.frame {f f' : Factory} {g : CandidateGroup} {picked : Option Picked}
    (h : Selected f g picked f') : Frame f f' := by
  obtain ⟨-, -, -, -, hrest⟩ := h
  rw [← hrest]
  exact ⟨fun _ _ h => h, fun _ _ h => h, fun _ _ _ => rfl, fun _ _ _ h => h, fun _ _ h => h,
    fun _ _ _ h => h, fun _ _ h => h, fun _ _ _ h => h, rfl, rfl, rfl, rfl, rfl, rfl, rfl, rfl, rfl,
    rfl, fun _ h => h, fun _ => rfl⟩

omit [Digests] in
/-- A selection is none of another task's, and without a winner it is nobody's. -/
theorem Selected.selected {f f' : Factory} {g : CandidateGroup} {picked : Option Picked}
    (h : Selected f g picked f') {task : TaskId} (htask : task ≠ g.taskId ∨ picked = none)
    (revision : Nat) : f'.ledger.selected task revision = f.ledger.selected task revision := by
  have hgroups : f'.groups = f.groups := h.frame.groups
  simp only [Ledger.selected, Factory.ledger, hgroups]
  refine List.filterMap_congr fun x hx => ?_
  rw [Table.find_insert? h.selections]
  split
  · next hid =>
    -- the group had no selection before
    have hnone := (Table.insert?_eq_some h.selections).1
    rw [hid] at hnone
    rw [hnone]
    rcases htask with htask | rfl
    · have hgroup : f.groups.find x.groupId = some x := Table.find_of_mem (List.mem_of_mem_filter hx)
      have hkey : (Picked.selection g.groupId picked).groupId = g.groupId := by cases picked <;> rfl
      rw [← hid, hkey, h.found] at hgroup
      cases hgroup
      simp only [List.mem_filter, decide_eq_true_eq] at hx
      exact absurd hx.2.1.symm htask
    · rfl
  · rfl

omit [Digests] in
/-- What another task's arms hold stays held. -/
theorem Selected.held {f f' : Factory} {events : List Waits.Event} {g : CandidateGroup}
    {picked : Option Picked} (h : Selected f g picked f') (hc : Consistent f events) {x : String}
    {v : VerifiedResult} {r : VerificationRun} (hv : f.results.find x = some v)
    (hr : f.runs.find v.runId = some r) (htask : r.taskId ≠ g.taskId ∨ picked = none)
    (hheld : f.heldResult x = true) : f'.heldResult x = true := by
  have hframe := h.frame
  obtain ⟨r', s, hr', hs, hst⟩ := hc.resultRun x v hv
  obtain rfl : r = r' := Option.some.inj (hr.symm.trans hr')
  simp only [Factory.heldResult, hv, hframe.results x v hv, hs, hframe.submissions, Option.any_some,
    Factory.heldArm, List.any_eq_true, Bool.and_eq_true, Bool.not_eq_true', hframe.arms,
    decide_eq_true_eq, List.any_eq_false, not_and] at hheld ⊢
  obtain ⟨b, hb, hattempt, hfree⟩ := hheld
  refine ⟨b, hb, hattempt, fun y hy hgroup hsubmission => ?_⟩
  rcases (Table.mem_insert? h.selections).mp hy with hy | rfl
  · exact hfree y hy hgroup hsubmission
  · cases picked with
    | none => cases hsubmission
    | some picked =>
      -- the winner's arm is of the group's own task
      obtain ⟨g', hg', htask'⟩ := hc.arms b hb _ s hs hattempt.symm
      have hgroup : g.groupId = b.groupId := hgroup
      rw [← hgroup, h.found] at hg'
      cases hg'
      rcases htask with htask | hnone
      · exact htask (hst.symm.trans htask'.symm)
      · cases hnone

omit [Digests] in
/-- A selection completes no edge but one to a verified result of its group's task. -/
theorem Selected.edgeCounts {f f' : Factory} {events : List Waits.Event} {g : CandidateGroup}
    {picked : Option Picked} (h : Selected f g picked f') (hc : Consistent f events)
    {d : TaskDependency} (hd : d ∈ f.edges t)
    (hother : picked = none ∨ d.requirement ≠ .verifiedResult ∨ d.predecessorId ≠ g.taskId)
    (hcounts : f'.edgeCounts d = true) : f.edgeCounts d = true := by
  have hframe := h.frame
  have hrest := h.rest
  obtain rfl := (Factory.mem_edges.mp hd).2
  refine Frame.edgeCounts (fun p hp hfailed hcancelled => ⟨p, ?_, hfailed, hcancelled⟩)
    (fun hreceipt => hframe.receiptCounts hc ?_ ?_ ?_ ?_ hreceipt) hcounts
  · rw [← hrest] at hp
    exact hp
  · rw [← hrest]
    rfl
  · rcases hother with hnone | hother
    · rw [h.unselected hnone]
    · refine h.evidence.others _ fun x ⟨hreq, hpred, _⟩ => ?_
      rcases hother with hother | hother
      · exact hother hreq
      · exact hother hpred
  · intro hreq v r hr hclause
    have htask : r.taskId ≠ g.taskId ∨ picked = none := by
      rcases hother with hnone | hother | hother
      · exact .inr hnone
      · exact absurd hreq hother
      · exact .inl (hr ▸ hother)
    rwa [hframe.currentClause (h.selected htask _)] at hclause
  · intro hreq x v r hv hrun hr hheld
    have htask : r.taskId ≠ g.taskId ∨ picked = none := by
      rcases hother with hnone | hother | hother
      · exact .inr hnone
      · exact absurd hreq hother
      · exact .inl (hr ▸ hother)
    exact h.held hc hv hrun htask hheld

omit [Digests] in
/-- Another task is as ready as it was, unless it waits for nothing but a verified result of the
group's task. -/
theorem Selected.ready {f f' : Factory} {events : List Waits.Event} {g : CandidateGroup}
    {picked : Option Picked} (h : Selected f g picked f') (hc : Consistent f events)
    (hsafe : picked = none ∨ f.waitsForVerified t g.taskId = false) (hready : f'.Ready t) :
    f.Ready t ∧ SameRows t f.satisfactions f'.satisfactions := by
  have hrest := h.rest
  have hlatest : f'.latest t = f.latest t := by
    rw [← hrest]
    rfl
  have hedges : f'.edges t = f.edges t := by
    rw [← hrest]
    rfl
  obtain ⟨-, -, -, -, hall⟩ := Factory.ready_iff.mp hready
  rw [hedges] at hall
  have hbound : (∃ c ∈ f'.contracts.rows, c.taskId = t) → ∃ c ∈ f.contracts.rows, c.taskId = t := by
    rw [← hrest]
    exact id
  by_cases hedge : ∃ d ∈ f.edges t, d.predecessorId = g.taskId ∧ d.requirement = .verifiedResult
  · rcases hsafe with rfl | hsafe
    · refine ⟨Frame.ready hlatest hbound hedges
        (fun d hd => h.edgeCounts hc hd (.inl rfl)) hready, ?_⟩
      rw [h.unselected rfl]
      exact .refl t _
    · -- the winner's task has a result, so that another edge of the task is still open
      obtain ⟨d, hd, hpred, hreq⟩ := hedge
      have hresult : f.results.rows.any
          (fun v => (f.runs.find v.runId).any (·.taskId = g.taskId)) = true := by
        have hcounts := hall d hd
        simp only [Factory.edgeCounts, Option.any_eq_true, Bool.and_eq_true, hreq, hpred,
          Factory.receiptCounts, Factory.verifiedCounts] at hcounts
        obtain ⟨-, -, -, -, row, -, -, v, hv, r, hr, hcounts⟩ := hcounts
        have hresults : f'.results = f.results := by rw [← hrest]
        have hruns : f'.runs = f.runs := by rw [← hrest]
        rw [hresults] at hv
        rw [hruns] at hr
        simp only [List.any_eq_true]
        refine ⟨v, Table.mem_of_find hv, ?_⟩
        rw [hr]
        simpa using hcounts.1.1.1.1.1.1.1
      have hothers : f.othersCount t g.taskId = false := by
        by_contra hothers
        have hblocked : f.waitsForVerified t g.taskId = true := by
          simp only [Factory.waitsForVerified, Bool.and_eq_true, List.any_eq_true,
            decide_eq_true_eq]
          exact ⟨⟨⟨d, hd, hpred, hreq⟩, List.any_eq_true.mp hresult⟩, by simpa using hothers⟩
        rw [hsafe] at hblocked
        cases hblocked
      have hcount : f.othersCount t g.taskId = true := by
        simp only [Factory.othersCount, List.all_eq_true, Bool.or_eq_true, decide_eq_true_eq]
        intro e he
        by_cases hep : e.predecessorId = g.taskId
        · exact .inl hep
        · exact .inr (h.edgeCounts hc he (.inr (.inr hep)) (hall e he))
      rw [hothers] at hcount
      cases hcount
  · refine ⟨Frame.ready hlatest hbound hedges (fun d hd => h.edgeCounts hc hd ?_) hready, ?_⟩
    · by_cases hreq : d.requirement = .verifiedResult
      · exact .inr (.inr fun hpred => hedge ⟨d, hd, hpred, hreq⟩)
      · exact .inr (.inl hreq)
    · refine h.evidence.same fun e x ⟨_, _, hconsumer, _⟩ ht => hedge ?_
      rwa [ht] at hconsumer

/-- A selection writes no event: the tasks that it does not leave ready are as they were. -/
theorem insertSelection_wrote {group : String} {picked : Option Picked} {now : Int}
    (hc : Consistent db.world db.events) (h : insertSelection group picked now db = .ok (u, db')) :
    Wrote (picked = none ∨ ∀ g, db.world.groups.find group = some g →
      db.world.waitsForVerified t g.taskId = false) db db' t := by
  obtain ⟨g, rfl, hselected, hdb⟩ := insertSelection_ok h
  generalize db'.world = f' at hselected hdb
  subst hdb
  have hframe := hselected.frame
  have hrest := hselected.rest
  refine ⟨rfl, rfl, .refl _, ?_, fun hsafe hready => .inr ?_⟩
  · refine hc.extend hframe (fun e he => he)
      (fun x r hr => .inl (by rw [← hrest] at hr; exact hr))
      (fun x v hv => .inl (by rw [← hrest] at hv; exact hv))
      (fun x i hi => .inl (by rw [← hrest] at hi; exact hi)) (fun row hrow => ?_)
    rcases hselected.evidence.rows row hrow with hold | ⟨hkind, hreq, -, -, hstored⟩
    · exact .inl hold
    · obtain ⟨v, hv⟩ := Option.isSome_iff_exists.mp hstored
      exact .inr ⟨hkind, .inl ⟨hreq, by rw [hframe.results _ v hv]; rfl⟩⟩
  · obtain ⟨hready, hsame⟩ := hselected.ready hc (hsafe.imp id fun h => h g hselected.found) hready
    exact ⟨hready, fun seen hmatch => hmatch.same hframe hsame⟩

end Writers

/-! ## Waits for the dependencies of a task -/

/-- The row is a pending wait for the dependencies of the task. -/
def Pending (t : TaskId) (row : WaitRow) : Prop :=
  row.task = t ∧ row.attempt = none ∧ row.condition = .dependencyEvidence ∧
    row.wakeRequested = false

instance (t : TaskId) (row : WaitRow) : Decidable (Pending t row) :=
  inferInstanceAs (Decidable (_ ∧ _ ∧ _ ∧ _))

/-- The call may leave the task ready without an event that names it. -/
def silences (f : Factory) (t : TaskId) : Call → Bool
  | .queue id _ _ _ _ _ => id ≠ t && f.waitsForFailed t id
  | .select group (some _) _ => (f.groups.find group).any fun g => f.waitsForVerified t g.taskId
  | _ => false

/-- A store whose pending waits for the task have not missed an event: once the task is ready, an
event that wakes the wait is still to be replayed. -/
structure Watched (t : TaskId) (wait : String) (db : WaitStore Factory) : Prop where
  sound : Waits.Sound db
  consistent : Consistent db.world db.events
  triggers : ∀ tr ∈ db.triggers.rows, ∃ row, db.waits.find tr.waitId = some row ∧
    row.condition = tr.trigger.condition
  wakes : ∀ row, db.waits.find wait = some row → Pending t row → db.world.Ready t →
    ∃ e ∈ db.events, row.after < e.sequence ∧
      (e.body.kind = "wait.wake" ∧ e.entity = wait ∨ Matches db.world t e.seen)

section Steps

variable {t : TaskId} {wait : String} {db db' : WaitStore Factory}

/-- A wait for dependencies has no trigger. -/
theorem Watched.untriggered (h : Watched t wait db) {row : WaitRow}
    (hrow : db.waits.find wait = some row) (hpending : Pending t row) :
    db.triggers.find wait = none := by
  cases htr : db.triggers.find wait with
  | none => rfl
  | some tr =>
    obtain ⟨row', hrow', hcond⟩ := h.triggers tr (Table.mem_of_find htr)
    rw [Table.find_key htr, hrow] at hrow'
    cases hrow'
    rw [hpending.2.2.1] at hcond
    cases hx : tr.trigger <;> simp [hx, Waits.WaitTrigger.condition] at hcond

/-- A writer. -/
theorem Wrote.watched {safe : Prop} (h : Wrote safe db db' t) (hw : Watched t wait db)
    (hsafe : (∃ row, db.waits.find wait = some row ∧ Pending t row) → safe) : Watched t wait db' where
  sound := hw.sound.quiet h.quiet h.waits
  consistent := h.consistent
  triggers := by
    rw [h.triggers, h.waits]
    exact hw.triggers
  wakes row hrow hpending hready := by
    rw [h.waits] at hrow
    have hafter := (hw.sound.inside wait row hrow).2
    rcases h.wakes (hsafe ⟨row, hrow, hpending⟩) hready with ⟨e, he, hnew, hmatch⟩ | ⟨hready, hkeeps⟩
    · exact ⟨e, he, by omega, .inr hmatch⟩
    · obtain ⟨e, he, hlt, hmatch⟩ := hw.wakes row hrow hpending hready
      exact ⟨e, Quiet.mem h.quiet he, hlt, hmatch.imp id (hkeeps e.seen)⟩

theorem evidenceEvent_iff {f : Factory} {seen : Seen} :
    f.evidenceEvent (dependencySubject t) seen = true ↔
      seen.kind = "verification.accepted" ∧ f.evidenceOfRun t seen.entity = true ∨
      seen.kind = "integration.wake" ∧ f.evidenceOfCommit t seen.entity = true := by
  have hattempt : f.attemptOk (dependencySubject t) = true := rfl
  change (f.attemptOk (dependencySubject t) && _) = true ↔ _
  rw [hattempt]
  simp [dependencySubject]

/-- A task that is ready has evidence whose event is in the log. -/
theorem Consistent.exists_evidenceEvent {f : Factory} {events : List Waits.Event}
    (h : Consistent f events) (hready : f.Ready t) :
    ∃ e ∈ events, f.evidenceEvent (dependencySubject t) e.seen = true := by
  obtain ⟨-, -, hne, -, hall⟩ := Factory.ready_iff.mp hready
  obtain ⟨d, hd⟩ := List.exists_mem_of_ne_nil _ hne
  obtain ⟨-, rfl⟩ := Factory.mem_edges.mp hd
  have hcounts := hall d hd
  simp only [Factory.edgeCounts, Option.any_eq_true, Bool.and_eq_true] at hcounts
  obtain ⟨-, -, -, hreceipt⟩ := hcounts
  obtain ⟨row, hrow⟩ := Option.isSome_iff_exists.mp (Factory.validRow_of_receiptCounts hreceipt)
  obtain ⟨hmem, hedge, hvalid⟩ := validRow_spec hrow
  have htask : row.edge.task = d.taskId := by rw [hedge]
  obtain ⟨hkind, ⟨hreq, hstored⟩ | ⟨hreq, hstored⟩⟩ := h.evidence row hmem
  · obtain ⟨v, hv⟩ := Option.isSome_iff_exists.mp hstored
    obtain ⟨e, he, hekind, hentity⟩ := h.resultEvent _ v hv
    refine ⟨e, he, evidenceEvent_iff.mpr (.inl ⟨hekind, ?_⟩)⟩
    simp only [Factory.evidenceOfRun, List.any_eq_true, Bool.and_eq_true, decide_eq_true_eq]
    refine ⟨row, hmem, ⟨⟨htask, hvalid⟩, hkind.trans hreq⟩, ?_⟩
    rw [hv]
    exact decide_eq_true hentity.symm
  · obtain ⟨i, hi⟩ := Option.isSome_iff_exists.mp hstored
    obtain ⟨e, he, hekind, hentity⟩ := h.commitEvent _ i hi
    refine ⟨e, he, evidenceEvent_iff.mpr (.inr ⟨hekind, ?_⟩)⟩
    simp only [Factory.evidenceOfCommit, List.any_eq_true, Bool.and_eq_true, decide_eq_true_eq]
    exact ⟨row, hmem, ⟨⟨htask, hvalid⟩, hkind.trans hreq⟩, hentity.symm⟩

/-- The event of evidence is relevant. -/
theorem Consistent.matches_of_evidence {f : Factory} {events : List Waits.Event} {seen : Seen}
    (h : Consistent f events) (hseen : f.evidenceEvent (dependencySubject t) seen = true) :
    Matches f t seen := by
  obtain hrun | ⟨hkind, hcommit⟩ := evidenceEvent_iff.mp hseen
  · exact .inr (.inl hrun)
  · refine .inr (.inr ⟨hkind, hcommit, ?_⟩)
    simp only [Factory.evidenceOfCommit, List.any_eq_true, Bool.and_eq_true,
      decide_eq_true_eq] at hcommit
    obtain ⟨row, hmem, ⟨-, hekind⟩, hid⟩ := hcommit
    obtain ⟨hreq, ⟨hverified, -⟩ | ⟨-, hstored⟩⟩ := h.evidence row hmem
    · rw [hekind, hverified] at hreq
      cases hreq
    · exact hid ▸ hstored

/-- A trigger is for another condition. -/
theorem Watched.noTrigger (h : Watched t wait db) {row : WaitRow} {trigger : Option Waits.WaitTrigger}
    (htrigger : ∀ x, trigger = some x → row.condition = x.condition ∨
      ∃ tr parent, tr ∈ db.triggers.rows ∧ tr.trigger = x ∧
        db.waits.find tr.waitId = some parent ∧ row.condition = parent.condition)
    (hcond : row.condition = .dependencyEvidence) : trigger = none := by
  cases trigger with
  | none => rfl
  | some x =>
    have hx : row.condition = x.condition := by
      rcases htrigger x rfl with hx | ⟨tr, parent, htr, rfl, hparent, hx⟩
      · exact hx
      · obtain ⟨row', hrow', hcond'⟩ := h.triggers tr htr
        rw [hparent] at hrow'
        cases hrow'
        exact hx.trans hcond'
    rw [hcond] at hx
    cases x <;> cases hx

/-- A wait that was added: evidence that makes its task ready became a wake. -/
theorem Watched.subscribed {row : WaitRow} {predecessor : Option String}
    {trigger : Option Waits.WaitTrigger} (hw : Watched t wait db)
    (h : Waits.Subscribed db db' row predecessor trigger)
    (htrigger : ∀ x, trigger = some x → row.condition = x.condition ∨
      ∃ tr parent, tr ∈ db.triggers.rows ∧ tr.trigger = x ∧
        db.waits.find tr.waitId = some parent ∧ row.condition = parent.condition) :
    Watched t wait db' where
  sound := h.sound hw.sound
  consistent := by
    rw [h.world]
    exact hw.consistent.grows h.events.grows
  triggers tr htr := by
    have hwaits (x : String) := Table.find_insert? (k := x) h.waits
    have hold : ∀ tr ∈ db.triggers.rows, ∃ row, db'.waits.find tr.waitId = some row ∧
        row.condition = tr.trigger.condition := by
      intro tr htr
      obtain ⟨row', hrow', hcond⟩ := hw.triggers tr htr
      exact ⟨row', Table.find_insert?_of_some h.waits hrow', hcond⟩
    cases htrig : trigger with
    | none =>
      rw [h.triggers.1 htrig] at htr
      exact hold tr htr
    | some x =>
      rcases (Table.mem_insert? (h.triggers.2 x htrig)).mp htr with htr | rfl
      · exact hold tr htr
      · refine ⟨row, by rw [hwaits, if_pos rfl], ?_⟩
        rcases htrigger x htrig with hx | ⟨tr', parent, htr', rfl, hparent, hx⟩
        · exact hx
        · obtain ⟨row', hrow', hcond'⟩ := hw.triggers tr' htr'
          rw [hparent] at hrow'
          cases hrow'
          exact hx.trans hcond'
  wakes row' hrow' hpending hready := by
    rw [h.world] at hready ⊢
    rw [Table.find_insert? h.waits] at hrow'
    split at hrow'
    · next hid =>
      cases hrow'
      obtain ⟨htask, hattempt, hcond, -⟩ := hpending
      have hnone := hw.noTrigger htrigger hcond
      have hsubject : row.subject trigger = dependencySubject t := by
        rw [WaitRow.subject, htask, hattempt, hcond, hnone]
        rfl
      obtain ⟨events, hquiet, hwakes⟩ := h.wakes
      rw [hsubject] at hwakes
      obtain ⟨e, he, hevidence⟩ := hw.consistent.exists_evidenceEvent hready
      have hmem : e.seen ∈ (events.map Waits.Event.seen).filter
          (db.world.evidenceEvent (dependencySubject t)) :=
        List.mem_filter.mpr ⟨List.mem_map_of_mem (Quiet.mem hquiet he), hevidence⟩
      obtain ⟨seen, hseen⟩ := Option.isSome_iff_exists.mp
        (List.getLast?_isSome.mpr (List.ne_nil_of_mem hmem))
      have hmatch := hw.consistent.matches_of_evidence
        (List.mem_filter.mp (List.mem_of_getLast? hseen)).2
      obtain ⟨e', he', hkind, hentity, hlt⟩ := hwakes seen (congrArg Except.ok hseen)
        (hmatch.relevant hready)
      have hafter : row.after = row.cursorSequence := by simp [WaitRow.after, h.fresh.1]
      exact ⟨e', he', by omega, .inl ⟨hkind, hentity.trans hid⟩⟩
    · obtain ⟨e, he, hlt, hmatch⟩ := hw.wakes row' hrow' hpending hready
      exact ⟨e, Quiet.mem h.events he, hlt, hmatch⟩

/-- A replay passes over the events that do not wake the wait. -/
theorem Watched.replayed {row : WaitRow} {now : Int} {through : Nat} {wake : Bool}
    (hw : Watched t wait db) (h : Waits.Replayed db db' row now through wake) :
    Watched t wait db' where
  sound := h.sound hw.sound
  consistent := by
    rw [h.world]
    exact hw.consistent.grows h.grows
  triggers tr htr := by
    rw [h.triggers] at htr
    obtain ⟨row', hrow', hcond⟩ := hw.triggers tr htr
    rw [h.find]
    split
    · next hid =>
      rw [← hid, h.found] at hrow'
      cases hrow'
      exact ⟨_, rfl, hcond⟩
    · exact ⟨row', hrow', hcond⟩
  wakes row' hrow' hpending hready := by
    rw [h.world] at hready ⊢
    obtain ⟨more, hmore, -⟩ := h.grows
    rw [h.find] at hrow'
    split at hrow'
    · next hid =>
      subst hid
      cases hrow'
      obtain ⟨htask, hattempt, hcond, hwake⟩ := hpending
      have hwake : wake = false := hwake
      have hpending : Pending t row := ⟨htask, hattempt, hcond, h.pending⟩
      have hexp : row.expired now = false := by
        cases hexp : row.expired now with
        | false => rfl
        | true =>
          rw [(h.expired hexp).1] at hwake
          cases hwake
      have hpage : db.nextPage row = Cursor.between Waits.Event.sequence row.after through db.events := by
        rw [h.page hexp]
        exact Cursor.page_eq_between hw.sound.ordered
      have hsubject : row.subject ((db.triggers.find row.waitId).map (·.trigger)) =
          dependencySubject t := by
        have htask : row.task = t := htask
        have hattempt : row.attempt = none := hattempt
        have hcond : row.condition = .dependencyEvidence := hcond
        rw [hw.untriggered h.found hpending, WaitRow.subject, htask, hattempt, hcond]
        rfl
      obtain ⟨e, he, hlt, hmatch⟩ := hw.wakes row h.found hpending hready
      refine ⟨e, by rw [hmore]; exact List.mem_append_left _ he, ?_, hmatch⟩
      -- an event of the page would have woken the wait
      show through < e.sequence
      by_contra hle
      have hin : e ∈ db.nextPage row := by
        rw [hpage, Cursor.mem_between]
        exact ⟨he, hlt, by omega⟩
      obtain ⟨haddressed, hirrelevant⟩ := h.silent hwake e hin
      rcases hmatch with hmatch | hmatch
      · exact haddressed hmatch
      · have hrelevant : World.relevantWaitEvent db.world db.events (dependencySubject t) e.seen =
            .ok true := hmatch.relevant hready
        rw [hsubject, hrelevant] at hirrelevant
        cases hirrelevant
    · obtain ⟨e, he, hlt, hmatch⟩ := hw.wakes row' hrow' hpending hready
      exact ⟨e, by rw [hmore]; exact List.mem_append_left _ he, hlt, hmatch⟩

variable [Digests] [Plans.Documents]

omit [Digests] in
/-- A call of the waits. -/
theorem Watched.waits (hw : Watched t wait db) (c : Waits.Call Factory)
    (hc : ∀ change, c ≠ .elsewhere change) : Watched t wait (Waits.exec c db).2 := by
  generalize hdb' : (Waits.exec c db).2 = db'
  have heffect := Waits.exec_effect c db
  rw [hdb'] at heffect
  cases heffect with
  | unchanged _ h => exact h ▸ hw
  | subscribed _ h htrigger => exact hw.subscribed h htrigger
  | replayed h => exact hw.replayed h
  | elsewhere change _ => exact absurd rfl (hc change)

/-- One call. -/
theorem exec_watched (c : Call) (hw : Watched t wait db)
    (hsafe : (∃ row, db.waits.find wait = some row ∧ Pending t row) →
      silences db.world t c = false) : Watched t wait (exec c db).2 := by
  have hwrite {safe : Prop} {body : FactoryTx Unit}
      (hbody : ∀ {u db'}, body db = .ok (u, db') → Wrote safe db db' t)
      (h : silences db.world t c = false → safe) :
      Watched t wait (Waits.answer (fun _ => .done) body db).2 :=
    Tx.commit_preserves (R := fun _ s => Watched t wait s) hw
      fun h' => (hbody h').watched hw fun hp => h (hsafe hp)
  cases c with
  | register task attempt condition deadline trigger now fault => exact hw.waits _ (by simp)
  | replay wait' now fault => exact hw.waits _ (by simp)
  | rearm previous deadline now fault => exact hw.waits _ (by simp)
  | queue id revision expectedHead request now fault =>
    refine hwrite (queueTask_wrote hw.consistent) fun h => ?_
    simp only [silences, Bool.and_eq_false_iff, decide_eq_false_iff_not, not_not] at h
    exact h
  | install contract expectedHead graph now =>
    exact hwrite (installContract_wrote hw.consistent) id
  | accept submission runId resultId policyId policyDigest memoryFence now =>
    exact hwrite (acceptVerification_wrote hw.consistent) id
  | integrate integrated operation now =>
    exact hwrite (confirmIntegration_wrote hw.consistent) id
  | select group picked now =>
    refine hwrite (insertSelection_wrote hw.consistent) fun h => ?_
    cases picked with
    | none => exact .inl rfl
    | some picked =>
      refine .inr fun g hg => ?_
      simpa only [silences, hg, Option.any_some] using h

/-- The wait is pending, for the dependencies of the task. -/
def awaits (t : TaskId) (wait : String) (db : WaitStore Factory) : Bool :=
  (db.waits.find wait).any fun row => Pending t row

/-- No call of the run silences the wait while it is pending. -/
def Heard (t : TaskId) (wait : String) : WaitStore Factory → List Call → Prop
  | _, [] => True
  | db, c :: cs => (awaits t wait db = true → silences db.world t c = false) ∧
      Heard t wait (exec c db).2 cs

abbrev FactoryRun := Run (WaitStore Factory) Call (Except StoreError Waits.Answer)

/-- A run. -/
theorem calls_watched (cs : List Call) {r : FactoryRun} (hw : Watched t wait r.state)
    (hheard : Heard t wait r.state cs) : Watched t wait (r.calls exec cs).state := by
  induction cs generalizing r with
  | nil => exact hw
  | cons c cs ih =>
    refine ih (r := r.call exec c) (exec_watched c hw fun ⟨row, hrow, hpending⟩ => ?_) hheard.2
    refine hheard.1 ?_
    rw [awaits, hrow]
    simpa using hpending

/-- A store before the wait is registered. -/
structure Unregistered (wait : String) (db : WaitStore Factory) : Prop where
  sound : Waits.Sound db
  consistent : Consistent db.world db.events
  triggers : ∀ tr ∈ db.triggers.rows, ∃ row, db.waits.find tr.waitId = some row ∧
    row.condition = tr.trigger.condition
  absent : db.waits.find wait = none

omit [Digests] [Plans.Documents] in
theorem Unregistered.watched (h : Unregistered wait db) : Watched t wait db where
  sound := h.sound
  consistent := h.consistent
  triggers := h.triggers
  wakes row hrow := by
    rw [h.absent] at hrow
    cases hrow

/-- **No dependency wake is lost** in a run that no selection and no queueing of a failed
predecessor silences: a replay that reaches the head of the log without a wake leaves a task that is
not ready. -/
theorem dependency_wake_not_lost {start : WaitStore Factory} (hstart : Unregistered wait start)
    (calls : List Call) (hheard : Heard t wait start calls) {row : WaitRow}
    (hrow : ((Run.start start : FactoryRun).calls exec calls).state.waits.find wait = some row)
    (hwait : row.task = t ∧ row.attempt = none ∧ row.condition = .dependencyEvidence)
    (now : Int) (fault : Option StoreError) {r : Waits.WaitReplay}
    (hreplay : (exec (.replay wait now fault)
      ((Run.start start : FactoryRun).calls exec calls).state).1 = .ok (.replay r))
    (hwake : r.wakeRequested = false)
    (hhead : r.replayedThrough = (exec (.replay wait now fault)
      ((Run.start start : FactoryRun).calls exec calls).state).2.head) :
    (exec (.replay wait now fault)
      ((Run.start start : FactoryRun).calls exec calls).state).2.world.dependencyWaitReady t ≠
        .ok true := by
  have hw : Watched t wait ((Run.start start : FactoryRun).calls exec calls).state :=
    calls_watched calls (r := .start start) hstart.watched hheard
  generalize ((Run.start start : FactoryRun).calls exec calls).state = db at *
  have hnext : Watched t wait (exec (.replay wait now fault) db).2 :=
    exec_watched (.replay wait now fault) hw fun _ => rfl
  obtain ⟨r', hbody, hr⟩ := Waits.answer_ok hreplay
  cases hr
  obtain ⟨row', hrow', hid, ⟨-, -, -, hwoken⟩ | hreplayed⟩ := Waits.replayWait_ok hbody
  · rw [hwake] at hwoken
    cases hwoken
  · obtain rfl : row = row' := Option.some.inj (hrow.symm.trans hrow')
    have hfind := hreplayed.find wait
    rw [if_pos hid] at hfind
    intro hready
    obtain ⟨e, he, hlt, -⟩ := hnext.wakes _ hfind ⟨hwait.1, hwait.2.1, hwait.2.2, hwake⟩ hready
    have hle := hnext.sound.ordered.le_head he
    have hlt : r.replayedThrough < e.sequence := hlt
    have hle : e.sequence ≤ (exec (.replay wait now fault) db).2.head := hle
    omega

end Steps

/-! ## A selection that completes the last edge -/

namespace Chosen

/-- SHA-256 of the identity of the wait. -/
@[reducible] def documents : Plans.Documents where
  sha256 bytes := if bytes = "dependent\x00\x00dependency_evidence\x001".toUTF8.toList then
    "09cda42528060c472cfc995e4224fa3146c8eedfc7cc4eeb2eff0a21fe7f0852" else ""
  proposal _ := none
  input _ := none
  payload _ := []
  timestamp _ := none

/-- SHA-256 of the identity of the evidence. -/
@[reducible] def digests : Digests where
  inputs _ := ""
  identity _ := ""
  grant _ := ""
  action _ := ""
  finalization _ _ := ""
  text text := if text = "dependent\x00predecessor\x00verified_result\x00result-1" then
    "9e898f5174bfba426cfd10c3f130aa5763e616be99ebe27aa3ad3c82e0246641" else ""

def wait : String := "09cda42528060c472cfc995e4224fa3146c8eedfc7cc4eeb2eff0a21fe7f0852"

def dependent : TaskId := ⟨"dependent"⟩
def predecessor : TaskId := ⟨"predecessor"⟩
def arm : AttemptId := ⟨"a-1"⟩

/-- A task that waits for a verified result of a predecessor with one candidate, submitted and not
verified yet. -/
def factory : Factory where
  tasks := ⟨[⟨dependent, 2, .queued, "", none⟩, ⟨predecessor, 3, .awaitingReview, "", none⟩], by decide⟩
  attempts := ⟨[⟨arm, predecessor, 4, .completed, none, "", true⟩], by decide⟩
  queue := ⟨[⟨dependent, 0, 0, 2⟩], by decide⟩
  dependencies := ⟨[⟨dependent, predecessor, .verifiedResult⟩], by decide⟩
  contracts := ⟨[⟨dependent, 1, [⟨predecessor, .verifiedResult, "default", "d"⟩], false, false⟩,
    ⟨predecessor, 1, [], false, false⟩], by decide⟩
  submissions := ⟨[⟨"s-1", predecessor, 1, arm⟩], by decide⟩
  runs := .empty
  policies := .empty
  results := .empty
  checks := []
  groups := ⟨[⟨"g", predecessor, some 1⟩], by decide⟩
  arms := [⟨"g", 1, arm⟩]
  selections := .empty
  seeded := []
  operations := .empty
  integrated := .empty
  outputChecks := []
  members := []
  barriers := .empty
  invalidations := []
  replays := []
  satisfactions := .empty
  planRevision := 1
  released _ := true
  triggerReference _ := .ok ()
  triggerEvidence _ _ := .ok none
  triggerRelevant _ _ _ _ := .ok false

def register : Call := .register dependent none "dependency_evidence" none none 5 none
def accept : Call := .accept "s-1" "run-1" "result-1" "default" "d" 0 6
def select : Call := .select "g" (some ⟨1, arm, "s-1"⟩) 8
def replay : Call := .replay wait 9 none

/-- The state that calls lead to from the first one. -/
def after (calls : List Call) : WaitStore Factory :=
  letI := documents
  letI := digests
  ((Run.start (.created factory) : FactoryRun).calls exec calls).state

theorem unregistered : Unregistered wait (.created factory) where
  sound := .created factory
  consistent := by
    refine ⟨fun x r h => ?_, fun x v h => ?_, fun x v h => ?_, fun x o h => ?_, fun x i h => ?_,
      fun x i h => ?_, fun row h => ?_, fun b hb x s hs hattempt => ?_⟩
    · cases h
    · cases h
    · cases h
    · cases h
    · cases h
    · cases h
    · cases h
    · obtain rfl : b = ⟨"g", 1, arm⟩ := List.mem_singleton.mp hb
      obtain rfl : s = ⟨"s-1", predecessor, 1, arm⟩ :=
        List.mem_singleton.mp (Table.mem_of_find hs)
      exact ⟨⟨"g", predecessor, some 1⟩, rfl, rfl⟩
  triggers tr h := by cases h
  absent := rfl

end Chosen

/-- The candidate is verified first and selected afterwards: the replay of the acceptance does not
wake the wait, since the candidate is held, and the selection that makes the task ready writes no
event. The replay after it reaches the head of the log without a wake. -/
theorem selection_loses_dependency_wake : letI := Chosen.documents
    letI := Chosen.digests
    let db := Chosen.after [Chosen.register, Chosen.accept, Chosen.replay, Chosen.select]
    ∃ r, (exec Chosen.replay db).1 = .ok (.replay r) ∧ r.wakeRequested = false ∧
      r.replayedThrough = (exec Chosen.replay db).2.head ∧
      (exec Chosen.replay db).2.world.dependencyWaitReady Chosen.dependent = .ok true :=
  ⟨⟨Chosen.wait, 1, 2, 0, false, false⟩, by decide +kernel, by decide +kernel, by decide +kernel,
    by decide +kernel⟩

/-- Selected before it is verified, the candidate loses nothing: the selection of an unverified
candidate leaves the task as it was, and the replay says so. -/
theorem dependency_wake_not_lost_selected_first : letI := Chosen.documents
    letI := Chosen.digests
    let db := Chosen.after [Chosen.register, Chosen.select]
    (∃ r, (exec Chosen.replay db).1 = .ok (.replay r) ∧ r.wakeRequested = false ∧
      r.replayedThrough = (exec Chosen.replay db).2.head) ∧
    (exec Chosen.replay db).2.world.dependencyWaitReady Chosen.dependent ≠ .ok true := by
  let := Chosen.documents
  let := Chosen.digests
  let row : WaitRow := ⟨Chosen.wait, Chosen.dependent, none, .dependencyEvidence, 1, 1, .waiting, none,
    false, 5, none⟩
  have hreplay : (exec Chosen.replay (Chosen.after [Chosen.register, Chosen.select])).1 =
      .ok (.replay ⟨Chosen.wait, 1, 1, 0, false, false⟩) := by decide +kernel
  have hhead : 1 = (exec Chosen.replay (Chosen.after [Chosen.register, Chosen.select])).2.head := by
    decide +kernel
  have hrow : (Chosen.after [Chosen.register, Chosen.select]).waits.find Chosen.wait = some row := by
    decide +kernel
  refine ⟨⟨_, hreplay, rfl, hhead⟩, dependency_wake_not_lost Chosen.unregistered
    [Chosen.register, Chosen.select] ⟨fun _ => rfl, fun _ => ?_, trivial⟩ hrow ⟨rfl, rfl, rfl⟩ 9 none
    hreplay rfl hhead⟩
  show silences (Chosen.after [Chosen.register]).world Chosen.dependent Chosen.select = false
  decide +kernel

end Herdr.Releases
