import Herdr.Lib.Watermark
import Herdr.Store.QueueReport
import Herdr.Verify.DependencyCheck
import Herdr.Verify.Scope

/-!
# The views of the queue agree

Where the report counts rows up to a cap, asks whether a row exists or takes the first grant, the
complete view counts, searches or filters the whole inventory. Each pair of answers is the same, so
the entries are; and the claims that are read once for all candidates conflict with those of a
candidate exactly when the overlap check reports a holder.
-/

namespace Herdr

/-! ## The stored graph -/

section Graph

variable {left right : List TaskId} {record : QueueRecord} {queue : List QueueRecord}

namespace QueueGraph

theorem addEdges_congr {deps : List Dependency} {seen : List TaskId} {g : QueueGraph}
    (h : ∀ d ∈ deps, d.predecessor ∈ left ↔ d.predecessor ∈ right) :
    addEdges left record seen g deps = addEdges right record seen g deps := by
  induction deps generalizing seen g with
  | nil => rfl
  | cons edge deps ih =>
    obtain ⟨hedge, hdeps⟩ := List.forall_mem_cons.mp h
    have hsame : g.addEdge left record seen edge = g.addEdge right record seen edge := by
      unfold addEdge
      simp only [hedge]
    rw [addEdges, addEdges, hsame]
    congr 1
    funext g'
    exact ih hdeps

theorem addRecords_congr {g : QueueGraph}
    (h : ∀ record ∈ queue, (record.task ∈ left ↔ record.task ∈ right) ∧
      ∀ d ∈ record.dependencies, d.predecessor ∈ left ↔ d.predecessor ∈ right) :
    addRecords left g queue = addRecords right g queue := by
  induction queue generalizing g with
  | nil => rfl
  | cons record queue ih =>
    obtain ⟨⟨htask, hdeps⟩, hqueue⟩ := List.forall_mem_cons.mp h
    unfold addRecords
    dsimp only
    rw [addEdges_congr hdeps]
    simp only [htask]
    split
    · rfl
    · congr 1
      funext g'
      exact ih hqueue

/-- What the records that could be added keep. -/
theorem addRecords_bounds {tasks : List TaskId} {g g' : QueueGraph}
    (h : addRecords tasks g queue = .ok g') (hg : g.edges ≤ 100000) :
    g'.edges = g.edges + (queue.map (·.dependencies.length)).sum ∧ g'.edges ≤ 100000 ∧
      ∀ record ∈ queue, record.task ∈ tasks ∧
        ∀ d ∈ record.dependencies, d.predecessor ∈ tasks := by
  have hdeps : ∀ {record : QueueRecord} {deps seen g g'}, g.edges ≤ 100000 →
      addEdges tasks record seen g deps = .ok g' →
      g'.edges ≤ 100000 ∧ ∀ d ∈ deps, d.predecessor ∈ tasks := by
    intro record deps
    induction deps with
    | nil =>
      intro seen g g' hg h
      cases h
      exact ⟨hg, by simp⟩
    | cons edge deps ih =>
      intro seen g g' hg h
      obtain ⟨g₁, h₁, hrest⟩ := Except.bind_ok.mp h
      unfold addEdge at h₁
      split at h₁
      · cases h₁
      split at h₁
      · cases h₁
      next hroom hgood =>
      cases h₁
      rw [not_or, not_or, not_not] at hgood
      obtain ⟨hbound, hknown⟩ := ih (by dsimp only; omega) hrest
      exact ⟨hbound, List.forall_mem_cons.mpr ⟨hgood.2.1, hknown⟩⟩
  induction queue generalizing g with
  | nil =>
    cases h
    exact ⟨by simp, hg, by simp⟩
  | cons record queue ih =>
    unfold addRecords at h
    dsimp only at h
    split at h
    · cases h
    next hknown =>
    rw [not_not] at hknown
    obtain ⟨g₁, h₁, hrest⟩ := Except.bind_ok.mp h
    obtain ⟨hbound, hpredecessors⟩ := hdeps (by exact hg) h₁
    obtain ⟨hedges, hlimit, hqueue⟩ := ih hrest hbound
    refine ⟨?_, hlimit, List.forall_mem_cons.mpr ⟨⟨hknown, hpredecessors⟩, hqueue⟩⟩
    rw [hedges, (addEdges_ok h₁).1, List.map_cons, List.sum_cons, Nat.add_assoc]

end QueueGraph

/-- The check depends only on which of the queued tasks and their predecessors are known. -/
theorem graphIds_congr
    (h : ∀ record ∈ queue, (record.task ∈ left ↔ record.task ∈ right) ∧
      ∀ d ∈ record.dependencies, d.predecessor ∈ left ↔ d.predecessor ∈ right) :
    graphIds left queue = graphIds right queue := by
  unfold graphIds
  rw [QueueGraph.addRecords_congr h]

/-- A queue that passes the check keeps the limits, and names known tasks. -/
theorem graphIds_bounds {tasks : List TaskId} (h : graphIds tasks queue = .ok ()) :
    queue.length ≤ 10000 ∧ (queue.map (·.dependencies.length)).sum ≤ 100000 ∧
      ∀ record ∈ queue, record.task ∈ tasks ∧
        ∀ d ∈ record.dependencies, d.predecessor ∈ tasks := by
  have hlen : queue.length ≤ 10000 := by
    by_contra hlong
    unfold graphIds at h
    dsimp only at h
    rw [if_pos (by omega)] at h
    cases h
  obtain ⟨g, hg, -⟩ := (graphIds_ok hlen).mp h
  obtain ⟨hedges, hbound, hknown⟩ := QueueGraph.addRecords_bounds hg (Nat.zero_le _)
  refine ⟨hlen, ?_, hknown⟩
  rw [hedges] at hbound
  simpa using hbound

end Graph

namespace QueueViews.AdmissionStore

variable [Documents] {s : AdmissionStore} {env : Evidence} {now : Int}

/-- The queue that the complete view checks is the one that the report checks. -/
theorem queueGraph_ok (h : graphIds (s.tasks.rows.map (·.id)) s.queueRows = .ok ()) :
    ∃ identities, s.queueGraph = .ok (identities, s.queueRows) := by
  obtain ⟨hlen, hsum, hknown⟩ := graphIds_bounds h
  have hfind : ∀ {id}, id ∈ s.tasks.rows.map (·.id) → s.tasks.find id ≠ none := by
    intro id hid hnone
    obtain ⟨task, htask, rfl⟩ := List.mem_map.mp hid
    rw [Table.find_of_mem htask] at hnone
    cases hnone
  have hsame : graphIds (s.queueRows.map (·.task) ++
      s.queueRows.flatMap fun q => q.dependencies.map (·.predecessor)) s.queueRows = .ok () := by
    rw [← h]
    apply graphIds_congr
    intro record hrecord
    refine ⟨⟨fun _ => (hknown record hrecord).1, fun _ => ?_⟩,
      fun d hd => ⟨fun _ => (hknown record hrecord).2 d hd, fun _ => ?_⟩⟩
    · exact List.mem_append_left _ (List.mem_map_of_mem hrecord)
    · exact List.mem_append_right _ (List.mem_flatMap.mpr
        ⟨record, hrecord, List.mem_map_of_mem hd⟩)
  have htasks : (s.queueRows.any fun q => (s.tasks.find q.task).isNone) = false := by
    rw [List.any_eq_false]
    intro record hrecord
    simpa using hfind (hknown record hrecord).1
  have hpredecessors : (s.queueRows.any fun q =>
      q.dependencies.any fun d => (s.tasks.find d.predecessor).isNone) = false := by
    rw [List.any_eq_false]
    intro record hrecord
    simpa using fun d hd => hfind ((hknown record hrecord).2 d hd)
  refine ⟨s.queueRows.map (·.task) ++
    s.queueRows.flatMap fun q => q.dependencies.map (·.predecessor), ?_⟩
  unfold queueGraph
  dsimp only
  rw [if_neg (by omega), htasks, if_neg (by simp), if_neg (by omega), hpredecessors,
    if_neg (by simp), hsame]
  rfl

/-! ## Tasks -/

/-- Every task that the loop was asked for is loaded as it is stored. -/
theorem loadTasks_ok {ids : List TaskId} {tasks : Table Task Task.id}
    (hids : ∀ id ∈ ids, (s.tasks.find id).isSome)
    (htasks : ∀ {id task}, tasks.find id = some task → s.tasks.find id = some task) :
    ∃ tasks', s.loadTasks tasks ids = .ok tasks' ∧
      ∀ {id}, id ∈ ids ∨ (tasks.find id).isSome → tasks'.find id = s.tasks.find id := by
  induction ids generalizing tasks with
  | nil =>
    refine ⟨tasks, rfl, fun {id} h => ?_⟩
    obtain ⟨task, htask⟩ := Option.isSome_iff_exists.mp (h.resolve_left List.not_mem_nil)
    rw [htask, htasks htask]
  | cons id ids ih =>
    obtain ⟨hid, hrest⟩ := List.forall_mem_cons.mp hids
    by_cases hloaded : (tasks.find id).isSome
    · obtain ⟨tasks', hload, hfind⟩ := ih hrest htasks
      rw [loadTasks, if_pos hloaded]
      refine ⟨tasks', hload, fun {id'} h => hfind ?_⟩
      rcases h with h | h
      · rcases List.mem_cons.mp h with rfl | h
        · exact .inr hloaded
        · exact .inl h
      · exact .inr h
    · obtain ⟨task, htask⟩ := Option.isSome_iff_exists.mp hid
      have hkey : task.id = id := Table.find_key htask
      obtain ⟨tasks', hload, hfind⟩ := @ih (tasks.upsert task) hrest (by
        intro id' task' h
        rw [Table.find_upsert] at h
        split at h
        · next he =>
          cases h
          rw [← he, hkey, htask]
        · exact htasks h)
      rw [loadTasks, if_neg hloaded, htask]
      refine ⟨tasks', hload, fun {id'} h => hfind ?_⟩
      rw [Table.find_upsert]
      rcases h with h | h
      · rcases List.mem_cons.mp h with rfl | h
        · right
          rw [if_pos hkey]
          rfl
        · exact .inl h
      · right
        split
        · rfl
        · exact h

theorem found_eq (id : TaskId) :
    found s.tasks.rows id = (match s.tasks.find id with
      | some task => .ok task
      | none => .error .conflict) := rfl

theorem edgeBlockers_congr {task : TaskId} {left right : TaskId → Except StoreError Task}
    {deps : List Dependency} (h : ∀ d ∈ deps, left d.predecessor = right d.predecessor) :
    s.edgeBlockers env task left deps = s.edgeBlockers env task right deps := by
  induction deps with
  | nil => rfl
  | cons edge deps ih =>
    obtain ⟨hedge, hdeps⟩ := List.forall_mem_cons.mp h
    rw [edgeBlockers, edgeBlockers, hedge, ih hdeps]

/-! ## Counts -/

/-- A count that stops at the cap reaches it when the whole count does. -/
theorem le_attemptCount {task : TaskId} {cap : Nat} :
    cap ≤ s.attemptCount task cap ↔
      cap ≤ (s.attempts.rows.filter fun a => a.task = task).length := by
  rw [attemptCount, List.length_take]
  omega

/-- A policy in force has bounds that SQLite can count to. -/
theorem currentBudget_bounded {policy : BudgetPolicy}
    (h : s.currentBudget = .ok (some policy)) {cap : Nat}
    (hcap : policy.limits.maxAttempts = some cap) : cap ≤ i64Max := by
  unfold currentBudget at h
  split at h
  · cases h
  next policy' _ =>
  cases hvalid : policy'.validate with
  | error e =>
    rw [hvalid] at h
    cases h
  | ok u =>
    rw [hvalid] at h
    cases h
    have hbounds := refuse_ok.mp hvalid
    simp only [hcap, Option.any_some, not_or, decide_eq_true_eq] at hbounds
    omega

/-- The blockers of the budget are those of its report. -/
theorem admissionBlockers_eq : s.admissionBlockers = s.reportedBlockers false := by
  unfold admissionBlockers reportedBlockers
  cases hpolicy : s.currentBudget with
  | error e => rfl
  | ok current =>
    cases current with
    | none => rfl
    | some policy =>
      refine congrArg Except.ok ?_
      unfold blockersForPolicy
      dsimp only
      refine congrArg₂ _ ?_ ?_
      · cases hcap : policy.limits.maxAttempts with
        | none => rfl
        | some cap =>
          have hbound := currentBudget_bounded hpolicy hcap
          simp only [Bool.toNat_false, Nat.add_zero, List.length_take, blocked, Option.any_some]
          congr 1
          simp [hbound]
      · split
        · rfl
        · cases policy.limits.maxProviderTokens with
          | none => rfl
          | some tokens => cases policy.limits.unknownUsage <;> rfl

/-! ## Approvals -/

section Approvals

variable [Digests]

theorem grantRow_ok {id : String} {grant : ApprovalGrant} (h : s.grantRow id = .ok grant) :
    ∃ row, s.grants.find id = some row ∧ row.grant = grant := by
  unfold grantRow at h
  cases hread : readGrant id s.toStore with
  | error e =>
    rw [hread] at h
    cases h
  | ok answer =>
    obtain ⟨read, t⟩ := answer
    rw [hread] at h
    cases h
    simp only [readGrant, Tx.find_bind, Tx.check_bind, Tx.require_bind, Tx.pure_ok] at hread
    obtain ⟨row, hrow, _, -, -, hgrant, -⟩ := hread
    exact ⟨row, hrow, hgrant⟩

/-- A record of the inventory holds the grant of its row and the use of it. -/
theorem approvalRecord_ok {row : GrantRow} {record : ApprovalRecord}
    (h : s.approvalRecord row = .ok record) :
    s.grantRow row.id = .ok record.grant ∧ record.consumed = s.uses.find row.id := by
  unfold approvalRecord at h
  obtain ⟨grant, hgrant, h⟩ := Except.bind_ok.mp h
  obtain ⟨-, -, h⟩ := Except.bind_ok.mp h
  obtain ⟨reference, -, h⟩ := Except.bind_ok.mp h
  cases h
  exact ⟨hgrant, rfl⟩

/-- Where the inventory of the approvals can be read, the first unused grant of a task is one that
the inventory has. -/
theorem unusedLaunchGrant_eq {approvals : List ApprovalRecord} (h : s.readApprovals = .ok approvals)
    (task : TaskId) :
    s.unusedLaunchGrant task = .ok (approvals.any fun record =>
      record.consumed.isNone && record.grant.scope.task = task) := by
  have hread : (s.grants.rows.insertionSort fun a b => a.id ≤ b.id).mapM s.approvalRecord =
      .ok approvals := by
    unfold readApprovals at h
    dsimp only at h
    split at h
    · cases h
    · exact h
  have hrecord : ∀ {row}, row ∈ s.grants.rows → ∃ record ∈ approvals,
      record.grant = row.grant ∧ record.consumed = s.uses.find row.id ∧
        s.grantRow row.id = .ok row.grant := by
    intro row hrow
    obtain ⟨record, hmem, hok⟩ := Watermark.exists_of_mapM hread row
      ((List.mem_insertionSort _).mpr hrow)
    obtain ⟨hgrant, hconsumed⟩ := approvalRecord_ok hok
    obtain ⟨row', hfind, hsame⟩ := grantRow_ok hgrant
    rw [Table.find_of_mem hrow, Option.some.injEq] at hfind
    subst hfind
    exact ⟨record, hmem, hsame.symm, hconsumed, hsame ▸ hgrant⟩
  have hsigned : (approvals.any fun record =>
      record.consumed.isNone && record.grant.scope.task = task) =
      s.grants.rows.any fun g => g.grant.scope.task = task && (s.uses.find g.id).isNone := by
    rw [Bool.eq_iff_iff, List.any_eq_true, List.any_eq_true]
    simp only [Bool.and_eq_true, decide_eq_true_eq]
    constructor
    · rintro ⟨record, hmem, hconsumed, htask⟩
      obtain ⟨row, hrow, hok⟩ := Watermark.mem_of_mapM hread record hmem
      obtain ⟨hgrant, hused⟩ := approvalRecord_ok hok
      obtain ⟨row', hfind, hsame⟩ := grantRow_ok hgrant
      have hrow := (List.mem_insertionSort _).mp hrow
      rw [Table.find_of_mem hrow, Option.some.injEq] at hfind
      subst hfind
      exact ⟨row, hrow, hsame ▸ htask, hused ▸ hconsumed⟩
    · rintro ⟨row, hrow, htask, hunused⟩
      obtain ⟨record, hmem, hgrant, hconsumed, -⟩ := hrecord hrow
      exact ⟨record, hmem, hconsumed ▸ hunused, hgrant ▸ htask⟩
  rw [hsigned]
  unfold unusedLaunchGrant
  cases hcandidates : (s.grants.rows.filter fun g =>
      g.grant.scope.task = task && (s.uses.find g.id).isNone).insertionSort
        fun a b => a.id ≤ b.id with
  | nil =>
    have hnone : (s.grants.rows.any fun g =>
        g.grant.scope.task = task && (s.uses.find g.id).isNone) = false := by
      rw [List.any_eq_false]
      intro g hg hselected
      have hmem : g ∈ (s.grants.rows.filter fun g =>
          g.grant.scope.task = task && (s.uses.find g.id).isNone).insertionSort
            fun a b => a.id ≤ b.id :=
        (List.mem_insertionSort _).mpr (List.mem_filter.mpr ⟨hg, hselected⟩)
      rw [hcandidates] at hmem
      exact List.not_mem_nil hmem
    rw [hnone]
    rfl
  | cons row rest =>
    have hmem : row ∈ s.grants.rows.filter fun g =>
        g.grant.scope.task = task && (s.uses.find g.id).isNone :=
      (List.mem_insertionSort _).mp (hcandidates ▸ List.mem_cons_self)
    obtain ⟨hrow, hselected⟩ := List.mem_filter.mp hmem
    have hsome : (s.grants.rows.any fun g =>
        g.grant.scope.task = task && (s.uses.find g.id).isNone) = true :=
      List.any_eq_true.mpr ⟨row, hrow, hselected⟩
    have htask : row.grant.scope.task = task := by
      simp only [Bool.and_eq_true, decide_eq_true_eq] at hselected
      exact hselected.1
    obtain ⟨-, -, -, -, hgrant⟩ := hrecord hrow
    rw [hsome, List.take_succ_cons, firstGrant, if_neg (by decide), hgrant]
    exact if_pos htask

end Approvals

/-! ## The entries -/

variable [Digests]

/-- The snapshot consists of the inventories of the state. -/
theorem readSnapshot_ok {snapshot : Snapshot} (h : s.readSnapshot = .ok snapshot) :
    ∃ scheduler approvals, s.policyRow = .ok scheduler.policy ∧
      graphIds (s.tasks.rows.map (·.id)) s.queueRows = .ok () ∧
      scheduler.queue = s.queueRows ∧ s.controlRow = .ok snapshot.control ∧
      s.readApprovals = .ok approvals ∧ snapshot =
        ⟨s.tasks.rows, s.attempts.rows, scheduler, snapshot.control, approvals⟩ := by
  unfold readSnapshot at h
  obtain ⟨scheduler, hscheduler, h⟩ := Except.bind_ok.mp h
  obtain ⟨control, hcontrol, h⟩ := Except.bind_ok.mp h
  obtain ⟨approvals, happrovals, h⟩ := Except.bind_ok.mp h
  cases h
  unfold readScheduler at hscheduler
  obtain ⟨policy, hpolicy, hscheduler⟩ := Except.bind_ok.mp hscheduler
  obtain ⟨u, hgraph, hscheduler⟩ := Except.bind_ok.mp hscheduler
  cases hscheduler
  exact ⟨_, approvals, hpolicy, hgraph, rfl, hcontrol, happrovals, rfl⟩

omit [Documents] [Digests] in
theorem blocked_congr {p q : Prop} [Decidable p] [Decidable q] (h : p ↔ q) (text : String) :
    blocked p text = blocked q text := by
  unfold blocked
  simp only [h]

/-- One turn of either loop makes the same entry. -/
theorem reportEntry_eq {scheduler : SchedulerSnapshot} {control : ProjectControl}
    {approvals : List ApprovalRecord} (happrovals : s.readApprovals = .ok approvals)
    {tasks : Table Task Task.id} {record : QueueRecord} {slots : Nat} {budget : List String}
    (htask : loaded tasks record.task = found s.tasks.rows record.task)
    (hpredecessors : ∀ d ∈ record.dependencies,
      loaded tasks d.predecessor = found s.tasks.rows d.predecessor) :
    s.reportEntry env now scheduler.policy control slots budget tasks record =
      s.blockersEntry env now ⟨s.tasks.rows, s.attempts.rows, scheduler, control, approvals⟩ slots
        budget record := by
  unfold reportEntry blockersEntry
  rw [htask]
  congr 1
  funext task
  congr 1
  funext bound
  dsimp only
  rw [edgeBlockers_congr hpredecessors]
  congr 1
  funext edgeBlockers
  congr 1
  funext capability
  rw [unusedLaunchGrant_eq happrovals]
  have hlimit := blocked_congr (@le_attemptCount _ s task.id scheduler.policy.maxAttemptsPerTask)
    "attempt_limit"
  have hlaunch : (fun a : Attempt => a.task = task.id && !a.terminationObserved &&
      [AttemptState.reserved, .launching, .running, .awaitingInput].contains a.state) =
      fun a => a.task = task.id && a.retainsCapacity && (a.state = .reserved ||
        a.state = .launching || a.state = .running || a.state = .awaitingInput) := by
    funext a
    cases a.state <;> rfl
  dsimp only [bind, Except.bind]
  rw [hlimit, hlaunch]
  rfl

/-- Where the complete inventories can be read and the clock is in range, the two views answer
alike. -/
theorem queueReportOn_entries {snapshot : Snapshot} (h : s.readSnapshot = .ok snapshot)
    (hnow : 0 ≤ now ∧ now ≤ i64Max - 600000) :
    (s.queueReportOn env now).map (·.entries) = s.queueBlockers env now snapshot := by
  obtain ⟨scheduler, approvals, hpolicy, hgraph, hqueue, hcontrol, happrovals, hsnapshot⟩ :=
    readSnapshot_ok h
  obtain ⟨identities, hidentities⟩ := queueGraph_ok hgraph
  obtain ⟨-, -, hknown⟩ := graphIds_bounds hgraph
  have hfind : ∀ id ∈ s.tasks.rows.map (·.id), (s.tasks.find id).isSome := by
    intro id hid
    obtain ⟨task, htask, rfl⟩ := List.mem_map.mp hid
    rw [Table.find_of_mem htask]
    rfl
  obtain ⟨tasks, hload, htasks⟩ := @loadTasks_ok _ s
    (s.queueRows.flatMap fun q => q.task :: q.dependencies.map (·.predecessor)) .empty (by
      intro id hid
      obtain ⟨record, hrecord, hid⟩ := List.mem_flatMap.mp hid
      rcases List.mem_cons.mp hid with rfl | hid
      · exact hfind _ (hknown record hrecord).1
      · obtain ⟨d, hd, rfl⟩ := List.mem_map.mp hid
        exact hfind _ ((hknown record hrecord).2 d hd)) (by simp)
  have hloaded : ∀ {id}, id ∈ s.tasks.rows.map (·.id) →
      (id ∈ s.queueRows.flatMap fun q => q.task :: q.dependencies.map (·.predecessor)) →
      loaded tasks id = found s.tasks.rows id := by
    intro id hid hqueued
    obtain ⟨task, htask⟩ := Option.isSome_iff_exists.mp (hfind id hid)
    rw [loaded, htasks (.inl hqueued), found_eq, htask]
  have hentries : ∀ record ∈ s.queueRows, ∀ budget : List String,
      s.reportEntry env now scheduler.policy snapshot.control
        (scheduler.policy.maxActiveWorkers -
          (s.attempts.rows.filter fun a => !a.terminationObserved).length) budget tasks record =
      s.blockersEntry env now snapshot (scheduler.policy.maxActiveWorkers -
          (s.attempts.rows.filter Attempt.retainsCapacity).length) budget record := by
    intro record hrecord budget
    obtain ⟨htask, hpredecessors⟩ := hknown record hrecord
    rw [hsnapshot]
    refine reportEntry_eq happrovals (hloaded htask ?_) fun d hd => hloaded (hpredecessors d hd) ?_
    · exact List.mem_flatMap.mpr ⟨record, hrecord, List.mem_cons_self⟩
    · exact List.mem_flatMap.mpr
        ⟨record, hrecord, List.mem_cons_of_mem _ (List.mem_map_of_mem hd)⟩
  have hclock : (nowCheck now s.toStore).map Prod.fst = .ok () := by
    rw [nowCheck, Tx.require, if_pos hnow]
    rfl
  have hretained : snapshot.attempts = s.attempts.rows ∧ snapshot.scheduler = scheduler := by
    rw [hsnapshot]
    exact ⟨rfl, rfl⟩
  unfold queueReportOn queueBlockers
  rw [hretained.1, hretained.2, hqueue, hclock, hpolicy, hidentities, hcontrol,
    admissionBlockers_eq]
  cases hbudget : s.reportedBlockers false with
  | error e => rfl
  | ok budget =>
    have hsame := Watermark.mapM_congr fun record hrecord => hentries record hrecord budget
    dsimp only [bind, Except.bind]
    rw [hload]
    dsimp only
    rw [hsame]
    cases s.queueRows.mapM (s.blockersEntry env now snapshot (scheduler.policy.maxActiveWorkers -
        (s.attempts.rows.filter Attempt.retainsCapacity).length) budget) <;> rfl

/-- A report is made only with the clock in range. -/
theorem nowCheck_of_report {report : QueueReport} (h : s.queueReportOn env now = .ok report) :
    0 ≤ now ∧ now ≤ i64Max - 600000 := by
  by_contra hclock
  unfold queueReportOn at h
  rw [nowCheck, Tx.require, if_neg hclock] at h
  cases h

end QueueViews.AdmissionStore

/-! ## The claims of the retained attempts -/

namespace ContractStore

variable [Documents] {s : ContractStore} {task : TaskId}

/-- The claims of a revision. -/
def claimsOf (s : ContractStore) (key : TaskId × Nat) : List ResourceClaim :=
  ((s.contracts.find key).map (·.contract.claims)).getD []

theorem claimRows_claimsOf (s : ContractStore) (key : TaskId × Nat) :
    s.claimRows key.1 key.2 = .ok (s.claimsOf key) :=
  claimRows_eq s key.1 key.2

/-- A claim of the candidate conflicts with one that is held. -/
def conflicts (candidate held : List ResourceClaim) : Bool :=
  candidate.any fun claim => held.any fun other => claimsConflict claim other

omit [Documents] in
theorem isSome_firstConflict {candidate held : List ResourceClaim} :
    (firstConflict candidate held).isSome = conflicts candidate held := by
  rw [Bool.eq_iff_iff, firstConflict, List.findSome?_isSome_iff, conflicts, List.any_eq_true]
  simp only [Option.isSome_map, List.find?_isSome, List.any_eq_true]

/-- The overlap check reports a holder exactly when some retained attempt of another task was
reserved under conflicting claims. -/
theorem isSome_overlapWithHolders {candidate : List ResourceClaim} (attempts : List Attempt) :
    ∃ overlap, s.overlapWithHolders task candidate attempts = .ok overlap ∧
      (overlap.isSome = true ↔ ∃ a ∈ attempts, a.retainsCapacity = true ∧ a.task ≠ task ∧
        ∃ revision, s.revisionAtReservation a.id a.task = some revision ∧
          conflicts candidate (s.claimsOf (a.task, revision)) = true) := by
  induction attempts with
  | nil => exact ⟨none, rfl, by simp⟩
  | cons attempt rest ih =>
    obtain ⟨overlap, hrest, hiff⟩ := ih
    rw [overlapWithHolders]
    simp only [List.exists_mem_cons_iff]
    split
    · next hskip =>
      refine ⟨overlap, hrest, ?_⟩
      rw [hiff]
      simp only [Bool.or_eq_true, Bool.not_eq_true', decide_eq_true_eq] at hskip
      grind
    next hcounts =>
    simp only [Bool.or_eq_true, Bool.not_eq_true', decide_eq_true_eq, not_or,
      Bool.not_eq_false] at hcounts
    cases hrevision : s.revisionAtReservation attempt.id attempt.task with
    | none =>
      refine ⟨overlap, hrest, ?_⟩
      rw [hiff]
      grind
    | some revision =>
      have hconflict := @isSome_firstConflict candidate (s.claimsOf (attempt.task, revision))
      have hclaims := s.claimRows_claimsOf (attempt.task, revision)
      dsimp only at hclaims ⊢
      rw [hclaims]
      simp only [bind, Except.bind]
      cases hfirst : firstConflict candidate (s.claimsOf (attempt.task, revision)) with
      | none =>
        rw [hfirst] at hconflict
        refine ⟨overlap, hrest, ?_⟩
        rw [hiff]
        grind
      | some pair =>
        rw [hfirst] at hconflict
        refine ⟨_, rfl, ?_⟩
        grind

/-- The holders that are kept: each contract once, and only those with claims. -/
theorem claimHolders_ok (seen : List (TaskId × Nat)) (attempts : List Attempt) :
    ∃ holders, s.claimHolders seen attempts = .ok holders ∧
      ∀ P : TaskId × List ResourceClaim → Bool, (∀ t, P (t, []) = false) →
        ((holders.any P = true ∨ ∃ key ∈ seen, P (key.1, s.claimsOf key) = true) ↔
          (∃ a ∈ attempts, ∃ revision, s.revisionAtReservation a.id a.task = some revision ∧
            P (a.task, s.claimsOf (a.task, revision)) = true) ∨
          ∃ key ∈ seen, P (key.1, s.claimsOf key) = true) := by
  induction attempts generalizing seen with
  | nil => exact ⟨[], rfl, by simp⟩
  | cons attempt rest ih =>
    rw [claimHolders]
    simp only [List.exists_mem_cons_iff]
    cases hrevision : s.revisionAtReservation attempt.id attempt.task with
    | none =>
      obtain ⟨holders, hrest, hiff⟩ := ih seen
      refine ⟨holders, hrest, fun P hP => ?_⟩
      rw [hiff P hP]
      grind
    | some revision =>
      dsimp only
      split
      · next hseen =>
        obtain ⟨holders, hrest, hiff⟩ := ih seen
        refine ⟨holders, hrest, fun P hP => ?_⟩
        rw [hiff P hP]
        grind
      · obtain ⟨holders, hrest, hiff⟩ := ih ((attempt.task, revision) :: seen)
        rw [claimRows_eq, hrest]
        refine ⟨_, rfl, fun P hP => ?_⟩
        have h := hiff P hP
        simp only [List.exists_mem_cons_iff] at h
        change ((if s.claimsOf (attempt.task, revision) = [] then holders
          else (attempt.task, s.claimsOf (attempt.task, revision)) :: holders).any P = true ∨ _) ↔ _
        split
        · next hempty =>
          have := hP attempt.task
          grind
        · rw [List.any_cons, Bool.or_eq_true]
          grind

/-- The claims that were read once conflict with those of a candidate exactly when the overlap
check reports a holder. -/
theorem admissionClaimOverlap_eq (hroom : s.retained.length ≤ 1024) :
    ∃ held, s.admissionRetainedClaims = .ok held ∧ ∀ (task : TaskId) (attempts : List Attempt),
      (∀ a, a ∈ s.retained ↔ a ∈ attempts ∧ a.retainsCapacity = true) →
      ∃ overlap, s.overlapWithRetained task attempts = .ok overlap ∧
        s.admissionClaimOverlap task held = .ok overlap.isSome := by
  have hread : s.readRetained =
      .ok (s.retained.insertionSort fun a b => a.id.val ≤ b.id.val) := by
    unfold readRetained
    dsimp only
    rw [List.take_of_length_le (by rw [List.length_insertionSort]; omega),
      if_neg (by rw [List.length_insertionSort]; omega)]
  obtain ⟨holders, hholders, hiff⟩ := s.claimHolders_ok []
    (s.retained.insertionSort fun a b => a.id.val ≤ b.id.val)
  refine ⟨⟨holders⟩, ?_, fun task attempts hattempts => ?_⟩
  · rw [admissionRetainedClaims, hread]
    change (s.claimHolders [] _ >>= _) = _
    rw [hholders]
    rfl
  unfold overlapWithRetained admissionClaimOverlap
  cases s.latestContractRevision task with
  | none => exact ⟨none, rfl, rfl⟩
  | some revision =>
    dsimp only
    rw [claimRows_eq]
    change ∃ overlap, (if s.claimsOf (task, revision) = [] then pure none
      else s.overlapWithHolders task (s.claimsOf (task, revision)) attempts) = .ok overlap ∧
      Except.ok (holders.any fun holder => holder.1 ≠ task &&
        conflicts (s.claimsOf (task, revision)) holder.2) = .ok overlap.isSome
    split
    · next hempty =>
      refine ⟨none, rfl, congrArg Except.ok ?_⟩
      rw [hempty]
      simp [conflicts]
    · obtain ⟨overlap, hoverlap, hsome⟩ :=
        @isSome_overlapWithHolders _ s task (s.claimsOf (task, revision)) attempts
      refine ⟨overlap, hoverlap, congrArg Except.ok ?_⟩
      have h := hiff (fun holder => holder.1 ≠ task &&
        conflicts (s.claimsOf (task, revision)) holder.2) (by simp [conflicts])
      simp only [List.not_mem_nil, false_and, exists_false, or_false, List.mem_insertionSort] at h
      rw [Bool.eq_iff_iff, h, hsome]
      simp only [hattempts, Bool.and_eq_true, decide_eq_true_eq]
      grind

end ContractStore

namespace QueueViews

open AdmissionStore

/-- **The views agree.** A report lists what `queue_blockers` makes of the complete inventories:
the same tasks in the same order, with the same priorities and blockers; with the clock in range
the two answer alike, failures included. And the claims that were read once for all candidates
conflict with those of a task exactly when the overlap check over the retained attempts reports a
holder. -/
theorem admission_views_agree [Documents] [Digests] (s : AdmissionStore) (env : Evidence) :
    (∀ (now : Int) (snapshot : Snapshot), s.readSnapshot = .ok snapshot →
      (∀ report, s.queueReportOn env now = .ok report →
        s.queueBlockers env now snapshot = .ok report.entries) ∧
      (0 ≤ now ∧ now ≤ i64Max - 600000 →
        (s.queueReportOn env now).map (·.entries) = s.queueBlockers env now snapshot)) ∧
    (s.retained.length ≤ 1024 → ∃ held, s.admissionRetainedClaims = .ok held ∧
      ∀ (task : TaskId) (attempts : List Attempt),
        (∀ a, a ∈ s.retained ↔ a ∈ attempts ∧ a.retainsCapacity = true) →
        ∃ overlap, s.overlapWithRetained task attempts = .ok overlap ∧
          s.admissionClaimOverlap task held = .ok overlap.isSome) := by
  refine ⟨fun now snapshot hsnapshot => ⟨fun report hreport => ?_, fun hclock =>
    queueReportOn_entries hsnapshot hclock⟩, ContractStore.admissionClaimOverlap_eq⟩
  rw [← queueReportOn_entries hsnapshot (nowCheck_of_report hreport), hreport]
  rfl

/-! ## A queue behind two retained attempts -/

namespace Waiting

section

attribute [local instance] Scoped.documents Scoped.digests

/-- Two tasks hold their claims, and a third one waits for the first. -/
def store : AdmissionStore where
  toContractStore := { Scoped.project with
    queue := ⟨[⟨⟨"left"⟩, 0, 0, 1, []⟩, ⟨⟨"right"⟩, 0, 0, 2, []⟩,
      ⟨⟨"clash"⟩, 5, 0, 3, [⟨⟨"left"⟩, .verifiedResult⟩]⟩], by decide⟩ }
  budgets := [⟨1, "/state.db", 1, ⟨"owner", 1,
    "bbbbbbbbbbbbbbbbbbbbbbbbbbbbbbbbbbbbbbbbbbbbbbbbbbbbbbbbbbbbbbbb"⟩, some 2, none, .refuse⟩]
  factoryAdmission := true

def evidence : Evidence where
  verifiedCounts _ _ := .ok false
  integratedCounts _ _ := .ok false
  selectedLevels _ _ := .ok []

/-- The four views of the store that the theorem below is used at. -/
theorem store_views : (store.readSnapshot).toOption.isSome = true ∧
    (store.queueReportOn evidence 120000).map (fun report =>
      report.entries.map fun entry => (entry.task.val, entry.effectivePriority, entry.blockers)) =
    .ok [
      ("clash", 7, ["contract_dependency_mismatch", "capacity_full",
        "verified_dependency_evidence_unavailable:left:verified_result",
        "attempt_budget_exhausted", "owner_signature_not_scheduled",
        "launch_reserve_not_scheduled", "controller_requires_reserved_attempt"]),
      ("left", 2, ["task_state:Running", "capacity_full", "task_capacity_retained",
        "attempt_budget_exhausted"]),
      ("right", 2, ["task_state:Running", "capacity_full", "task_capacity_retained",
        "attempt_budget_exhausted"])] ∧
    store.retained.length ≤ 1024 ∧
    (store.overlapWithRetained ⟨"clash"⟩ store.retained).map Option.isSome = .ok true := by
  decide +kernel

end

end Waiting

/-- The theorem where a third task waits behind two that hold their claims. -/
theorem admission_views_agree_waiting :
    letI := Scoped.documents
    letI := Scoped.digests
    (∃ snapshot, (Waiting.store.queueBlockers Waiting.evidence 120000 snapshot).map (fun entries =>
      entries.map fun entry => (entry.task.val, entry.blockers.length)) =
        .ok [("clash", 7), ("left", 4), ("right", 4)]) ∧
    ∃ held, Waiting.store.admissionRetainedClaims = .ok held ∧
      Waiting.store.admissionClaimOverlap ⟨"clash"⟩ held = .ok true := by
  let _ := Scoped.documents
  let _ := Scoped.digests
  obtain ⟨hviews, hclaims⟩ := admission_views_agree Waiting.store Waiting.evidence
  obtain ⟨hread, hblockers, hretained, hsome⟩ := Waiting.store_views
  constructor
  · cases hsnapshot : Waiting.store.readSnapshot with
    | error e =>
      rw [hsnapshot] at hread
      cases hread
    | ok snapshot =>
      refine ⟨snapshot, ?_⟩
      cases hreport : Waiting.store.queueReportOn Waiting.evidence 120000 with
      | error e =>
        rw [hreport] at hblockers
        cases hblockers
      | ok report =>
        rw [hreport] at hblockers
        rw [(hviews 120000 snapshot hsnapshot).1 report hreport]
        have hentries := congrArg (List.map fun entry : String × Int × List String =>
          (entry.1, entry.2.2.length)) (Except.ok.inj hblockers)
        rw [List.map_map] at hentries
        exact congrArg Except.ok hentries
  · obtain ⟨held, hheld, hoverlap⟩ := hclaims hretained
    obtain ⟨overlap, hok, hanswer⟩ := hoverlap ⟨"clash"⟩ Waiting.store.retained (by
      intro a
      rw [Store.retained, List.mem_filter]
      grind)
    rw [hok] at hsome
    exact ⟨held, hheld, hanswer.trans hsome⟩

end QueueViews

end Herdr
