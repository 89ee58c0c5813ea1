import Herdr.Store.ContractGraph
import Herdr.Verify.Scope
import Mathlib.Algebra.Order.BigOperators.Group.List
import Mathlib.Algebra.Order.Group.Nat

/-!
# Contract dependencies stay acyclic

The validation answers `Ok` exactly when the graph that is reachable from the proposed task can be
read within the limits and has no cycle. An installation changes the prerequisites of one task, so
a new cycle would pass through it.
-/

namespace Herdr

open Relation GraphSearch

section Validation

variable [Documents]

/-! ## The graph that is validated -/

namespace GraphReads

variable (r : GraphReads) (proposed : PreparedContract)

/-- The prerequisites that count for a task: those proposed, those of its latest contract, or those
of the queue. -/
def edges (task : TaskId) : List TaskId :=
  if task = proposed.taskId then proposed.predecessors
  else match r.contractRow task with
    | some (raw, _) =>
      match PreparedContract.parseVerified raw with
      | .ok contract => contract.predecessors
      | .error _ => []
    | none => r.queueRows task

/-- The bytes read for a task. -/
def size (task : TaskId) : Nat :=
  if task = proposed.taskId then 0 else ((r.contractRow task).map fun row => row.1.length).getD 0

/-- The prerequisites of a task can be read. -/
def Readable (task : TaskId) : Prop :=
  task ≠ proposed.taskId →
    match r.contractRow task with
    | some (raw, digest) => raw.length ≤ 65536 ∧ ∃ contract,
        PreparedContract.parseVerified raw = .ok contract ∧ contract.digest = digest ∧
        contract.taskId = task ∧ contract.projectStore = proposed.projectStore
    | none => (r.queueRows task).length ≤ 256

/-- `b` is a prerequisite of `a`. -/
def Requires (a b : TaskId) : Prop := b ∈ r.edges proposed a

/-- The tasks that the validation has to look at. -/
def Reachable (task : TaskId) : Prop := ReflTransGen (r.Requires proposed) proposed.taskId task

/-- The reachable tasks, each once, keep the limits of the validation. -/
structure Inventory (tasks : List TaskId) : Prop where
  nodup : tasks.Nodup
  mem_iff : ∀ {task}, task ∈ tasks ↔ r.Reachable proposed task
  readable : ∀ task ∈ tasks, r.Readable proposed task
  count : tasks.length ≤ maxTasks
  bytes : (tasks.map (r.size proposed)).sum ≤ maxBytes
  edges : (tasks.map fun task => (r.edges proposed task).length).sum ≤ maxEdges

def WithinLimits : Prop := ∃ tasks, r.Inventory proposed tasks

/-- No task that is reachable from the proposed one is its own prerequisite. -/
def NoCycle : Prop := ∀ task, r.Reachable proposed task → ¬TransGen (r.Requires proposed) task task

variable {r proposed}

/-- What the queries of one task answer. -/
theorem dependencies_ok {bytes bytes' : Nat} {task : TaskId} {next : List TaskId}
    (hbytes : bytes ≤ maxBytes) :
    r.dependencies proposed bytes task = .ok (next, bytes') ↔
      r.Readable proposed task ∧ bytes + r.size proposed task ≤ maxBytes ∧
        next = r.edges proposed task ∧ bytes' = bytes + r.size proposed task := by
  unfold dependencies Readable size edges
  by_cases htask : task = proposed.taskId
  · simp only [if_pos htask, Except.ok.injEq, Prod.mk.injEq]
    grind
  simp only [if_neg htask]
  cases hrow : r.contractRow task with
  | some row =>
    obtain ⟨raw, digest⟩ := row
    by_cases hlen : 65536 < raw.length
    · simp only [if_pos hlen]
      grind
    by_cases hsum : maxBytes < bytes + raw.length
    · simp only [if_neg hlen, if_pos hsum, Option.map_some, Option.getD_some]
      grind
    cases hparse : PreparedContract.parseVerified raw with
    | error e =>
      simp only [if_neg hlen, if_neg hsum]
      grind
    | ok contract =>
      simp only [if_neg hlen, if_neg hsum, Option.map_some, Option.getD_some]
      grind
  | none =>
    by_cases hlen : 256 < ((r.queueRows task).take 257).length
    · rw [List.length_take] at hlen
      simp only [List.length_take, Option.map_none, Option.getD_none]
      grind
    · rw [List.length_take] at hlen
      have htake : (r.queueRows task).take 257 = r.queueRows task :=
        List.take_of_length_le (by omega)
      simp only [htake, Option.map_none, Option.getD_none]
      grind

/-- What one turn of the collecting loop adds. -/
theorem collectTask_ok {task : TaskId} {collected collected' : CollectedGraph}
    {next : List TaskId} (hbytes : collected.bytes ≤ maxBytes) :
    r.collectTask proposed task collected = .ok (next, collected') ↔
      r.Readable proposed task ∧ collected.bytes + r.size proposed task ≤ maxBytes ∧
        collected.edges + (r.edges proposed task).length ≤ maxEdges ∧
        next = r.edges proposed task ∧
        collected' = ⟨collected.graph.upsert (task, r.edges proposed task),
          collected.bytes + r.size proposed task,
          collected.edges + (r.edges proposed task).length⟩ := by
  unfold collectTask
  cases h : r.dependencies proposed collected.bytes task with
  | error e =>
    refine ⟨nofun, ?_⟩
    rintro ⟨hread, hroom, -, -, -⟩
    rw [(dependencies_ok hbytes).mpr ⟨hread, hroom, rfl, rfl⟩] at h
    cases h
  | ok answer =>
    obtain ⟨hread, hroom, hnext, hsize⟩ := (dependencies_ok hbytes).mp h
    obtain ⟨dependencies, bytes⟩ := answer
    dsimp only at hnext hsize ⊢
    subst hnext hsize
    split
    · next hedges =>
      refine ⟨nofun, ?_⟩
      rintro ⟨-, -, hroom, -, -⟩
      omega
    · next hedges =>
      simp only [Except.ok.injEq, Prod.mk.injEq]
      constructor
      · rintro ⟨rfl, rfl⟩
        exact ⟨hread, hroom, by omega, rfl, rfl⟩
      · rintro ⟨-, -, -, rfl, rfl⟩
        exact ⟨rfl, rfl⟩

/-- The sums that the limits are about. -/
theorem sweep_ok {order : List TaskId} {collected out : CollectedGraph}
    (hbytes : collected.bytes ≤ maxBytes) (hedges : collected.edges ≤ maxEdges) :
    sweep (r.collectTask proposed) order collected = .ok out ↔
      (∀ task ∈ order, r.Readable proposed task) ∧
        collected.bytes + (order.map (r.size proposed)).sum ≤ maxBytes ∧
        collected.edges + (order.map fun task => (r.edges proposed task).length).sum ≤ maxEdges ∧
        out = ⟨order.foldl (fun g task => g.upsert (task, r.edges proposed task)) collected.graph,
          collected.bytes + (order.map (r.size proposed)).sum,
          collected.edges + (order.map fun task => (r.edges proposed task).length).sum⟩ := by
  induction order generalizing collected with
  | nil =>
    constructor
    · intro h
      cases h
      exact ⟨by simp, by simpa, by simpa, rfl⟩
    · rintro ⟨-, -, -, rfl⟩
      rfl
  | cons task order ih =>
    rw [sweep_cons_ok]
    simp only [List.map_cons, List.sum_cons, List.foldl_cons, List.forall_mem_cons]
    constructor
    · rintro ⟨next, mid, htask, hrest⟩
      obtain ⟨hread, hroom, hroom', -, rfl⟩ := (collectTask_ok hbytes).mp htask
      obtain ⟨hreads, hsum, hsum', rfl⟩ := (ih hroom hroom').mp hrest
      dsimp only at hsum hsum' ⊢
      refine ⟨⟨hread, hreads⟩, by omega, by omega, ?_⟩
      simp only [Nat.add_assoc]
    · rintro ⟨⟨hread, hreads⟩, hsum, hsum', rfl⟩
      have hroom : collected.bytes + r.size proposed task ≤ maxBytes := by omega
      have hroom' : collected.edges + (r.edges proposed task).length ≤ maxEdges := by omega
      refine ⟨_, _, (collectTask_ok hbytes).mpr ⟨hread, hroom, hroom', rfl, rfl⟩,
        (ih hroom hroom').mpr ⟨hreads, ?_, ?_, ?_⟩⟩
      · dsimp only
        omega
      · dsimp only
        omega
      · simp only [Nat.add_assoc]

/-- The collected graph maps every task to its prerequisites. -/
theorem find_foldl_upsert {order : List TaskId} {graph : Table (TaskId × List TaskId) Prod.fst}
    {task : TaskId} (htask : task ∈ order ∨ graph.find task = some (task, r.edges proposed task)) :
    (order.foldl (fun g task => g.upsert (task, r.edges proposed task)) graph).find task =
      some (task, r.edges proposed task) := by
  induction order generalizing graph with
  | nil => exact htask.resolve_left List.not_mem_nil
  | cons first order ih =>
    apply ih
    rw [Table.find_upsert]
    by_cases he : first = task
    · exact .inr (by simp [he])
    · simpa [he, Ne.symm he] using htask

theorem collectTask_next (task : TaskId) (collected : CollectedGraph) (next : List TaskId)
    (collected' : CollectedGraph) (h : r.collectTask proposed task collected = .ok (next, collected')) :
    next = r.edges proposed task := by
  have hnext : ∀ {bytes bytes' next}, r.dependencies proposed bytes task = .ok (next, bytes') →
      next = r.edges proposed task := by
    intro bytes bytes' next hread
    unfold dependencies at hread
    unfold edges
    grind [List.take_of_length_le, List.length_take]
  unfold collectTask at h
  split at h
  · cases h
  · next hread =>
    split at h
    · cases h
    · cases h
      exact hnext hread

/-! ### Collecting -/

/-- Collecting that succeeds has kept the limits, and holds what is reachable. -/
theorem withinLimits_of_collect {out : CollectedGraph} (h : r.collect proposed = .ok out) :
    r.WithinLimits proposed ∧ ∀ task, r.Reachable proposed task →
      out.graph.find task = some (task, r.edges proposed task) := by
  obtain ⟨order, hswept, hcount, hout⟩ :=
    explore_sound (fun _ _ _ => List.mem_append) collectTask_next (Nat.zero_le _) h
  have hmem : ∀ {task}, task ∈ order ↔ r.Reachable proposed task :=
    hswept.mem_iff fun _ _ he => he
  obtain ⟨hreads, hbytes, hedges, rfl⟩ := (sweep_ok (Nat.zero_le _) (Nat.zero_le _)).mp hout
  simp only [Nat.zero_add] at hbytes hedges
  refine ⟨⟨order, ?_, hmem, hreads, by simpa using hcount, hbytes, hedges⟩, ?_⟩
  · simpa using hswept.nodup
  · exact fun task htask => find_foldl_upsert (.inl (hmem.mpr htask))

omit [Documents] in
/-- The sum over some of the tasks is at most the sum over all. -/
theorem sum_le_of_subset {order tasks : List TaskId} (f : TaskId → Nat) (hnodup : order.Nodup)
    (hsub : order ⊆ tasks) : (order.map f).sum ≤ (tasks.map f).sum := by
  obtain ⟨part, hperm, hpart⟩ := List.subperm_of_subset hnodup hsub
  rw [← (hperm.map f).sum_eq]
  exact (hpart.map f).sum_le_sum fun _ _ => Nat.zero_le _

/-- Within the limits collecting succeeds, whatever the order of the queue. -/
theorem exists_collect (h : r.WithinLimits proposed) : ∃ out, r.collect proposed = .ok out := by
  obtain ⟨tasks, hinventory⟩ := h
  have hreads : ∀ order : List TaskId, (order.map id).Nodup →
      (∀ task ∈ order, ∃ p ∈ [proposed.taskId], ReflTransGen (r.Requires proposed) p task) →
      order.length ≤ maxTasks ∧ ∃ out, sweep (r.collectTask proposed) order {} = .ok out := by
    intro order hnodup hreached
    have hreach : order ⊆ tasks := by
      intro task htask
      obtain ⟨p, hp, hpt⟩ := hreached task htask
      rw [List.mem_singleton.mp hp] at hpt
      exact hinventory.mem_iff.mpr hpt
    rw [List.map_id] at hnodup
    have hsums := fun f => sum_le_of_subset f hnodup hreach
    refine ⟨?_, _, (sweep_ok (Nat.zero_le _) (Nat.zero_le _)).mpr ⟨?_, ?_, ?_, rfl⟩⟩
    · exact (List.subperm_of_subset hnodup hreach).length_le.trans hinventory.count
    · exact fun task htask => hinventory.readable task (hreach htask)
    · have := hsums (r.size proposed)
      have := hinventory.bytes
      dsimp only
      omega
    · have := hsums fun task => (r.edges proposed task).length
      have := hinventory.edges
      dsimp only
      omega
  exact explore_complete (fun _ _ _ => List.mem_append) collectTask_next hreads [] rfl
    List.nodup_nil rfl fun task htask => ⟨task, by simpa using htask, .refl⟩

/-! ### The answer -/

/-- On a graph within the limits the validation decides whether there is a cycle. -/
theorem validateDependencyGraph_of_withinLimits (h : r.WithinLimits proposed) :
    (r.validateDependencyGraph proposed = some (.ok ()) ∧ r.NoCycle proposed) ∨
      (r.validateDependencyGraph proposed = some (.error (invalid "contract dependency cycle")) ∧
        ¬r.NoCycle proposed) := by
  obtain ⟨collected, hcollect⟩ := exists_collect h
  obtain ⟨hacyclic, hmissing⟩ := depthFirst_iff (withinLimits_of_collect hcollect).2
  simp only [validateDependencyGraph, hcollect]
  cases hverdict : depthFirst collected.graph ∅ ∅ [(proposed.taskId, false)] with
  | acyclic => exact .inl ⟨rfl, hacyclic.mp hverdict⟩
  | cycle =>
    refine .inr ⟨rfl, fun hno => ?_⟩
    have hok := hacyclic.mpr hno
    rw [hverdict] at hok
    cases hok
  | missing => exact absurd hverdict hmissing

/-- The validation always answers, and with `Ok` only within the limits. -/
theorem validateDependencyGraph_answers :
    ∃ answer, r.validateDependencyGraph proposed = some answer ∧
      (answer = .ok () → r.WithinLimits proposed) := by
  cases hcollect : r.collect proposed with
  | error e =>
    refine ⟨.error e, ?_, nofun⟩
    rw [validateDependencyGraph, hcollect]
  | ok collected =>
    have hlimits := (withinLimits_of_collect hcollect).1
    obtain ⟨hanswer, -⟩ | ⟨hanswer, -⟩ := validateDependencyGraph_of_withinLimits hlimits
    · exact ⟨_, hanswer, fun _ => hlimits⟩
    · exact ⟨_, hanswer, fun _ => hlimits⟩

/-- The validation answers `Ok` exactly on the graphs that are within the limits and have no
cycle. -/
theorem validateDependencyGraph_ok :
    r.validateDependencyGraph proposed = some (.ok ()) ↔
      r.WithinLimits proposed ∧ r.NoCycle proposed := by
  constructor
  · intro h
    obtain ⟨answer, hanswer, hlimits⟩ := validateDependencyGraph_answers
    rw [h, Option.some.injEq] at hanswer
    have hwithin := hlimits hanswer.symm
    obtain ⟨-, hno⟩ | ⟨hcycle, -⟩ := validateDependencyGraph_of_withinLimits hwithin
    · exact ⟨hwithin, hno⟩
    · rw [h] at hcycle
      cases hcycle
  · rintro ⟨hwithin, hno⟩
    obtain ⟨hok, -⟩ | ⟨-, hcycle⟩ := validateDependencyGraph_of_withinLimits hwithin
    · exact hok
    · exact absurd hno hcycle

/-- Which edges there are decides the answer, not their order or number. -/
theorem validateDependencyGraph_congr {r' : GraphReads} {proposed' : PreparedContract}
    (htask : proposed'.taskId = proposed.taskId)
    (hedges : ∀ a b, r'.Requires proposed' a b ↔ r.Requires proposed a b)
    (hwithin : r.WithinLimits proposed) (hwithin' : r'.WithinLimits proposed') :
    r'.validateDependencyGraph proposed' = r.validateDependencyGraph proposed := by
  have hrequires : r'.Requires proposed' = r.Requires proposed := by
    funext a b
    exact propext (hedges a b)
  have hno : r'.NoCycle proposed' ↔ r.NoCycle proposed := by
    unfold NoCycle Reachable
    rw [hrequires, htask]
  obtain ⟨hleft, h⟩ | ⟨hleft, h⟩ := validateDependencyGraph_of_withinLimits hwithin <;>
    obtain ⟨hright, h'⟩ | ⟨hright, h'⟩ := validateDependencyGraph_of_withinLimits hwithin'
  · rw [hleft, hright]
  · exact absurd (hno.mpr h) h'
  · exact absurd (hno.mp h') h
  · rw [hleft, hright]

end GraphReads

/-! ## Installations -/

section Installations

variable {s s' : ContractStore} {task : TaskId}

/-- Accepted bytes are those that are kept. -/
theorem parseVerified_raw {raw : List UInt8} {contract : PreparedContract}
    (h : PreparedContract.parseVerified raw = .ok contract) : contract.raw = raw := by
  simp only [PreparedContract.parseVerified, Except.bind_ok] at h
  obtain ⟨-, -, h⟩ := h
  split at h
  · cases h
  · simp only [UntrustedContractDocument.intoPrepared, Except.bind_ok] at h
    obtain ⟨-, -, -, -, _, -, -, -, -, -, -, -, -, -, _, -, _, -, _, -, _, -, h⟩ := h
    cases h
    rfl

theorem AcceptedContract.reparse (contract : AcceptedContract) :
    PreparedContract.parseVerified contract.raw = .ok contract.toPreparedContract := by
  obtain ⟨raw, h⟩ := contract.accepted
  rw [parseVerified_raw h]
  exact h

theorem acceptContract_ok {raw : List UInt8} {parsed : AcceptedContract}
    (h : acceptContract raw = .ok parsed) :
    PreparedContract.parseVerified raw = .ok parsed.toPreparedContract := by
  unfold acceptContract at h
  split at h
  · next hparse =>
    cases h
    exact hparse
  · cases h

namespace ContractStore

/-- The authoritative prerequisites of a task. -/
def prerequisites (s : ContractStore) (task : TaskId) : List TaskId :=
  match s.latestContract task with
  | some contract => contract.predecessors
  | none => s.queuePredecessors task

/-- `b` is a prerequisite of `a`. -/
def Requires (s : ContractStore) (a b : TaskId) : Prop := b ∈ s.prerequisites a

/-- The validation of a contract sees the authoritative prerequisites of every other task. -/
theorem edges_graphReads {proposed : PreparedContract} :
    s.graphReads.edges proposed task =
      if task = proposed.taskId then proposed.predecessors else s.prerequisites task := by
  unfold GraphReads.edges graphReads prerequisites
  split
  · rfl
  · cases hlatest : s.latestContract task with
    | none => simp only [hlatest, Option.map_none]
    | some contract => simp only [hlatest, Option.map_some, contract.reparse]

end ContractStore

/-- An installation that succeeds is a read, or passed the validation and added the next revision of
its task. -/
theorem installContract_next {env : InstallOutside} {prepared : PreparedContract}
    {result : ContractInstall} (h : installContract env prepared s = .ok (result, s')) :
    s' = s ∨ ∃ parsed : AcceptedContract, ∃ sequence,
      (s.latestContractRevision parsed.taskId).getD 0 + 1 = parsed.contractRevision ∧
      env.dependencyGraph parsed.toPreparedContract = none ∧
      s.contracts.insert? ⟨parsed, sequence⟩ = some s'.contracts ∧ s'.queue = s.queue := by
  simp only [installContract, Tx.check_bind, Tx.require_bind, Tx.ask_bind, Tx.outside_bind] at h
  obtain ⟨parsed, -, -, -, -, h⟩ := h
  cases hexisting : s.contracts.find (parsed.taskId, parsed.contractRevision) with
  | some row =>
    rw [hexisting] at h
    simp only [Tx.require_bind, Tx.pure_ok] at h
    exact .inl h.2.2.2.symm
  | none =>
    rw [hexisting] at h
    simp only [installFresh, Tx.ask_bind, Tx.require_bind, Tx.outside_bind, Tx.write_bind,
      Tx.insert_bind, Tx.pure_ok] at h
    obtain ⟨hnext, -, -, hgraph, -, t, hinsert, -, -, rfl⟩ := h
    obtain ⟨rows, hrows, rfl⟩ := Option.map_eq_some_iff.mp hinsert
    exact .inr ⟨parsed, _, hnext, hgraph, hrows, rfl⟩

/-- The new revision is the latest of its task, and the other tasks keep theirs. -/
theorem latestContract_insert {parsed : AcceptedContract} {sequence : Nat}
    (hnext : (s.latestContractRevision parsed.taskId).getD 0 + 1 = parsed.contractRevision)
    (hinsert : s.contracts.insert? ⟨parsed, sequence⟩ = some s'.contracts) :
    s'.latestContract task = if task = parsed.taskId then some parsed else s.latestContract task := by
  have hrows := (Table.insert?_eq_some hinsert).2
  by_cases htask : task = parsed.taskId
  · subst htask
    have hmax : s'.latestContractRevision parsed.taskId = some parsed.contractRevision := by
      unfold ContractStore.latestContractRevision ContractStore.revisions
      rw [hrows, List.filter_append, List.map_append, List.max?_eq_some_iff]
      simp only [List.mem_append]
      refine ⟨.inr (by simp), fun revision hrevision => ?_⟩
      rcases hrevision with hrevision | hrevision
      · have hle : revision ≤ (s.latestContractRevision parsed.taskId).getD 0 :=
          List.le_max?_getD_of_mem hrevision
        omega
      · obtain rfl : revision = parsed.contractRevision := by simpa using hrevision
        exact Nat.le_refl _
    unfold ContractStore.latestContract
    rw [hmax, Option.bind_some, Table.find_insert? hinsert, if_pos rfl]
    exact congrArg _ (if_pos rfl)
  · have hrevision : s'.latestContractRevision task = s.latestContractRevision task := by
      unfold ContractStore.latestContractRevision ContractStore.revisions
      rw [hrows]
      simp [List.filter_append, Ne.symm htask]
    unfold ContractStore.latestContract
    rw [hrevision, if_neg htask]
    congr 1
    funext revision
    rw [Table.find_insert? hinsert, if_neg]
    rintro he
    exact htask (congrArg Prod.fst he).symm

namespace ContractStore

/-- An installation, or another writer that changes neither contracts nor the queue. -/
inductive Installs (s : ContractStore) : ContractStore → Prop
  | install (env : InstallOutside) (prepared : PreparedContract) :
    Installs s ((installContract (s.validating env) prepared).commit s).2
  | elsewhere {s' : ContractStore} (hcontracts : s'.contracts = s.contracts)
    (hqueue : s'.queue = s.queue) : Installs s s'

theorem prerequisites_congr (hcontracts : s'.contracts = s.contracts) (hqueue : s'.queue = s.queue) :
    s'.Requires = s.Requires := by
  unfold Requires prerequisites latestContract latestContractRevision revisions queuePredecessors
  rw [hcontracts, hqueue]

/-- Of the installed contracts only the new one is new to the graph. -/
theorem requires_install {parsed : AcceptedContract} {sequence : Nat}
    (hnext : (s.latestContractRevision parsed.taskId).getD 0 + 1 = parsed.contractRevision)
    (hinsert : s.contracts.insert? ⟨parsed, sequence⟩ = some s'.contracts)
    (hqueue : s'.queue = s.queue) :
    s'.Requires = s.graphReads.Requires parsed.toPreparedContract := by
  funext a b
  unfold Requires GraphReads.Requires
  rw [edges_graphReads, prerequisites, latestContract_insert hnext hinsert]
  by_cases ha : a = parsed.taskId
  · rw [if_pos ha, if_pos ha]
  · rw [if_neg ha, if_neg ha, prerequisites]
    unfold queuePredecessors
    rw [hqueue]

/-- **The step lemma.** -/
theorem Installs.acyclic (h : s.Installs s') (hacyclic : Topological.Acyclic s.Requires) :
    Topological.Acyclic s'.Requires := by
  cases h with
  | elsewhere hcontracts hqueue =>
    rw [prerequisites_congr hcontracts hqueue]
    exact hacyclic
  | install env prepared =>
    obtain ⟨result, s', hbody, hcommit⟩ | ⟨e, -, hcommit⟩ :=
      Tx.commit_eq (installContract (s.validating env) prepared) s
    · rw [hcommit]
      obtain rfl | ⟨parsed, sequence, hnext, hgraph, hinsert, hqueue⟩ := installContract_next hbody
      · exact hacyclic
      have hok : s.graphReads.validateDependencyGraph parsed.toPreparedContract = some (.ok ()) := by
        have hrefusal : s.graphReads.refusal parsed.toPreparedContract = none := hgraph
        unfold GraphReads.refusal at hrefusal
        split at hrefusal
        · assumption
        · cases hrefusal
        · cases hrefusal
      have hno := (GraphReads.validateDependencyGraph_ok.mp hok).2
      rw [requires_install hnext hinsert hqueue]
      refine hacyclic.of_source (fun ha hab => ?_) (hno parsed.taskId .refl)
      rwa [GraphReads.Requires, edges_graphReads, if_neg ha] at hab
    · rw [hcommit]
      exact hacyclic

end ContractStore

/-- **Dependency validation.** It always answers, and with `Ok` exactly when the graph that is
reachable from the proposed task is within the limits and has no cycle; within the limits a cycle
is the only refusal, and the order and repetition of edges play no part. So installations keep the
authoritative graph acyclic. -/
theorem contract_dependencies_acyclic :
    (∀ (r : GraphReads) (proposed : PreparedContract),
      (∃ answer, r.validateDependencyGraph proposed = some answer) ∧
      (r.validateDependencyGraph proposed = some (.ok ()) ↔
        r.WithinLimits proposed ∧ r.NoCycle proposed) ∧
      (r.WithinLimits proposed → ¬r.NoCycle proposed →
        r.validateDependencyGraph proposed =
          some (.error (invalid "contract dependency cycle")))) ∧
    (∀ (r r' : GraphReads) (proposed proposed' : PreparedContract),
      proposed'.taskId = proposed.taskId →
      (∀ a b, r'.Requires proposed' a b ↔ r.Requires proposed a b) →
      r.WithinLimits proposed → r'.WithinLimits proposed' →
      r'.validateDependencyGraph proposed' = r.validateDependencyGraph proposed) ∧
    ∀ s s' : ContractStore, Topological.Acyclic s.Requires →
      ReflTransGen ContractStore.Installs s s' → Topological.Acyclic s'.Requires := by
  refine ⟨fun r proposed => ⟨?_, GraphReads.validateDependencyGraph_ok, fun hwithin hcycle => ?_⟩,
    fun r r' proposed proposed' => GraphReads.validateDependencyGraph_congr, ?_⟩
  · obtain ⟨answer, hanswer, -⟩ := @GraphReads.validateDependencyGraph_answers _ r proposed
    exact ⟨answer, hanswer⟩
  · obtain ⟨-, hno⟩ | ⟨hanswer, -⟩ := GraphReads.validateDependencyGraph_of_withinLimits hwithin
    · exact absurd hno hcycle
    · exact hanswer
  · intro s s' hacyclic hrun
    induction hrun with
    | refl => exact hacyclic
    | tail _ hstep ih => exact hstep.acyclic ih

/-- A task that requires one task without prerequisites is accepted. -/
theorem refusal_of_leaf {r : GraphReads} {proposed : PreparedContract} {p : TaskId}
    (hproposed : proposed.predecessors = [p]) (hne : p ≠ proposed.taskId)
    (hrow : r.contractRow p = none) (hqueue : r.queueRows p = []) : r.refusal proposed = none := by
  have hcollect : r.collect proposed =
      .ok ⟨(Table.empty.upsert (proposed.taskId, [p])).upsert (p, []), 0, 1⟩ := by
    simp [GraphReads.collect, explore, GraphReads.collectTask, GraphReads.dependencies, hproposed,
      hne, hrow, hqueue, GraphReads.maxTasks, GraphReads.maxEdges]
  have hsearch : depthFirst ((Table.empty.upsert (proposed.taskId, [p])).upsert (p, [])) ∅ ∅
      [(proposed.taskId, false)] = .acyclic := by
    rw [depthFirst_enter (Finset.notMem_empty _) (Finset.notMem_empty _)
      (show _ = some (proposed.taskId, [p]) by simp [Table.find_upsert, hne])]
    change depthFirst _ _ _ ((p, false) :: _) = _
    rw [depthFirst_enter (Finset.notMem_empty _) (by simpa using hne) Table.find_upsert_self]
    simp [depthFirst]
  simp [GraphReads.refusal, GraphReads.validateDependencyGraph, hcollect, hsearch]

/-- A validation that accepts is as good as none. -/
theorem installContract_validating {prepared : PreparedContract}
    (h : ∀ parsed, acceptContract prepared.raw = .ok parsed →
      s.graphReads.refusal parsed.toPreparedContract = none) :
    installContract (s.validating {}) prepared = installContract {} prepared := by
  unfold installContract
  cases haccept : acceptContract prepared.raw with
  | error e =>
    have hbind : ∀ f : AcceptedContract → Tx ContractStore StoreError ContractInstall,
        Tx.check (Except.mapError StoreError.invalid (.error e)) >>= f =
          fun _ => .error (.invalid e) := fun _ => rfl
    rw [hbind, hbind]
  | ok parsed =>
    have hbind : ∀ f : AcceptedContract → Tx ContractStore StoreError ContractInstall,
        Tx.check (Except.mapError StoreError.invalid (.ok parsed)) >>= f = f parsed := fun _ => rfl
    have hfresh : installFresh (s.validating {}) parsed = installFresh {} parsed := by
      simp only [installFresh, ContractStore.validating, h parsed haccept]
    have hrepository : (s.validating {}).repository = InstallOutside.repository {} := rfl
    rw [hbind, hbind, hfresh, hrepository]

end Installations

end Validation

/-! ## A contract and its prerequisite -/

namespace Prerequisite

/-- The contract of `left`, which requires a verified result of `right`. -/
def document : UntrustedContractDocument :=
  { Scoped.document "left" "src/" 0 with
    dependencies := [⟨⟨"right"⟩, "verified_result", "p", none⟩] }

@[reducible] def documents : Documents where
  decode raw := if raw = [1] then some document else none
  sha256 _ := Scoped.leftDigest
  executionPolicy _ := .ok ()

section

attribute [local instance] documents

/-- Two tasks that are not contracted and have no prerequisites. -/
def start : ContractStore where
  toStore := { Scoped.store with queue := .empty }
  contracts := .empty

/-- `start` after the installation of `left`'s contract. -/
def installed : ContractStore :=
  match PreparedContract.parseVerified [1] with
  | .ok contract => ((installContract (start.validating {}) contract).commit start).2
  | .error _ => start

theorem start_acyclic : Topological.Acyclic start.Requires := by
  intro a ha
  obtain ⟨b, hb, -⟩ := TransGen.head'_iff.mp ha
  cases hb

theorem installed_reachable : ReflTransGen ContractStore.Installs start installed := by
  unfold installed
  split
  · exact .single (.install {} _)
  · exact .refl

/-- The installation passes the validation. -/
theorem installed_contracts :
    installed.contracts.rows.map (fun row => (row.contract.taskId.val, row.contract.predecessors)) =
      [("left", [⟨"right"⟩])] := by
  have hfields : (PreparedContract.parseVerified [1]).map
      (fun contract => (contract.raw, contract.taskId, contract.predecessors)) =
      .ok ([1], ⟨"left"⟩, [⟨"right"⟩]) := by decide +kernel
  have hrows : ((PreparedContract.parseVerified [1]).map fun contract =>
      ((installContract {} contract).commit start).2.contracts.rows.map
        fun row => (row.contract.taskId.val, row.contract.predecessors)) =
      .ok [("left", [⟨"right"⟩])] := by decide +kernel
  unfold installed
  cases hparse : PreparedContract.parseVerified [1] with
  | error e =>
    rw [hparse] at hfields
    cases hfields
  | ok contract =>
    rw [hparse] at hfields hrows
    simp only [Except.map, Except.ok.injEq, Prod.mk.injEq] at hfields hrows
    obtain ⟨hraw, htask, hpredecessors⟩ := hfields
    dsimp only
    rw [installContract_validating, hrows]
    intro parsed hparsed
    have hsame := acceptContract_ok hparsed
    rw [hraw, hparse, Except.ok.injEq] at hsame
    rw [← hsame]
    exact refusal_of_leaf hpredecessors (by rw [htask]; decide) rfl rfl

end

end Prerequisite

/-- The theorem at the installation of a contract with one prerequisite. -/
theorem contract_dependencies_acyclic_prerequisite :
    letI := Prerequisite.documents
    Prerequisite.installed.contracts.rows.map
        (fun row => (row.contract.taskId.val, row.contract.predecessors)) =
      [("left", [⟨"right"⟩])] ∧ Topological.Acyclic Prerequisite.installed.Requires := by
  let _ := Prerequisite.documents
  exact ⟨Prerequisite.installed_contracts, contract_dependencies_acyclic.2.2 _ _
    Prerequisite.start_acyclic Prerequisite.installed_reachable⟩

end Herdr
