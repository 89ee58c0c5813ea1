import Herdr.Verify.DependencyGraph
import Herdr.Verify.Effects

/-!
# The dependency graph check is exact

The check accepts a queue when every record is well formed and the dependencies have no cycle. The
loop never takes one off a count of zero and finishes no node twice; when it stops, each node that
is left has a predecessor that is left, so an acyclic graph leaves none. A stored queue was checked
by the call that changed it last.
-/

namespace Herdr

open Topological

/-- What the check asks of one record. -/
structure QueueRecord.Clean (tasks : List TaskId) (record : QueueRecord) : Prop where
  known : record.task ∈ tasks
  bounded : record.dependencies.length ≤ 256
  predecessors : ∀ d ∈ record.dependencies, d.predecessor ≠ record.task ∧ d.predecessor ∈ tasks
  distinct : (record.dependencies.map (·.predecessor)).Nodup

namespace QueueGraph

/-! ## Building the graph -/

section Build

variable {tasks seen : List TaskId} {record : QueueRecord} {g g' : QueueGraph} {edge : Dependency}
  {deps : List Dependency} {queue : List QueueRecord}

theorem addEdge_isOk (hedges : g.edges + 1 ≤ 100000) :
    (∃ g', g.addEdge tasks record seen edge = .ok g') ↔ record.dependencies.length ≤ 256 ∧
      edge.predecessor ≠ record.task ∧ edge.predecessor ∈ tasks ∧ edge.predecessor ∉ seen := by
  unfold addEdge
  split
  · next h =>
    refine ⟨fun ⟨_, h⟩ => (nomatch h), fun ⟨hlen, _⟩ => ?_⟩
    omega
  · next h =>
    split
    · next hbad =>
      refine ⟨fun ⟨_, h⟩ => (nomatch h), fun ⟨_, hne, hknown, hseen⟩ => ?_⟩
      rcases hbad with hbad | hbad | hbad
      · exact absurd hbad hne
      · exact absurd hknown hbad
      · exact absurd hbad hseen
    · next hgood =>
      rw [not_or, not_or, not_not] at hgood
      exact ⟨fun _ => ⟨by omega, hgood⟩, fun _ => ⟨_, rfl⟩⟩

/-- The edges of the dependencies of one record. -/
theorem addEdges_ok (h : addEdges tasks record seen g deps = .ok g') :
    g'.edges = g.edges + deps.length ∧
      g'.followers = g.followers ++ deps.map fun d => (d.predecessor, record.task) := by
  induction deps generalizing g seen with
  | nil =>
    cases h
    simp
  | cons edge deps ih =>
    obtain ⟨g₁, h₁, hrest⟩ := Except.bind_ok.mp h
    obtain ⟨hedges, hfollowers⟩ := ih hrest
    rw [addEdge_ok h₁] at hedges hfollowers
    refine ⟨?_, ?_⟩
    · rw [hedges, List.length_cons, Nat.add_right_comm, Nat.add_assoc]
    · rw [hfollowers, List.append_assoc, List.map_cons, List.singleton_append]

theorem addEdges_isOk (hedges : g.edges + deps.length ≤ 100000) :
    (∃ g', addEdges tasks record seen g deps = .ok g') ↔
      (deps ≠ [] → record.dependencies.length ≤ 256) ∧
      (∀ d ∈ deps, d.predecessor ≠ record.task ∧ d.predecessor ∈ tasks ∧ d.predecessor ∉ seen) ∧
      (deps.map (·.predecessor)).Nodup := by
  induction deps generalizing g seen with
  | nil => exact ⟨fun _ => by simp, fun _ => ⟨g, rfl⟩⟩
  | cons edge deps ih =>
    rw [List.length_cons] at hedges
    have hfirst := @addEdge_isOk tasks seen record g edge (by omega)
    have hrest (g₁) (h₁ : g.addEdge tasks record seen edge = .ok g₁) :=
      @ih (edge.predecessor :: seen) g₁ (by rw [addEdge_ok h₁]; dsimp only; omega)
    constructor
    · rintro ⟨g', h⟩
      obtain ⟨g₁, h₁, h⟩ := Except.bind_ok.mp h
      obtain ⟨hlen, hedge⟩ := hfirst.mp ⟨g₁, h₁⟩
      obtain ⟨-, hmem, hnodup⟩ := (hrest g₁ h₁).mp ⟨g', h⟩
      refine ⟨fun _ => hlen, List.forall_mem_cons.mpr ⟨hedge, fun d hd => ?_⟩, ?_⟩
      · obtain ⟨hne, hknown, hseen⟩ := hmem d hd
        exact ⟨hne, hknown, fun h => hseen (List.mem_cons_of_mem _ h)⟩
      · rw [List.map_cons, List.nodup_cons]
        refine ⟨fun hrep => ?_, hnodup⟩
        obtain ⟨d, hd, he⟩ := List.mem_map.mp hrep
        exact (hmem d hd).2.2 (he ▸ List.mem_cons_self)
    · rintro ⟨hlen, hmem, hnodup⟩
      rw [List.map_cons, List.nodup_cons] at hnodup
      obtain ⟨hedge, hmem⟩ := List.forall_mem_cons.mp hmem
      obtain ⟨g₁, h₁⟩ := hfirst.mpr ⟨hlen (List.cons_ne_nil _ _), hedge⟩
      have hunseen : ∀ d ∈ deps, d.predecessor ≠ record.task ∧ d.predecessor ∈ tasks ∧
          d.predecessor ∉ edge.predecessor :: seen := by
        intro d hd
        obtain ⟨hne, hknown, hseen⟩ := hmem d hd
        refine ⟨hne, hknown, fun h => ?_⟩
        rcases List.mem_cons.mp h with h | h
        · exact hnodup.1 (h ▸ List.mem_map_of_mem hd)
        · exact hseen h
      obtain ⟨g', h⟩ := (hrest g₁ h₁).mpr
        ⟨fun _ => hlen (List.cons_ne_nil _ _), hunseen, hnodup.2⟩
      exact ⟨g', Except.bind_ok.mpr ⟨g₁, h₁, h⟩⟩

/-- The edges of the dependencies of one record can be added exactly when it is clean. -/
theorem addEdges_clean (hknown : record.task ∈ tasks)
    (hedges : g.edges + record.dependencies.length ≤ 100000) :
    (∃ g', addEdges tasks record [] g record.dependencies = .ok g') ↔ record.Clean tasks := by
  rw [addEdges_isOk hedges]
  constructor
  · rintro ⟨hlen, hmem, hnodup⟩
    refine ⟨hknown, ?_, fun d hd => ⟨(hmem d hd).1, (hmem d hd).2.1⟩, hnodup⟩
    by_cases hnil : record.dependencies = []
    · simp [hnil]
    · exact hlen hnil
  · intro h
    exact ⟨fun _ => h.bounded, fun d hd =>
      ⟨(h.predecessors d hd).1, (h.predecessors d hd).2, List.not_mem_nil⟩, h.distinct⟩

theorem addRecords_isOk (hedges : g.edges + (queue.map (·.dependencies.length)).sum ≤ 100000) :
    (∃ g', addRecords tasks g queue = .ok g') ↔ ∀ record ∈ queue, record.Clean tasks := by
  induction queue generalizing g with
  | nil => exact ⟨fun _ => by simp, fun _ => ⟨g, rfl⟩⟩
  | cons record queue ih =>
    rw [List.map_cons, List.sum_cons] at hedges
    rw [List.forall_mem_cons]
    unfold addRecords
    dsimp only
    split
    · next hmissing =>
      refine ⟨fun h => ?_, fun h => absurd h.1.known hmissing⟩
      obtain ⟨_, h⟩ := h
      cases h
    · next hknown =>
      rw [not_not] at hknown
      have hclean := @addEdges_clean tasks record
        { g with degree := Herdr.entry g.degree record.task } hknown (by dsimp only; omega)
      have hrest (g₁) (h₁ : addEdges tasks record []
          { g with degree := Herdr.entry g.degree record.task } record.dependencies = .ok g₁) :=
        @ih g₁ (by rw [(addEdges_ok h₁).1]; dsimp only; omega)
      constructor
      · rintro ⟨g', h⟩
        obtain ⟨g₁, h₁, h⟩ := Except.bind_ok.mp h
        exact ⟨hclean.mp ⟨g₁, h₁⟩, (hrest g₁ h₁).mp ⟨g', h⟩⟩
      · rintro ⟨hrecord, hqueue⟩
        obtain ⟨g₁, h₁⟩ := hclean.mpr hrecord
        obtain ⟨g', h⟩ := (hrest g₁ h₁).mpr hqueue
        exact ⟨g', Except.bind_ok.mpr ⟨g₁, h₁, h⟩⟩

/-- The edges are the dependencies. -/
theorem mem_followers (h : addRecords tasks g queue = .ok g') {p t : TaskId} :
    (p, t) ∈ g'.followers ↔ (p, t) ∈ g.followers ∨ Depends queue p t := by
  induction queue generalizing g with
  | nil =>
    cases h
    simp [Depends]
  | cons record queue ih =>
    unfold addRecords at h
    dsimp only at h
    split at h
    · cases h
    obtain ⟨g₁, h₁, hrest⟩ := Except.bind_ok.mp h
    have hdepends : Depends (record :: queue) p t ↔
        (record.task = t ∧ ∃ d ∈ record.dependencies, d.predecessor = p) ∨ Depends queue p t := by
      simp [Depends]
    rw [ih hrest, (addEdges_ok h₁).2, List.mem_append, hdepends, or_assoc]
    simp only [List.mem_map, Prod.mk.injEq]
    refine or_congr_right (or_congr_left ⟨?_, ?_⟩)
    · rintro ⟨d, hd, hp, ht⟩
      exact ⟨ht, d, hd, hp⟩
    · rintro ⟨ht, d, hd, hp⟩
      exact ⟨d, hd, hp, ht⟩

end Build

/-! ## Finishing the nodes -/

/-- Take one edge off as `finish` does: `*n -= 1`, with the count that must not be zero. -/
def takeEdge? (acc : List (TaskId × Nat) × List TaskId) (e : TaskId × TaskId) :
    Option (List (TaskId × Nat) × List TaskId) :=
  if acc.1.any fun n => n.1 = e.2 && 0 < n.2 then
    let degree := acc.1.map fun n => if n.1 = e.2 then (n.1, n.2 - 1) else n
    some (degree, if degree.any fun n => n.1 = e.2 && n.2 = 0 then acc.2 ++ [e.2] else acc.2)
  else none

/-- `finish` with every subtraction checked. -/
def finish? (g : QueueGraph) (id : TaskId) (degree : List (TaskId × Nat)) :
    Option (List (TaskId × Nat) × List TaskId) :=
  (g.followers.filter fun e => e.1 = id).foldlM takeEdge? (degree, [])

/-- The queue loop with every subtraction checked: the nodes in the order they are finished, or
none when more than the given number of them are. -/
def visit? (g : QueueGraph) : Nat → List (TaskId × Nat) → List TaskId → Option (List TaskId)
  | _, _, [] => some []
  | 0, _, _ :: _ => none
  | rounds + 1, degree, id :: ready => do
    let (degree, more) ← g.finish? id degree
    let order ← visit? g rounds degree (ready ++ more)
    some (id :: order)

namespace Loop

variable {g : QueueGraph} {done ready : List TaskId} {rest : List (TaskId × TaskId)}
  {degree : List (TaskId × Nat)} {id : TaskId}

/-- No subtraction on the edges of the node in hand underflows. -/
theorem foldlM_takeEdge? (hwf : g.WF) {more : List TaskId}
    (h : Loop g done (ready ++ more) rest degree)
    (hnodes : ∀ e ∈ rest, e.2 ∈ g.degree.map Prod.fst) :
    rest.foldlM takeEdge? (degree, more) = some (rest.foldl (fun acc e =>
      let degree := acc.1.map fun n => if n.1 = e.2 then (n.1, n.2 - 1) else n
      (degree, if degree.any fun n => n.1 = e.2 && n.2 = 0 then acc.2 ++ [e.2] else acc.2))
      (degree, more)) := by
  induction rest generalizing degree more with
  | nil => rfl
  | cons e rest ih =>
    obtain ⟨hnode, hnodes⟩ := List.forall_mem_cons.mp hnodes
    have hany : degree.any (fun n => n.1 = e.2 && 0 < n.2) = true := by
      rw [← h.keys] at hnode
      obtain ⟨n, hn, he⟩ := List.mem_map.mp hnode
      exact List.any_eq_true.mpr ⟨n, hn, by simp [he, (h.target hn he).1]⟩
    rw [List.foldlM_cons, takeEdge?, if_pos hany]
    refine ih ?_ hnodes
    have hstep := h.step hwf
    unfold takeOff at hstep
    split
    · next hzero =>
      rw [if_pos hzero, List.append_assoc] at hstep
      exact hstep
    · next hzero =>
      rwa [if_neg hzero] at hstep

theorem finish?_eq (hwf : g.WF) (h : Loop g done (id :: ready) [] degree) :
    g.finish? id degree = some (g.finish id degree) := by
  have htake := h.take
  rw [← List.append_nil ready] at htake
  exact htake.foldlM_takeEdge? hwf fun e he => (hwf.ends e (List.mem_filter.mp he).1).2

/-- The loop runs until no node is ready, within one round for each node. -/
theorem visit? (hwf : g.WF) {rounds : Nat} (h : Loop g done ready [] degree)
    (hrounds : g.degree.length ≤ done.length + rounds) :
    ∃ more last, g.visit? rounds degree ready = some more ∧
      more.length = g.visit rounds degree ready ∧ Loop g (done ++ more) [] [] last := by
  induction rounds generalizing done ready degree with
  | zero =>
    cases ready with
    | nil => exact ⟨[], degree, rfl, rfl, by rwa [List.append_nil]⟩
    | cons id ready =>
      have hle := (List.subperm_of_subset h.nodup h.known).length_le
      rw [h.keys, List.length_map, List.length_append, List.length_cons] at hle
      omega
  | succ rounds ih =>
    cases ready with
    | nil => exact ⟨[], degree, rfl, rfl, by rwa [List.append_nil]⟩
    | cons id ready =>
      have hfinish := h.finish hwf
      obtain ⟨more, last, hvisit, hlen, hlast⟩ := ih hfinish (by simp; omega)
      refine ⟨id :: more, last, ?_, ?_, ?_⟩
      · rw [QueueGraph.visit?, h.finish?_eq hwf]
        simp [hvisit]
      · simp only [QueueGraph.visit, List.length_cons, hlen]
        omega
      · rwa [List.append_assoc] at hlast

/-- A node that the loop left has a predecessor that it left. -/
theorem stuck (hwf : g.WF) (h : Loop g done [] [] degree) :
    ∀ t ∈ g.degree.map Prod.fst, t ∉ done →
      ∃ p ∈ g.degree.map Prod.fst, p ∉ done ∧ (p, t) ∈ g.followers := by
  intro t ht hleft
  rw [← h.keys] at ht
  obtain ⟨n, hn, rfl⟩ := List.mem_map.mp ht
  have hzero : n.2 ≠ 0 := fun hz => hleft (by simpa using (h.zero n hn).mp hz)
  rw [h.count n hn, List.countP_nil, Nat.zero_add, Ne, List.countP_eq_zero] at hzero
  obtain ⟨e, he, hen, hdone⟩ : ∃ e ∈ g.followers, e.2 = n.1 ∧ e.1 ∉ done := by simpa using hzero
  exact ⟨e.1, (hwf.ends e he).1, hdone, by rwa [← hen]⟩

end Loop

/-- **Kahn's loop.** It runs through, finishes no node twice, and finishes all of them exactly when
the graph is acyclic. -/
theorem visit_exact {g : QueueGraph} (hwf : g.WF) :
    ∃ order, g.visit? g.degree.length g.degree
        ((g.degree.filter fun n => n.2 = 0).map Prod.fst) = some order ∧
      order.Nodup ∧ (∀ x ∈ order, x ∈ g.degree.map Prod.fst) ∧
      order.length = g.visit g.degree.length g.degree
        ((g.degree.filter fun n => n.2 = 0).map Prod.fst) ∧
      (order.length = g.degree.length ↔ Acyclic fun p t => (p, t) ∈ g.followers) := by
  obtain ⟨order, last, hvisit, hlen, hloop⟩ :=
    (Loop.start hwf).visit? hwf (Nat.le_add_left g.degree.length 0)
  rw [List.nil_append] at hloop
  obtain ⟨hnodup, hknown, -⟩ := hloop.finished
  refine ⟨order, hvisit, hnodup, hknown, hlen, fun h => ?_, fun h => ?_⟩
  · exact acyclic_of_visit hwf (hlen.symm.trans h)
  · have hall := Acyclic.subset_of_stuck h (hloop.stuck hwf)
    have hle := (List.subperm_of_subset hnodup hknown).length_le
    have hge := (List.subperm_of_subset hwf.nodup hall).length_le
    rw [List.length_map] at hle hge
    exact Nat.le_antisymm hle hge

end QueueGraph

/-- The check passes exactly when every record can be added and the loop finishes every node. -/
theorem graphIds_ok {tasks : List TaskId} {queue : List QueueRecord} (hlen : queue.length ≤ 10000) :
    graphIds tasks queue = .ok () ↔ ∃ g, QueueGraph.addRecords tasks {} queue = .ok g ∧
      g.visit g.degree.length g.degree ((g.degree.filter fun n => n.2 = 0).map Prod.fst) =
        g.degree.length := by
  unfold graphIds
  dsimp only
  rw [if_neg (by omega)]
  constructor
  · intro h
    obtain ⟨g, hg, h⟩ := Except.bind_ok.mp h
    refine ⟨g, hg, ?_⟩
    split at h
    · cases h
    · next hvisit => exact not_not.mp hvisit
  · rintro ⟨g, hg, hvisit⟩
    refine Except.bind_ok.mpr ⟨g, hg, ?_⟩
    rw [if_neg (not_not.mpr hvisit)]
    rfl

/-- What the check accepts. -/
theorem graphIds_ok_iff {tasks : List TaskId} {queue : List QueueRecord}
    (hlen : queue.length ≤ 10000) (hedges : (queue.map (·.dependencies.length)).sum ≤ 100000) :
    graphIds tasks queue = .ok () ↔
      (∀ record ∈ queue, record.Clean tasks) ∧ Acyclic (Depends queue) := by
  have hadd := @QueueGraph.addRecords_isOk tasks {} queue (by simpa using hedges)
  have hexact : ∀ g, QueueGraph.addRecords tasks {} queue = .ok g →
      (g.visit g.degree.length g.degree ((g.degree.filter fun n => n.2 = 0).map Prod.fst) =
        g.degree.length ↔ Acyclic (Depends queue)) := by
    intro g hg
    obtain ⟨order, -, -, -, hvisit, hacyclic⟩ :=
      QueueGraph.visit_exact (QueueGraph.WF.empty.addRecords hg).1
    have hdepends : (fun p t => (p, t) ∈ g.followers) = Depends queue := by
      funext p t
      rw [eq_iff_iff, QueueGraph.mem_followers hg]
      simp
    rw [← hvisit, hacyclic, hdepends]
  rw [graphIds_ok hlen, ← hadd]
  constructor
  · rintro ⟨g, hg, hvisit⟩
    exact ⟨⟨g, hg⟩, (hexact g hg).mp hvisit⟩
  · rintro ⟨⟨g, hg⟩, hacyclic⟩
    exact ⟨g, hg, (hexact g hg).mpr hacyclic⟩

/-! ## The stored queue -/

/-- A stored queue that was changed has the dependencies of the queue that was checked. -/
theorem depends_upserted {old new : Table QueueRecord QueueRecord.task} {record : QueueRecord}
    (h : Upserts old record new) {p t : TaskId} (hdepends : Depends new.rows p t) :
    Depends ((old.rows.filter fun q => q.task ≠ record.task) ++ [record]) p t := by
  obtain ⟨q, hq, ht, hd⟩ := hdepends
  have hmem : q = record ∨ (q ∈ old.rows ∧ q.task ≠ record.task) := by
    rcases h with h | rfl
    · rcases (Table.mem_insert? h).mp hq with hq | hq
      · refine .inr ⟨hq, fun he => ?_⟩
        exact Table.find_eq_none_iff.mp (Table.insert?_eq_some h).1
          (List.mem_map.mpr ⟨q, hq, he⟩)
      · exact .inl hq
    · exact Table.mem_update hq
  refine ⟨q, ?_, ht, hd⟩
  rcases hmem with rfl | ⟨hq, hne⟩
  · exact List.mem_append_right _ (List.mem_singleton_self q)
  · exact List.mem_append_left _ (List.mem_filter.mpr ⟨hq, by simpa using hne⟩)

section Stored

variable [Digests]

/-- The stores that calls lead to from an empty one, with any other writes between them that leave
the queue alone. -/
inductive QueueReachable : Store → Prop
  | created (path : String) : QueueReachable (.created path)
  | call {s : Store} (c : Call) : QueueReachable s → QueueReachable (exec c s).2
  | elsewhere {s s' : Store} : QueueReachable s → s'.queue = s.queue → QueueReachable s'

/-- The queue changes only by a call that checked it. -/
theorem Effect.queue_acyclic {env : Outside} {s s' : Store} {o : Option Claim}
    (h : Effect env s o s') (hacyclic : Acyclic (Depends s.queue.rows)) :
    Acyclic (Depends s'.queue.rows) := by
  have hsame : s'.queue = s.queue → Acyclic (Depends s'.queue.rows) := fun he => by rwa [he]
  cases h with
  | reads => exact hacyclic
  | claims claimed => exact hsame (by rw [claimed.frame])
  | settles _ settled => exact hsame (by rw [settled.frame])
  | expires _ only => exact hsame (by rw [only.frame])
  | records => exact hacyclic
  | starts _ _ published => exact hsame (by rw [published.frame])
  | reserves _ _ _ reserved => exact hsame (by rw [reserved.frame])
  | cancels cancelled => exact hsame (by rw [cancelled.frame])
  | ends ended => exact hsame (by rw [ended.frame])
  | stops ended => exact hsame (by rw [ended.frame])
  | completes _ frame => exact hsame (by rw [frame])
  | adopts frame => exact hsame (by rw [frame])
  | queues queued =>
    obtain ⟨identities, record, htask, hupserts, hchecked⟩ := queued.checked
    rw [queued.frame]
    rw [← htask] at hchecked
    exact (graphIds_acyclic hchecked).mono fun h => depends_upserted hupserts h

theorem QueueReachable.acyclic {s : Store} (h : QueueReachable s) :
    Acyclic (Depends s.queue.rows) := by
  induction h with
  | created path =>
    intro a ha
    obtain ⟨_, -, record, hmem, -⟩ := Relation.TransGen.tail'_iff.mp ha
    cases hmem
  | call c _ ih => exact (exec_effect c _).queue_acyclic ih
  | elsewhere _ hqueue ih => rwa [hqueue]

/-- **The dependency graph check is exact.** Within its bounds it accepts a queue exactly when every
record is clean and the dependencies have no cycle; its loop takes nothing off a zero and finishes
each node once; and a stored queue never has a cycle. -/
theorem dependency_check_exact :
    (∀ (tasks : List TaskId) (queue : List QueueRecord), queue.length ≤ 10000 →
      (queue.map (·.dependencies.length)).sum ≤ 100000 →
      (graphIds tasks queue = .ok () ↔
        (∀ record ∈ queue, record.Clean tasks) ∧ Acyclic (Depends queue))) ∧
    (∀ (tasks : List TaskId) (queue : List QueueRecord) (g : QueueGraph),
      QueueGraph.addRecords tasks {} queue = .ok g →
      ∃ order, g.visit? g.degree.length g.degree
          ((g.degree.filter fun n => n.2 = 0).map Prod.fst) = some order ∧
        order.Nodup ∧ order.length = g.visit g.degree.length g.degree
          ((g.degree.filter fun n => n.2 = 0).map Prod.fst)) ∧
    ∀ s, QueueReachable s → Acyclic (Depends s.queue.rows) := by
  refine ⟨fun tasks queue hlen hedges => graphIds_ok_iff hlen hedges, ?_,
    fun s hs => hs.acyclic⟩
  intro tasks queue g hg
  obtain ⟨order, hvisit, hnodup, -, hlen, -⟩ :=
    QueueGraph.visit_exact (QueueGraph.WF.empty.addRecords hg).1
  exact ⟨order, hvisit, hnodup, hlen⟩

end Stored

/-- The second task waits for the first. -/
def twoTasks : List QueueRecord :=
  [⟨⟨"b"⟩, 0, 0, 2, [⟨⟨"a"⟩, .verifiedResult⟩]⟩, ⟨⟨"a"⟩, 0, 0, 1, []⟩]

theorem dependency_check_exact_two : Acyclic (Depends twoTasks) :=
  ((@dependency_check_exact ⟨fun _ => "", fun _ => "", fun _ => "", fun _ => "", fun _ _ => "",
    fun _ => ""⟩).1 [⟨"a"⟩, ⟨"b"⟩] twoTasks (by decide) (by decide)).mp (by decide +kernel) |>.2

end Herdr
