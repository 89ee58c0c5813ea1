import Herdr.Lib.Topological
import Herdr.Store.Scheduler

/-!
# The dependency graph check is sound

`graph_ids` counts the unfinished predecessors of every node and finishes the nodes that have none,
one after another. The nodes in the order they are finished come after all of their predecessors;
when every node was finished, that order shows that the dependencies have no cycle.
-/

namespace Herdr

open Topological

/-- The dependencies of a queue, from predecessor to follower. -/
def Depends (queue : List QueueRecord) (p t : TaskId) : Prop :=
  ∃ record ∈ queue, record.task = t ∧ ∃ d ∈ record.dependencies, d.predecessor = p

/-! ## Building the graph -/

section Build

variable {degree : List (TaskId × Nat)} {id x : TaskId}

theorem mem_keys_entry :
    x ∈ (entry degree id).map Prod.fst ↔ x ∈ degree.map Prod.fst ∨ x = id := by
  unfold entry
  split
  · next h =>
    obtain ⟨n, hn, he⟩ := List.any_eq_true.mp h
    have hid : id ∈ degree.map Prod.fst := List.mem_map.mpr ⟨n, hn, by simpa using he⟩
    exact ⟨.inl, by rintro (h | rfl) <;> assumption⟩
  · simp

theorem nodup_keys_entry (h : (degree.map Prod.fst).Nodup) :
    ((entry degree id).map Prod.fst).Nodup := by
  unfold entry
  split
  · exact h
  · next hany =>
    rw [List.map_append, List.nodup_append]
    refine ⟨h, by simp, ?_⟩
    intro a ha b hb hab
    simp only [List.map_cons, List.map_nil, List.mem_singleton] at hb
    obtain ⟨n, hn, he⟩ := List.mem_map.mp ha
    exact hany (List.any_eq_true.mpr ⟨n, hn, by simp [he, hab, hb]⟩)

/-- A new node starts with no predecessor. -/
theorem mem_entry {n : TaskId × Nat} (h : n ∈ entry degree id) :
    n ∈ degree ∨ (n = (id, 0) ∧ id ∉ degree.map Prod.fst) := by
  unfold entry at h
  split at h
  · exact .inl h
  · next hany =>
    rcases List.mem_append.mp h with h | h
    · exact .inl h
    · refine .inr ⟨List.mem_singleton.mp h, fun hid => hany ?_⟩
      obtain ⟨n, hn, he⟩ := List.mem_map.mp hid
      exact List.any_eq_true.mpr ⟨n, hn, by simpa using he⟩

end Build

/-- Nodes are listed once, the count of a node is its number of incoming edges, and both ends of
an edge are nodes. -/
structure QueueGraph.WF (g : QueueGraph) : Prop where
  nodup : (g.degree.map Prod.fst).Nodup
  count : ∀ n ∈ g.degree, n.2 = g.followers.countP (·.2 = n.1)
  ends : ∀ e ∈ g.followers, e.1 ∈ g.degree.map Prod.fst ∧ e.2 ∈ g.degree.map Prod.fst

namespace QueueGraph

variable {tasks seen : List TaskId} {record : QueueRecord} {g g' : QueueGraph} {edge : Dependency}

theorem WF.empty : WF {} := ⟨by simp, by simp, by simp⟩

theorem WF.count_eq_zero {x : TaskId} (h : g.WF) (hx : x ∉ g.degree.map Prod.fst) :
    g.followers.countP (·.2 = x) = 0 := by
  rw [List.countP_eq_zero]
  intro e he heq
  exact hx ((by simpa using heq : e.2 = x) ▸ (h.ends e he).2)

theorem WF.entry (h : g.WF) (id : TaskId) : WF { g with degree := entry g.degree id } where
  nodup := nodup_keys_entry h.nodup
  count := by
    intro n hn
    rcases mem_entry hn with hn | ⟨rfl, hid⟩
    · exact h.count n hn
    · exact (h.count_eq_zero hid).symm
  ends e he := ⟨mem_keys_entry.mpr (.inl (h.ends e he).1), mem_keys_entry.mpr (.inl (h.ends e he).2)⟩

/-- What adding one dependency did. -/
theorem addEdge_ok (h : g.addEdge tasks record seen edge = .ok g') :
    g' = {
      degree := (Herdr.entry g.degree edge.predecessor).map fun n =>
        if n.1 = record.task then (n.1, n.2 + 1) else n
      followers := g.followers ++ [(edge.predecessor, record.task)]
      edges := g.edges + 1 } := by
  unfold addEdge at h
  split at h
  · cases h
  · split at h
    · cases h
    · cases h
      rfl

theorem keys_bump (degree : List (TaskId × Nat)) (t : TaskId) :
    (degree.map fun n => if n.1 = t then (n.1, n.2 + 1) else n).map Prod.fst =
      degree.map Prod.fst := by
  rw [List.map_map]
  apply List.map_congr_left
  intro n _
  by_cases hn : n.1 = t <;> simp [hn]

theorem WF.addEdge (h : g.WF) (htask : record.task ∈ g.degree.map Prod.fst)
    (hok : g.addEdge tasks record seen edge = .ok g') :
    g'.WF ∧ record.task ∈ g'.degree.map Prod.fst := by
  obtain rfl := addEdge_ok hok
  have he := h.entry edge.predecessor
  have htask' : record.task ∈ (Herdr.entry g.degree edge.predecessor).map Prod.fst :=
    mem_keys_entry.mpr (.inl htask)
  refine ⟨⟨?_, ?_, ?_⟩, ?_⟩
  · simp only [keys_bump]
    exact he.nodup
  · simp only [List.mem_map]
    rintro n ⟨m, hm, rfl⟩
    have hcount := he.count m hm
    by_cases hmt : m.1 = record.task
    · rw [if_pos hmt, List.countP_append]
      simp [hcount, hmt]
    · rw [if_neg hmt, List.countP_append]
      simp [hcount, Ne.symm hmt]
  · simp only [keys_bump]
    intro e hmem
    rcases List.mem_append.mp hmem with hmem | hmem
    · exact he.ends e hmem
    · obtain rfl := List.mem_singleton.mp hmem
      exact ⟨mem_keys_entry.mpr (.inr rfl), htask'⟩
  · simp only [keys_bump]
    exact htask'

/-- Adding the dependencies of one record. -/
theorem WF.addEdges {deps : List Dependency} (h : g.WF)
    (htask : record.task ∈ g.degree.map Prod.fst)
    (hok : addEdges tasks record seen g deps = .ok g') :
    g'.WF ∧ (∀ e ∈ g.followers, e ∈ g'.followers) ∧
      ∀ d ∈ deps, (d.predecessor, record.task) ∈ g'.followers := by
  induction deps generalizing g seen with
  | nil =>
    cases hok
    exact ⟨h, fun _ he => he, by simp⟩
  | cons edge deps ih =>
    obtain ⟨g₁, h₁, hrest⟩ := Except.bind_ok.mp hok
    obtain ⟨hwf, htask₁⟩ := h.addEdge htask h₁
    obtain ⟨hwf', hkeep, hadded⟩ := ih hwf htask₁ hrest
    have hfollowers : g₁.followers = g.followers ++ [(edge.predecessor, record.task)] := by
      rw [addEdge_ok h₁]
    refine ⟨hwf', fun e he => hkeep e (by simp [hfollowers, he]), ?_⟩
    intro d hd
    rcases List.mem_cons.mp hd with rfl | hd
    · exact hkeep _ (by simp [hfollowers])
    · exact hadded d hd

/-- Adding all records: every dependency became an edge. -/
theorem WF.addRecords {queue : List QueueRecord} (h : g.WF)
    (hok : addRecords tasks g queue = .ok g') :
    g'.WF ∧ (∀ e ∈ g.followers, e ∈ g'.followers) ∧
      ∀ {p t}, Depends queue p t → (p, t) ∈ g'.followers := by
  induction queue generalizing g with
  | nil =>
    cases hok
    refine ⟨h, fun _ he => he, ?_⟩
    rintro p t ⟨_, hmem, _⟩
    cases hmem
  | cons record queue ih =>
    unfold QueueGraph.addRecords at hok
    dsimp only at hok
    split at hok
    · cases hok
    obtain ⟨g₁, h₁, hrest⟩ := Except.bind_ok.mp hok
    have hentry : record.task ∈ (Herdr.entry g.degree record.task).map Prod.fst :=
      mem_keys_entry.mpr (.inr rfl)
    obtain ⟨hwf, hkeep, hadded⟩ := WF.addEdges (h.entry record.task) hentry h₁
    obtain ⟨hwf', hkeep', hadded'⟩ := ih hwf hrest
    refine ⟨hwf', fun e he => hkeep' e (hkeep e he), ?_⟩
    rintro p t ⟨r, hr, rfl, d, hd, rfl⟩
    rcases List.mem_cons.mp hr with rfl | hr
    · exact hkeep' _ (hadded d hd)
    · exact hadded' ⟨r, hr, rfl, d, hd, rfl⟩

/-! ## Finishing the nodes -/

/-- The state of the loop: `done` were finished, `ready` wait to be finished, and `rest` are the
edges of the node in hand that were not taken off yet. -/
structure Loop (g : QueueGraph) (done ready : List TaskId) (rest : List (TaskId × TaskId))
    (degree : List (TaskId × Nat)) : Prop where
  keys : degree.map Prod.fst = g.degree.map Prod.fst
  count : ∀ n ∈ degree, n.2 =
    rest.countP (·.2 = n.1) + g.followers.countP fun e => e.2 = n.1 ∧ e.1 ∉ done
  zero : ∀ n ∈ degree, n.2 = 0 ↔ n.1 ∈ done ++ ready
  known : ∀ x ∈ done ++ ready, x ∈ degree.map Prod.fst
  nodup : (done ++ ready).Nodup
  sorted : Sorted (fun p t => (p, t) ∈ g.followers) done

namespace Loop

variable {done ready : List TaskId} {rest : List (TaskId × TaskId)}
  {degree : List (TaskId × Nat)} {id : TaskId} {e : TaskId × TaskId}

theorem start (h : g.WF) :
    Loop g [] ((g.degree.filter fun n => n.2 = 0).map Prod.fst) [] g.degree where
  keys := rfl
  count := by
    intro n hn
    simpa using h.count n hn
  zero := by
    intro n hn
    simp only [List.nil_append, List.mem_map, List.mem_filter, decide_eq_true_eq]
    refine ⟨fun hz => ⟨n, ⟨hn, hz⟩, rfl⟩, ?_⟩
    rintro ⟨m, ⟨hm, hz⟩, he⟩
    rwa [List.inj_on_of_nodup_map h.nodup hn hm he.symm]
  known := by
    intro x hx
    rw [List.nil_append] at hx
    obtain ⟨n, hn, rfl⟩ := List.mem_map.mp hx
    exact List.mem_map_of_mem (List.mem_filter.mp hn).1
  nodup := by
    simpa using h.nodup.sublist (List.Sublist.map _ List.filter_sublist)
  sorted := Log.Guarded.nil

/-- A node that waits has all of its predecessors finished. -/
theorem predecessors (h : Loop g done (id :: ready) [] degree) {p : TaskId}
    (hp : (p, id) ∈ g.followers) : p ∈ done := by
  obtain ⟨n, hn, rfl⟩ := List.mem_map.mp (h.known id (by simp))
  have hzero := (h.zero n hn).mpr (by simp)
  have hcount := h.count n hn
  rw [hzero, List.countP_nil, Nat.zero_add] at hcount
  have hnone := List.countP_eq_zero.mp hcount.symm (p, n.1) hp
  simpa using hnone

/-- An edge from an unfinished node starts at the node in hand or at another one. -/
theorem countP_unfinished (hid : id ∉ done) {x : TaskId} {es : List (TaskId × TaskId)} :
    (es.countP fun e => e.2 = x ∧ e.1 ∉ done) =
      (es.countP fun e => e.2 = x ∧ e.1 = id) +
        es.countP fun e => e.2 = x ∧ e.1 ∉ done ++ [id] := by
  induction es with
  | nil => rfl
  | cons e es ih =>
    rw [List.countP_cons, List.countP_cons, List.countP_cons, ih]
    by_cases he : e.1 = id
    · subst he
      simp [hid]
      omega
    · simp [he]
      omega

/-- Take the first waiting node in hand: its edges are the rest. -/
theorem take (h : Loop g done (id :: ready) [] degree) :
    Loop g (done ++ [id]) ready (g.followers.filter fun e => e.1 = id) degree where
  keys := h.keys
  count := by
    intro n hn
    have hid : id ∉ done := by
      have hnodup := h.nodup
      rw [List.nodup_append] at hnodup
      exact fun hmem => hnodup.2.2 id hmem id (by simp) rfl
    rw [h.count n hn, List.countP_filter, List.countP_nil, Nat.zero_add, countP_unfinished hid]
    simp
  zero := by
    intro n hn
    rw [h.zero n hn]
    simp [List.append_assoc]
  known := by
    intro x hx
    exact h.known x (by simpa [List.append_assoc] using hx)
  nodup := by simpa [List.append_assoc] using h.nodup
  sorted := h.sorted.snoc fun _ hp => h.predecessors hp

/-- The degrees after one edge to `x` was taken off. -/
def takeOff (degree : List (TaskId × Nat)) (x : TaskId) : List (TaskId × Nat) :=
  degree.map fun n => if n.1 = x then (n.1, n.2 - 1) else n

theorem keys_takeOff (degree : List (TaskId × Nat)) (x : TaskId) :
    (takeOff degree x).map Prod.fst = degree.map Prod.fst := by
  unfold takeOff
  rw [List.map_map]
  apply List.map_congr_left
  intro n _
  by_cases hn : n.1 = x <;> simp [hn]

/-- The target of a remaining edge is neither finished nor waiting. -/
theorem target (h : Loop g done ready (e :: rest) degree) {n : TaskId × Nat} (hn : n ∈ degree)
    (he : n.1 = e.2) : 0 < n.2 ∧ n.1 ∉ done ++ ready := by
  have hcount := h.count n hn
  rw [List.countP_cons_of_pos (by simp [he])] at hcount
  have hpos : 0 < n.2 := by omega
  refine ⟨hpos, fun hmem => ?_⟩
  have := (h.zero n hn).mpr hmem
  omega

/-- One edge of the node in hand: its target waits once no edge to it is left. -/
theorem step (hwf : g.WF) (h : Loop g done ready (e :: rest) degree) :
    Loop g done
      (if (takeOff degree e.2).any fun n => n.1 = e.2 && n.2 = 0 then ready ++ [e.2] else ready)
      rest (takeOff degree e.2) := by
  have hkeys := (keys_takeOff degree e.2).trans h.keys
  have hnodup : ((takeOff degree e.2).map Prod.fst).Nodup := hkeys ▸ hwf.nodup
  have hcount : ∀ n ∈ takeOff degree e.2, n.2 =
      rest.countP (·.2 = n.1) + g.followers.countP fun e => e.2 = n.1 ∧ e.1 ∉ done := by
    intro n hn
    obtain ⟨m, hm, rfl⟩ := List.mem_map.mp hn
    have hm' := h.count m hm
    by_cases he : m.1 = e.2
    · rw [List.countP_cons_of_pos (by simp [he])] at hm'
      rw [if_pos he]
      dsimp only
      omega
    · rw [List.countP_cons_of_neg (by simpa using Ne.symm he)] at hm'
      rwa [if_neg he]
  have hother : ∀ n ∈ takeOff degree e.2, n.1 ≠ e.2 → n ∈ degree := by
    intro n hn hne
    obtain ⟨m, hm, rfl⟩ := List.mem_map.mp hn
    by_cases he : m.1 = e.2
    · rw [if_pos he] at hne
      exact absurd he hne
    · rwa [if_neg he]
  split
  · next hany =>
    obtain ⟨n, hn, hzero⟩ := List.any_eq_true.mp hany
    obtain ⟨hne, hzero⟩ : n.1 = e.2 ∧ n.2 = 0 := by simpa using hzero
    obtain ⟨m, hm, hme⟩ : ∃ m ∈ degree, m.1 = e.2 := by
      have hmem : e.2 ∈ degree.map Prod.fst := by
        rw [← keys_takeOff degree e.2]
        exact List.mem_map.mpr ⟨n, hn, hne⟩
      exact List.mem_map.mp hmem
    have hfresh : e.2 ∉ done ++ ready := hme ▸ (h.target hm hme).2
    refine ⟨hkeys, hcount, ?_, ?_, ?_, h.sorted⟩
    · intro k hk
      by_cases hke : k.1 = e.2
      · have hkn : k = n := List.inj_on_of_nodup_map hnodup hk hn (hke.trans hne.symm)
        subst hkn
        simp [hne, hzero]
      · rw [h.zero k (hother k hk hke), ← List.append_assoc]
        simp [hke]
    · intro x hx
      rw [keys_takeOff]
      rw [← List.append_assoc] at hx
      rcases List.mem_append.mp hx with hx | hx
      · exact h.known x hx
      · obtain rfl := List.mem_singleton.mp hx
        exact hme ▸ List.mem_map_of_mem hm
    · rw [← List.append_assoc, List.nodup_append]
      refine ⟨h.nodup, by simp, ?_⟩
      rintro a ha b hb rfl
      obtain rfl := List.mem_singleton.mp hb
      exact hfresh ha
  · next hany =>
    refine ⟨hkeys, hcount, ?_, ?_, h.nodup, h.sorted⟩
    · intro k hk
      by_cases hke : k.1 = e.2
      · -- an edge to it is left, and it did not wait before
        have hleft : k.2 ≠ 0 := fun hz =>
          hany (List.any_eq_true.mpr ⟨k, hk, by simp [hke, hz]⟩)
        obtain ⟨m, hm, hme⟩ : ∃ m ∈ degree, m.1 = k.1 := by
          have hmem : k.1 ∈ degree.map Prod.fst := by
            rw [← keys_takeOff degree e.2]
            exact List.mem_map_of_mem hk
          exact List.mem_map.mp hmem
        have hfresh := (h.target hm (hme.trans hke)).2
        rw [hme] at hfresh
        exact ⟨fun hz => absurd hz hleft, fun hmem => absurd hmem hfresh⟩
      · exact h.zero k (hother k hk hke)
    · intro x hx
      rw [keys_takeOff]
      exact h.known x hx

/-- All edges of the node in hand. -/
theorem steps (hwf : g.WF) {more : List TaskId} (h : Loop g done (ready ++ more) rest degree) :
    let out := rest.foldl (fun acc e =>
      let degree := acc.1.map fun n => if n.1 = e.2 then (n.1, n.2 - 1) else n
      (degree, if degree.any fun n => n.1 = e.2 && n.2 = 0 then acc.2 ++ [e.2] else acc.2))
      (degree, more)
    Loop g done (ready ++ out.2) [] out.1 := by
  induction rest generalizing degree more with
  | nil => exact h
  | cons e rest ih =>
    refine ih ?_
    have hstep := h.step hwf
    unfold takeOff at hstep
    dsimp only
    split
    · next hany =>
      rw [if_pos hany, List.append_assoc] at hstep
      exact hstep
    · next hany =>
      rwa [if_neg hany] at hstep

/-- Finishing a node. -/
theorem finish (hwf : g.WF) (h : Loop g done (id :: ready) [] degree) :
    Loop g (done ++ [id]) (ready ++ (g.finish id degree).2) [] (g.finish id degree).1 := by
  have htake := h.take
  rw [← List.append_nil ready] at htake
  exact htake.steps hwf

/-- The nodes finished so far are in order. -/
theorem finished (h : Loop g done ready [] degree) :
    done.Nodup ∧ (∀ x ∈ done, x ∈ g.degree.map Prod.fst) ∧
      Sorted (fun p t => (p, t) ∈ g.followers) done :=
  ⟨(List.nodup_append.mp h.nodup).1, fun x hx => h.keys ▸ h.known x (List.mem_append_left _ hx),
    h.sorted⟩

/-- The nodes that the loop finishes from here on continue the order. -/
theorem visit (hwf : g.WF) {rounds : Nat} (h : Loop g done ready [] degree) :
    ∃ more, more.length = g.visit rounds degree ready ∧ (done ++ more).Nodup ∧
      (∀ x ∈ done ++ more, x ∈ g.degree.map Prod.fst) ∧
      Sorted (fun p t => (p, t) ∈ g.followers) (done ++ more) := by
  induction rounds generalizing done ready degree with
  | zero =>
    refine ⟨[], rfl, ?_⟩
    rw [List.append_nil]
    exact h.finished
  | succ rounds ih =>
    cases ready with
    | nil =>
      refine ⟨[], rfl, ?_⟩
      rw [List.append_nil]
      exact h.finished
    | cons id ready =>
      obtain ⟨more, hlen, horder⟩ := ih (h.finish hwf)
      refine ⟨id :: more, ?_, ?_⟩
      · simp only [QueueGraph.visit, List.length_cons, hlen]
        omega
      · rwa [List.append_assoc] at horder

end Loop

/-- When the loop finished as many nodes as there are, it finished all of them. -/
theorem acyclic_of_visit (hwf : g.WF)
    (h : g.visit g.degree.length g.degree ((g.degree.filter fun n => n.2 = 0).map Prod.fst) =
      g.degree.length) : Acyclic fun p t => (p, t) ∈ g.followers := by
  obtain ⟨order, hlen, hnodup, hknown, hsorted⟩ := (Loop.start hwf).visit hwf
  rw [List.nil_append] at hnodup hknown hsorted
  have hperm : order.Perm (g.degree.map Prod.fst) := by
    refine (List.subperm_of_subset hnodup hknown).perm_of_length_le ?_
    rw [hlen, h, List.length_map]
  exact hsorted.acyclic fun he => hperm.mem_iff.mpr (hwf.ends _ he).2

end QueueGraph

/-- **A queue that passes the graph check has no dependency cycle.** -/
theorem graphIds_acyclic {tasks : List TaskId} {queue : List QueueRecord}
    (h : graphIds tasks queue = .ok ()) : Acyclic (Depends queue) := by
  unfold graphIds at h
  dsimp only at h
  split at h
  · cases h
  obtain ⟨g, hg, h⟩ := Except.bind_ok.mp h
  split at h
  · cases h
  · next hvisit =>
    obtain ⟨hwf, -, hedges⟩ := QueueGraph.WF.empty.addRecords hg
    exact (QueueGraph.acyclic_of_visit hwf (not_not.mp hvisit)).mono hedges

end Herdr
