import Herdr.Verify.Effects
import Herdr.Verify.IntegrationQueue

/-!
# Writes that move on

The delivery protocol adds no operation, retires no job, moves no task back and starts no delivery
again that was finished.
-/

namespace Herdr

/-- No task was lost, and none moved back. -/
def TasksMove (t t' : Table Task Task.id) : Prop :=
  ∀ id task, t.find id = some task → ∃ task', t'.find id = some task' ∧
    task.revision ≤ task'.revision

theorem TasksMove.refl (t : Table Task Task.id) : TasksMove t t :=
  fun _ task h => ⟨task, h, Nat.le_refl _⟩

theorem TasksMove.trans {t t' t'' : Table Task Task.id} (h : TasksMove t t')
    (h' : TasksMove t' t'') : TasksMove t t'' := by
  intro id task hfind
  obtain ⟨task', hfind', hle⟩ := h id task hfind
  obtain ⟨task'', hfind'', hle'⟩ := h' id task' hfind'
  exact ⟨task'', hfind'', Nat.le_trans hle hle'⟩

theorem TasksMove.update {t : Table Task Task.id} {old new : Task} (hold : t.find new.id = some old)
    (hle : old.revision ≤ new.revision) : TasksMove t (t.update new) := by
  intro id task hfind
  by_cases he : new.id = id
  · rw [he, hfind] at hold
    cases hold
    exact ⟨new, by rw [Table.find_update, if_pos he, hfind]; rfl, hle⟩
  · exact ⟨task, by rwa [Table.find_update_ne he], Nat.le_refl _⟩

structure Onward (s s' : Store) : Prop where
  operations : s'.operations = s.operations
  tasks : TasksMove s.tasks s'.tasks
  log : ∃ es, s'.events = s.events ++ es ∧ ∀ e ∈ es, e.kind.retirement = false
  delivered : ∀ id, s.deliveries.find id = none → s'.deliveries.find id = none
  deliveries : ∀ id d, s.deliveries.find id = some d → ∃ d', s'.deliveries.find id = some d' ∧
    (Jobs.unfinished d'.state = true → Jobs.unfinished d.state = true)

namespace Onward

variable {s s' : Store}

theorem of_same (hops : s'.operations = s.operations) (htasks : TasksMove s.tasks s'.tasks)
    (hlog : ∃ es, s'.events = s.events ++ es ∧ ∀ e ∈ es, e.kind.retirement = false)
    (hdel : s'.deliveries = s.deliveries) : Onward s s' := by
  refine ⟨hops, htasks, hlog, fun id h => ?_, fun id d h => ⟨d, ?_, fun hun => hun⟩⟩
  · rwa [hdel]
  · rwa [hdel]

theorem refl (s : Store) : Onward s s := of_same rfl (.refl _) ⟨[], by simp, by simp⟩ rfl

theorem trans {s'' : Store} (h : Onward s s') (h' : Onward s' s'') : Onward s s'' := by
  obtain ⟨es, hes, hquiet⟩ := h.log
  obtain ⟨es', hes', hquiet'⟩ := h'.log
  refine ⟨h'.operations.trans h.operations, h.tasks.trans h'.tasks,
    ⟨es ++ es', by rw [hes', hes, List.append_assoc], fun e he => ?_⟩,
    fun id hnone => h'.delivered id (h.delivered id hnone), fun id d hd => ?_⟩
  · rcases List.mem_append.mp he with he | he
    · exact hquiet e he
    · exact hquiet' e he
  · obtain ⟨d', hd', hun⟩ := h.deliveries id d hd
    obtain ⟨d'', hd'', hun'⟩ := h'.deliveries id d' hd'
    exact ⟨d'', hd'', fun hd => hun (hun' hd)⟩

/-- One delivery was updated, and was unfinished or stays finished. -/
theorem of_update {old new : Delivery} (hops : s'.operations = s.operations)
    (htasks : TasksMove s.tasks s'.tasks)
    (hlog : ∃ es, s'.events = s.events ++ es ∧ ∀ e ∈ es, e.kind.retirement = false)
    (hdel : s'.deliveries = s.deliveries.update new)
    (hold : s.deliveries.find new.operation = some old)
    (hun : Jobs.unfinished new.state = true → Jobs.unfinished old.state = true) : Onward s s' := by
  refine ⟨hops, htasks, hlog, fun id hnone => ?_, fun id d hd => ?_⟩
  · rw [hdel, Table.find_update, hnone]
    exact ite_self _
  · by_cases he : new.operation = id
    · rw [he, hd] at hold
      cases hold
      exact ⟨new, by rw [hdel, Table.find_update, if_pos he, hd]; rfl, hun⟩
    · exact ⟨d, by rwa [hdel, Table.find_update_ne he], fun hd => hd⟩

theorem of_finalizes (h : s'.tasks = s.tasks ∨ ∃ old new, Finalizes s s'.tasks old new) :
    TasksMove s.tasks s'.tasks := by
  rcases h with h | ⟨old, new, h⟩
  · rw [h]
    exact .refl _
  · rw [h.tasks_eq]
    exact .update (h.id_eq ▸ h.found) (h.revision ▸ Nat.le_succ _)

variable [Digests] {env : Outside}

theorem claims (env : Outside) {c : Claim} {old : Delivery} {op : Operation} (h : Claimed s s' c old op) :
    Onward s s' := by
  have hid : old.operation = c.operation := Table.find_key h.row
  have heffect : Effect env s (some c) s' := .claims h
  have hdel : s'.deliveries = s.deliveries.update (old.claim c.owner c.leaseUntilMs) := by rw [h.frame]
  have hrow : s.deliveries.find (old.claim c.owner c.leaseUntilMs).operation = some old := by
    rw [← h.row, ← hid]
    rfl
  refine .of_update (by rw [h.frame]) (by rw [h.frame]; exact .refl _) heffect.quiet.log hdel hrow ?_
  rw [h.pending]
  exact fun _ => rfl

omit [Digests] in
theorem settles {old : Delivery} {outcome : Outcome} {now : Int} {id : OperationId}
    (hold : s.deliveries.find id = some old) (hun : Jobs.unfinished old.state = true)
    (h : Settles s s' (old.settle outcome now)) : Onward s s' := by
  have hid : old.operation = id := Table.find_key hold
  have hdel : s'.deliveries = s.deliveries.update (old.settle outcome now) := by rw [h.frame]
  have hrow : s.deliveries.find (old.settle outcome now).operation = some old := by
    rw [← hold, ← hid]
    rfl
  exact .of_update (by rw [h.frame]) (of_finalizes h.tasks) h.log.unretired hdel hrow fun _ => hun

theorem expires {now : Int} {n : Nat} (h : expireClaims env now s = .ok (n, s')) : Onward s s' := by
  obtain ⟨honly, hrows⟩ := expireClaims_ok h
  refine ⟨by rw [honly.frame], by rw [honly.frame]; exact .refl _, honly.log.unretired,
    fun id hnone => Jobs.expireClaims_none h hnone, fun id d hd => ?_⟩
  obtain ⟨d', hd', ⟨hexpired, -⟩ | ⟨-, rfl⟩⟩ := hrows hd
  · -- only claimed rows expire
    obtain ⟨d₀, hd₀, hclaimed, -⟩ := Store.mem_expired.mp hexpired
    rw [hd] at hd₀
    cases hd₀
    exact ⟨d', hd', fun _ => by rw [hclaimed]; rfl⟩
  · exact ⟨d', hd', fun hun => hun⟩

end Onward

end Herdr
