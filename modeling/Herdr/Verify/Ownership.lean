import Herdr.Lib.Matching
import Herdr.Verify.Cancellation

/-!
# Tasks and their active attempts

The active attempt of a task and the task of a retained attempt are inverse to each other: a
`Matching` of the library. A reservation takes the free slot of its task, an observed end releases
it, and every other call leaves the matching alone.
-/

namespace Herdr

/-- The slot that an attempt retains, until its end is observed. -/
def Attempt.slot (a : Attempt) : Option TaskId :=
  if a.terminationObserved then none else some a.task

/-- Active attempts of tasks, and tasks of retained attempts. -/
def Store.matching (s : Store) : Matching TaskId AttemptId where
  holder task := (s.tasks.find task).bind Task.activeAttempt
  slot attempt := (s.attempts.find attempt).bind Attempt.slot

theorem Attempt.slot_eq_some {a : Attempt} {task : TaskId} :
    a.slot = some task ↔ a.terminationObserved = false ∧ a.task = task := by
  unfold Attempt.slot
  cases a.terminationObserved <;> simp

variable [Digests] {env : Outside} {s s' : Store} {o : Option Claim}

/-! ## The matching -/

section Matching

omit [Digests]

theorem matching_keep (htasks : s'.tasks = s.tasks) (hattempts : s'.attempts = s.attempts) :
    Matching.Step s.matching s'.matching := by
  refine .keep ?_ ?_
  · unfold Store.matching
    rw [htasks]
  · unfold Store.matching
    rw [hattempts]

/-- Updating a task without changing its active attempt keeps every holder. -/
theorem holder_update {old new : Task} (htasks : s'.tasks = s.tasks.update new)
    (hrow : s.tasks.find old.id = some old) (hid : new.id = old.id)
    (hactive : new.activeAttempt = old.activeAttempt) : s'.matching.holder = s.matching.holder := by
  unfold Store.matching
  simp only [htasks]
  rw [Table.bind_update _ (hid ▸ hrow), Function.update_eq_self_iff, hid, hactive]
  simp [hrow]

/-- Updating an attempt without changing its slot keeps every slot. -/
theorem slot_update {old new : Attempt} (hattempts : s'.attempts = s.attempts.update new)
    (hrow : s.attempts.find old.id = some old) (hid : new.id = old.id)
    (hslot : new.slot = old.slot) : s'.matching.slot = s.matching.slot := by
  unfold Store.matching
  simp only [hattempts]
  rw [Table.bind_update _ (hid ▸ hrow), Function.update_eq_self_iff, hid, hslot]
  simp [hrow]

/-- A task that is finalized was idle and stays so. -/
theorem holder_finalizes (h : s'.tasks = s.tasks ∨ ∃ old new, Finalizes s s'.tasks old new) :
    s'.matching.holder = s.matching.holder := by
  rcases h with h | ⟨old, new, h⟩
  · unfold Store.matching
    rw [h]
  · exact holder_update h.tasks_eq h.found h.id_eq (h.active.trans h.idle.symm)

/-- The end of the active attempt releases the slot of its task. -/
theorem matching_release {attempt attempt' : Attempt} {task task' : Task}
    (hattempts : s'.attempts = s.attempts.update attempt')
    (htasks : s'.tasks = s.tasks.update task')
    (hattempt : s.attempts.find attempt.id = some attempt)
    (htask : s.tasks.find attempt.task = some task)
    (hactive : task.activeAttempt = some attempt.id)
    (hid : attempt'.id = attempt.id) (hended : attempt'.terminationObserved = true)
    (hid' : task'.id = task.id) (hidle : task'.activeAttempt = none) : Matching.Step s.matching s'.matching := by
  have hkey : task.id = attempt.task := Table.find_key htask
  rw [← hkey] at htask
  refine .release task.id attempt.id ?_ ?_ ?_
  · simp [Store.matching, htask, hactive]
  · unfold Store.matching
    simp only [htasks]
    rw [Table.bind_update _ (hid' ▸ htask), hid', hidle]
  · unfold Store.matching
    simp only [hattempts]
    rw [Table.bind_update _ (hid ▸ hattempt), hid, Attempt.slot, if_pos hended]

end Matching

theorem Reserves.matching {record : AttemptInputRecord} {task : Task} {now : Int}
    (h : Reserves s s' record task now) (hadmissible : Admissible s task)
    (htask : record.inputs.task = task.id) : Matching.Step s.matching s'.matching := by
  refine .acquire task.id record.attempt ?_ ?_ ?_ ?_
  · simp [Store.matching, hadmissible.taskRow, hadmissible.idle]
  · have hnone : s.attempts.find record.attempt = none := (Table.insert?_eq_some h.attempts).1
    simp [Store.matching, hnone]
  · unfold Store.matching
    simp only [h.tasks]
    exact Table.bind_update Task.activeAttempt hadmissible.taskRow
  · unfold Store.matching
    refine (Table.bind_insert? Attempt.slot h.attempts).trans ?_
    rw [← htask]
    rfl

theorem Cancels.matching {attempt : Attempt} {task : Task} {request : CancellationRequest}
    {released : Bool} (h : Cancels s s' attempt task request released) :
    Matching.Step s.matching s'.matching := by
  cases released with
  | true =>
    rcases h.tasks with ⟨hactive, htasks⟩ | ⟨-, hnot, -⟩
    · exact matching_release h.attempts htasks h.attemptRow h.taskRow hactive rfl
        (by simp [Attempt.cancel]) rfl rfl
    · cases hnot
  | false =>
    refine .keep ?_ (slot_update h.attempts h.attemptRow rfl
      (by simp [Attempt.slot, Attempt.cancel]))
    rcases h.tasks with ⟨-, htasks⟩ | ⟨-, -, htasks⟩
    · have hkey : task.id = attempt.task := Table.find_key h.taskRow
      have hrow : s.tasks.find task.id = some task := hkey ▸ h.taskRow
      exact holder_update htasks hrow rfl rfl
    · unfold Store.matching
      rw [htasks]

omit [Digests] in
theorem Ends.matching {attempt : Attempt} {task : Task} (h : Ends s s' attempt task) :
    Matching.Step s.matching s'.matching := by
  obtain ⟨state, -, hattempts⟩ := h.attempts
  obtain ⟨state', -, htasks⟩ := h.tasks
  exact matching_release hattempts htasks h.attemptRow h.taskRow h.active rfl rfl rfl rfl

/-- **Every call takes a free slot, releases a held one, or leaves the matching alone.** -/
theorem Effect.matching (h : Effect env s o s') : Matching.Step s.matching s'.matching := by
  cases h with
  | reads => exact .keep rfl rfl
  | claims claimed => exact matching_keep (by rw [claimed.frame]) (by rw [claimed.frame])
  | settles _ settled =>
    refine .keep (holder_finalizes settled.tasks) ?_
    unfold Store.matching
    rw [settled.frame]
  | expires _ only => exact matching_keep (by rw [only.frame]) (by rw [only.frame])
  | records => exact matching_keep rfl rfl
  | @starts _ _ _ record attempt _ _ _ _ _ acknowledged published =>
    have hid : attempt.id = record.attempt := Table.find_key acknowledged.attemptRow
    have hattempts : s'.attempts = s.attempts.update attempt.launched := by rw [published.frame]
    have hrow : s.attempts.find attempt.id = some attempt := hid ▸ acknowledged.attemptRow
    exact .keep (holder_finalizes published.tasks) (slot_update hattempts hrow rfl rfl)
  | reserves admissible of_task _ reserved => exact reserved.matching admissible of_task
  | cancels cancelled => exact cancelled.matching
  | ends ended => exact ended.matching
  | stops ended => exact ended.matching
  | @completes _ attempt row frame =>
    have hattempts : s'.attempts =
        s.attempts.update { attempt with revision := attempt.revision + 1 } := by rw [frame]
    refine .keep ?_ (slot_update hattempts row rfl rfl)
    unfold Store.matching
    rw [frame]
  | queues queued =>
    refine .keep (holder_update (by rw [queued.frame]) queued.taskRow queued.id_eq
      (queued.active.trans queued.idle.symm)) ?_
    unfold Store.matching
    rw [queued.frame]
  | adopts frame => exact matching_keep (by rw [frame]) (by rw [frame])

/-! ## Running tasks -/

/-- The task runs exactly when it has an active attempt. -/
def Task.Balanced (t : Task) : Prop := t.state = .running ↔ t.activeAttempt.isSome = true

/-- Every task is balanced, except one that ran without an attempt from the start. -/
def RunningInv (s₀ s : Store) : Prop :=
  ∀ t ∈ s.tasks.rows, t.Balanced ∨
    (t ∈ s₀.tasks.rows ∧ t.state = .running ∧ t.activeAttempt = none)

omit [Digests] in
theorem RunningInv.update {s₀ : Store} (h : RunningInv s₀ s) {new : Task} (hnew : new.Balanced)
    (htasks : s'.tasks = s.tasks.update new) : RunningInv s₀ s' := by
  intro t ht
  rw [htasks] at ht
  rcases Table.mem_update ht with rfl | ⟨ht, -⟩
  · exact .inl hnew
  · exact h t ht

omit [Digests] in
theorem RunningInv.same {s₀ : Store} (h : RunningInv s₀ s) (htasks : s'.tasks = s.tasks) :
    RunningInv s₀ s' := by
  unfold RunningInv
  rw [htasks]
  exact h

omit [Digests] in
theorem balanced_idle {t : Task} (hidle : t.activeAttempt = none) (hstate : t.state ≠ .running) :
    t.Balanced := by
  simp [Task.Balanced, hidle, hstate]

omit [Digests] in
theorem RunningInv.finalizes {s₀ : Store} (h : RunningInv s₀ s)
    (htasks : s'.tasks = s.tasks ∨ ∃ old new, Finalizes s s'.tasks old new) :
    RunningInv s₀ s' := by
  rcases htasks with htasks | ⟨old, new, hf⟩
  · exact h.same htasks
  · exact h.update (balanced_idle hf.active (by simp [hf.state])) hf.tasks_eq

/-- A task that is cancelled without a release keeps its active attempt and its state. -/
theorem Cancels.running {s₀ : Store} {attempt : Attempt} {task : Task}
    {request : CancellationRequest} {released : Bool}
    (hc : Cancels s s' attempt task request released) (h : RunningInv s₀ s) :
    RunningInv s₀ s' := by
  rcases hc.tasks with ⟨hactive, htasks⟩ | ⟨-, -, htasks⟩
  · refine h.update ?_ htasks
    cases released with
    | true => exact balanced_idle rfl (by simp [Task.cancel])
    | false =>
      rcases h task (Table.mem_of_find hc.taskRow) with hbalanced | ⟨-, -, hidle⟩
      · exact hbalanced
      · rw [hactive] at hidle
        cases hidle
  · exact h.same htasks

omit [Digests] in
theorem Ends.running {s₀ : Store} {attempt : Attempt} {task : Task} (he : Ends s s' attempt task)
    (h : RunningInv s₀ s) : RunningInv s₀ s' := by
  obtain ⟨state, hstate, htasks⟩ := he.tasks
  exact h.update (balanced_idle rfl hstate) htasks

theorem RunningInv.step {s₀ : Store} (h : RunningInv s₀ s) (he : Effect env s o s') :
    RunningInv s₀ s' := by
  cases he with
  | reads => exact h
  | claims claimed => exact h.same (by rw [claimed.frame])
  | settles _ settled => exact h.finalizes settled.tasks
  | expires _ only => exact h.same (by rw [only.frame])
  | records => exact h.same rfl
  | starts _ _ published => exact h.finalizes published.tasks
  | reserves _ _ _ reserved => exact h.update (by simp [Task.Balanced]) reserved.tasks
  | cancels cancelled => exact cancelled.running h
  | ends ended => exact ended.running h
  | stops ended => exact ended.running h
  | completes _ frame => exact h.same (by rw [frame])
  | queues queued =>
    exact h.update (balanced_idle queued.active (by simp [queued.state])) (by rw [queued.frame])
  | adopts frame => exact h.same (by rw [frame])

/-! ## Bounds after a reservation -/

theorem Reserves.bounded {record : AttemptInputRecord} {task : Task} {now : Int}
    (h : Reserves s s' record task now) (hadmissible : Admissible s task) :
    s'.retained.length ≤ s'.policy.maxActiveWorkers ∧
      (s'.attempts.rows.countP fun a => a.task = task.id) ≤ s'.policy.maxAttemptsPerTask := by
  have hrows := (Table.insert?_eq_some h.attempts).2
  have hpolicy : s'.policy = s.policy := by rw [h.frame]
  constructor
  · have hlength : s'.retained.length ≤ s.retained.length + 1 := by
      unfold Store.retained
      rw [hrows, List.filter_append, List.length_append]
      exact Nat.add_le_add_left (List.length_filter_le ..) _
    have hcapacity := hadmissible.capacity
    rw [hpolicy]
    omega
  · have hcount : (s'.attempts.rows.countP fun a => a.task = task.id) ≤
        (s.attempts.rows.countP fun a => a.task = task.id) + 1 := by
      rw [hrows, List.countP_append]
      exact Nat.add_le_add_left List.countP_le_length _
    have hlifetime := hadmissible.lifetime
    rw [hpolicy]
    omega

/-! ## Over a run -/

/-- The composite foreign key of `tasks`: an active attempt is there and belongs to its task. -/
def TasksReferenced (s : Store) : Prop :=
  ∀ t ∈ s.tasks.rows, ∀ id, t.activeAttempt = some id →
    ∃ a ∈ s.attempts.rows, a.id = id ∧ a.task = t.id

/-- Ownership at a point of a run from `s₀`. -/
structure Ownership (s₀ : Store) (run : StoreRun) : Prop where
  /-- A task has at most one attempt whose end is not observed. -/
  single : ∀ a ∈ run.state.attempts.rows, ∀ b ∈ run.state.attempts.rows, a.task = b.task →
    a.terminationObserved = false → b.terminationObserved = false → a = b
  /-- That attempt is the active one, and no other is. -/
  active : ∀ t ∈ run.state.tasks.rows, ∀ id, t.activeAttempt = some id ↔
    ∃ a ∈ run.state.attempts.rows, a.id = id ∧ a.task = t.id ∧ a.terminationObserved = false
  /-- A task runs exactly when it has one, unless it ran without one from the start. -/
  running : ∀ t ∈ run.state.tasks.rows,
    (t.state = .running ↔ t.activeAttempt.isSome = true) ∨
      (t ∈ s₀.tasks.rows ∧ t.state = .running ∧ t.activeAttempt = none)
  /-- No call takes an observed end back. -/
  ended : ∀ (call : Call) (id : AttemptId) (a : Attempt),
    run.state.attempts.find id = some a → a.terminationObserved = true →
    ∃ a', (exec call run.state).2.attempts.find id = some a' ∧ a'.terminationObserved = true
  /-- Right after a reservation, capacity and lifetime are within the policy in force. -/
  bounded : ∀ (call : Call) (record : AttemptInputRecord), Admitted run.state call record →
    (exec call run.state).2.retained.length ≤
        (exec call run.state).2.policy.maxActiveWorkers ∧
      ((exec call run.state).2.attempts.rows.countP fun a => a.task = record.inputs.task) ≤
        (exec call run.state).2.policy.maxAttemptsPerTask

omit [Digests] in
theorem active_iff_slot (h : s.matching.Consistent) {t : Task} (ht : t ∈ s.tasks.rows)
    (id : AttemptId) : t.activeAttempt = some id ↔
      ∃ a ∈ s.attempts.rows, a.id = id ∧ a.task = t.id ∧ a.terminationObserved = false := by
  have hholder : s.matching.holder t.id = some id ↔ t.activeAttempt = some id := by
    simp [Store.matching, Table.find_of_mem ht]
  rw [← hholder, h t.id id]
  constructor
  · intro hslot
    obtain ⟨a, ha, haslot⟩ := Option.bind_eq_some_iff.mp hslot
    obtain ⟨hretained, htask⟩ := Attempt.slot_eq_some.mp haslot
    exact ⟨a, Table.mem_of_find ha, Table.find_key ha, htask, hretained⟩
  · rintro ⟨a, ha, rfl, htask, hretained⟩
    exact Option.bind_eq_some_iff.mpr
      ⟨a, Table.find_of_mem ha, Attempt.slot_eq_some.mpr ⟨hretained, htask⟩⟩

theorem Ownership.of_inv {s₀ : Store} {run : StoreRun} (hmatching : run.state.matching.Consistent)
    (hrunning : RunningInv s₀ run.state) : Ownership s₀ run := by
  refine ⟨?_, fun t ht id => active_iff_slot hmatching ht id, hrunning, ?_, ?_⟩
  · intro a ha b hb htask hretained hretained'
    have haslot : run.state.matching.slot a.id = some a.task := Option.bind_eq_some_iff.mpr
      ⟨a, Table.find_of_mem ha, Attempt.slot_eq_some.mpr ⟨hretained, rfl⟩⟩
    have hbslot : run.state.matching.slot b.id = some a.task := Option.bind_eq_some_iff.mpr
      ⟨b, Table.find_of_mem hb, Attempt.slot_eq_some.mpr ⟨hretained', htask.symm⟩⟩
    exact Table.eq_of_mem ha hb (hmatching.unique haslot hbslot)
  · intro call id a ha hended
    obtain ⟨a', ha', hmove⟩ := (exec_effect call run.state).attempt ha
    exact ⟨a', ha', hmove.terminated hended⟩
  · intro call record hadmitted
    obtain ⟨task, now, hadmissible, htask, -, hreserves⟩ := hadmitted.reserves
    rw [htask]
    exact hreserves.bounded hadmissible

/-- **Task and attempt ownership**, in every state reachable from a store without attempts. -/
theorem task_ownership {s : Store} (hempty : s.attempts.rows = [])
    (hreferenced : TasksReferenced s) (calls : List Call) : Ownership s (runFrom s calls) := by
  have hidle : ∀ t ∈ s.tasks.rows, t.activeAttempt = none := by
    intro t ht
    cases hactive : t.activeAttempt with
    | none => rfl
    | some id =>
      obtain ⟨a, ha, -⟩ := hreferenced t ht id hactive
      rw [hempty] at ha
      cases ha
  have hmatching : s.matching.Consistent := by
    refine .empty (fun task => ?_) (fun attempt => ?_)
    · cases hfind : s.tasks.find task with
      | none => simp [Store.matching, hfind]
      | some t => simp [Store.matching, hfind, hidle t (Table.mem_of_find hfind)]
    · have hnone : s.attempts.find attempt = none := by
        rw [Table.find_eq_none_iff, hempty]
        simp
      simp [Store.matching, hnone]
  have hrunning : RunningInv s s := by
    intro t ht
    by_cases hstate : t.state = .running
    · exact .inr ⟨ht, hstate, hidle t ht⟩
    · exact .inl (balanced_idle (hidle t ht) hstate)
  have hinv : (runFrom s calls).state.matching.Consistent ∧
      RunningInv s (runFrom s calls).state := by
    unfold runFrom
    apply Run.invariant (I := fun run : StoreRun =>
      run.state.matching.Consistent ∧ RunningInv s run.state)
    · exact ⟨hmatching, hrunning⟩
    rintro run call - ⟨hm, hr⟩
    have heffect := exec_effect call run.state
    exact ⟨hm.step heffect.matching, hr.step heffect⟩
  exact .of_inv hinv.1 hinv.2

omit [Digests] in
/-- The sample store, whose task is queued, under its launch. -/
theorem task_ownership_sample :
    @Ownership Sample.digests Sample.store
      (@runFrom Sample.digests Sample.store (Sample.admission :: Sample.launch)) :=
  @task_ownership Sample.digests Sample.store rfl
    (by simp [TasksReferenced, Sample.store]) (Sample.admission :: Sample.launch)

/-- A task that was committed as running, with no attempt. -/
def runningStore : Store := { Store.created "/state.db" with
  tasks := ⟨[⟨⟨"task"⟩, 1, .running, "Task", none⟩], by simp⟩ }

omit [Digests] in
/-- It runs without an active attempt in a store without attempts. -/
theorem running_without_attempt :
    runningStore.attempts.rows = [] ∧ TasksReferenced runningStore ∧
      ¬∀ t ∈ (@runFrom Sample.digests runningStore []).state.tasks.rows,
        t.state = .running ↔ t.activeAttempt.isSome = true := by
  refine ⟨rfl, by simp [TasksReferenced, runningStore], fun h => ?_⟩
  have hrow := h ⟨⟨"task"⟩, 1, .running, "Task", none⟩ (by simp [runFrom, runningStore])
  simp at hrow

end Herdr
