import Herdr.Verify.Onward

/-!
# Idle targets wait for busy ones

A turn of the producer reads the oldest rows of its queue only, and the rows of a busy target stay
in it. It enqueues a job exactly when one of the rows that it reads can have one, whatever waits
behind them. Every job takes the place of a submission without a job for the revision of its task,
and turns move no task, so turns that all enqueue a job reach every idle target.
-/

namespace Herdr.Jobs

variable {s s' t : JobStore}

/-! ## Retirements -/

/-- The message of a retirement. -/
def retirementMessage (bound current : Nat) : String :=
  "task_revision_changed: bound to task revision " ++ toString bound ++ ", task is now at " ++
    toString current ++ "; a job for the current revision replaces it"

/-- The retirement of a stale job goes through: its delivery has a next revision. -/
structure JobStore.Retirable (s : JobStore) (stale : OperationId × Nat × Nat) : Prop where
  row : ∃ d, s.deliveries.find stale.1 = some d ∧ d.revision + 1 ≤ i64Max
  message : ¬trimEmpty (retirementMessage stale.2.1 stale.2.2) ∧
    (retirementMessage stale.2.1 stale.2.2).utf8ByteSize ≤ 8192

theorem byteSize_le (l : List Char) : (String.ofList l).utf8ByteSize ≤ 4 * l.length := by
  induction l with
  | nil => exact Nat.le_refl _
  | cons c l ih =>
    have hc := c.utf8Size_le_four
    rw [String.ofList_cons, String.utf8ByteSize_append, String.utf8ByteSize_singleton, List.length_cons]
    omega

/-- The message of revisions that a column can hold is short enough. -/
theorem retirementMessage_fits {bound current : Nat} (hbound : bound ≤ i64Max)
    (hcurrent : current ≤ i64Max) : ¬trimEmpty (retirementMessage bound current) ∧
      (retirementMessage bound current).utf8ByteSize ≤ 8192 := by
  have hdigits {n : Nat} (h : n ≤ i64Max) : (toString n).utf8ByteSize ≤ 80 := by
    have hshort : (Nat.toDigits 10 n).length ≤ 20 := by
      refine (Nat.length_toDigits_le_iff (by decide) (by decide)).mpr ?_
      exact Nat.lt_of_le_of_lt h (by decide +kernel)
    have hsize := byteSize_le (Nat.toDigits 10 n)
    rw [Nat.toString_eq_ofList_toDigits]
    exact hsize.trans (Nat.mul_le_mul_left 4 hshort)
  have hb := hdigits hbound
  have hc := hdigits hcurrent
  constructor
  · have hmem : 't' ∈ (retirementMessage bound current).toList := by
      unfold retirementMessage
      rw [String.toList_append, String.toList_append, String.toList_append, String.toList_append]
      refine List.mem_append_left _ (List.mem_append_left _ (List.mem_append_left _ ?_))
      refine List.mem_append_left _ ?_
      decide
    intro hempty
    exact absurd (List.all_eq_true.mp hempty 't' hmem) (by decide)
  · have hfirst : "task_revision_changed: bound to task revision ".utf8ByteSize = 46 := rfl
    have hsecond : ", task is now at ".utf8ByteSize = 17 := rfl
    have hthird : "; a job for the current revision replaces it".utf8ByteSize = 44 := rfl
    unfold retirementMessage
    rw [String.utf8ByteSize_append, String.utf8ByteSize_append, String.utf8ByteSize_append,
      String.utf8ByteSize_append, hfirst, hsecond, hthird]
    generalize (toString bound).utf8ByteSize = m at hb ⊢
    generalize (toString current).utf8ByteSize = n at hc ⊢
    omega

/-- So only a delivery at the last revision stays where it is. -/
theorem retirable_iff {s : JobStore} {stale : OperationId × Nat × Nat} (hbound : stale.2.1 ≤ i64Max)
    (hcurrent : stale.2.2 ≤ i64Max) : s.Retirable stale ↔
      ∃ d, s.deliveries.find stale.1 = some d ∧ d.revision + 1 ≤ i64Max :=
  ⟨fun h => h.row, fun h => ⟨h, retirementMessage_fits hbound hcurrent⟩⟩

/-- The store after a stale job was retired and its submission queued again. -/
def JobStore.retire (s : JobStore) (now : Int) (stale : OperationId × Nat × Nat) : JobStore :=
  match s.deliveries.find stale.1 with
  | none => s
  | some old =>
    let t := s.retireTo stale.1 now old (.permanentFailure (retirementMessage stale.2.1 stale.2.2))
      (old.revision + 1) stale.2.1 stale.2.2
    match (s.operations.find stale.1).bind job? with
    | some job => t.requeue job.submissionId
    | none => t

/-- The store after the retirements of a turn. -/
def JobStore.sweep (s : JobStore) (now : Int) : JobStore :=
  ((s.stale .integration).take turnLimit).foldl (·.retire now ·) s

/-- The retirements of a turn go through. -/
def JobStore.Room (s : JobStore) : Prop :=
  ∀ stale ∈ (s.stale .integration).take turnLimit, s.Retirable stale

section Retirements

variable [Digests] [JobDigests] {env : Outside} {now : Int} {stale : OperationId × Nat × Nat}

omit [JobDigests] in
theorem updateOutcome_failure {store store' : Store} {old d : Delivery} {message actor : String} :
    updateOutcome env old (.permanentFailure message) now actor store = .ok (d, store') ↔
      (¬trimEmpty message ∧ message.utf8ByteSize ≤ 8192) ∧ old.revision + 1 ≤ i64Max ∧
      (store.settled old (.permanentFailure message) now actor).deliveries.find old.operation = some d ∧
      store.settled old (.permanentFailure message) now actor = store' := by
  simp only [updateOutcome, text, Tx.require_bind, confirm, pure_bind, increment_bind,
    updateDelivery_bind, logEvent_bind, readDelivery, Tx.find_ok]
  constructor
  · rintro ⟨hmessage, hrevision, -, -, hfind, hstore⟩
    exact ⟨hmessage, hrevision, hfind, hstore⟩
  · rintro ⟨hmessage, hrevision, hfind, hstore⟩
    exact ⟨hmessage, hrevision, hrevision, hrevision, hfind, hstore⟩

omit [JobDigests] in
theorem retireJob_iff {u : Unit} : retireJob env .integration now stale s = .ok (u, s') ↔
    s.Retirable stale ∧ s.retire now stale = s' := by
  obtain ⟨id, bound, current⟩ := stale
  have hretire {old : Delivery} (hrow : s.deliveries.find id = some old) :
      (match (s.operations.find id).bind job? with
        | some job => (s.retireTo id now old (.permanentFailure (retirementMessage bound current))
          (old.revision + 1) bound current).requeue job.submissionId
        | none => s.retireTo id now old (.permanentFailure (retirementMessage bound current))
          (old.revision + 1) bound current) = s.retire now (id, bound, current) := by
    rw [JobStore.retire, hrow]
  have hsettled {old : Delivery} (hrow : s.deliveries.find id = some old) {message : String} :
      (s.toStore.settled old (.permanentFailure message) now "result-automation").deliveries.find
        old.operation = some (old.settle (.permanentFailure message) now) := by
    have hid : old.operation = id := Table.find_key hrow
    have hself : s.deliveries.find (old.settle (.permanentFailure message) now).operation = some old := by
      rw [← hrow, ← hid]
      rfl
    exact Table.find_update_self hself
  have hlogged {old : Delivery} {message : String} :
      ({ s with toStore := (s.toStore.settled old (.permanentFailure message) now
        "result-automation").logged [⟨id.val, old.revision + 1, .jobRetired .integration bound current⟩] } :
          JobStore) =
        s.retireTo id now old (.permanentFailure message) (old.revision + 1) bound current := by
    simp only [JobStore.retireTo, Store.logged, Store.settled, List.append_assoc, List.cons_append,
      List.nil_append]
  simp only [retireJob, inStore_bind, readDelivery, Tx.find_ok, if_true, Tx.write_ok, logEvent_ok]
  constructor
  · rintro ⟨old, _, ⟨hrow, rfl⟩, d, t, hout, _, t', ⟨-, rfl⟩, h⟩
    obtain ⟨hmessage, hrevision, hfind, rfl⟩ := updateOutcome_failure.mp hout
    obtain rfl := Option.some.inj (hfind.symm.trans (hsettled hrow))
    refine ⟨⟨⟨old, hrow, hrevision⟩, hmessage⟩, ?_⟩
    rw [← h, ← hretire hrow, ← hlogged]
    rfl
  · rintro ⟨⟨⟨old, hrow, hrevision⟩, hmessage⟩, rfl⟩
    have hout := (@updateOutcome_failure _ env now ..).mpr ⟨hmessage, hrevision, hsettled hrow, rfl⟩
    refine ⟨old, _, ⟨hrow, rfl⟩, _, _, hout, (), _, ⟨hrevision, rfl⟩, ?_⟩
    rw [← hretire hrow, ← hlogged]
    rfl

end Retirements

/-! ## What a turn rests on -/

/-- A delivery comes after its operation and a result after its run; a job is of its submission's
task, its fence is not ahead of the task, and behind it once the job was retired. -/
structure Sane (s : JobStore) : Prop where
  delivered : ∀ id, s.operations.find id = none → s.deliveries.find id = none
  results : ∀ r ∈ s.results.results.rows,
    ∃ v, s.results.runs.find r.runId = some v ∧ v.submissionId = r.submissionId
  jobs : ∀ op ∈ s.operations.rows, ∀ job, job? op = some job → ∃ sub task,
    s.results.submissions.find job.submissionId = some sub ∧ op.task = some sub.taskId ∧
    s.tasks.find sub.taskId = some task ∧ op.expectedRevision ≤ task.revision ∧
    (s.isRetired .integration op.id = true → op.expectedRevision < task.revision)
  retired : ∀ id, s.isRetired .integration id = true → (s.operations.find id).isSome

/-- A write of another method: it adds and retires no integration job, moves no task back and
loses no submission. -/
structure Others (s s' : JobStore) : Prop where
  tasks : TasksMove s.tasks s'.tasks
  jobs : ∀ op, (job? op).isSome → (op ∈ s'.operations.rows ↔ op ∈ s.operations.rows)
  operations : s.operations.Keeps s'.operations
  log : ∃ es, s'.events = s.events ++ es ∧ ∀ e ∈ es, e.kind.retirement = false
  submissions : ∀ id sub, s.results.submissions.find id = some sub →
    s'.results.submissions.find id = some sub
  delivered : ∀ id, s'.operations.find id = none → s'.deliveries.find id = none
  results : ∀ r ∈ s'.results.results.rows,
    ∃ v, s'.results.runs.find r.runId = some v ∧ v.submissionId = r.submissionId

theorem isRetired_append {es : List Event} (h : s'.events = s.events ++ es)
    (hes : ∀ e ∈ es, e.kind.retirement = false) (id : OperationId) :
    s'.isRetired .integration id = s.isRetired .integration id := by
  unfold JobStore.isRetired Store.hasEvent
  rw [h, List.any_append]
  have hnone : es.any (·.isAbout id.val [.jobRetired .integration]) = false := by
    refine List.any_eq_false.mpr fun e he hkind => ?_
    simp only [Event.isAbout, List.contains_eq_mem, List.mem_singleton, Bool.and_eq_true,
      decide_eq_true_eq] at hkind
    have hquiet := hes e he
    rw [hkind.2] at hquiet
    cases hquiet
  rw [hnone, Bool.or_false]

theorem Sane.others (h : Sane s) (ho : Others s s') : Sane s' := by
  obtain ⟨es, hes, hquiet⟩ := ho.log
  have hretired := isRetired_append hes hquiet
  refine ⟨ho.delivered, ho.results, fun op hop job hjob => ?_, fun id hid => ?_⟩
  · obtain ⟨sub, task, hsub, htask, hfind, hle, hlt⟩ :=
      h.jobs op ((ho.jobs op (by rw [hjob]; rfl)).mp hop) job hjob
    obtain ⟨task', hfind', hmove⟩ := ho.tasks _ _ hfind
    refine ⟨sub, task', ho.submissions _ _ hsub, htask, hfind', hle.trans hmove, fun hr => ?_⟩
    rw [hretired] at hr
    exact Nat.lt_of_lt_of_le (hlt hr) hmove
  · rw [hretired] at hid
    exact ho.operations _ (h.retired id hid)

theorem Others.of_onward (h : Sane s) (ho : Onward s.toStore s'.toStore)
    (hresults : s'.results = s.results) : Others s s' where
  tasks := ho.tasks
  jobs op _ := by rw [ho.operations]
  operations := by
    rw [ho.operations]
    exact .refl _
  log := ho.log
  submissions id sub hsub := by rwa [hresults]
  delivered id hid := by
    rw [ho.operations] at hid
    exact ho.delivered id (h.delivered id hid)
  results := by
    rw [hresults]
    exact h.results

/-! ## The store after the retirements -/

/-- The retirements change deliveries, the log and the queue: jobs end, and no row leaves. -/
structure Swept (s t : JobStore) : Prop where
  operations : t.operations = s.operations
  tasks : t.tasks = s.tasks
  results : t.results = s.results
  targets : t.targets = s.targets
  pending : ∀ id, (s.pending.find id).isSome → (t.pending.find id).isSome
  retired : ∀ id, s.isRetired .integration id = true → t.isRetired .integration id = true
  shrinks : Shrinks s t
  enabled : t.enabled = s.enabled

theorem Swept.refl (s : JobStore) : Swept s s :=
  ⟨rfl, rfl, rfl, rfl, fun _ h => h, fun _ h => h, .refl s, rfl⟩

theorem Swept.trans {u : JobStore} (h : Swept s t) (h' : Swept t u) : Swept s u where
  operations := h'.operations.trans h.operations
  tasks := h'.tasks.trans h.tasks
  results := h'.results.trans h.results
  targets := h'.targets.trans h.targets
  pending id hid := h'.pending id (h.pending id hid)
  retired id hid := h'.retired id (h.retired id hid)
  shrinks := h.shrinks.trans h'.shrinks
  enabled := h'.enabled.trans h.enabled

theorem Swept.requeue (s : JobStore) (submission : String) : Swept s (s.requeue submission) := by
  have hframe := requeue_frame s submission
  refine ⟨?_, ?_, ?_, ?_, fun id hid => pending_requeue hid, fun id hid => ?_, .requeue s _, ?_⟩
  · rw [hframe]
  · rw [hframe]
  · rw [hframe]
  · rw [hframe]
  · rw [hframe]
    exact hid
  · rw [hframe]
    rfl

section Sweep

variable {now : Int} {stale : OperationId × Nat × Nat}

/-- What the retirement of one job writes. -/
theorem retire_cases (s : JobStore) (now : Int) (stale : OperationId × Nat × Nat) :
    s.deliveries.find stale.1 = none ∧ s.retire now stale = s ∨
    ∃ old message revision, s.deliveries.find stale.1 = some old ∧
      (s.retire now stale = s.retireTo stale.1 now old (.permanentFailure message) revision stale.2.1
        stale.2.2 ∨ ∃ submission, s.retire now stale = (s.retireTo stale.1 now old
          (.permanentFailure message) revision stale.2.1 stale.2.2).requeue submission) := by
  unfold JobStore.retire
  split
  next hnone => exact .inl ⟨hnone, rfl⟩
  next old hrow =>
    refine .inr ⟨old, retirementMessage stale.2.1 stale.2.2, old.revision + 1, hrow, ?_⟩
    dsimp only
    split
    · exact .inr ⟨_, rfl⟩
    · exact .inl rfl

theorem Swept.retireTo {id : OperationId} {old : Delivery} {message : String}
    {revision bound current : Nat} (hrow : s.deliveries.find id = some old) :
    Swept s (s.retireTo id now old (.permanentFailure message) revision bound current) := by
  have hid : old.operation = id := Table.find_key hrow
  refine ⟨rfl, rfl, rfl, rfl, fun _ h => h, fun x hx => isRetired_retireTo.mpr (.inl hx), ?_, rfl⟩
  exact .of_update old rfl rfl (hid ▸ hrow) rfl (by simp [Delivery.settle, Outcome.budgeted,
    Outcome.state, unfinished])

theorem Swept.retire (s : JobStore) (now : Int) (stale : OperationId × Nat × Nat) :
    Swept s (s.retire now stale) := by
  rcases retire_cases s now stale with ⟨-, h⟩ | ⟨old, message, revision, hrow, h | ⟨submission, h⟩⟩
  · rw [h]
    exact .refl s
  · rw [h]
    exact .retireTo hrow
  · rw [h]
    exact (Swept.retireTo hrow).trans (.requeue _ _)

/-- A retirement only retires its own job. -/
theorem isRetired_retire {id : OperationId} (h : (s.retire now stale).isRetired .integration id = true) :
    s.isRetired .integration id = true ∨
      id = stale.1 ∧ (s.deliveries.find stale.1).isSome := by
  rcases retire_cases s now stale with ⟨-, he⟩ | ⟨old, message, revision, hrow, he | ⟨submission, he⟩⟩
  · rw [he] at h
    exact .inl h
  · rw [he] at h
    exact (isRetired_retireTo.mp h).imp_right fun hid => ⟨hid, by rw [hrow]; rfl⟩
  · rw [he, requeue_frame] at h
    exact (isRetired_retireTo.mp h).imp_right fun hid => ⟨hid, by rw [hrow]; rfl⟩

theorem find_retire {id : OperationId} (hne : id ≠ stale.1) :
    (s.retire now stale).deliveries.find id = s.deliveries.find id := by
  have hother {old : Delivery} {outcome : Outcome} (hrow : s.deliveries.find stale.1 = some old) :
      (s.deliveries.update (old.settle outcome now)).find id = s.deliveries.find id := by
    have hid : old.operation = stale.1 := Table.find_key hrow
    exact Table.find_update_ne fun he => hne (he.symm.trans hid)
  rcases retire_cases s now stale with ⟨-, he⟩ | ⟨old, message, revision, hrow, he | ⟨submission, he⟩⟩
  · rw [he]
  · rw [he]
    exact hother hrow
  · rw [he, requeue_frame]
    exact hother hrow

/-- The job's fence does not hold any more. -/
def JobStore.Outdated (s : JobStore) (id : OperationId) : Prop :=
  ∀ op task, s.operations.find id = some op → op.task.bind s.tasks.find = some task →
    op.expectedRevision ≠ task.revision

theorem outdated_of_stale (h : stale ∈ s.stale .integration) : s.Outdated stale.1 := by
  unfold JobStore.stale at h
  have hmem := (List.perm_insertionSort _ _).mem_iff.mp (List.mem_of_mem_take h)
  obtain ⟨op, hop, hrow⟩ := List.mem_filterMap.mp hmem
  simp only [Option.bind_eq_bind, Option.bind_eq_some_iff] at hrow
  obtain ⟨d, -, task, ⟨id, hid, htask⟩, hrow⟩ := hrow
  split at hrow
  next hstale =>
    cases hrow
    intro op' task' hop' htask'
    rw [Table.find_of_mem hop] at hop'
    cases hop'
    rw [hid, Option.bind_some, htask] at htask'
    cases htask'
    exact hstale.2.2
  next => cases hrow

theorem Sane.retire (h : Sane s) (hout : s.Outdated stale.1) : Sane (s.retire now stale) := by
  have hs := Swept.retire s now stale
  refine ⟨fun id hid => ?_, ?_, fun op hop job hjob => ?_, fun id hid => ?_⟩
  · rw [hs.operations] at hid
    have hnone := h.delivered id hid
    by_cases he : id = stale.1
    · subst he
      rcases retire_cases s now stale with ⟨-, he⟩ | ⟨old, -, -, hrow, -⟩
      · rwa [he]
      · cases hnone.symm.trans hrow
    · rwa [find_retire he]
  · rw [hs.results]
    exact h.results
  · rw [hs.operations] at hop
    obtain ⟨sub, task, hsub, htask, hfind, hle, hlt⟩ := h.jobs op hop job hjob
    refine ⟨sub, task, by rwa [hs.results], htask, by rwa [hs.tasks], hle, fun hr => ?_⟩
    rcases isRetired_retire hr with hr | ⟨hid, -⟩
    · exact hlt hr
    · have hne := hout op task (hid ▸ Table.find_of_mem hop) (by rw [htask]; exact hfind)
      omega
  · rw [hs.operations]
    rcases isRetired_retire hid with hid | ⟨rfl, hrow⟩
    · exact h.retired id hid
    · cases hfind : s.operations.find stale.1 with
      | some op => rfl
      | none =>
        rw [h.delivered _ hfind] at hrow
        cases hrow

theorem Swept.foldl (l : List (OperationId × Nat × Nat)) :
    Swept s (l.foldl (·.retire now ·) s) := by
  induction l generalizing s with
  | nil => exact .refl s
  | cons stale l ih => exact (Swept.retire s now stale).trans ih

theorem Sane.foldl {l : List (OperationId × Nat × Nat)} (h : Sane s)
    (hout : ∀ stale ∈ l, s.Outdated stale.1) : Sane (l.foldl (·.retire now ·) s) := by
  induction l generalizing s with
  | nil => exact h
  | cons stale l ih =>
    refine ih (h.retire (hout stale (List.mem_cons_self ..))) fun other hother => ?_
    have hs := Swept.retire s now stale
    unfold JobStore.Outdated
    rw [hs.operations, hs.tasks]
    exact hout other (List.mem_cons_of_mem _ hother)

theorem Swept.sweep (s : JobStore) (now : Int) : Swept s (s.sweep now) := .foldl _

theorem Sane.sweep (h : Sane s) (now : Int) : Sane (s.sweep now) :=
  h.foldl fun _ hstale => outdated_of_stale (List.mem_of_mem_take hstale)

end Sweep

/-! ### The retirements of a turn -/

section Loop

variable [Digests] [JobDigests] {env : Outside} {now : Int}

omit [Digests] [JobDigests] in
theorem stale_nodup (s : JobStore) : ((s.stale .integration).map (·.1)).Nodup := by
  unfold JobStore.stale
  refine List.Nodup.sublist ((List.take_sublist _ _).map _) ?_
  refine ((List.perm_insertionSort _ _).map _).nodup_iff.mpr ?_
  refine s.operations.nodup.sublist ?_
  generalize s.operations.rows = rows
  induction rows with
  | nil => exact .slnil
  | cons op rows ih =>
    rw [List.filterMap_cons]
    split
    next => exact ih.cons _
    next stale hrow =>
      simp only [Option.bind_eq_bind, Option.bind_eq_some_iff] at hrow
      obtain ⟨d, -, task, -, hrow⟩ := hrow
      split at hrow
      · cases hrow
        exact ih.cons_cons _
      · cases hrow

omit [Digests] [JobDigests] in
theorem retirable_retire {stale other : OperationId × Nat × Nat} (hne : other.1 ≠ stale.1) :
    (s.retire now stale).Retirable other ↔ s.Retirable other := by
  constructor
  · rintro ⟨⟨d, hrow, hroom⟩, hmessage⟩
    rw [find_retire hne] at hrow
    exact ⟨⟨d, hrow, hroom⟩, hmessage⟩
  · rintro ⟨⟨d, hrow, hroom⟩, hmessage⟩
    rw [← @find_retire s now stale other.1 hne] at hrow
    exact ⟨⟨d, hrow, hroom⟩, hmessage⟩

omit [JobDigests] in
theorem retireJobs_iff {l : List (OperationId × Nat × Nat)} (hnodup : (l.map (·.1)).Nodup) {u : Unit} :
    Tx.forEach (retireJob env .integration now) l s = .ok (u, s') ↔
      (∀ stale ∈ l, s.Retirable stale) ∧ l.foldl (·.retire now ·) s = s' := by
  induction l generalizing s with
  | nil =>
    rw [List.foldl_nil]
    exact (Tx.pure_ok.trans ⟨fun h => ⟨nofun, h.2⟩, fun h => ⟨rfl, h.2⟩⟩)
  | cons stale l ih =>
    rw [List.map_cons, List.nodup_cons] at hnodup
    have hcons : Tx.forEach (retireJob env .integration now) (stale :: l) s = .ok (u, s') ↔
        ∃ v t, retireJob env .integration now stale s = .ok (v, t) ∧
          Tx.forEach (retireJob env .integration now) l t = .ok (u, s') := Tx.bind_ok
    rw [hcons, List.foldl_cons, List.forall_mem_cons]
    have hother : (∀ other ∈ l, (s.retire now stale).Retirable other) ↔ ∀ other ∈ l, s.Retirable other := by
      refine forall₂_congr fun other hmem => retirable_retire fun he => hnodup.1 ?_
      rw [← he]
      exact List.mem_map_of_mem hmem
    constructor
    · rintro ⟨v, t, hretire, hrest⟩
      obtain ⟨hfirst, rfl⟩ := retireJob_iff.mp hretire
      obtain ⟨hrest, hfold⟩ := (ih hnodup.2).mp hrest
      exact ⟨⟨hfirst, hother.mp hrest⟩, hfold⟩
    · rintro ⟨⟨hfirst, hrest⟩, hfold⟩
      exact ⟨(), _, retireJob_iff.mpr ⟨hfirst, rfl⟩, (ih hnodup.2).mpr ⟨hother.mpr hrest, hfold⟩⟩

omit [JobDigests] in
theorem retireStale_iff {more : Bool} : retireStale env .integration now s = .ok (more, s') ↔
    s.Room ∧ s.sweep now = s' ∧ decide (turnLimit < (s.stale .integration).length) = more := by
  have hnodup := (stale_nodup s).sublist ((List.take_sublist turnLimit _).map _)
  simp only [retireStale, Tx.ask_bind]
  rw [Tx.bind_ok]
  constructor
  · rintro ⟨v, t, hloop, hpure⟩
    obtain ⟨hroom, hfold⟩ := (retireJobs_iff hnodup).mp hloop
    obtain ⟨hmore, rfl⟩ := Tx.pure_ok.mp hpure
    exact ⟨hroom, hfold, hmore⟩
  · rintro ⟨hroom, hfold, hmore⟩
    exact ⟨(), s', (retireJobs_iff hnodup).mpr ⟨hroom, hfold⟩, Tx.pure_ok.mpr ⟨hmore, rfl⟩⟩

end Loop

/-! ## Rows that can have a job -/

section Enqueueing

variable [JobDigests] {now : Int} {id : String} {c : Candidate} {result : String}

/-- The row can have a job now: its submission is eligible and the insert's conditions hold. -/
def JobStore.Ready (s : JobStore) (id : String) : Prop :=
  ∃ c result, s.eligible id = some c ∧ c.resultId = some result ∧
    s.free c (c.operation s result 0) = true

instance (s : JobStore) (id : String) : Decidable (s.Ready id) :=
  decidable_of_iff ((s.eligible id).any (fun c => c.resultId.any fun result =>
      s.free c (c.operation s result 0)) = true) <| by
    simp only [JobStore.Ready, Option.any_eq_true]
    constructor
    · rintro ⟨c, hc, result, hresult, hfree⟩
      exact ⟨c, result, hc, hresult, hfree⟩
    · rintro ⟨c, result, hc, hresult, hfree⟩
      exact ⟨c, hc, result, hresult, hfree⟩

omit [JobDigests] in
/-- What a candidate is made of. -/
theorem eligible_eq (h : s.eligible id = some c) :
    s.results.submissions.find id = some c.submission ∧
    (∃ target, s.targets.find c.submission.repository = some target ∧ c.reference = target.refName) ∧
    (∃ task, s.tasks.find c.submission.taskId = some task ∧ c.taskRevision = task.revision) ∧
    c.resultId = s.resultOf id := by
  simp only [JobStore.eligible, Option.bind_eq_bind, Option.bind_eq_some_iff] at h
  obtain ⟨sub, hsub, contract, -, target, htarget, task, htask, h⟩ := h
  split at h
  · cases h
    exact ⟨hsub, ⟨target, htarget, rfl⟩, ⟨task, htask, rfl⟩, rfl⟩
  · cases h

omit [JobDigests] in
/-- What the eligibility query reads. -/
theorem eligible_congr (hresults : t.results = s.results) (htargets : t.targets = s.targets)
    (htasks : t.tasks = s.tasks) (hjob : t.hasJob id = s.hasJob id) : t.eligible id = s.eligible id := by
  have haccepted (r : VerifiedResult) : t.acceptedResult r = s.acceptedResult r := by
    unfold JobStore.acceptedResult
    rw [hresults]
  have hresult : t.resultOf id = s.resultOf id := by
    unfold JobStore.resultOf
    simp only [haccepted, hresults]
  have hevery (sub : Submission) : t.everyPolicyAccepted sub = s.everyPolicyAccepted sub := by
    unfold JobStore.everyPolicyAccepted
    simp only [haccepted, hresults]
  have hheld (sub : Submission) : t.heldArm sub = s.heldArm sub := by
    unfold JobStore.heldArm
    rw [hresults]
  have hintegration : t.hasIntegration id = s.hasIntegration id := by
    unfold JobStore.hasIntegration
    rw [hresults]
  unfold JobStore.eligible
  simp only [hresults, htargets, htasks, hjob, hevery, hheld, hintegration, hresult]

omit [JobDigests] in
/-- An eligible submission has a result to name. -/
theorem Sane.resultOf (h : Sane s) {sub : Submission} (haccepted : s.everyPolicyAccepted sub = true) :
    ∃ result, s.resultOf sub.submissionId = some result := by
  obtain ⟨hne, hall⟩ := everyPolicyAccepted_iff.mp haccepted
  obtain ⟨p, hp⟩ := List.exists_mem_of_ne_nil _ hne
  obtain ⟨r, hr, v, hv, hid, -⟩ := hall p hp
  obtain ⟨v', hv', hsub⟩ := h.results r hr
  rw [(acceptedResult_ok hv).1] at hv'
  cases hv'
  have hmem : (v.policyId, r.resultId) ∈ (((s.results.results.rows.filter fun r =>
      r.submissionId = sub.submissionId).filterMap fun r =>
        (s.acceptedResult r).map fun v => (v.policyId, r.resultId)).insertionSort
          JobStore.resultOrder) := by
    refine (List.perm_insertionSort _ _).mem_iff.mpr (List.mem_filterMap.mpr ⟨r, ?_, by rw [hv]; rfl⟩)
    exact List.mem_filter.mpr ⟨hr, decide_eq_true (hsub.symm.trans hid)⟩
  unfold JobStore.resultOf
  cases hhead : (((s.results.results.rows.filter fun r =>
      r.submissionId = sub.submissionId).filterMap fun r =>
        (s.acceptedResult r).map fun v => (v.policyId, r.resultId)).insertionSort
          JobStore.resultOrder).head? with
  | some row => exact ⟨row.2, rfl⟩
  | none =>
    rw [List.head?_eq_none_iff.mp hhead] at hmem
    cases hmem

omit [JobDigests] in
/-- The job of an eligible submission has a revision of its own. -/
theorem Sane.jobIndexFree (h : Sane s) (hc : s.eligible id = some c) {op : Operation}
    {job : IntegrationJob} (hjob : job? op = some job) (hid : job.submissionId = id)
    (hrevision : op.expectedRevision = c.taskRevision) : s.jobIndexFree op = true := by
  refine List.all_eq_true.mpr fun o ho => ?_
  cases hjobo : job? o with
  | none => simp
  | some j =>
    by_contra hclash
    simp only [hjob, Option.map_some, Option.some.injEq, Option.isSome_some, Bool.and_true,
      Bool.not_eq_eq_eq_not, Bool.not_true, Bool.not_eq_false, Bool.and_eq_true,
      decide_eq_true_eq] at hclash
    obtain ⟨hsame, hrev⟩ := hclash
    have hsub : j.submissionId = id := hsame.trans hid
    obtain ⟨hfind, -, ⟨task, htask, hcurrent⟩, -⟩ := eligible_eq hc
    obtain ⟨sub, task', hsub', -, htask', -, hlt⟩ := h.jobs o ho j hjobo
    rw [hsub, hfind] at hsub'
    cases hsub'
    rw [htask] at htask'
    cases htask'
    -- the other job of the submission was retired
    have hretired : s.isRetired .integration o.id = true := by
      have hnojob := (eligible_ok hc).2.noJob
      rw [(eligible_ok hc).1] at hnojob
      by_contra hr
      have hhas := hasJob_iff.mpr ⟨o, ho, ⟨j, hjobo, hsub⟩, Bool.eq_false_iff.mpr hr⟩
      rw [hnojob] at hhas
      cases hhas
    have hbehind := hlt hretired
    omega

omit [JobDigests] in
theorem Sane.insertJob (h : Sane s) {op : Operation} (hindex : s.jobIndexFree op = true)
    (hnew : s.operations.find op.id = none) : (s.insertJob op).isSome := by
  have hdelivery : s.deliveries.find (Delivery.enqueued op.id op.dueUnixMs).operation = none :=
    h.delivered _ hnew
  unfold JobStore.insertJob
  rw [hindex, Table.insert?, dif_pos hnew, Table.insert?, dif_pos hdelivery]
  rfl

/-- What a turn does with one row of the queue, and how many jobs it adds. -/
inductive Row (now : Int) (id : String) (s : JobStore) : Nat → JobStore → Prop
  | stays (busy : ¬s.Ready id) : Row now id s 0 s
  | drops (ineligible : s.eligible id = none) : Row now id s 0 (s.dropPending id)
  | enqueues {c : Candidate} {result : String} {t : JobStore} (eligible : s.eligible id = some c)
    (named : c.resultId = some result) (free : s.free c (c.operation s result now) = true)
    (inserted : s.insertJob (c.operation s result now) = some t) : Row now id s 1 t

/-- **One row.** -/
theorem enqueueOne_row (h : Sane s) (now : Int) (id : String) :
    ∃ n t, enqueueOne now id s = .ok (n, t) ∧ Row now id s n t := by
  cases hc : s.eligible id with
  | none =>
    refine ⟨0, s.dropPending id, ?_, .drops hc⟩
    simp only [enqueueOne, Tx.ask_bind, hc, Tx.write_bind, Tx.pure_ok, true_and]
  | some c =>
    obtain ⟨hid, hsub⟩ := eligible_ok hc
    obtain ⟨result, hresult⟩ := h.resultOf hsub.accepted
    rw [hid, ← (eligible_eq hc).2.2.2] at hresult
    have hnow : s.free c (c.operation s result 0) = s.free c (c.operation s result now) := rfl
    cases hfree : s.free c (c.operation s result now) with
    | false =>
      refine ⟨0, s, ?_, .stays ?_⟩
      · simp only [enqueueOne, Tx.ask_bind, hc, Tx.find_bind, hresult]
        exact ⟨result, rfl, Tx.ite_ok.mpr (.inr ⟨by rw [hfree]; exact Bool.false_ne_true, rfl⟩)⟩
      · rintro ⟨c', result', hc', hresult', hfree'⟩
        cases hc.symm.trans hc'
        cases hresult.symm.trans hresult'
        rw [hnow, hfree] at hfree'
        cases hfree'
    | true =>
      have hnew : s.operations.find (c.operation s result now).id = none := by
        simp only [JobStore.free, Bool.and_eq_true] at hfree
        exact Option.isNone_iff_eq_none.mp hfree.2
      have hindex : s.jobIndexFree (c.operation s result now) = true := h.jobIndexFree hc rfl hid rfl
      obtain ⟨t, ht⟩ := Option.isSome_iff_exists.mp (h.insertJob hindex hnew)
      refine ⟨1, t, ?_, .enqueues hc hresult hfree ht⟩
      simp only [enqueueOne, Tx.ask_bind, hc, Tx.find_bind, hresult]
      exact ⟨result, rfl, Tx.ite_ok.mpr (.inl ⟨hfree, Tx.insert_bind.mpr ⟨t, ht, rfl⟩⟩)⟩

end Enqueueing

/-! ## Waiting submissions -/

/-- Nothing is unfinished on the target. -/
def JobStore.Idle (s : JobStore) (target : String × String) : Prop :=
  s.unfinishedJobs target = [] ∧ ∀ i ∈ s.results.integrations.rows,
    (i.repository, i.refName) = target → i.state.unfinished = false

/-- The submission waits in the queue for an idle target. -/
def JobStore.Waiting (s : JobStore) (id : String) (target : String × String) : Prop :=
  ∃ c, s.eligible id = some c ∧ (c.submission.repository, c.reference) = target ∧
    (s.pending.find id).isSome ∧ s.Idle target

/-- A job for the target was enqueued. -/
def Serves (s t : JobStore) (target : String × String) : Prop :=
  ∃ op ∈ t.operations.rows, op ∉ s.operations.rows ∧ target? op = some target

/-- The submission has a job for the revision of its task. -/
def JobStore.served (s : JobStore) (sub : Submission) : Bool :=
  s.operations.rows.any fun op => (job? op).any (·.submissionId = sub.submissionId) &&
    (s.tasks.find sub.taskId).any (·.revision = op.expectedRevision)

def JobStore.unserved (s : JobStore) : Nat :=
  s.results.submissions.rows.countP fun sub => !s.served sub

/-- What the parts of a turn do, with the number of jobs they add. -/
structure Turned (s : JobStore) (n : Nat) (t : JobStore) : Prop where
  sane : Sane s → Sane t
  operations : s.operations.Extends t.operations
  waiting : ∀ id target, s.Waiting id target → t.Waiting id target ∨ Serves s t target
  unserved : t.unserved + n ≤ s.unserved
  enabled : t.enabled = s.enabled

theorem Turned.refl (s : JobStore) : Turned s 0 s :=
  ⟨fun h => h, .refl _, fun _ _ h => .inl h, Nat.le_refl _, rfl⟩

theorem Turned.trans {u : JobStore} {n m : Nat} (h : Turned s n t) (h' : Turned t m u) :
    Turned s (n + m) u where
  sane hs := h'.sane (h.sane hs)
  operations := h.operations.trans h'.operations
  waiting id target hwait := by
    rcases h.waiting id target hwait with hwait | ⟨op, hop, hnew, htarget⟩
    · rcases h'.waiting id target hwait with hwait | ⟨op, hop, hnew, htarget⟩
      · exact .inl hwait
      · exact .inr ⟨op, hop, fun hold => hnew (h.operations.mem hold), htarget⟩
    · exact .inr ⟨op, h'.operations.mem hop, hnew, htarget⟩
  unserved := by
    have hn := h.unserved
    have hm := h'.unserved
    omega
  enabled := h'.enabled.trans h.enabled

/-- Retirements make no submission wait less. -/
theorem Swept.turned (h : Swept s t) (hsane : Sane s → Sane t) : Turned s 0 t where
  sane := hsane
  operations := by
    rw [h.operations]
    exact .refl _
  waiting := by
    rintro id target ⟨c, hc, htarget, hpending, hjobs, hintegrations⟩
    refine .inl ⟨c, ?_, htarget, h.pending id hpending, ?_, by rw [h.results]; exact hintegrations⟩
    · rw [← hc]
      refine eligible_congr h.results h.targets h.tasks ?_
      have hnojob := (eligible_ok hc).2.noJob
      rw [(eligible_ok hc).1] at hnojob
      rw [hnojob, Bool.eq_false_iff]
      intro hjob
      obtain ⟨op, hop, hnames, hretired⟩ := hasJob_iff.mp hjob
      rw [h.operations] at hop
      have hbefore : s.isRetired .integration op.id = false := by
        by_contra hr
        rw [h.retired op.id (Bool.not_eq_false _ ▸ hr)] at hretired
        cases hretired
      have hhas := hasJob_iff.mpr ⟨op, hop, hnames, hbefore⟩
      rw [hnojob] at hhas
      cases hhas
    · refine List.eq_nil_iff_forall_not_mem.mpr fun op hop => ?_
      have hold := h.shrinks target op hop
      rw [hjobs] at hold
      cases hold
  unserved := by
    unfold JobStore.unserved JobStore.served
    rw [h.results, h.operations, h.tasks]
    exact Nat.le_refl _
  enabled := h.enabled

section Rows

variable [JobDigests] {now : Int} {id : String} {c : Candidate} {result : String} {n : Nat}

omit [JobDigests] in
theorem countP_lt {α : Type} {p q : α → Bool} {l : List α} {a : α} (h : ∀ b ∈ l, q b = true → p b = true)
    (ha : a ∈ l) (hp : p a = true) (hq : q a = false) : l.countP q < l.countP p := by
  induction l with
  | nil => cases ha
  | cons b l ih =>
    have hrest : l.countP q ≤ l.countP p :=
      List.countP_mono_left fun x hx => h x (List.mem_cons_of_mem _ hx)
    rcases List.mem_cons.mp ha with rfl | ha
    · rw [List.countP_cons_of_pos hp, List.countP_cons_of_neg (by rw [hq]; nofun)]
      omega
    · have hlt := ih (fun x hx => h x (List.mem_cons_of_mem _ hx)) ha
      have hhead := h b (List.mem_cons_self ..)
      rw [List.countP_cons, List.countP_cons]
      split
      next hb =>
        rw [if_pos (hhead hb)]
        omega
      next => omega

omit [JobDigests] in
theorem Turned.dropPending (hnone : s.eligible id = none) : Turned s 0 (s.dropPending id) where
  sane h := ⟨h.delivered, h.results, h.jobs, h.retired⟩
  operations := .refl _
  waiting := by
    rintro other target ⟨c, hc, htarget, hpending, hidle⟩
    have hne : other ≠ id := by
      rintro rfl
      rw [hnone] at hc
      cases hc
    have hkeeps : ((s.dropPending id).pending.find other).isSome :=
      Table.isSome_find_filter _ hpending fun w hw => by simpa [hw] using hne
    exact .inl ⟨c, (eligible_congr rfl rfl rfl rfl).trans hc, htarget, hkeeps, hidle⟩
  unserved := Nat.le_refl _
  enabled := rfl

omit [JobDigests] in
/-- What the insert of a job writes. -/
theorem insertJob_frame {op : Operation} (h : s.insertJob op = some t) :
    t.tasks = s.tasks ∧ t.results = s.results ∧ t.targets = s.targets ∧ t.events = s.events ∧
      t.enabled = s.enabled := by
  obtain ⟨hframe, -⟩ := insertJob_eq h
  rw [hframe]
  exact ⟨rfl, rfl, rfl, rfl, rfl⟩

omit [JobDigests] in
theorem insertJob_index {op : Operation} (h : s.insertJob op = some t) : s.jobIndexFree op = true := by
  by_contra hindex
  rw [JobStore.insertJob, guard, if_neg hindex] at h
  cases h

theorem Sane.enqueued (h : Sane s) (hc : s.eligible id = some c)
    (hinsert : s.insertJob (c.operation s result now) = some t) : Sane t := by
  obtain ⟨htasks, hresults, -, hevents, -⟩ := insertJob_frame hinsert
  obtain ⟨hops, hdel⟩ := insertJob_ok hinsert
  have hretired (x : OperationId) : t.isRetired .integration x = s.isRetired .integration x :=
    @isRetired_append s t [] (by rw [hevents, List.append_nil])
      (fun _ h => (List.not_mem_nil h).elim) x
  refine ⟨fun x hx => ?_, ?_, fun op hop job hjob => ?_, fun x hx => ?_⟩
  · rw [Table.find_insert? hops] at hx
    split at hx
    · cases hx
    next hne =>
      have hother : (Delivery.enqueued (c.operation s result now).id
          (c.operation s result now).dueUnixMs).operation ≠ x := hne
      rw [Table.find_insert? hdel, if_neg hother]
      exact h.delivered x hx
  · rw [hresults]
    exact h.results
  · rw [hresults, htasks, hretired]
    rcases (Table.mem_insert? hops).mp hop with hop | rfl
    · exact h.jobs op hop job hjob
    · cases hjob
      obtain ⟨hsub, -, ⟨task, htask, hrevision⟩, -⟩ := eligible_eq hc
      refine ⟨c.submission, task, ?_, rfl, htask, Nat.le_of_eq hrevision, fun hr => ?_⟩
      · rw [← hsub, ← (eligible_ok hc).1]
      · have hfound := h.retired _ hr
        rw [(Table.insert?_eq_some hops).1] at hfound
        cases hfound
  · rw [hretired] at hx
    exact (Table.Extends.insert? hops).keeps _ (h.retired x hx)

theorem Turned.enqueued (hc : s.eligible id = some c)
    (hinsert : s.insertJob (c.operation s result now) = some t) : Turned s 1 t where
  sane h := h.enqueued hc hinsert
  operations := .insert? (insertJob_ok hinsert).1
  waiting := by
    rintro other target ⟨c', hc', htarget, hpending, hjobs, hintegrations⟩
    obtain ⟨htasks, hresults, htargets, hevents, -⟩ := insertJob_frame hinsert
    obtain ⟨hops, -⟩ := insertJob_ok hinsert
    have hof : target? (c.operation s result now) = some (c.submission.repository, c.reference) := rfl
    by_cases he : (c.submission.repository, c.reference) = target
    · refine .inr ⟨c.operation s result now, (Table.mem_insert? hops).mpr (.inr rfl), fun hold => ?_, ?_⟩
      · have hnone := (Table.insert?_eq_some hops).1
        rw [Table.find_of_mem hold] at hnone
        cases hnone
      · rw [hof, he]
    · left
      have hne : other ≠ id := by
        rintro rfl
        cases hc.symm.trans hc'
        exact he htarget
      have hjob : t.hasJob other = s.hasJob other := by
        have hretired (x : OperationId) : t.isRetired .integration x = s.isRetired .integration x :=
          @isRetired_append s t [] (by rw [hevents, List.append_nil])
            (fun _ h => (List.not_mem_nil h).elim) x
        rw [Bool.eq_iff_iff, hasJob_iff, hasJob_iff]
        simp only [hretired]
        constructor
        · rintro ⟨op, hop, ⟨job, hjob, hid⟩, hr⟩
          rcases (Table.mem_insert? hops).mp hop with hop | rfl
          · exact ⟨op, hop, ⟨job, hjob, hid⟩, hr⟩
          · cases hjob
            exact absurd (hid.symm.trans (eligible_ok hc).1) hne
        · rintro ⟨op, hop, hnames, hr⟩
          exact ⟨op, (Table.mem_insert? hops).mpr (.inl hop), hnames, hr⟩
      refine ⟨c', (eligible_congr hresults htargets htasks hjob).trans hc', htarget, ?_, ?_, ?_⟩
      · refine (insertJob_eq hinsert).2 other (fun hsame => hne ?_) hpending
        exact (Option.some.inj hsame).trans (eligible_ok hc).1
      · refine List.eq_nil_iff_forall_not_mem.mpr fun op hop => ?_
        rcases insertJob_unfinished hinsert hop with rfl | hold
        · have ht := (mem_unfinishedJobs.mp hop).2.1
          exact he (Option.some.inj (hof.symm.trans ht))
        · rw [hjobs] at hold
          cases hold
      · rw [hresults]
        exact hintegrations
  unserved := by
    obtain ⟨htasks, hresults, -, -, -⟩ := insertJob_frame hinsert
    obtain ⟨hops, -⟩ := insertJob_ok hinsert
    obtain ⟨hsub, -, ⟨task, htask, hrevision⟩, -⟩ := eligible_eq hc
    unfold JobStore.unserved
    rw [hresults]
    refine countP_lt (a := c.submission) (fun sub _ hsub => ?_) (Table.mem_of_find hsub) ?_ ?_
    · -- a job that was there still is
      rw [Bool.not_eq_true'] at hsub ⊢
      rw [Bool.eq_false_iff] at hsub ⊢
      refine fun hserved => hsub ?_
      obtain ⟨op, hop, hnames⟩ := List.any_eq_true.mp hserved
      refine List.any_eq_true.mpr ⟨op, (Table.mem_insert? hops).mpr (.inl hop), ?_⟩
      rwa [htasks]
    · -- the index has no other job for the revision
      rw [Bool.not_eq_true', Bool.eq_false_iff]
      intro hserved
      obtain ⟨o, ho, hnames⟩ := List.any_eq_true.mp hserved
      obtain ⟨hjob, hcurrent⟩ := Bool.and_eq_true_iff.mp hnames
      obtain ⟨job, hj, hid⟩ := (Option.any_eq_true _ _).mp hjob
      have hfree := List.all_eq_true.mp (insertJob_index hinsert) o ho
      have hsame : job.submissionId = c.submission.submissionId := of_decide_eq_true hid
      have hrev : o.expectedRevision = (c.operation s result now).expectedRevision := by
        rw [htask] at hcurrent
        exact (of_decide_eq_true hcurrent).symm.trans hrevision.symm
      have hof : (job? (c.operation s result now)).map (·.submissionId) = some job.submissionId :=
        congrArg some hsame.symm
      rw [hj, hof, hrev] at hfree
      simp at hfree
    · rw [Bool.not_eq_false']
      refine List.any_eq_true.mpr ⟨_, (Table.mem_insert? hops).mpr (.inr rfl), ?_⟩
      rw [htasks, htask]
      simp [job?, Candidate.operation, hrevision]
  enabled := (insertJob_frame hinsert).2.2.2.2

theorem Row.turned (h : Row now id s n t) : Turned s n t := by
  cases h with
  | stays => exact .refl s
  | drops ineligible => exact .dropPending ineligible
  | enqueues eligible named free inserted => exact .enqueued eligible inserted

/-- A row that gets no job leaves the others as they are. -/
theorem Row.ready (h : Row now id s 0 t) {x : String} : t.Ready x ↔ s.Ready x := by
  cases h with
  | stays => exact .rfl
  | drops => exact .rfl

theorem Row.one (h : Row now id s n t) : n = 0 ∧ ¬s.Ready id ∨ n = 1 ∧ s.Ready id := by
  cases h with
  | stays busy => exact .inl ⟨rfl, busy⟩
  | drops ineligible =>
    refine .inl ⟨rfl, ?_⟩
    rintro ⟨c, result, hc, -⟩
    cases ineligible.symm.trans hc
  | enqueues eligible named free inserted => exact .inr ⟨rfl, _, _, eligible, named, free⟩

/-! ## Turns -/

/-- The loop adds a job exactly when one of its rows can have one. -/
theorem enqueueAll_ok (h : Sane s) (now : Int) (n : Nat) (ids : List String) :
    ∃ m t, enqueueAll now n ids s = .ok (n + m, t) ∧ Turned s m t ∧
      (n ≠ turnLimit → (1 ≤ m ↔ ∃ id ∈ ids, s.Ready id)) := by
  induction ids generalizing n s with
  | nil => exact ⟨0, s, rfl, .refl s, fun _ => ⟨nofun, nofun⟩⟩
  | cons id ids ih =>
    by_cases hlimit : n = turnLimit
    · refine ⟨0, s, ?_, .refl s, fun hne => absurd hlimit hne⟩
      exact Tx.ite_ok.mpr (.inl ⟨hlimit, rfl⟩)
    · obtain ⟨k, t, hone, hrow⟩ := enqueueOne_row h now id
      obtain ⟨m, u, hrest, hturned, hsome⟩ := ih (hrow.turned.sane h) (n + k)
      refine ⟨k + m, u, ?_, hrow.turned.trans hturned, fun _ => ?_⟩
      · rw [← Nat.add_assoc]
        exact Tx.ite_ok.mpr (.inr ⟨hlimit, Tx.bind_ok.mpr ⟨k, t, hone, hrest⟩⟩)
      · rcases hrow.one with ⟨rfl, hbusy⟩ | ⟨rfl, hready⟩
        · rw [Nat.zero_add, hsome hlimit]
          constructor
          · rintro ⟨x, hx, hready⟩
            exact ⟨x, List.mem_cons_of_mem _ hx, hrow.ready.mp hready⟩
          · rintro ⟨x, hx, hready⟩
            rcases List.mem_cons.mp hx with rfl | hx
            · exact absurd hready hbusy
            · exact ⟨x, hx, hrow.ready.mpr hready⟩
        · exact iff_of_true (Nat.le_add_right 1 m) ⟨id, List.mem_cons_self .., hready⟩

/-- The rows that a turn reads. -/
def JobStore.scan (s : JobStore) : List String :=
  ((s.pending.rows.insertionSort workOrder).map (·.submissionId)).take scanLimit

variable [Digests] {env : Outside} {turn : Turn}

/-- A turn enqueues at least one job. -/
def Enqueues (env : Outside) (now : Int) (s : JobStore) : Prop :=
  ∃ turn t, serviceIntegrationJobs env now s = .ok (turn, t) ∧ 1 ≤ turn.enqueued

/-- The retirements of the turn go through, and one of the rows that it reads then can have a
job. -/
def JobStore.InScan (s : JobStore) (now : Int) : Prop :=
  s.Room ∧ ∃ id ∈ (s.sweep now).scan, (s.sweep now).Ready id

/-- What a turn of the enabled producer answers. -/
theorem service_ok (henabled : s.enabled = true) :
    serviceIntegrationJobs env now s = .ok (turn, t) ↔
      s.Room ∧ env.fault = none ∧ enqueueAll now 0 (s.sweep now).scan (s.sweep now) =
        .ok (turn.enqueued, t) ∧ turn.pending = (decide (turnLimit < (s.stale .integration).length) ||
          decide (scanLimit < ((((s.sweep now).pending.rows.insertionSort workOrder).map
            (·.submissionId)).take (scanLimit + 1)).length)) := by
  have hscan (l : List String) : (l.take (scanLimit + 1)).take scanLimit = l.take scanLimit := by
    rw [List.take_take, Nat.min_eq_left (Nat.le_succ _)]
  simp only [serviceIntegrationJobs, Tx.ask_bind, henabled, if_true]
  rw [Tx.bind_ok]
  simp only [retireStale_iff, Tx.ask_bind]
  constructor
  · rintro ⟨more, _, ⟨hroom, rfl, rfl⟩, hrest⟩
    obtain ⟨n, u, hloop, hrest⟩ := Tx.bind_ok.mp hrest
    simp only [Tx.outside_bind, Tx.pure_ok] at hrest
    obtain ⟨hfault, rfl, rfl⟩ := hrest
    rw [hscan] at hloop
    exact ⟨hroom, hfault, hloop, rfl⟩
  · rintro ⟨hroom, hfault, hloop, hpending⟩
    refine ⟨_, _, ⟨hroom, rfl, rfl⟩, Tx.bind_ok.mpr ⟨turn.enqueued, t, ?_, ?_⟩⟩
    · rw [hscan]
      exact hloop
    · simp only [Tx.outside_bind, Tx.pure_ok]
      refine ⟨hfault, ?_, trivial⟩
      rw [← hpending]

/-- **A turn enqueues a job exactly when it reads a row that can have one.** -/
theorem enqueues_iff (h : Sane s) (henabled : s.enabled = true) (hfault : env.fault = none) :
    Enqueues env now s ↔ s.InScan now := by
  obtain ⟨m, t, hloop, -, hsome⟩ := enqueueAll_ok (h.sweep now) now 0 (s.sweep now).scan
  rw [Nat.zero_add] at hloop
  have hsome := hsome (by decide)
  constructor
  · rintro ⟨turn, u, hturn, hpos⟩
    obtain ⟨hroom, -, hloop', -⟩ := (service_ok henabled).mp hturn
    obtain ⟨heq, -⟩ := Prod.mk.inj (Except.ok.inj (hloop.symm.trans hloop'))
    exact ⟨hroom, hsome.mp (heq ▸ hpos)⟩
  · rintro ⟨hroom, hready⟩
    exact ⟨⟨_, m⟩, t, (service_ok henabled).mpr ⟨hroom, hfault, hloop, rfl⟩, hsome.mpr hready⟩

theorem service_turned (h : Sane s) (hbody : serviceIntegrationJobs env now s = .ok (turn, t)) :
    Turned s turn.enqueued t := by
  cases henabled : s.enabled with
  | false =>
    simp only [serviceIntegrationJobs, Tx.ask_bind, henabled, Bool.false_eq_true, if_false,
      Tx.pure_ok] at hbody
    obtain ⟨rfl, rfl⟩ := hbody
    exact .refl s
  | true =>
    obtain ⟨-, -, hloop, -⟩ := (service_ok henabled).mp hbody
    obtain ⟨m, u, hloop', hturned, -⟩ := enqueueAll_ok (h.sweep now) now 0 (s.sweep now).scan
    rw [Nat.zero_add, hloop] at hloop'
    obtain ⟨rfl, rfl⟩ := Prod.mk.inj (Except.ok.inj hloop')
    have hswept := (Swept.sweep s now).turned fun hs => hs.sweep now
    rw [← Nat.zero_add turn.enqueued]
    exact hswept.trans hturned

/-! ## Runs -/

theorem JobCall.body_sane {c : JobCall} {u : Unit} (h : Sane s) (hbody : c.body s = .ok (u, t)) :
    Sane t := by
  obtain ⟨method, env⟩ := c
  have honward {t : Store} (ho : Onward s.toStore t) : Sane { s with toStore := t } :=
    h.others (.of_onward h ho rfl)
  have hreset {lane : ResultLane} {id : OperationId} {old : Delivery} {now : Int} :
      Sane (s.resetTo lane id old now) := by
    refine h.others ⟨.refl _, fun _ _ => .rfl, .refl _, ⟨_, rfl, ?_⟩, fun _ _ h => h, fun x hx => ?_, h.results⟩
    · simp [Event.kind, EventBody.kind, EventKind.retirement]
    · have hnone := h.delivered x hx
      unfold JobStore.resetTo
      rw [Table.find_update, hnone]
      exact ite_self _
  cases method <;> simp only [JobCall.body, discard_ok, inStore_ok] at hbody
  case serviceIntegrationJobs =>
    obtain ⟨turn, hbody⟩ := hbody
    exact (service_turned h hbody).sane h
  case claimOperation =>
    obtain ⟨c, t, hbody, rfl⟩ := hbody
    obtain ⟨-, old, op, hc⟩ := claimWithCreation_ok hbody
    exact honward (.claims env hc)
  case finishOperation =>
    obtain ⟨d, t, hbody, rfl⟩ := hbody
    obtain ⟨old, hrow, hheld, hs⟩ := finishOperation_ok hbody
    exact honward (.settles hrow (by rw [hheld.1]; rfl) hs)
  case expireClaims =>
    obtain ⟨n, t, hbody, rfl⟩ := hbody
    exact honward (.expires hbody)
  case observeOperation =>
    obtain ⟨d, t, hbody, rfl⟩ := hbody
    obtain ⟨old, hrow, hstate, hs⟩ := observeOperation_ok hbody
    exact honward (.settles hrow (by rw [hstate]; rfl) hs)
  case retireOperation =>
    obtain ⟨d, t, hbody, rfl⟩ := hbody
    obtain ⟨old, outcome, hrow, hstate, hs⟩ := retireOperation_ok hbody
    refine honward (.settles hrow ?_ hs)
    rcases hstate with hstate | hstate <;> rw [hstate] <;> rfl
  case resetIntegrationJob =>
    obtain ⟨op, old, -, rfl⟩ := resetResultJob_ok.mp hbody
    exact hreset
  case resetVerificationJob =>
    obtain ⟨op, old, -, rfl⟩ := resetResultJob_ok.mp hbody
    exact hreset
  case setResultAutomation =>
    obtain ⟨a, hbody⟩ := hbody
    simp only [Jobs.setResultAutomation, expectHead, Herdr.head, inStore_bind, Tx.ask_bind,
      Tx.require_ok] at hbody
    obtain ⟨_, _, ⟨-, rfl⟩, hbody⟩ := hbody
    rcases Tx.ite_ok.mp hbody with ⟨-, hbody⟩ | ⟨-, hbody⟩
    · rw [← (Tx.pure_ok.mp hbody).2]
      exact h
    · simp only [inStore_bind, next, integer, Tx.require_bind, Tx.require_ok, Tx.pure_ok,
        Tx.write_bind, logEvent_ok] at hbody
      obtain ⟨_, _, ⟨-, rfl, rfl⟩, _, _, ⟨-, rfl⟩, _, _, ⟨-, rfl⟩, -, rfl⟩ := hbody
      refine h.others (.of_onward h (.of_same rfl (.refl _) ⟨_, rfl, ?_⟩ rfl) rfl)
      simp [Event.kind, EventBody.kind, EventKind.retirement]
  case configureIntegrationRef repository refName =>
    simp only [configureIntegrationRef, Tx.require_bind, Tx.ask_bind] at hbody
    obtain ⟨-, hbody⟩ := hbody
    cases hfind : s.targets.find repository with
    | some target =>
      simp only [hfind, Tx.require_ok] at hbody
      rw [← hbody.2]
      exact h
    | none =>
      simp only [hfind, Tx.insert_bind, Tx.write_ok] at hbody
      obtain ⟨u, hinsert, rfl⟩ := hbody
      obtain ⟨targets, -, rfl⟩ := Option.map_eq_some_iff.mp hinsert
      rw [foldl_requeue_frame]
      exact ⟨h.delivered, h.results, h.jobs, h.retired⟩

/-- The states of a store that starts empty, under the calls of the jobs and the writes of other
methods. -/
inductive Reachable (path : String) : JobStore → Prop
  | created : Reachable path (Groups.GroupStore.created path).jobs
  | call {s : JobStore} (c : JobCall) (before : Reachable path s) : Reachable path (c.exec s).2
  | others {s s' : JobStore} (before : Reachable path s) (write : Others s s') : Reachable path s'

theorem Reachable.sane {path : String} (h : Reachable path s) : Sane s := by
  induction h with
  | created =>
    refine ⟨fun _ _ => rfl, fun r hr => ?_, fun op hop => ?_, fun id hid => ?_⟩
    · cases hr
    · cases hop
    · cases hid
  | call c _ ih =>
    exact Tx.commit_preserves (R := fun s t => Sane s → Sane t) id
      (fun hbody h => JobCall.body_sane h hbody) ih
  | others _ write ih => exact ih.others write

/-- The store after a turn. -/
def turned (env : Outside) (now : Int) (s : JobStore) : JobStore :=
  (JobCall.exec ⟨.serviceIntegrationJobs now, env⟩ s).2

/-- The stores of a sequence of turns. -/
def turns (env : Nat → Outside) (clock : Nat → Int) (s : JobStore) : Nat → JobStore
  | 0 => s
  | n + 1 => turned (env n) (clock n) (turns env clock s n)

theorem turned_eq (h : serviceIntegrationJobs env now s = .ok (turn, t)) : turned env now s = t := by
  have hbody : (JobCall.mk (.serviceIntegrationJobs now) env).body s = .ok ((), t) :=
    discard_ok.mpr ⟨turn, h⟩
  unfold turned JobCall.exec Tx.commit
  rw [hbody]

/-- As long as a submission waits, each turn that enqueues a job leaves fewer submissions without
one. -/
theorem served_of_inScan {env : Nat → Outside} {clock : Nat → Int} {id : String}
    {target : String × String} (hfault : ∀ n, (env n).fault = none)
    (hscan : ∀ n, (turns env clock s n).Waiting id target → (turns env clock s n).InScan (clock n))
    {k n : Nat} (hle : (turns env clock s n).unserved ≤ k) (hsane : Sane (turns env clock s n))
    (henabled : (turns env clock s n).enabled = true) (hwait : (turns env clock s n).Waiting id target) :
    ∃ m, Serves (turns env clock s m) (turns env clock s (m + 1)) target := by
  induction k generalizing n with
  | zero =>
    obtain ⟨turn, t, hturn, hpos⟩ := (enqueues_iff hsane henabled (hfault n)).mpr (hscan n hwait)
    have hless := (service_turned hsane hturn).unserved
    omega
  | succ k ih =>
    obtain ⟨turn, t, hturn, hpos⟩ := (enqueues_iff hsane henabled (hfault n)).mpr (hscan n hwait)
    have hafter : turns env clock s (n + 1) = t := turned_eq hturn
    have ht := service_turned hsane hturn
    have hless := ht.unserved
    rcases ht.waiting id target hwait with hwait' | hserves
    · rw [← hafter] at hwait' hless ht
      exact ih (by omega) (ht.sane hsane) (ht.enabled.trans henabled) hwait'
    · exact ⟨n, hafter ▸ hserves⟩

/-- **A turn of the enabled producer enqueues a job exactly when one of the oldest rows of its
queue can have one; and if that holds of every turn while a submission waits for an idle target,
some turn enqueues a job for the target.** -/
theorem idle_target_served {path : String} (hs : Reachable path s) (henabled : s.enabled = true) :
    (∀ env now, env.fault = none → (Enqueues env now s ↔ s.InScan now)) ∧
    ∀ env clock id target, (∀ n, (env n).fault = none) → s.Waiting id target →
      (∀ n, (turns env clock s n).Waiting id target → (turns env clock s n).InScan (clock n)) →
      ∃ n, Serves (turns env clock s n) (turns env clock s (n + 1)) target := by
  refine ⟨fun env now hfault => enqueues_iff hs.sane henabled hfault, ?_⟩
  intro env clock id target hfault hwait hscan
  exact served_of_inScan hfault hscan (n := 0) (Nat.le_refl _) hs.sane henabled hwait

end Rows

/-! ### A crowd -/

/-- A store that other methods filled, without operations. -/
theorem Reachable.filled [Digests] [JobDigests] {path : String} (hops : s.operations = .empty)
    (hdel : s.deliveries = .empty) (htasks : (Groups.GroupStore.created path).jobs.tasks = .empty)
    (hlog : s.events = (Groups.GroupStore.created path).jobs.events)
    (hresults : s.results.results.rows.all (fun r =>
      (s.results.runs.find r.runId).any (·.submissionId = r.submissionId)) = true) :
    Reachable path s := by
  refine .others .created ⟨?_, fun op _ => ?_, ?_, ⟨[], ?_, fun _ h => (List.not_mem_nil h).elim⟩,
    fun id sub hsub => ?_, fun _ _ => ?_, fun r hr => ?_⟩
  · intro id task hfind
    rw [htasks] at hfind
    cases hfind
  · rw [hops]
    exact .rfl
  · rw [hops]
    exact .refl _
  · rw [hlog, List.append_nil]
  · cases hsub
  · rw [hdel]
    rfl
  · obtain ⟨v, hv, hsame⟩ := (Option.any_eq_true _ _).mp (List.all_eq_true.mp hresults r hr)
    exact ⟨v, hv, of_decide_eq_true hsame⟩

namespace Crowd

/-- The submissions: all of the busy repository, but for the last. -/
def submissions : List Submission := (List.range 33).map fun i =>
  ⟨"sub-" ++ toString i, "store", ⟨"task-" ++ toString i⟩, 1, "digest", ⟨"attempt"⟩,
    if i < 32 then "/busy" else "/idle", i⟩

def tasks : List Task := submissions.map fun sub => ⟨sub.taskId, 3, .awaitingReview, "work", none⟩

def contracts : List Contract := submissions.map fun sub =>
  ⟨sub.taskId, 1, "digest", .verifyThenIntegrate⟩

/-- Every submission is verified. The integration of an earlier result waits for its owner. -/
def results : Results where
  submissions := ⟨submissions, by decide +kernel⟩
  contracts := ⟨contracts, by decide +kernel⟩
  pendingVerification := []
  policies := submissions.map fun sub => ⟨sub.taskId, 1, "tests"⟩
  runs := ⟨submissions.map fun sub => ⟨sub.submissionId, sub.submissionId, "tests", true⟩,
    by decide +kernel⟩
  results := ⟨submissions.map fun sub => ⟨sub.submissionId, sub.submissionId, sub.submissionId⟩,
    by decide +kernel⟩
  checks := submissions.map fun sub => ⟨sub.submissionId, 2⟩
  integrations := ⟨[⟨⟨"earlier"⟩, "/busy", "refs/heads/main", "earlier", .reconciliationRequired⟩],
    by simp⟩
  seeded := []
  arms := []
  selections := []
  replays := []

def store : JobStore where
  toStore := { Store.created "/project/state.db" with
    tasks := ⟨tasks, by decide +kernel⟩
    control := ⟨2, 1, .active, false, none⟩ }
  results := results
  targets := ⟨[⟨"/busy", "refs/heads/main"⟩, ⟨"/idle", "refs/heads/main"⟩], by simp⟩
  pending := ⟨submissions.map fun sub => ⟨sub.submissionId, sub.createdUnixMs⟩, by decide +kernel⟩
  automation := ⟨2, true, true⟩

/-- A turn finds the busy target thirty-two times and changes nothing. -/
theorem turned_store : @turned Busy.digests noDigests permissive 10 store = store := by decide +kernel

end Crowd

theorem Crowd.reachable [Digests] [JobDigests] : Reachable "/project/state.db" Crowd.store :=
  .filled rfl rfl rfl rfl (by decide +kernel)

theorem Busy.reachable [Digests] [JobDigests] : Reachable "/project/state.db" Busy.store :=
  .filled rfl rfl rfl rfl (by decide +kernel)

theorem turns_of_fixed [Digests] [JobDigests] {env : Outside} {now : Int}
    (h : turned env now s = s) (n : Nat) : turns (fun _ => env) (fun _ => now) s n = s := by
  induction n with
  | zero => rfl
  | succ n ih => rw [turns, ih, h]

/-- **An idle target waits for a busy one.** Thirty-two submissions of a repository whose
integration waits for its owner are older than the one of an idle repository: no turn ever
enqueues a job. -/
theorem idle_target_starved : letI := noDigests
    letI := Busy.digests
    Reachable "/project/state.db" Crowd.store ∧ Crowd.store.enabled = true ∧
      Crowd.store.Waiting "sub-32" ("/idle", "refs/heads/main") ∧
      ¬Enqueues permissive 10 Crowd.store ∧
      ∀ n, ¬Serves (turns (fun _ => permissive) (fun _ => 10) Crowd.store n)
        (turns (fun _ => permissive) (fun _ => 10) Crowd.store (n + 1)) ("/idle", "refs/heads/main") := by
  let _ := noDigests
  let _ := Busy.digests
  have hreach : Reachable "/project/state.db" Crowd.store := Crowd.reachable
  have hfound : (Crowd.store.eligible "sub-32").any (fun c =>
      (c.submission.repository, c.reference) = ("/idle", "refs/heads/main")) = true := by
    decide +kernel
  obtain ⟨c, hc, htarget⟩ := (Option.any_eq_true _ _).mp hfound
  refine ⟨hreach, by decide, ⟨c, hc, of_decide_eq_true htarget, by decide +kernel, rfl,
    by decide +kernel⟩, ?_, fun n => ?_⟩
  · rintro ⟨turn, t, hturn, hpos⟩
    have hsame : Crowd.store = t := Crowd.turned_store.symm.trans (turned_eq hturn)
    have hless := (service_turned hreach.sane hturn).unserved
    rw [← hsame] at hless
    omega
  · rw [turns_of_fixed Crowd.turned_store, turns_of_fixed Crowd.turned_store]
    rintro ⟨op, hop, hnew, -⟩
    exact hnew hop

/-- Two results of one idle repository: the first turn enqueues the job of the older one. -/
theorem idle_target_served_two : letI := noDigests
    letI := Busy.digests
    Enqueues permissive 10 Busy.store ∧
      ∃ n, Serves (turns (fun _ => permissive) (fun _ => 10) Busy.store n)
        (turns (fun _ => permissive) (fun _ => 10) Busy.store (n + 1)) ("/repo", "refs/heads/integration") := by
  let _ := noDigests
  let _ := Busy.digests
  have hscan : Busy.store.InScan 10 := by
    refine ⟨fun stale hstale => ?_, "sub-a", by decide +kernel, by decide +kernel⟩
    have hnone : (Busy.store.stale .integration).take turnLimit = [] := by decide +kernel
    rw [hnone] at hstale
    cases hstale
  have hfound : (Busy.store.eligible "sub-a").any (fun c =>
      (c.submission.repository, c.reference) = ("/repo", "refs/heads/integration")) = true := by
    decide +kernel
  obtain ⟨c, hc, htarget⟩ := (Option.any_eq_true _ _).mp hfound
  obtain ⟨henqueues, hserves⟩ := idle_target_served Busy.reachable (by decide)
  refine ⟨(henqueues permissive 10 rfl).mpr hscan, ?_⟩
  refine hserves (fun _ => permissive) (fun _ => 10) "sub-a" _ (fun _ => rfl)
    ⟨c, hc, of_decide_eq_true htarget, by decide +kernel, rfl, by decide +kernel⟩ fun n => ?_
  cases n with
  | zero => exact fun _ => hscan
  | succ n =>
    -- after the first turn the submission has its job, and nothing changes
    have hfixed : turned permissive 10 (turned permissive 10 Busy.store) =
        turned permissive 10 Busy.store := by decide +kernel
    have hafter : turns (fun _ => permissive) (fun _ => 10) Busy.store (n + 1) =
        turned permissive 10 Busy.store := by
      induction n with
      | zero => rfl
      | succ n ih => rw [turns, ih, hfixed]
    have hnone : ((turned permissive 10 Busy.store).eligible "sub-a").isNone = true := by
      decide +kernel
    rw [hafter]
    rintro ⟨c, hc, -⟩
    rw [hc] at hnone
    cases hnone

end Herdr.Jobs
