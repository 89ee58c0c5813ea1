import Herdr.Lib.Steps
import Herdr.Store.CandidateGroups
import Herdr.Verify.Cancellation
import Herdr.Verify.Effects
import Herdr.Verify.IntegrationJobs

/-!
# No eligible submission is forgotten

A turn of the producer drops a pending row whose submission is not eligible at that moment, so
each of the conditions that can come last must put the row back: the verified result that
completes the verification, the target, the selection that lifts a hold, and the retirement of a
job. The invariant says what makes the others never come last.
-/

namespace Herdr

/-! ## Writes that leave the queue alone -/

/-- A write of the project store that retires no job, adds no integration job and keeps every
task, attempt and operation. -/
structure Quiet (s s' : Store) : Prop where
  log : ∃ es, s'.events = s.events ++ es ∧ ∀ e ∈ es, e.kind.retirement = false
  jobs : ∀ op, (Jobs.job? op).isSome → (op ∈ s'.operations.rows ↔ op ∈ s.operations.rows)
  operations : s.operations.Keeps s'.operations
  tasks : s.tasks.Keeps s'.tasks
  attempts : s.attempts.Keeps s'.attempts

namespace Quiet

variable {s s' : Store}

theorem refl (s : Store) : Quiet s s :=
  ⟨⟨[], by simp, by simp⟩, fun _ _ => .rfl, .refl _, .refl _, .refl _⟩

theorem trans {t : Store} (h : Quiet s s') (h' : Quiet s' t) : Quiet s t := by
  obtain ⟨es, hes, hquiet⟩ := h.log
  obtain ⟨es', hes', hquiet'⟩ := h'.log
  refine ⟨⟨es ++ es', by rw [hes', hes, List.append_assoc], ?_⟩,
    fun op hop => (h'.jobs op hop).trans (h.jobs op hop), h.operations.trans h'.operations,
    h.tasks.trans h'.tasks, h.attempts.trans h'.attempts⟩
  intro e he
  rcases List.mem_append.mp he with he | he
  · exact hquiet e he
  · exact hquiet' e he

/-- Events alone. -/
theorem logged {es : List Event} (h : ∀ e ∈ es, e.kind.retirement = false) :
    Quiet s (s.logged es) :=
  ⟨⟨es, rfl, h⟩, fun _ _ => .rfl, .refl _, .refl _, .refl _⟩

/-- A write that leaves the operations alone. -/
theorem of_operations (hops : s'.operations = s.operations) (htasks : s.tasks.Keeps s'.tasks)
    (hattempts : s.attempts.Keeps s'.attempts)
    (hlog : ∃ es, s'.events = s.events ++ es ∧ ∀ e ∈ es, e.kind.retirement = false) :
    Quiet s s' := by
  refine ⟨hlog, fun op _ => ?_, ?_, htasks, hattempts⟩
  · rw [hops]
  · rw [hops]
    exact .refl _

/-- A write of one more operation that is no integration job. -/
theorem of_insert {op : Operation} (hops : s.operations.insert? op = some s'.operations)
    (hjob : Jobs.job? op = none) (htasks : s.tasks.Keeps s'.tasks)
    (hattempts : s.attempts.Keeps s'.attempts)
    (hlog : ∃ es, s'.events = s.events ++ es ∧ ∀ e ∈ es, e.kind.retirement = false) :
    Quiet s s' := by
  refine ⟨hlog, fun o ho => ?_, (Table.Extends.insert? hops).keeps, htasks, hattempts⟩
  rw [Table.mem_insert? hops]
  refine ⟨?_, .inl⟩
  rintro (h | rfl)
  · exact h
  · rw [hjob] at ho
    cases ho

end Quiet

/-- Nothing that a quiet log records is a retirement. -/
theorem QuietLog.unretired {l l' : List Event} (h : QuietLog l l') :
    ∃ es, l' = l ++ es ∧ ∀ e ∈ es, e.kind.retirement = false := by
  obtain ⟨es, rfl, hes⟩ := h
  exact ⟨es, rfl, fun e he => EventKind.retirement_eq_false (hes e he)⟩

theorem QuietLog.unretired_snoc {l l' l'' : List Event} {e : Event} (h : QuietLog l l')
    (he : e.kind.retirement = false) (h' : QuietLog (l' ++ [e]) l'') :
    ∃ es, l'' = l ++ es ∧ ∀ e ∈ es, e.kind.retirement = false := by
  obtain ⟨es, rfl, hes⟩ := h.unretired
  obtain ⟨es', rfl, hes'⟩ := h'.unretired
  refine ⟨es ++ [e] ++ es', by simp, ?_⟩
  simp only [List.mem_append, List.mem_singleton]
  rintro x ((hx | rfl) | hx)
  · exact hes x hx
  · exact he
  · exact hes' x hx

theorem Records.unretired {s : Store} {es : List Event} (h : Records s es) :
    ∀ e ∈ es, e.kind.retirement = false := by
  intro e he
  have hmem := h.kind_mem e he
  simp only [recordKinds, List.mem_cons, List.not_mem_nil, or_false] at hmem
  rcases hmem with hk | hk | hk | hk | hk | hk | hk <;> rw [hk] <;> rfl

/-- **Every call of the lifecycle leaves the queue alone.** -/
theorem Effect.quiet [Digests] {env : Outside} {s s' : Store} {o : Option Claim}
    (h : Effect env s o s') : Quiet s s' := by
  have htasks : (s'.tasks = s.tasks ∨ ∃ task, s'.tasks = s.tasks.update task) →
      s.tasks.Keeps s'.tasks := by
    rintro (h | ⟨task, h⟩)
    · rw [h]
      exact .refl _
    · rw [h]
      exact .update _ _
  cases h with
  | reads => exact .refl _
  | claims claimed =>
    obtain ⟨log, es, hquiet, he, hp⟩ := claimed.log
    refine .of_operations (by rw [claimed.frame]) (htasks (.inl (by rw [claimed.frame])))
      (by rw [claimed.frame]; exact .refl _) ?_
    obtain ⟨es', rfl, hes'⟩ := hquiet.unretired
    refine ⟨es' ++ es, by rw [he, List.append_assoc], fun e he => ?_⟩
    rcases List.mem_append.mp he with he | he
    · exact hes' e he
    · exact (Records.prepares hp).unretired e he
  | settles _ settled =>
    have htasks' : s'.tasks = s.tasks ∨ ∃ task, s'.tasks = s.tasks.update task := by
      rcases settled.tasks with h | ⟨_, new, h⟩
      · exact .inl h
      · exact .inr ⟨new, h.tasks_eq⟩
    exact .of_operations (by rw [settled.frame]) (htasks htasks')
      (by rw [settled.frame]; exact .refl _) settled.log.unretired
  | expires _ only =>
    exact .of_operations (by rw [only.frame]) (htasks (.inl (by rw [only.frame])))
      (by rw [only.frame]; exact .refl _) only.log.unretired
  | records recorded => exact .logged recorded.unretired
  | starts _ _ published =>
    have htasks' : s'.tasks = s.tasks ∨ ∃ task, s'.tasks = s.tasks.update task := by
      rcases published.tasks with h | ⟨_, new, h⟩
      · exact .inl h
      · exact .inr ⟨new, h.tasks_eq⟩
    obtain ⟨log, hbefore, hafter⟩ := published.log
    exact .of_operations (by rw [published.frame]) (htasks htasks')
      (by rw [published.frame]; exact .update _ _) (hbefore.unretired_snoc rfl hafter)
  | reserves _ _ _ reserved =>
    exact .of_insert reserved.operations rfl (htasks (.inr ⟨_, reserved.tasks⟩))
      (Table.Extends.insert? reserved.attempts).keeps
      ((QuietLog.refl s.events).unretired_snoc rfl reserved.log)
  | cancels cancelled =>
    have htasks' : s'.tasks = s.tasks ∨ ∃ task, s'.tasks = s.tasks.update task := by
      rcases cancelled.tasks with ⟨-, h⟩ | ⟨-, -, h⟩
      · exact .inr ⟨_, h⟩
      · exact .inl h
    exact .of_operations (by rw [cancelled.frame]) (htasks htasks')
      (by rw [cancelled.attempts]; exact .update _ _) cancelled.log.unretired
  | ends ended quiet =>
    obtain ⟨state, -, ha⟩ := ended.attempts
    obtain ⟨state', -, ht⟩ := ended.tasks
    exact .of_operations (by rw [ended.frame]) (htasks (.inr ⟨_, ht⟩))
      (by rw [ha]; exact .update _ _) quiet.unretired
  | stops ended stopped =>
    obtain ⟨state, -, ha⟩ := ended.attempts
    obtain ⟨state', -, ht⟩ := ended.tasks
    obtain ⟨log, receipt, revision, hquiet, hstop⟩ := stopped.log
    refine .of_operations (by rw [ended.frame]) (htasks (.inr ⟨_, ht⟩))
      (by rw [ha]; exact .update _ _) ?_
    rw [hstop]
    exact hquiet.unretired_snoc rfl (.refl _)
  | completes _ frame quiet =>
    exact .of_operations (by rw [frame]) (htasks (.inl (by rw [frame])))
      (by rw [frame]; exact .update _ _) quiet.unretired
  | queues queued =>
    exact .of_operations (by rw [queued.frame]) (htasks (.inr ⟨_, by rw [queued.frame]⟩))
      (by rw [queued.frame]; exact .refl _) queued.log.unretired
  | adopts frame quiet =>
    exact .of_operations (by rw [frame]) (htasks (.inl (by rw [frame])))
      (by rw [frame]; exact .refl _) quiet.unretired

namespace Jobs

variable {s s' : JobStore} {sub : Submission}

/-! ## Eligibility -/

/-- The conditions of `ELIGIBLE`. -/
structure Eligible (s : JobStore) (sub : Submission) : Prop where
  stored : s.results.submissions.find sub.submissionId = some sub
  contract : ∃ c, s.results.contracts.find (sub.taskId, sub.contractRevision) = some c ∧
    c.rawDigest = sub.contractDigest ∧ c.route = .verifyThenIntegrate
  target : (s.targets.find sub.repository).isSome
  task : (s.tasks.find sub.taskId).isSome
  verified : sub.submissionId ∉ s.results.pendingVerification
  accepted : s.everyPolicyAccepted sub = true
  noJob : s.hasJob sub.submissionId = false
  noIntegration : s.hasIntegration sub.submissionId = false
  unseeded : sub.submissionId ∉ s.results.seeded
  unheld : s.heldArm sub = false
  notReplay : sub.taskId ∉ s.results.replays

theorem eligible_ok {id : String} {c : Candidate} (h : s.eligible id = some c) :
    c.submission.submissionId = id ∧ Eligible s c.submission := by
  simp only [JobStore.eligible, Option.bind_eq_bind, Option.bind_eq_some_iff] at h
  obtain ⟨sub, hsub, contract, hcontract, target, htarget, task, htask, h⟩ := h
  split at h
  next hall =>
    obtain ⟨hdigest, hroute, hverified, haccepted, hjob, hintegration, hseeded, hheld, hreplay⟩ := hall
    cases h
    have hid : sub.submissionId = id := Table.find_key hsub
    subst hid
    exact ⟨rfl, hsub, ⟨contract, hcontract, hdigest, hroute⟩, by simp [htarget], by simp [htask],
      hverified, haccepted, hjob, hintegration, hseeded, hheld, hreplay⟩
  · cases h

theorem Eligible.isSome (h : Eligible s sub) : (s.eligible sub.submissionId).isSome := by
  obtain ⟨contract, hcontract, hdigest, hroute⟩ := h.contract
  obtain ⟨target, htarget⟩ := Option.isSome_iff_exists.mp h.target
  obtain ⟨task, htask⟩ := Option.isSome_iff_exists.mp h.task
  have hall := And.intro hdigest (And.intro hroute (And.intro h.verified (And.intro h.accepted
    (And.intro h.noJob (And.intro h.noIntegration (And.intro h.unseeded
      (And.intro h.unheld h.notReplay)))))))
  simp only [JobStore.eligible, h.stored, hcontract, htarget, htask, Option.bind_eq_bind,
    Option.bind_some, if_pos hall, Option.isSome_some]

/-- Every eligible submission is in `pending_integration_work`. -/
def Queued (s : JobStore) : Prop :=
  ∀ id, (s.eligible id).isSome → (s.pending.find id).isSome

theorem queued_iff :
    Queued s ↔ ∀ sub, Eligible s sub → (s.pending.find sub.submissionId).isSome := by
  constructor
  · exact fun h sub hsub => h _ hsub.isSome
  · intro h id hid
    obtain ⟨c, hc⟩ := Option.isSome_iff_exists.mp hid
    obtain ⟨rfl, hsub⟩ := eligible_ok hc
    exact h _ hsub

/-! ## What cannot come last -/

/-- The policies of a submission's contract revision. -/
def Results.policiesOf (r : Results) (sub : Submission) : List Policy :=
  r.policies.filter fun p => p.taskId = sub.taskId && p.contractRevision = sub.contractRevision

/-- Some policy of the submission has no run. -/
def Results.unverified (r : Results) (sub : Submission) : Prop :=
  ∃ p ∈ r.policiesOf sub, ∀ v ∈ r.runs.rows,
    ¬(v.submissionId = sub.submissionId ∧ v.policyId = p.policyId)

/-- The invariant of the queue. A submission comes after its contract, task and attempt, and a
verified result after its run, so these are no reason for a late change; a job comes after its
target and names no held submission, so a target that is configured or a hold that is lifted finds
no job; and a submission waits for its verifier only while a run is missing. -/
structure Sound (s : JobStore) : Prop where
  contracts : ∀ c ∈ s.results.contracts.rows, (s.tasks.find c.taskId).isSome
  subs : ∀ sub ∈ s.results.submissions.rows,
    (s.results.contracts.find (sub.taskId, sub.contractRevision)).isSome ∧
    (s.tasks.find sub.taskId).isSome ∧ (s.attempts.find sub.attemptId).isSome
  policies : ∀ p ∈ s.results.policies,
    (s.results.contracts.find (p.taskId, p.contractRevision)).isSome
  runs : ∀ v ∈ s.results.runs.rows, (s.results.submissions.find v.submissionId).isSome
  results : ∀ r ∈ s.results.results.rows,
    ∃ v, s.results.runs.find r.runId = some v ∧ v.submissionId = r.submissionId
  waiting : ∀ sub ∈ s.results.submissions.rows,
    sub.submissionId ∈ s.results.pendingVerification → s.results.policiesOf sub ≠ [] →
    s.results.unverified sub
  jobs : ∀ op ∈ s.operations.rows, ∀ job, job? op = some job →
    ∃ sub, s.results.submissions.find job.submissionId = some sub ∧
      (s.targets.find sub.repository).isSome ∧ s.heldArm sub = false
  retired : ∀ id, s.isRetired .integration id = true → (s.operations.find id).isSome

theorem acceptedResult_ok {r : VerifiedResult} {v : VerificationRun}
    (h : s.acceptedResult r = some v) : s.results.runs.find r.runId = some v ∧ v.accepted = true := by
  unfold JobStore.acceptedResult at h
  split at h
  · exact (Option.filter_eq_some_iff.mp h)
  · cases h

/-- A submission whose every policy is accepted has policies, and an accepted result for each. -/
theorem everyPolicyAccepted_iff : s.everyPolicyAccepted sub = true ↔
    s.results.policiesOf sub ≠ [] ∧ ∀ p ∈ s.results.policiesOf sub, ∃ r ∈ s.results.results.rows,
      ∃ v, s.acceptedResult r = some v ∧ v.submissionId = sub.submissionId ∧
        v.policyId = p.policyId := by
  simp only [JobStore.everyPolicyAccepted, Bool.and_eq_true, Bool.not_eq_eq_eq_not, Bool.not_true,
    List.isEmpty_eq_false_iff, List.all_eq_true, List.any_eq_true, Option.any_eq_true,
    decide_eq_true_eq]
  rfl

/-- The result of a submission whose every policy is accepted. -/
theorem Sound.hasResult (h : Sound s) (haccepted : s.everyPolicyAccepted sub = true) :
    s.results.results.rows.any (·.submissionId = sub.submissionId) = true := by
  obtain ⟨hne, hall⟩ := everyPolicyAccepted_iff.mp haccepted
  obtain ⟨p, hp⟩ := List.exists_mem_of_ne_nil _ hne
  obtain ⟨r, hr, v, hv, hid, -⟩ := hall p hp
  obtain ⟨v', hv', hsub⟩ := h.results r hr
  rw [(acceptedResult_ok hv).1] at hv'
  cases hv'
  exact List.any_eq_true.mpr ⟨r, hr, by simpa using hsub.symm.trans hid⟩

theorem hasJob_iff {id : String} : s.hasJob id = true ↔ ∃ op ∈ s.operations.rows,
    (∃ job, job? op = some job ∧ job.submissionId = id) ∧ s.isRetired .integration op.id = false := by
  simp only [JobStore.hasJob, List.any_eq_true, Bool.and_eq_true, Option.any_eq_true,
    Bool.not_eq_eq_eq_not, Bool.not_true, decide_eq_true_eq]

/-! ## Writes beside the queue -/

/-- A write that leaves the queue and everything it reads alone, but for the states of
integrations. -/
structure Beside (s s' : JobStore) : Prop where
  quiet : Quiet s.toStore s'.toStore
  results : s'.results = { s.results with integrations := s'.results.integrations }
  integrations : ∀ id, s'.hasIntegration id = s.hasIntegration id
  targets : s'.targets = s.targets
  pending : s'.pending = s.pending

theorem Beside.of_quiet (h : Quiet s.toStore s'.toStore) (hresults : s'.results = s.results)
    (htargets : s'.targets = s.targets) (hpending : s'.pending = s.pending) : Beside s s' :=
  ⟨h, by rw [hresults], fun id => by unfold JobStore.hasIntegration; rw [hresults], htargets,
    hpending⟩

theorem Quiet.isRetired {lane : ResultLane} (h : Quiet s.toStore s'.toStore) (id : OperationId) :
    s'.isRetired lane id = s.isRetired lane id := by
  obtain ⟨es, hes, hquiet⟩ := h.log
  unfold JobStore.isRetired Store.hasEvent
  rw [hes, List.any_append]
  have hnone : es.any (·.isAbout id.val [.jobRetired lane]) = false := by
    rw [List.any_eq_false]
    intro e he hkind
    simp only [Event.isAbout, List.contains_eq_mem, List.mem_singleton, Bool.and_eq_true,
      decide_eq_true_eq] at hkind
    have := hquiet e he
    rw [hkind.2] at this
    cases this
  rw [hnone, Bool.or_false]

theorem Quiet.hasJob (h : Quiet s.toStore s'.toStore) (id : String) :
    s'.hasJob id = s.hasJob id := by
  rw [Bool.eq_iff_iff, hasJob_iff, hasJob_iff]
  constructor
  · rintro ⟨op, hop, ⟨job, hjob, hid⟩, hretired⟩
    rw [Quiet.isRetired h] at hretired
    exact ⟨op, (h.jobs op (by simp [hjob])).mp hop, ⟨job, hjob, hid⟩, hretired⟩
  · rintro ⟨op, hop, ⟨job, hjob, hid⟩, hretired⟩
    rw [← Quiet.isRetired h] at hretired
    exact ⟨op, (h.jobs op (by simp [hjob])).mpr hop, ⟨job, hjob, hid⟩, hretired⟩

section Beside

variable (h : Beside s s')
include h

theorem Beside.heldArm (sub : Submission) : s'.heldArm sub = s.heldArm sub := by
  unfold JobStore.heldArm
  rw [h.results]

theorem Beside.everyPolicyAccepted (sub : Submission) :
    s'.everyPolicyAccepted sub = s.everyPolicyAccepted sub := by
  unfold JobStore.everyPolicyAccepted JobStore.acceptedResult
  rw [h.results]

theorem Beside.sound (hs : Sound s) : Sound s' := by
  constructor
  · intro c hc
    rw [h.results] at hc
    exact h.quiet.tasks _ (hs.contracts c hc)
  · intro sub hsub
    rw [h.results] at hsub ⊢
    obtain ⟨hcontract, htask, hattempt⟩ := hs.subs sub hsub
    exact ⟨hcontract, h.quiet.tasks _ htask, h.quiet.attempts _ hattempt⟩
  · rw [h.results]
    exact hs.policies
  · rw [h.results]
    exact hs.runs
  · rw [h.results]
    exact hs.results
  · rw [h.results]
    exact hs.waiting
  · intro op hop job hjob
    obtain ⟨sub, hsub, htarget, hheld⟩ := hs.jobs op ((h.quiet.jobs op (by simp [hjob])).mp hop) job hjob
    refine ⟨sub, ?_, ?_, ?_⟩
    · rw [h.results]
      exact hsub
    · rw [h.targets]
      exact htarget
    · rw [h.heldArm]
      exact hheld
  · intro id hid
    rw [Quiet.isRetired h.quiet] at hid
    exact h.quiet.operations _ (hs.retired id hid)

theorem Beside.eligible (hs : Sound s) (hsub : Eligible s' sub) : Eligible s sub := by
  have hstored : s.results.submissions.find sub.submissionId = some sub := by
    have := hsub.stored
    rwa [h.results] at this
  constructor
  · exact hstored
  · have := hsub.contract
    rwa [h.results] at this
  · have := hsub.target
    rwa [h.targets] at this
  · exact (hs.subs sub (Table.mem_of_find hstored)).2.1
  · have := hsub.verified
    rwa [h.results] at this
  · rw [← h.everyPolicyAccepted]
    exact hsub.accepted
  · rw [← Quiet.hasJob h.quiet]
    exact hsub.noJob
  · rw [← h.integrations]
    exact hsub.noIntegration
  · have := hsub.unseeded
    rwa [h.results] at this
  · rw [← h.heldArm]
    exact hsub.unheld
  · have := hsub.notReplay
    rwa [h.results] at this

theorem Beside.queued (hs : Sound s) (hq : Queued s) : Queued s' := by
  rw [queued_iff] at hq ⊢
  intro sub hsub
  rw [h.pending]
  exact hq sub (h.eligible hs hsub)

end Beside

/-! ## The queue -/

/-- The invariant together with what it is for. -/
structure Fed (s : JobStore) : Prop where
  sound : Sound s
  queued : Queued s

theorem Fed.beside (h : Fed s) (hb : Beside s s') : Fed s' :=
  ⟨hb.sound h.sound, hb.queued h.sound h.queued⟩

/-- Neither the eligibility nor the invariant looks at the queue. -/
theorem Eligible.of_pending {pending : Table PendingWork PendingWork.submissionId}
    (h : Eligible { s with pending := pending } sub) : Eligible s sub :=
  ⟨h.stored, h.contract, h.target, h.task, h.verified, h.accepted, h.noJob, h.noIntegration,
    h.unseeded, h.unheld, h.notReplay⟩

theorem Sound.with_pending (h : Sound s) (pending : Table PendingWork PendingWork.submissionId) :
    Sound { s with pending := pending } :=
  ⟨h.contracts, h.subs, h.policies, h.runs, h.results, h.waiting, h.jobs, h.retired⟩

theorem pending_requeue {id submission : String} (h : (s.pending.find id).isSome) :
    ((s.requeue submission).pending.find id).isSome := by
  unfold JobStore.requeue
  split
  · next sub hsub =>
    cases hinsert : s.pending.insert? ⟨submission, sub.createdUnixMs⟩ with
    | none => exact h
    | some t => exact (Table.Extends.insert? hinsert).keeps _ h
  · exact h

/-- A stored submission that is queued again is pending. -/
theorem pending_requeue_self (h : s.results.submissions.find sub.submissionId = some sub) :
    ((s.requeue sub.submissionId).pending.find sub.submissionId).isSome := by
  unfold JobStore.requeue
  simp only [h]
  cases hinsert : s.pending.insert? ⟨sub.submissionId, sub.createdUnixMs⟩ with
  | none =>
    unfold Table.insert? at hinsert
    split at hinsert
    · cases hinsert
    · next hfound => exact Option.ne_none_iff_isSome.mp hfound
  | some t =>
    rw [Option.getD_some, Table.find_insert? hinsert, if_pos rfl]
    rfl

theorem Eligible.of_requeue {submission : String} (h : Eligible (s.requeue submission) sub) :
    Eligible s sub := by
  rw [requeue_frame] at h
  exact h.of_pending

theorem Sound.requeue (h : Sound s) (submission : String) : Sound (s.requeue submission) := by
  rw [requeue_frame]
  exact h.with_pending _

theorem requeue_results (s : JobStore) (submission : String) :
    (s.requeue submission).results = s.results := by rw [requeue_frame]

theorem requeue_operations (s : JobStore) (submission : String) :
    (s.requeue submission).operations = s.operations := by rw [requeue_frame]

/-! ### Retiring a job -/

section Producer

variable [Digests] [JobDigests] {env : Outside}

/-- The store after a job was retired, before its submission is queued again. -/
def JobStore.retireTo (s : JobStore) (id : OperationId) (now : Int) (old : Delivery)
    (outcome : Outcome) (revision bound current : Nat) : JobStore :=
  { s with
    deliveries := s.deliveries.update (old.settle outcome now)
    events := s.events ++ [old.outcomeEvent outcome "result-automation",
      ⟨id.val, revision, .jobRetired .integration bound current⟩] }

omit [JobDigests] in
theorem retireJob_ok {now : Int} {id : OperationId} {bound current : Nat} {u : Unit}
    (h : retireJob env .integration now (id, bound, current) s = .ok (u, s')) :
    ∃ old outcome revision, s' = (match (s.operations.find id).bind job? with
      | some job => (s.retireTo id now old outcome revision bound current).requeue job.submissionId
      | none => s.retireTo id now old outcome revision bound current) := by
  simp only [retireJob, inStore_bind, readDelivery, Tx.find_ok] at h
  obtain ⟨old, _, ⟨hrow, rfl⟩, d, t, hout, _, t', hlog, h⟩ := h
  obtain ⟨-, rfl⟩ := logEvent_ok.mp hlog
  obtain ⟨outcome, hother, hout⟩ : ∃ outcome, (∀ identity, outcome ≠ .confirmed identity) ∧
      updateOutcome env old outcome now "result-automation" s.toStore = .ok (d, t) :=
    ⟨_, by simp, hout⟩
  rw [updateOutcome_other hout hother] at h
  simp only [if_true, Tx.write_ok] at h
  have hstore :
      ({ s with
        toStore := (s.toStore.settled old outcome now "result-automation").logged
          [⟨id.val, d.revision, .jobRetired .integration bound current⟩] } : JobStore) =
        s.retireTo id now old outcome d.revision bound current := by
    simp only [JobStore.retireTo, Store.logged, Store.settled, List.append_assoc, List.cons_append,
      List.nil_append]
  have hretired : ∀ t : JobStore, t = s.retireTo id now old outcome d.revision bound current →
      (match (s.operations.find id).bind job? with
        | some job => t.requeue job.submissionId
        | none => t) = (match (s.operations.find id).bind job? with
        | some job => (s.retireTo id now old outcome d.revision bound current).requeue
            job.submissionId
        | none => s.retireTo id now old outcome d.revision bound current) := by
    rintro t rfl
    rfl
  exact ⟨old, outcome, d.revision, h.symm.trans (hretired _ hstore)⟩

variable {id : OperationId} {now : Int} {old : Delivery} {outcome : Outcome}
  {revision bound current : Nat}

omit [Digests] [JobDigests] in
theorem isRetired_retireTo {x : OperationId} :
    (s.retireTo id now old outcome revision bound current).isRetired .integration x = true ↔
      s.isRetired .integration x = true ∨ x = id := by
  have hx : id.val = x.val ↔ x = id := by
    cases id
    cases x
    simp [eq_comm]
  simp [JobStore.isRetired, Store.hasEvent, JobStore.retireTo, Event.isAbout, Event.kind,
    Delivery.outcomeEvent, EventBody.kind, hx]

omit [Digests] [JobDigests] in
theorem Sound.retireTo (h : Sound s) (hop : (s.operations.find id).isSome) :
    Sound (s.retireTo id now old outcome revision bound current) := by
  refine ⟨h.contracts, h.subs, h.policies, h.runs, h.results, h.waiting, h.jobs, fun x hx => ?_⟩
  rcases isRetired_retireTo.mp hx with hx | rfl
  · exact h.retired x hx
  · exact hop

omit [Digests] [JobDigests] in
/-- Retiring a job makes its own submission eligible at most. -/
theorem Eligible.of_retireTo
    (h : Eligible (s.retireTo id now old outcome revision bound current) sub) :
    Eligible s sub ∨ ∃ job, (s.operations.find id).bind job? = some job ∧
      job.submissionId = sub.submissionId := by
  by_cases hjob : s.hasJob sub.submissionId = true
  · right
    obtain ⟨op, hop, ⟨job, hj, hid⟩, hretired⟩ := hasJob_iff.mp hjob
    have hnow : (s.retireTo id now old outcome revision bound current).isRetired .integration op.id =
        true := by
      cases hr : (s.retireTo id now old outcome revision bound current).isRetired .integration op.id with
      | true => rfl
      | false =>
        have hhas := (hasJob_iff (s := s.retireTo id now old outcome revision bound current)).mpr
          ⟨op, hop, ⟨job, hj, hid⟩, hr⟩
        rw [h.noJob] at hhas
        cases hhas
    rcases isRetired_retireTo.mp hnow with hr | rfl
    · rw [hretired] at hr
      cases hr
    · exact ⟨job, by rw [Table.find_of_mem hop]; exact hj, hid⟩
  · left
    exact ⟨h.stored, h.contract, h.target, h.task, h.verified, h.accepted, by simpa using hjob,
      h.noIntegration, h.unseeded, h.unheld, h.notReplay⟩

omit [JobDigests] in
/-- **Retirement.** The submission of a retired job is queued again. -/
theorem Fed.retireJob {u : Unit} (h : Fed s) (hop : (s.operations.find id).isSome)
    (hbody : retireJob env .integration now (id, bound, current) s = .ok (u, s')) :
    Fed s' ∧ s'.results = s.results ∧ s'.operations = s.operations := by
  obtain ⟨old, outcome, revision, rfl⟩ := retireJob_ok hbody
  have hsound : Sound (s.retireTo id now old outcome revision bound current) :=
    h.sound.retireTo hop
  have hq := queued_iff.mp h.queued
  cases hj : (s.operations.find id).bind job? with
  | some job =>
    refine ⟨⟨hsound.requeue _, queued_iff.mpr fun sub hsub => ?_⟩, requeue_results .., requeue_operations ..⟩
    have hsub := hsub.of_requeue
    rcases hsub.of_retireTo with hs | ⟨job', hj', hid⟩
    · exact pending_requeue (hq sub hs)
    · rw [hj] at hj'
      cases hj'
      change (((s.retireTo id now old outcome revision bound current).requeue
        job.submissionId).pending.find sub.submissionId).isSome
      rw [hid]
      exact pending_requeue_self hsub.stored
  | none =>
    refine ⟨⟨hsound, queued_iff.mpr fun sub hsub => ?_⟩, rfl, rfl⟩
    rcases hsub.of_retireTo with hs | ⟨job', hj', -⟩
    · exact hq sub hs
    · rw [hj] at hj'
      cases hj'

omit [Digests] [JobDigests] in
theorem mem_stale {lane : ResultLane} {stale : OperationId × Nat × Nat}
    (h : stale ∈ s.stale lane) : (s.operations.find stale.1).isSome := by
  unfold JobStore.stale at h
  have hmem := (List.perm_insertionSort _ _).mem_iff.mp (List.mem_of_mem_take h)
  obtain ⟨op, hop, hrow⟩ := List.mem_filterMap.mp hmem
  simp only [Option.bind_eq_bind, Option.bind_eq_some_iff] at hrow
  obtain ⟨d, -, task, -, hrow⟩ := hrow
  split at hrow
  · cases hrow
    simp [Table.find_of_mem hop]
  · cases hrow

omit [JobDigests] in
theorem Fed.retireStale {more : Bool} (h : Fed s)
    (hbody : retireStale env .integration now s = .ok (more, s')) :
    Fed s' ∧ s'.results = s.results := by
  simp only [Jobs.retireStale, Tx.ask_bind] at hbody
  obtain ⟨_, t, hloop, hbody⟩ := Tx.bind_ok.mp hbody
  obtain ⟨-, rfl⟩ := Tx.pure_ok.mp hbody
  have hall : (Fed t ∧ t.results = s.results) ∧ t.operations = s.operations := by
    refine Tx.forEach_preserves (R := Tx.Carries fun t =>
      (Fed t ∧ t.results = s.results) ∧ t.operations = s.operations) (fun _ h => h)
      (fun hab hbc h => hbc (hab h)) ?_ hloop ⟨⟨h, rfl⟩, rfl⟩
    rintro ⟨id, bound, current⟩ hmem a b _ hbody ⟨⟨ha, hresults⟩, hops⟩
    have hop := mem_stale (List.mem_of_mem_take hmem)
    rw [← hops] at hop
    obtain ⟨hb, hbresults, hbops⟩ := ha.retireJob hop hbody
    exact ⟨⟨hb, hbresults.trans hresults⟩, hbops.trans hops⟩
  exact hall.1

/-! ### Enqueueing a job -/

omit [Digests] [JobDigests] in
theorem insertJob_eq {op : Operation} (h : s.insertJob op = some s') :
    s' = { s with
      operations := s'.operations
      deliveries := s'.deliveries
      pending := s'.pending } ∧
    ∀ id, some id ≠ (job? op).map (·.submissionId) → (s.pending.find id).isSome →
      (s'.pending.find id).isSome := by
  simp only [JobStore.insertJob, Option.bind_eq_bind, Option.bind_eq_some_iff] at h
  obtain ⟨_, -, operations, -, deliveries, -, h⟩ := h
  cases h
  exact ⟨rfl, fun id hid hpending => Table.isSome_find_filter _ hpending (by
    rintro w rfl
    simpa using hid)⟩

omit [Digests] [JobDigests] in
/-- A job for an eligible submission takes its pending row. -/
theorem Fed.insertJob {op : Operation} {job : IntegrationJob} (h : Fed s) (hsub : Eligible s sub)
    (hjob : job? op = some job) (hid : job.submissionId = sub.submissionId)
    (hinsert : s.insertJob op = some s') : Fed s' ∧ s'.results = s.results := by
  obtain ⟨hframe, hpending⟩ := insertJob_eq hinsert
  obtain ⟨hops, -⟩ := insertJob_ok hinsert
  have hresults : s'.results = s.results := by rw [hframe]
  have hheld : ∀ x, s'.heldArm x = s.heldArm x := by
    intro x
    unfold JobStore.heldArm
    rw [hresults]
  have hretired : ∀ x, s'.isRetired .integration x = s.isRetired .integration x := by
    intro x
    rw [hframe]
    rfl
  refine ⟨⟨⟨?_, ?_, ?_, ?_, ?_, ?_, ?_, ?_⟩, queued_iff.mpr fun x hx => ?_⟩, hresults⟩
  · rw [hframe]
    exact h.sound.contracts
  · rw [hframe]
    exact h.sound.subs
  · rw [hresults]
    exact h.sound.policies
  · rw [hresults]
    exact h.sound.runs
  · rw [hresults]
    exact h.sound.results
  · rw [hresults]
    exact h.sound.waiting
  · intro o ho job' hjob'
    rw [hresults, show s'.targets = s.targets by rw [hframe]]
    simp only [hheld]
    rcases (Table.mem_insert? hops).mp ho with ho | rfl
    · exact h.sound.jobs o ho job' hjob'
    · rw [hjob] at hjob'
      cases hjob'
      exact ⟨sub, hid ▸ hsub.stored, hsub.target, hsub.unheld⟩
  · intro x hx
    rw [hretired] at hx
    exact (Table.Extends.insert? hops).keeps _ (h.sound.retired x hx)
  · -- the new job is not retired, so its submission is no longer eligible
    have hunretired : s.isRetired .integration op.id = false := by
      by_contra hr
      have hfound := h.sound.retired op.id (by simpa using hr)
      rw [(Table.insert?_eq_some hops).1] at hfound
      cases hfound
    have hne : x.submissionId ≠ sub.submissionId := by
      intro he
      have hhas : s'.hasJob x.submissionId = true :=
        hasJob_iff.mpr ⟨op, (Table.mem_insert? hops).mpr (.inr rfl), ⟨job, hjob, by rw [hid, he]⟩,
          by rw [hretired, hunretired]⟩
      rw [hx.noJob] at hhas
      cases hhas
    refine hpending _ ?_ (queued_iff.mp h.queued x ?_)
    · rw [hjob]
      simpa [hid] using hne
    · have hnojob : s.hasJob x.submissionId = false := by
        rw [Bool.eq_false_iff, Ne, hasJob_iff]
        rintro ⟨o, ho, hjobo, hr⟩
        have hhas : s'.hasJob x.submissionId = true :=
          hasJob_iff.mpr ⟨o, (Table.mem_insert? hops).mpr (.inl ho), hjobo, by rw [hretired, hr]⟩
        rw [hx.noJob] at hhas
        cases hhas
      rw [hframe] at hx
      exact ⟨hx.stored, hx.contract, hx.target, hx.task, hx.verified, hx.accepted, hnojob,
        hx.noIntegration, hx.unseeded, hx.unheld, hx.notReplay⟩

omit [Digests] [JobDigests] in
/-- A row that is dropped was that of no eligible submission. -/
theorem Fed.dropPending {submission : String} (h : Fed s) (hnone : s.eligible submission = none) :
    Fed (s.dropPending submission) := by
  refine ⟨h.sound.with_pending _, queued_iff.mpr fun x hx => ?_⟩
  have hbefore : Eligible s x := hx.of_pending
  have hne : x.submissionId ≠ submission := by
    rintro rfl
    have hsome := hbefore.isSome
    rw [hnone] at hsome
    cases hsome
  exact Table.isSome_find_filter _ (queued_iff.mp h.queued x hbefore)
    fun w hw => by simpa [hw] using hne

omit [Digests] in
theorem Fed.enqueueOne {submission : String} {n : Nat} (h : Fed s)
    (hbody : enqueueOne now submission s = .ok (n, s')) : Fed s' ∧ s'.results = s.results := by
  simp only [Jobs.enqueueOne, Tx.ask_bind] at hbody
  cases hc : s.eligible submission with
  | none =>
    simp only [hc, Tx.write_bind, Tx.pure_ok] at hbody
    obtain ⟨-, rfl⟩ := hbody
    exact ⟨h.dropPending hc, rfl⟩
  | some c =>
    simp only [hc, Tx.find_bind, Tx.ask_bind] at hbody
    obtain ⟨result, -, hbody⟩ := hbody
    rcases Tx.ite_ok.mp hbody with ⟨-, hbody⟩ | ⟨-, hbody⟩
    · simp only [Tx.insert_bind, Tx.pure_ok] at hbody
      obtain ⟨t, hinsert, -, rfl⟩ := hbody
      exact h.insertJob (eligible_ok hc).2 rfl rfl hinsert
    · rw [← (Tx.pure_ok.mp hbody).2]
      exact ⟨h, rfl⟩

omit [Digests] in
theorem Fed.enqueueAll {submissions : List String} {n m : Nat} (h : Fed s)
    (hbody : enqueueAll now n submissions s = .ok (m, s')) : Fed s' ∧ s'.results = s.results := by
  induction submissions generalizing n s with
  | nil =>
    rw [← (Tx.pure_ok.mp hbody).2]
    exact ⟨h, rfl⟩
  | cons submission rest ih =>
    rcases Tx.ite_ok.mp hbody with ⟨-, hbody⟩ | ⟨-, hbody⟩
    · rw [← (Tx.pure_ok.mp hbody).2]
      exact ⟨h, rfl⟩
    · obtain ⟨added, t, hone, hrest⟩ := Tx.bind_ok.mp hbody
      obtain ⟨ht, htr⟩ := h.enqueueOne hone
      obtain ⟨hs, hsr⟩ := ih ht hrest
      exact ⟨hs, hsr.trans htr⟩

/-- **A turn of the producer.** -/
theorem Fed.service {turn : Turn} (h : Fed s)
    (hbody : serviceIntegrationJobs env now s = .ok (turn, s')) :
    Fed s' ∧ s'.results = s.results := by
  simp only [serviceIntegrationJobs, Tx.ask_bind] at hbody
  rcases Tx.ite_ok.mp hbody with ⟨-, hbody⟩ | ⟨-, hbody⟩
  · obtain ⟨stale, t, hstale, hbody⟩ := Tx.bind_ok.mp hbody
    simp only [Tx.ask_bind] at hbody
    obtain ⟨n, t', hloop, hbody⟩ := Tx.bind_ok.mp hbody
    simp only [Tx.outside_bind, Tx.pure_ok] at hbody
    obtain ⟨-, -, rfl⟩ := hbody
    obtain ⟨ht, htr⟩ := h.retireStale hstale
    obtain ⟨hs, hsr⟩ := ht.enqueueAll hloop
    exact ⟨hs, hsr.trans htr⟩
  · rw [← (Tx.pure_ok.mp hbody).2]
    exact ⟨h, rfl⟩

end Producer

/-! ### Targets -/

theorem foldl_requeue_frame (work : List String) (s : JobStore) :
    work.foldl JobStore.requeue s = { s with pending := (work.foldl JobStore.requeue s).pending } := by
  induction work generalizing s with
  | nil => rfl
  | cons w work ih =>
    rw [List.foldl_cons, ih (s.requeue w), requeue_frame]

theorem pending_foldl_requeue (work : List String) {s : JobStore} {id : String}
    (h : (s.pending.find id).isSome) : ((work.foldl JobStore.requeue s).pending.find id).isSome := by
  induction work generalizing s with
  | nil => exact h
  | cons w work ih => exact ih (pending_requeue h)

/-- Every stored submission of the list is pending afterwards. -/
theorem pending_foldl_requeue_mem {work : List String} {s : JobStore}
    (hsub : s.results.submissions.find sub.submissionId = some sub) (h : sub.submissionId ∈ work) :
    ((work.foldl JobStore.requeue s).pending.find sub.submissionId).isSome := by
  induction work generalizing s with
  | nil => cases h
  | cons w work ih =>
    rcases List.mem_cons.mp h with rfl | h
    · exact pending_foldl_requeue work (pending_requeue_self hsub)
    · exact ih (by rw [requeue_results]; exact hsub) h

/-- **A new target.** The verified submissions of its repository that it makes eligible have no
job, since a job comes after its target. -/
theorem Fed.configure {repository refName : String} {u : Unit} (h : Fed s)
    (hbody : configureIntegrationRef repository refName s = .ok (u, s')) :
    Fed s' ∧ s'.results = s.results := by
  simp only [configureIntegrationRef, Tx.require_bind, Tx.ask_bind] at hbody
  obtain ⟨-, hbody⟩ := hbody
  cases hfind : s.targets.find repository with
  | some t =>
    simp only [hfind, Tx.require_ok] at hbody
    rw [← hbody.2]
    exact ⟨h, rfl⟩
  | none =>
    simp only [hfind, Tx.insert_bind, Tx.write_ok] at hbody
    obtain ⟨t, hinsert, rfl⟩ := hbody
    obtain ⟨targets, htargets, rfl⟩ := Option.map_eq_some_iff.mp hinsert
    have hkeeps := (Table.Extends.insert? htargets).keeps
    have hsound : Sound { s with targets := targets } := by
      refine ⟨h.sound.contracts, h.sound.subs, h.sound.policies, h.sound.runs, h.sound.results, h.sound.waiting, ?_,
        h.sound.retired⟩
      intro op hop job hjob
      obtain ⟨sub, hsub, htarget, hheld⟩ := h.sound.jobs op hop job hjob
      exact ⟨sub, hsub, hkeeps _ htarget, hheld⟩
    rw [foldl_requeue_frame]
    refine ⟨⟨hsound.with_pending _, queued_iff.mpr fun x hx => ?_⟩, rfl⟩
    have hx : Eligible { s with targets := targets } x := hx.of_pending
    by_cases hrepo : x.repository = repository
    · -- the target was missing, so no job names the submission
      apply pending_foldl_requeue_mem (s := { s with targets := targets }) hx.stored
      unfold JobStore.targetWork
      refine List.mem_map.mpr ⟨x, List.mem_filter.mpr ⟨Table.mem_of_find hx.stored, ?_⟩, rfl⟩
      have hjobs : s.operations.rows.any
          (fun op => (job? op).any (·.submissionId = x.submissionId)) = false := by
        rw [List.any_eq_false]
        intro op hop hany
        obtain ⟨job, hjob, hid⟩ := (Option.any_eq_true _ _).mp hany
        obtain ⟨sub, hsub, htarget, -⟩ := h.sound.jobs op hop job hjob
        rw [of_decide_eq_true hid, show s.results.submissions.find x.submissionId = some x from
          hx.stored] at hsub
        cases hsub
        rw [hrepo, hfind] at htarget
        cases htarget
      simp only [Bool.and_eq_true, Bool.not_eq_eq_eq_not, Bool.not_true, decide_eq_true_eq]
      exact ⟨⟨⟨hrepo, hsound.hasResult hx.accepted⟩, hjobs⟩, hx.noIntegration⟩
    · apply pending_foldl_requeue
      have htarget : (s.targets.find x.repository).isSome := by
        have ht := hx.target
        rwa [show ({ s with targets := targets } : JobStore).targets = targets from rfl,
          Table.find_insert? htargets, if_neg (fun he => hrepo he.symm)] at ht
      exact queued_iff.mp h.queued x ⟨hx.stored, hx.contract, htarget, hx.task, hx.verified,
        hx.accepted, hx.noJob, hx.noIntegration, hx.unseeded, hx.unheld, hx.notReplay⟩

/-! ### Calls of the jobs -/

section Calls

variable [Digests] [JobDigests]

omit [JobDigests] in
/-- A call of the lifecycle over the store of the jobs. -/
theorem Fed.effect (env : Outside) {o : Option Claim} {t : Store} (h : Fed s)
    (heffect : Effect env s.toStore o t) : Fed { s with toStore := t } :=
  h.beside (.of_quiet heffect.quiet rfl rfl rfl)

omit [Digests] [JobDigests] in
theorem Quiet.resetTo {lane : ResultLane} {id : OperationId} {old : Delivery} {now : Int} :
    Quiet s.toStore (s.resetTo lane id old now).toStore := by
  refine .of_operations rfl (.refl _) (.refl _) ⟨[_], rfl, ?_⟩
  simp [Event.kind, EventBody.kind, EventKind.retirement]

omit [Digests] [JobDigests] in
theorem Fed.setResultAutomation {head : Nat} {verify integrate : Option Bool} {a : Automation}
    (h : Fed s) (hbody : setResultAutomation head verify integrate s = .ok (a, s')) :
    Fed s' ∧ s'.results = s.results := by
  simp only [Jobs.setResultAutomation, expectHead, Herdr.head, inStore_bind, Tx.ask_bind,
    Tx.require_ok] at hbody
  obtain ⟨_, _, ⟨-, rfl⟩, hbody⟩ := hbody
  rcases Tx.ite_ok.mp hbody with ⟨-, hbody⟩ | ⟨-, hbody⟩
  · rw [← (Tx.pure_ok.mp hbody).2]
    exact ⟨h, rfl⟩
  · simp only [inStore_bind, next, integer, Tx.require_bind, Tx.require_ok, Tx.pure_ok,
      Tx.write_bind, logEvent_ok] at hbody
    obtain ⟨_, _, ⟨-, rfl, rfl⟩, _, _, ⟨-, rfl⟩, _, _, ⟨-, rfl⟩, -, rfl⟩ := hbody
    refine ⟨h.beside (.of_quiet (.logged ?_) rfl rfl rfl), rfl⟩
    simp [Event.kind, EventBody.kind, EventKind.retirement]

/-- **Every call of the jobs keeps the queue fed.** -/
theorem Fed.call {c : JobCall} {u : Unit} (h : Fed s) (hbody : c.body s = .ok (u, s')) :
    Fed s' ∧ s'.results = s.results := by
  obtain ⟨method, env⟩ := c
  cases method <;> simp only [JobCall.body, discard_ok, inStore_ok] at hbody
  case serviceIntegrationJobs =>
    obtain ⟨turn, hbody⟩ := hbody
    exact h.service hbody
  case claimOperation =>
    obtain ⟨c, t, hbody, rfl⟩ := hbody
    obtain ⟨-, old, op, hc⟩ := claimWithCreation_ok hbody
    exact ⟨h.effect env (.claims hc), rfl⟩
  case finishOperation =>
    obtain ⟨d, t, hbody, rfl⟩ := hbody
    obtain ⟨old, row, -, hs⟩ := finishOperation_ok hbody
    exact ⟨h.effect env (settles_effect row hs), rfl⟩
  case expireClaims now =>
    obtain ⟨n, t, hbody, rfl⟩ := hbody
    obtain ⟨only, rows⟩ := expireClaims_ok hbody
    exact ⟨h.effect env (.expires now only rows), rfl⟩
  case observeOperation =>
    obtain ⟨d, t, hbody, rfl⟩ := hbody
    obtain ⟨old, row, -, hs⟩ := observeOperation_ok hbody
    exact ⟨h.effect env (settles_effect row hs), rfl⟩
  case retireOperation =>
    obtain ⟨d, t, hbody, rfl⟩ := hbody
    obtain ⟨old, outcome, row, -, hs⟩ := retireOperation_ok hbody
    exact ⟨h.effect env (settles_effect row hs), rfl⟩
  case resetIntegrationJob =>
    obtain ⟨op, old, -, rfl⟩ := resetResultJob_ok.mp hbody
    exact ⟨h.beside (.of_quiet Quiet.resetTo rfl rfl rfl), rfl⟩
  case resetVerificationJob =>
    obtain ⟨op, old, -, rfl⟩ := resetResultJob_ok.mp hbody
    exact ⟨h.beside (.of_quiet Quiet.resetTo rfl rfl rfl), rfl⟩
  case setResultAutomation =>
    obtain ⟨a, hbody⟩ := hbody
    exact h.setResultAutomation hbody
  case configureIntegrationRef => exact h.configure hbody

end Calls

end Jobs

/-! ## Results and groups over the queue -/

namespace Groups

open Jobs

variable {s s' : GroupStore}

theorem inStore_ok {α : Type} {body : Body α} {a : α} : Groups.inStore body s = .ok (a, s') ↔
    ∃ t, body s.store = .ok (a, t) ∧ { s with store := t } = s' :=
  Tx.within_ok

theorem inStore_bind {α β : Type} {body : Body α} {f : α → GroupTx β} {b : β} :
    (Groups.inStore body >>= f) s = .ok (b, s') ↔
      ∃ a t, body s.store = .ok (a, t) ∧ f a { s with store := t } = .ok (b, s') := by
  rw [Tx.bind_ok]
  constructor
  · rintro ⟨a, u, hbody, hf⟩
    obtain ⟨t, hrun, rfl⟩ := inStore_ok.mp hbody
    exact ⟨a, t, hrun, hf⟩
  · rintro ⟨a, t, hbody, hf⟩
    exact ⟨a, _, inStore_ok.mpr ⟨t, hbody, rfl⟩, hf⟩

theorem discard_ok {α : Type} {x : GroupTx α} {u : PUnit} :
    discard x s = .ok (u, s') ↔ ∃ a, x s = .ok (a, s') := by
  change (Function.const α PUnit.unit <$> x) s = .ok (u, s') ↔ _
  rw [Tx.map_ok]
  constructor
  · rintro ⟨a, h, -⟩
    exact ⟨a, h⟩
  · rintro ⟨a, h⟩
    exact ⟨a, h, rfl⟩

/-- The jobs see what they wrote, since they write none of the results. -/
theorem jobs_withJobs {t : JobStore} (h : t.results = s.jobResults) : (s.withJobs t).jobs = t := by
  change { t with results := s.jobResults } = t
  rw [← h]

end Groups

namespace Jobs

open Groups

variable {s s' : GroupStore}

/-- A write of the store alone. -/
theorem Fed.store {t : Store} (h : Fed s.jobs) (hquiet : Quiet s.store t) :
    Fed { s with store := t }.jobs :=
  h.beside (.of_quiet hquiet rfl rfl rfl)

/-! ### Contracts and submissions -/

/-- A contract comes before any submission of its revision, and brings its policies. -/
theorem Fed.contract {c : Contract} {contracts : Table Contract Contract.key} {policies : List String}
    (h : Fed s.jobs) (hinsert : s.contracts.insert? c = some contracts)
    (htask : (s.store.tasks.find c.taskId).isSome)
    (hs : s' = { s with
      contracts := contracts
      policies := s.policies ++ policies.map fun p => ⟨c.taskId, c.contractRevision, p⟩ }) :
    Fed s'.jobs := by
  have hkeeps := (Table.Extends.insert? hinsert).keeps
  have hnew : s.contracts.find (c.taskId, c.contractRevision) = none :=
    (Table.insert?_eq_some hinsert).1
  have hne : ∀ {task : TaskId} {revision : Nat}, (s.contracts.find (task, revision)).isSome →
      ¬(c.taskId = task ∧ c.contractRevision = revision) := by
    rintro task revision hsome ⟨rfl, rfl⟩
    rw [hnew] at hsome
    cases hsome
  have hstored : ∀ sub ∈ s.submissions.rows,
      (s.contracts.find (sub.taskId, sub.contractRevision)).isSome :=
    fun sub hsub => (h.sound.subs sub hsub).1
  -- the policies of a submission are those that it had
  have hpolicies : ∀ sub ∈ s.submissions.rows,
      s'.jobs.results.policiesOf sub = s.jobs.results.policiesOf sub := by
    intro sub hsub
    have hnone : ((policies.map fun p => (⟨c.taskId, c.contractRevision, p⟩ : Policy)).filter
        fun p => p.taskId = sub.taskId && p.contractRevision = sub.contractRevision) = [] := by
      rw [List.filter_eq_nil_iff]
      intro p hp
      obtain ⟨name, -, rfl⟩ := List.mem_map.mp hp
      simpa using fun htask hrev => hne (hstored sub hsub) ⟨htask, hrev⟩
    subst hs
    change List.filter _ (s.policies ++ _) = List.filter _ s.policies
    rw [List.filter_append, hnone, List.append_nil]
  refine ⟨⟨?_, ?_, ?_, ?_, ?_, ?_, ?_, ?_⟩, queued_iff.mpr ?_⟩
  · subst hs
    intro d hd
    rcases (Table.mem_insert? hinsert).mp hd with hd | rfl
    · exact h.sound.contracts d hd
    · exact htask
  · subst hs
    intro sub hsub
    obtain ⟨hcontract, hrest⟩ := h.sound.subs sub hsub
    exact ⟨hkeeps _ hcontract, hrest⟩
  · subst hs
    intro p hp
    rcases List.mem_append.mp hp with hp | hp
    · exact hkeeps _ (h.sound.policies p hp)
    · obtain ⟨name, -, rfl⟩ := List.mem_map.mp hp
      change (contracts.find c.key).isSome
      rw [Table.find_insert? hinsert, if_pos rfl]
      rfl
  · subst hs
    exact h.sound.runs
  · subst hs
    exact h.sound.results
  · intro sub hsub hwaiting hsome
    have hmem : sub ∈ s.submissions.rows := by rwa [hs] at hsub
    rw [hpolicies sub hmem] at hsome
    unfold Results.unverified
    rw [hpolicies sub hmem]
    subst hs
    exact h.sound.waiting sub hmem hwaiting hsome
  · subst hs
    exact h.sound.jobs
  · subst hs
    exact h.sound.retired
  · intro sub hsub
    have hmem : sub ∈ s.submissions.rows := by
      have hm := Table.mem_of_find hsub.stored
      rwa [hs] at hm
    have haccepted := everyPolicyAccepted_iff.mp hsub.accepted
    rw [hpolicies sub hmem] at haccepted
    subst hs
    obtain ⟨contract, hcontract, hrest⟩ := hsub.contract
    have hkey : c.key ≠ (sub.taskId, sub.contractRevision) := by
      intro he
      simp only [Contract.key, Prod.mk.injEq] at he
      exact hne (hstored sub hmem) he
    change contracts.find (sub.taskId, sub.contractRevision) = some contract at hcontract
    rw [Table.find_insert? hinsert, if_neg hkey] at hcontract
    exact queued_iff.mp h.queued sub ⟨hsub.stored, ⟨contract, hcontract, hrest⟩, hsub.target,
      hsub.task, hsub.verified, everyPolicyAccepted_iff.mpr haccepted, hsub.noJob,
      hsub.noIntegration, hsub.unseeded, hsub.unheld, hsub.notReplay⟩

theorem Fed.installContract {env : Surroundings} {request : ContractRequest} {u : Unit}
    (h : Fed s.jobs) (hbody : Groups.installContract env request s = .ok (u, s')) :
    Fed s'.jobs := by
  simp only [Groups.installContract, Tx.outside_bind, Tx.ask_bind] at hbody
  obtain ⟨-, hbody⟩ := hbody
  cases hfind : s.contracts.find request.contract.key with
  | some old =>
    simp only [hfind, Tx.require_ok] at hbody
    rw [← hbody.2]
    exact h
  | none =>
    simp only [hfind, Tx.require_bind, Groups.inStore_bind, expectHead, Herdr.head, logEvent_ok,
      Tx.ask_bind, Tx.require_ok, Tx.insert_ok, Option.map_eq_some_iff] at hbody
    obtain ⟨-, _, _, ⟨-, rfl⟩, htask, _, _, ⟨-, rfl⟩, contracts, hinsert, rfl⟩ := hbody
    refine Fed.contract (h.store (.logged ?_)) hinsert htask rfl
    simp [Event.kind, EventBody.kind, EventKind.retirement]

/-- A new submission waits for its verifier. -/
theorem Fed.submission {sub : Submission} {submissions : Table Submission Submission.submissionId}
    (h : Fed s.jobs) (hinsert : s.submissions.insert? sub = some submissions)
    (hcontract : (s.contracts.find (sub.taskId, sub.contractRevision)).isSome)
    (hattempt : (s.store.attempts.find sub.attemptId).isSome)
    (hs : s' = { s with
      submissions := submissions
      pendingVerification := s.pendingVerification ++ [sub.submissionId] }) : Fed s'.jobs := by
  subst hs
  have hnew := (Table.insert?_eq_some hinsert).1
  have hkeeps := (Table.Extends.insert? hinsert).keeps
  have hold : ∀ x ∈ s.submissions.rows, x.submissionId ≠ sub.submissionId := by
    intro x hx he
    rw [← he, Table.find_of_mem hx] at hnew
    cases hnew
  refine ⟨⟨h.sound.contracts, ?_, h.sound.policies, ?_, h.sound.results, ?_, ?_,
    h.sound.retired⟩, queued_iff.mpr ?_⟩
  · intro x hx
    rcases (Table.mem_insert? hinsert).mp hx with hx | rfl
    · exact h.sound.subs x hx
    · obtain ⟨c, hc⟩ := Option.isSome_iff_exists.mp hcontract
      have hkey : c.key = (x.taskId, x.contractRevision) := Table.find_key hc
      have htask := h.sound.contracts c (Table.mem_of_find hc)
      rw [show c.taskId = x.taskId from congrArg Prod.fst hkey] at htask
      exact ⟨hcontract, htask, hattempt⟩
  · exact fun v hv => hkeeps _ (h.sound.runs v hv)
  · intro x hx hwaiting hsome
    rcases (Table.mem_insert? hinsert).mp hx with hx | rfl
    · rcases List.mem_append.mp hwaiting with hwaiting | hself
      · exact h.sound.waiting x hx hwaiting hsome
      · exact absurd (List.mem_singleton.mp hself) (hold x hx)
    · -- nothing has run for it yet
      obtain ⟨p, hp⟩ := List.exists_mem_of_ne_nil _ hsome
      refine ⟨p, hp, fun v hv hrun => ?_⟩
      have hsub := h.sound.runs v hv
      rw [hrun.1, show s.jobs.results.submissions.find x.submissionId = none from hnew] at hsub
      cases hsub
  · intro op hop job hjob
    obtain ⟨x, hx, hrest⟩ := h.sound.jobs op hop job hjob
    exact ⟨x, Table.find_insert?_of_some hinsert hx, hrest⟩
  · intro x hx
    have hne : x.submissionId ≠ sub.submissionId := by
      intro he
      exact hx.verified (List.mem_append.mpr (.inr (by simp [he])))
    have hstored : s.submissions.find x.submissionId = some x := by
      have hfind : submissions.find x.submissionId = some x := hx.stored
      rwa [Table.find_insert? hinsert, if_neg (Ne.symm hne)] at hfind
    exact queued_iff.mp h.queued x ⟨hstored, hx.contract, hx.target, hx.task,
      fun hmem => hx.verified (List.mem_append_left _ hmem), hx.accepted, hx.noJob,
      hx.noIntegration, hx.unseeded, hx.unheld, hx.notReplay⟩

theorem Fed.submitResult [GroupDigests] {env : Surroundings} {request : SubmissionRequest} {u : Unit}
    (h : Fed s.jobs) (hbody : submitResult env request s = .ok (u, s')) : Fed s'.jobs := by
  simp only [Groups.submitResult, Tx.outside_bind, Tx.ask_bind] at hbody
  obtain ⟨-, hbody⟩ := hbody
  cases hfind : s.submissionReceipts.find request.idempotencyKey with
  | some r =>
    simp only [hfind, Tx.require_ok] at hbody
    rw [← hbody.2]
    exact h
  | none =>
    simp only [hfind, Tx.find_bind, Tx.require_bind, Tx.outside_bind, Tx.ask_bind, Tx.insert_bind,
      Tx.insert_ok, Option.map_eq_some_iff] at hbody
    obtain ⟨contract, hcontract, -, -, attempt, hattempt, -, _, ⟨receipts, -, rfl⟩, submissions,
      hinsert, rfl⟩ := hbody
    have hreceipts : Fed { s with submissionReceipts := receipts }.jobs := h
    exact Fed.submission hreceipts hinsert (by simp [hcontract]) (by simp [hattempt]) rfl

/-! ### Verification -/

theorem jobRuns_find {id : String} :
    s.jobRuns.find id = (s.runs.find id).map RunRow.toVerificationRun := by
  unfold Table.find GroupStore.jobRuns
  rw [List.find?_map]
  rfl

theorem mem_jobRuns {v : VerificationRun} :
    v ∈ s.jobRuns.rows ↔ ∃ row ∈ s.runs.rows, row.toVerificationRun = v := by
  simp [GroupStore.jobRuns]

theorem unverified_iff {sub : Submission} :
    s.unverified sub = true ↔ s.jobs.results.unverified sub := by
  simp only [GroupStore.unverified, Results.unverified, Results.policiesOf, List.any_eq_true,
    Bool.and_eq_true, decide_eq_true_eq, Bool.not_eq_eq_eq_not, Bool.not_true,
    List.any_eq_false, List.mem_filter]
  constructor
  · rintro ⟨p, hp, hof, hnone⟩
    refine ⟨p, ⟨hp, hof⟩, fun v hv hrun => ?_⟩
    obtain ⟨row, hrow, rfl⟩ := mem_jobRuns.mp hv
    exact hnone row hrow hrun
  · rintro ⟨p, ⟨hp, hof⟩, hnone⟩
    exact ⟨p, hp, hof, fun row hrow hrun => hnone _ (mem_jobRuns.mpr ⟨row, hrow, rfl⟩) hrun⟩

theorem insertRun_ok {sub : Submission} {row : RunRow} (h : s.insertRun sub row = some s') :
    ∃ runs, s.runs.insert? row = some runs ∧ s' = { s with
      runs := runs
      pendingVerification := s'.pendingVerification } ∧
    ((s'.unverified sub = true ∧ s'.pendingVerification = s.pendingVerification) ∨
      s'.pendingVerification = s.pendingVerification.filter fun id => id ≠ sub.submissionId) := by
  simp only [GroupStore.insertRun, Option.bind_eq_bind, Option.bind_eq_some_iff] at h
  obtain ⟨runs, hruns, h⟩ := h
  refine ⟨runs, hruns, ?_⟩
  split at h
  · next hun =>
    cases h
    exact ⟨rfl, .inl ⟨hun, rfl⟩⟩
  · cases h
    exact ⟨rfl, .inr rfl⟩

theorem insertRun_find {sub : Submission} {row : RunRow} (h : s.insertRun sub row = some s') :
    s'.jobRuns.find row.runId = some row.toVerificationRun := by
  obtain ⟨runs, hruns, hframe, -⟩ := insertRun_ok h
  rw [jobRuns_find, hframe]
  change (runs.find row.runId).map _ = _
  rw [Table.find_insert? hruns, if_pos rfl]
  rfl

/-- The run that ends the wait of a submission for its verifier makes it eligible no sooner than
its result does: while it waited, some policy had no run. -/
theorem Fed.run {sub : Submission} {row : RunRow} (h : Fed s.jobs)
    (hsub : s.submissions.find sub.submissionId = some sub)
    (hrow : row.submissionId = sub.submissionId) (hinsert : s.insertRun sub row = some s') :
    Fed s'.jobs := by
  obtain ⟨runs, hruns, hframe, hwait⟩ := insertRun_ok hinsert
  have hresults : s'.results = s.results := by rw [hframe]
  have hpolicies : ∀ x, s'.jobs.results.policiesOf x = s.jobs.results.policiesOf x := by
    intro x
    rw [hframe]
    rfl
  have hmem : ∀ v ∈ s'.jobs.results.runs.rows,
      v ∈ s.jobs.results.runs.rows ∨ v = row.toVerificationRun := by
    intro v hv
    rw [hframe] at hv
    obtain ⟨r, hr, rfl⟩ := mem_jobRuns.mp hv
    rcases (Table.mem_insert? hruns).mp hr with hr | rfl
    · exact .inl (mem_jobRuns.mpr ⟨r, hr, rfl⟩)
    · exact .inr rfl
  have hfind : ∀ {id v}, s.jobs.results.runs.find id = some v →
      s'.jobs.results.runs.find id = some v := by
    intro id v hv
    have hv' : s.jobRuns.find id = some v := hv
    rw [jobRuns_find, Option.map_eq_some_iff] at hv'
    obtain ⟨r, hr, rfl⟩ := hv'
    change s'.jobRuns.find id = _
    rw [jobRuns_find, hframe]
    simp only [Table.find_insert?_of_some hruns hr, Option.map_some]
  -- another submission's wait is what it was
  have hothers : ∀ x : Submission, x.submissionId ≠ sub.submissionId →
      (x.submissionId ∈ s'.pendingVerification ↔ x.submissionId ∈ s.pendingVerification) := by
    intro x hne
    rcases hwait with ⟨-, hp⟩ | hp
    · rw [hp]
    · rw [hp]
      simp [hne]
  have hwaiting : ∀ x ∈ s.submissions.rows, x.submissionId ∈ s'.pendingVerification →
      s.jobs.results.policiesOf x ≠ [] → s'.jobs.results.unverified x := by
    intro x hx hpending hsome
    by_cases hid : x.submissionId = sub.submissionId
    · have hxs : x = sub := by
        rw [← hid, Table.find_of_mem hx] at hsub
        exact Option.some.inj hsub
      subst hxs
      rcases hwait with ⟨hun, -⟩ | hp
      · exact unverified_iff.mp hun
      · rw [hp] at hpending
        simp at hpending
    · obtain ⟨p, hp, hnone⟩ := h.sound.waiting x hx ((hothers x hid).mp hpending) hsome
      refine ⟨p, by rw [hpolicies]; exact hp, fun v hv hrun => ?_⟩
      rcases hmem v hv with hv | rfl
      · exact hnone v hv hrun
      · exact hid (hrun.1.symm.trans hrow)
  have haccepted : ∀ r ∈ s.results.rows, s'.jobs.acceptedResult r = s.jobs.acceptedResult r := by
    intro r hr
    obtain ⟨v, hv, -⟩ := h.sound.results r hr
    unfold JobStore.acceptedResult
    rw [hv, hfind hv, show s'.jobs.results.checks = s.jobs.results.checks by rw [hframe]; rfl]
  refine ⟨⟨?_, ?_, ?_, ?_, ?_, ?_, ?_, ?_⟩, queued_iff.mpr fun x hx => ?_⟩
  · rw [hframe]
    exact h.sound.contracts
  · rw [hframe]
    exact h.sound.subs
  · rw [hframe]
    exact h.sound.policies
  · intro v hv
    rw [show s'.jobs.results.submissions = s.submissions by rw [hframe]; rfl]
    rcases hmem v hv with hv | rfl
    · exact h.sound.runs v hv
    · rw [hrow, hsub]
      rfl
  · intro r hr
    rw [show s'.jobs.results.results = s.results from hresults] at hr
    obtain ⟨v, hv, hid⟩ := h.sound.results r hr
    exact ⟨v, hfind hv, hid⟩
  · intro x hx hpending hsome
    rw [hpolicies] at hsome
    exact hwaiting x (by rwa [hframe] at hx) hpending hsome
  · rw [hframe]
    exact h.sound.jobs
  · rw [hframe]
    exact h.sound.retired
  · have hstored : s.submissions.find x.submissionId = some x := by
      have hf := hx.stored
      rwa [hframe] at hf
    have hall : s.jobs.everyPolicyAccepted x = true := by
      obtain ⟨hne, hall⟩ := everyPolicyAccepted_iff.mp hx.accepted
      rw [hpolicies] at hne hall
      refine everyPolicyAccepted_iff.mpr ⟨hne, fun p hp => ?_⟩
      obtain ⟨r, hr, v, hv, hid⟩ := hall p hp
      rw [show s'.jobs.results.results = s.results from hresults] at hr
      rw [haccepted r hr] at hv
      exact ⟨r, hr, v, hv, hid⟩
    have hverified : x.submissionId ∉ s.pendingVerification := by
      intro hpending
      by_cases hid : x.submissionId = sub.submissionId
      · -- every policy had a run, so it was not waiting
        obtain ⟨hne, hruns⟩ := everyPolicyAccepted_iff.mp hall
        obtain ⟨p, hp, hnone⟩ :=
          h.sound.waiting x (Table.mem_of_find hstored) hpending hne
        obtain ⟨r, -, v, hv, hrun⟩ := hruns p hp
        exact hnone v (Table.mem_of_find (acceptedResult_ok hv).1) hrun
      · exact hx.verified ((hothers x hid).mpr hpending)
    rw [show s'.jobs.pending = s.jobs.pending by rw [hframe]; rfl]
    rw [hframe] at hx
    exact queued_iff.mp h.queued x ⟨hx.stored, hx.contract, hx.target, hx.task, hverified, hall,
      hx.noJob, hx.noIntegration, hx.unseeded, hx.unheld, hx.notReplay⟩

theorem jobs_requeue {submission : String} : (s.requeue submission).jobs = s.jobs.requeue submission := by
  unfold GroupStore.requeue JobStore.requeue
  have hjobs : s.jobs.results.submissions = s.submissions := rfl
  rw [hjobs]
  cases s.submissions.find submission <;> rfl

theorem group_requeue_frame (s : GroupStore) (submission : String) :
    s.requeue submission = { s with pending := (s.requeue submission).pending } := by
  unfold GroupStore.requeue
  split <;> rfl

theorem insertResult_ok {row : VerifiedResult} {u : Unit}
    (h : insertResult row s = .ok (u, s')) : ∃ results, s.results.insert? row = some results ∧
      s' = { s with
        results := results
        checks := s.checks ++ [⟨row.resultId, 2⟩]
        pending := (s.requeue row.submissionId).pending } := by
  simp only [insertResult, Tx.insert_bind, Tx.write_bind, Tx.insert_ok] at h
  obtain ⟨t, hresult, hcheck⟩ := h
  split at hresult
  · cases hresult
  · obtain ⟨results, hinsert, rfl⟩ := Option.map_eq_some_iff.mp hresult
    refine ⟨results, hinsert, ?_⟩
    split at hcheck
    · cases hcheck
    · cases hcheck
      rw [group_requeue_frame]
      unfold GroupStore.requeue
      simp only
      cases s.submissions.find row.submissionId <;> rfl

/-- **A verified result.** Its submission is queued, whether or not it is eligible yet. -/
theorem Fed.result {row : VerifiedResult} {u : Unit} (h : Fed s.jobs)
    (hrun : ∃ v, s.jobRuns.find row.runId = some v ∧ v.submissionId = row.submissionId)
    (hbody : insertResult row s = .ok (u, s')) : Fed s'.jobs := by
  obtain ⟨results, hinsert, rfl⟩ := insertResult_ok hbody
  have hnew := (Table.insert?_eq_some hinsert).1
  obtain ⟨v, hv, hid⟩ := hrun
  refine ⟨⟨h.sound.contracts, h.sound.subs, h.sound.policies, h.sound.runs, ?_, h.sound.waiting,
    h.sound.jobs, h.sound.retired⟩, queued_iff.mpr fun x hx => ?_⟩
  · intro r hr
    rcases (Table.mem_insert? hinsert).mp hr with hr | rfl
    · exact h.sound.results r hr
    · exact ⟨v, hv, hid⟩
  change ((s.requeue row.submissionId).jobs.pending.find x.submissionId).isSome
  rw [jobs_requeue]
  by_cases hself : x.submissionId = row.submissionId
  · rw [← hself]
    exact pending_requeue_self hx.stored
  · -- the new result is no other submission's
    apply pending_requeue
    have haccepted : s.jobs.everyPolicyAccepted x = true := by
      obtain ⟨hne, hall⟩ := everyPolicyAccepted_iff.mp hx.accepted
      refine everyPolicyAccepted_iff.mpr ⟨hne, fun p hp => ?_⟩
      obtain ⟨r, hr, w, hw, hof, hpolicy⟩ := hall p hp
      have hfound := (acceptedResult_ok hw).1
      rcases (Table.mem_insert? hinsert).mp hr with hr | rfl
      · refine ⟨r, hr, w, ?_, hof, hpolicy⟩
        have hne : row.resultId ≠ r.resultId := by
          intro he
          rw [he, Table.find_of_mem hr] at hnew
          cases hnew
        unfold JobStore.acceptedResult at hw ⊢
        change (if (s.checks ++ [(⟨row.resultId, 2⟩ : ContractCheck)]).any _ = true then _ else _) =
          some w at hw
        rw [List.any_append] at hw
        simp only [List.any_cons, List.any_nil, hne, decide_false, Bool.false_and,
          Bool.or_false] at hw
        exact hw
      · have hvw : v = w := Option.some.inj (hv.symm.trans hfound)
        exact absurd (hof.symm.trans (hvw ▸ hid)) hself
    have hnone : s.jobs.hasIntegration x.submissionId = false := by
      have hi := hx.noIntegration
      unfold JobStore.hasIntegration at hi ⊢
      rw [List.any_eq_false] at hi ⊢
      exact fun r hr => hi r ((Table.mem_insert? hinsert).mpr (.inl hr))
    exact queued_iff.mp h.queued x ⟨hx.stored, hx.contract, hx.target, hx.task, hx.verified,
      haccepted, hx.noJob, hnone, hx.unseeded, hx.unheld, hx.notReplay⟩

theorem stopOutOfScope_ok [Digests] {env : Surroundings} {draft : RunDraft} {attempt : Attempt}
    {u : Unit} (hattempt : s.store.attempts.find attempt.id = some attempt)
    (h : stopOutOfScope env draft attempt s = .ok (u, s')) :
    ∃ t, Quiet s.store t ∧ { s with store := t } = s' := by
  simp only [stopOutOfScope, Tx.ask_bind] at h
  rcases Tx.ite_ok.mp h with ⟨⟨-, -, hretained, -⟩, h⟩ | ⟨-, h⟩
  · obtain ⟨t, hbody, rfl⟩ := Groups.inStore_ok.mp h
    simp only [readTask, Tx.find_bind] at hbody
    obtain ⟨task, htask, hbody⟩ := hbody
    obtain ⟨change, t', hcancel, hpure⟩ := Tx.bind_ok.mp hbody
    obtain ⟨-, rfl⟩ := Tx.pure_ok.mp hpure
    have hid : task.id = attempt.task := Table.find_key htask
    have heffect : Effect env.outside s.store none t' :=
      .cancels (requestCancellation_ok hattempt htask hretained hcancel)
    exact ⟨t', heffect.quiet, rfl⟩
  · obtain ⟨-, rfl⟩ := Tx.pure_ok.mp h
    exact ⟨s.store, .refl _, rfl⟩

theorem Fed.commitVerification [Digests] [GroupDigests] {env : Surroundings} {draft : RunDraft}
    {u : Unit} (h : Fed s.jobs) (hbody : commitVerification env draft s = .ok (u, s')) :
    Fed s'.jobs := by
  simp only [Groups.commitVerification, Tx.ask_bind] at hbody
  cases hfind : s.runReceipts.find draft.idempotencyKey with
  | some r =>
    simp only [hfind, Tx.require_bind, Tx.outside_ok] at hbody
    rw [← hbody.2.2]
    exact h
  | none =>
    simp only [hfind, Tx.find_bind, Tx.require_bind, Tx.outside_bind, Tx.ask_bind, Tx.insert_bind,
      Option.map_eq_some_iff] at hbody
    obtain ⟨sub, hsub, attempt, hattempt, -, -, -, _, ⟨receipts, -, rfl⟩, t, hrun, hbody⟩ := hbody
    have hid : sub.submissionId = draft.submissionId := Table.find_key hsub
    have ht : Fed t.jobs := Fed.run (s := { s with runReceipts := receipts }) h (hid ▸ hsub) rfl hrun
    obtain ⟨runs, -, hframe, -⟩ := insertRun_ok hrun
    have htstore : t.store = s.store := by rw [hframe]
    obtain ⟨_, t', haccepted, hbody⟩ := Tx.bind_ok.mp hbody
    simp only [Tx.outside_bind] at hbody
    obtain ⟨-, hstop⟩ := hbody
    have ht' : Fed t'.jobs ∧ t'.store = t.store := by
      unfold recordAccepted at haccepted
      rcases Tx.ite_ok.mp haccepted with ⟨-, haccepted⟩ | ⟨-, haccepted⟩
      · refine ⟨Fed.result ht ⟨_, insertRun_find hrun, rfl⟩ haccepted, ?_⟩
        obtain ⟨results, -, rfl⟩ := insertResult_ok haccepted
        rfl
      · obtain ⟨-, rfl⟩ := Tx.pure_ok.mp haccepted
        exact ⟨ht, rfl⟩
    have hattemptId : attempt.id = sub.attemptId := Table.find_key hattempt
    obtain ⟨store, hquiet, rfl⟩ :=
      stopOutOfScope_ok (by rw [ht'.2, htstore, hattemptId]; exact hattempt) hstop
    exact Fed.store ht'.1 hquiet

/-! ### Reservations and completion requests -/

theorem bind_ok [GroupDigests] {inputs : LaunchInputs} {attempt : AttemptId} {now : Int} {u : Unit}
    (h : Groups.bind inputs attempt now s = .ok (u, s')) :
    s' = s ∨ ∃ group arm profile, inputs.effectiveProfile = some profile ∧
      (s.openArms inputs.task (inputs.taskContract.map (·.revision))).head? = some (group, arm) ∧
      GroupDigests.configuration inputs.profile profile = arm.configurationId ∧
      s.insertArm ⟨group, arm.arm, attempt, now⟩ = some s' := by
  unfold Groups.bind at h
  cases hprofile : inputs.effectiveProfile with
  | none =>
    simp only [hprofile, Tx.pure_ok] at h
    exact .inl h.2.symm
  | some profile =>
    simp only [hprofile, Tx.ask_bind] at h
    cases hnext : (s.openArms inputs.task (inputs.taskContract.map (·.revision))).head? with
    | none =>
      simp only [hnext, Tx.pure_ok] at h
      exact .inl h.2.symm
    | some next =>
      obtain ⟨group, arm⟩ := next
      simp only [hnext] at h
      rcases Tx.ite_ok.mp h with ⟨hconf, h⟩ | ⟨-, h⟩
      · exact .inr ⟨group, arm, profile, rfl, rfl, hconf, Tx.insert_ok.mp h⟩
      · exact .inl (Tx.pure_ok.mp h).2.symm

theorem insertArm_ok {b : ArmBinding} (h : s.insertArm b = some s') :
    (∀ a ∈ s.arms.rows, a.attemptId ≠ b.attemptId) ∧
      (∀ sub ∈ s.submissions.rows, sub.attemptId ≠ b.attemptId) ∧
      ∃ arms, s.arms.insert? b = some arms ∧ s' = { s with arms := arms } := by
  unfold GroupStore.insertArm at h
  split at h
  · cases h
  · next hfresh =>
    simp only [Bool.or_eq_true, List.any_eq_true, decide_eq_true_eq, not_or, not_exists,
      not_and] at hfresh
    obtain ⟨arms, hinsert, rfl⟩ := Option.map_eq_some_iff.mp h
    exact ⟨hfresh.1, hfresh.2, arms, hinsert, rfl⟩

/-- The group of the submission's arm has not selected it. -/
theorem heldArm_iff {sub : Submission} : s.jobs.heldArm sub = true ↔
    ∃ b ∈ s.arms.rows, b.attemptId = sub.attemptId ∧ ∀ x ∈ s.selections.rows,
      ¬(x.groupId = b.groupId ∧ x.picked.map (·.submissionId) = some sub.submissionId) := by
  simp only [JobStore.heldArm, GroupStore.jobs, GroupStore.jobResults, List.any_map,
    List.any_eq_true, Function.comp_apply, Bool.and_eq_true, decide_eq_true_eq,
    Bool.not_eq_eq_eq_not, Bool.not_true, List.any_eq_false]

/-- An arm binds an attempt without submissions, so it holds none that was free. -/
theorem Fed.arm {b : ArmBinding} (h : Fed s.jobs) (hinsert : s.insertArm b = some s') :
    Fed s'.jobs := by
  obtain ⟨-, hfresh, arms, harms, rfl⟩ := insertArm_ok hinsert
  have hheld : ∀ sub ∈ s.submissions.rows,
      ({ s with arms := arms } : GroupStore).jobs.heldArm sub = s.jobs.heldArm sub := by
    intro sub hsub
    rw [Bool.eq_iff_iff, heldArm_iff, heldArm_iff]
    constructor
    · rintro ⟨a, ha, hattempt, hrest⟩
      rcases (Table.mem_insert? harms).mp ha with ha | rfl
      · exact ⟨a, ha, hattempt, hrest⟩
      · exact absurd hattempt.symm (hfresh sub hsub)
    · rintro ⟨a, ha, hrest⟩
      exact ⟨a, (Table.mem_insert? harms).mpr (.inl ha), hrest⟩
  refine ⟨⟨h.sound.contracts, h.sound.subs, h.sound.policies, h.sound.runs, h.sound.results,
    h.sound.waiting, ?_, h.sound.retired⟩, queued_iff.mpr fun x hx => ?_⟩
  · intro op hop job hjob
    obtain ⟨sub, hsub, htarget, hfree⟩ := h.sound.jobs op hop job hjob
    exact ⟨sub, hsub, htarget, (hheld sub (Table.mem_of_find hsub)).trans hfree⟩
  · have hfree := hx.unheld
    rw [hheld x (Table.mem_of_find hx.stored)] at hfree
    exact queued_iff.mp h.queued x ⟨hx.stored, hx.contract, hx.target, hx.task, hx.verified,
      hx.accepted, hx.noJob, hx.noIntegration, hx.unseeded, hfree, hx.notReplay⟩

/-- An admission reads, or it reserves an attempt that it may bind. -/
theorem groupAdmit_ok [Digests] [GroupDigests] {env : Surroundings} {prepared : List LaunchInputs}
    {head : Nat} {now : Int} {draft : Bool} {delegated : Option PreparedDelegatedReservation}
    {u : Unit} (h : Groups.admitPrepared env prepared head now draft delegated s = .ok (u, s')) :
    s' = s ∨ ∃ (reservation : Reservation) (task : Task) (t : Store), Admissible s.store task ∧
      reservation.record.inputs.task = task.id ∧ env.outside.overlap task.id = none ∧
      Reserves s.store t reservation.record task now ∧
      Groups.bind reservation.record.inputs reservation.record.attempt now { s with store := t } =
        .ok (u, s') := by
  simp only [Groups.admitPrepared, Tx.ask_bind, Groups.inStore_bind] at h
  obtain ⟨result, t, hadmit, h⟩ := h
  rcases admitPrepared_ok hadmit with ⟨rfl, hold⟩ | ⟨reservation, task, rfl, ha, ht, hc, hr⟩
  · left
    unfold bindReserved at h
    cases result with
    | none => exact (Tx.pure_ok.mp h).2.symm
    | some r =>
      obtain ⟨a, hfound⟩ := hold r rfl
      simp only [hfound, Option.isNone_some, Bool.false_eq_true, if_false, Tx.pure_ok] at h
      exact h.2.symm
  · right
    have hfresh : s.store.attempts.find reservation.record.attempt = none :=
      (Table.insert?_eq_some hr.attempts).1
    unfold bindReserved at h
    simp only [hfresh, Option.isNone_none, if_true] at h
    exact ⟨reservation, task, t, ha, ht, hc, hr, h⟩

theorem Fed.admitPrepared [Digests] [GroupDigests] {env : Surroundings}
    {prepared : List LaunchInputs} {head : Nat} {now : Int} {draft : Bool}
    {delegated : Option PreparedDelegatedReservation} {u : Unit} (h : Fed s.jobs)
    (hbody : Groups.admitPrepared env prepared head now draft delegated s = .ok (u, s')) :
    Fed s'.jobs := by
  rcases groupAdmit_ok hbody with rfl | ⟨reservation, task, t, ha, ht, hc, hr, hbind⟩
  · exact h
  · have heffect : Effect env.outside s.store none t := .reserves ha ht hc hr
    have hstore := Fed.store h heffect.quiet
    rcases bind_ok hbind with rfl | ⟨group, arm, profile, -, -, -, hinsert⟩
    · exact hstore
    · exact Fed.arm hstore hinsert

theorem Fed.requestCompletion [Digests] {env : Surroundings} {id : TaskId} {revision : Nat}
    {now : Int} {automatic : Bool} {change : CompletionChange} (h : Fed s.jobs)
    (hbody : Groups.requestCompletion env id revision now automatic s = .ok (change, s')) :
    Fed s'.jobs := by
  simp only [Groups.requestCompletion, Tx.ask_bind] at hbody
  obtain ⟨t, hrequest, rfl⟩ := Groups.inStore_ok.mp hbody
  rcases requestCompletion_ok hrequest with rfl | ⟨attempt, row, hframe, hquiet⟩
  · exact h
  · have heffect : Effect env.outside s.store none t := .completes row hframe hquiet
    exact Fed.store h heffect.quiet

/-! ### Selections -/

theorem insertSelectionRow_ok {x : Groups.CandidateSelection}
    (h : s.insertSelectionRow x = some s') :
    (s.groups.find x.groupId).isSome ∧
    (∀ p, x.picked = some p →
      (∃ b, s.arms.find (x.groupId, p.arm) = some b ∧ b.attemptId = p.attemptId) ∧
      ∃ sub, s.submissions.find p.submissionId = some sub ∧ sub.attemptId = p.attemptId) ∧
    ∃ selections, s.selections.insert? x = some selections ∧
      s' = { s with selections := selections } := by
  unfold GroupStore.insertSelectionRow at h
  split at h
  · next hmember =>
    obtain ⟨selections, hinsert, rfl⟩ := Option.map_eq_some_iff.mp h
    simp only [Bool.and_eq_true, Option.all_eq_true, Option.any_eq_true, decide_eq_true_eq]
      at hmember
    exact ⟨hmember.1, hmember.2, selections, hinsert, rfl⟩
  · cases h

theorem readyWinner_iff {submission : String} : s.readyWinner submission = true ↔
    s.results.rows.any (·.submissionId = submission) = true ∧
    (∀ op ∈ s.store.operations.rows, ∀ job, job? op = some job → job.submissionId ≠ submission) ∧
    s.jobs.hasIntegration submission = false := by
  simp only [GroupStore.readyWinner, Bool.and_eq_true, Bool.not_eq_eq_eq_not, Bool.not_true,
    List.any_eq_false, Option.any_eq_true, decide_eq_true_eq, not_exists, not_and, and_assoc]

theorem queueWinner_frame (s : GroupStore) (o : Option Picked) :
    s.queueWinner o = { s with pending := (s.queueWinner o).pending } := by
  unfold GroupStore.queueWinner
  split
  · split
    · exact group_requeue_frame _ _
    · rfl
  · rfl

theorem pending_queueWinner {o : Option Picked} {id : String} (h : (s.pending.find id).isSome) :
    ((s.queueWinner o).pending.find id).isSome := by
  unfold GroupStore.queueWinner
  split
  · split
    · next p _ =>
      have hqueued : ((s.jobs.requeue p.submissionId).pending.find id).isSome := pending_requeue h
      rwa [← jobs_requeue] at hqueued
    · exact h
  · exact h

theorem pending_queueWinner_self {p : Picked} {sub : Submission}
    (hid : p.submissionId = sub.submissionId)
    (hstored : s.submissions.find sub.submissionId = some sub)
    (hready : s.readyWinner sub.submissionId = true) :
    ((s.queueWinner (some p)).pending.find sub.submissionId).isSome := by
  have hqueued := pending_requeue_self (s := s.jobs) hstored
  rw [← jobs_requeue] at hqueued
  simp only [GroupStore.queueWinner, hid, hready, if_true]
  exact hqueued

/-- **Selections.** A hold that is lifted was in the way of every job, so the winner is queued as
soon as it is verified. -/
theorem Fed.selection {x : Groups.CandidateSelection} (h : Fed s.jobs)
    (hinsert : s.insertSelectionRow x = some s') : Fed (s'.queueWinner x.picked).jobs := by
  obtain ⟨-, -, selections, hselections, hframe⟩ := insertSelectionRow_ok hinsert
  have harms : s'.arms = s.arms := by rw [hframe]
  have hmem : ∀ y, y ∈ s'.selections.rows ↔ y ∈ s.selections.rows ∨ y = x := by
    intro y
    rw [hframe]
    exact Table.mem_insert? hselections
  have hlifted : ∀ sub, s.jobs.heldArm sub = false → s'.jobs.heldArm sub = false := by
    intro sub hfree
    rw [Bool.eq_false_iff, Ne, heldArm_iff] at hfree ⊢
    rintro ⟨b, hb, hattempt, hnone⟩
    exact hfree ⟨b, harms ▸ hb, hattempt, fun y hy => hnone y ((hmem y).mpr (.inl hy))⟩
  have hsound : Sound s'.jobs := by
    subst hframe
    refine ⟨h.sound.contracts, h.sound.subs, h.sound.policies, h.sound.runs, h.sound.results,
      h.sound.waiting, ?_, h.sound.retired⟩
    intro op hop job hjob
    obtain ⟨sub, hsub, htarget, hfree⟩ := h.sound.jobs op hop job hjob
    exact ⟨sub, hsub, htarget, hlifted sub hfree⟩
  have hqueue : ∀ sub, Eligible s'.jobs sub →
      ((s'.queueWinner x.picked).pending.find sub.submissionId).isSome := by
    intro sub hsub
    have hstored : s.submissions.find sub.submissionId = some sub := by
      have hf := hsub.stored
      rwa [hframe] at hf
    cases hheld : s.jobs.heldArm sub with
    | false =>
      apply pending_queueWinner
      rw [hframe] at hsub ⊢
      exact queued_iff.mp h.queued sub ⟨hsub.stored, hsub.contract, hsub.target, hsub.task,
        hsub.verified, hsub.accepted, hsub.noJob, hsub.noIntegration, hsub.unseeded, hheld,
        hsub.notReplay⟩
    | true =>
      -- the new selection lifted the hold
      obtain ⟨b, hb, hattempt, hnone⟩ := heldArm_iff.mp hheld
      have hpicked : x.picked.map (·.submissionId) = some sub.submissionId := by
        by_contra hne
        have hfree := hsub.unheld
        rw [Bool.eq_false_iff, Ne, heldArm_iff] at hfree
        refine hfree ⟨b, harms ▸ hb, hattempt, fun y hy => ?_⟩
        rcases (hmem y).mp hy with hy | rfl
        · exact hnone y hy
        · exact fun hy => hne hy.2
      obtain ⟨p, hp, hid⟩ := Option.map_eq_some_iff.mp hpicked
      rw [hp]
      refine pending_queueWinner_self hid hsub.stored
        (readyWinner_iff.mpr ⟨hsound.hasResult hsub.accepted, ?_, hsub.noIntegration⟩)
      intro op hop job hjob he
      rw [hframe] at hop
      obtain ⟨sub', hsub', -, hfree⟩ := h.sound.jobs op hop job hjob
      rw [he] at hsub'
      have hsame : sub' = sub := Option.some.inj (hsub'.symm.trans hstored)
      rw [hsame, hheld] at hfree
      cases hfree
  rw [queueWinner_frame]
  exact ⟨hsound.with_pending _, queued_iff.mpr fun sub hsub => hqueue sub hsub.of_pending⟩

theorem insertSelection_ok {env : Surroundings} {x y : Groups.CandidateSelection}
    (h : insertSelection env x s = .ok (y, s')) :
    y = x ∧ ∃ t, s.insertSelectionRow x = some t ∧ s' = t.queueWinner x.picked := by
  simp only [insertSelection, Tx.insert_bind, Tx.write_bind, Tx.outside_bind, Tx.pure_ok] at h
  obtain ⟨t, hinsert, -, rfl, rfl⟩ := h
  exact ⟨rfl, t, hinsert, rfl⟩

end Jobs

namespace Groups

open Jobs

variable {s s' : GroupStore} {env : Surroundings}

theorem selectorAuthority_reads {principal what : String} :
    (selectorAuthority principal what).Reads :=
  .bind (.ask _) fun _ => .require ..

theorem openGroup_ok {group : String} {g : CandidateGroup} :
    openGroup group s = .ok (g, s') ↔
      s.groups.find group = some g ∧ s.selected group = false ∧ s = s' := by
  simp only [openGroup, Tx.find_bind, Tx.ask_bind, Tx.require_bind, Tx.pure_ok]
  constructor
  · rintro ⟨g', hg, hopen, rfl, hs⟩
    exact ⟨hg, hopen, hs⟩
  · rintro ⟨hg, hopen, hs⟩
    exact ⟨g, hg, hopen, rfl, hs⟩

theorem refuseSeededWinner_ok {arm : Nat} {submission : String} {u : Unit} :
    refuseSeededWinner arm submission s = .ok (u, s') ↔
      s.seededSubmission submission = false ∧ s = s' := by
  simp only [refuseSeededWinner, Tx.ask_bind, Tx.require_ok]

theorem chosenSubmission_reads {bound : BoundArm} {submission : Option String} :
    (chosenSubmission bound submission).Reads := by
  cases submission with
  | some id => exact .find ..
  | none => exact .find ..

/-- A winner that an operator names is not a seeded candidate. -/
theorem chooseArm_ok {g : CandidateGroup} {arms : List BoundArm} {arm : Nat}
    {submission : Option String} {runnerUp : List Nat} {p : Picked} {evidence : List ArmEvidence}
    (h : chooseArm g arms arm submission runnerUp s = .ok ((p, evidence), s')) :
    s.seededSubmission p.submissionId = false ∧ s' = s := by
  simp only [chooseArm, Tx.require_bind, Tx.find_bind, chosenSubmission_reads.peel] at h
  obtain ⟨-, bound, -, id, -, h⟩ := h
  obtain ⟨_, t, hrefuse, h⟩ := Tx.bind_ok.mp h
  obtain ⟨hseeded, rfl⟩ := refuseSeededWinner_ok.mp hrefuse
  simp only [Tx.check_bind, Tx.pure_ok, Prod.mk.injEq] at h
  obtain ⟨_, -, ⟨rfl, -⟩, hs⟩ := h
  exact ⟨hseeded, hs.symm⟩

theorem decideSelection_ok {g : CandidateGroup} {arms : List BoundArm} {reason : String}
    {choice : SelectionChoice} {picked : Option Picked} {evidence : List ArmEvidence}
    (h : decideSelection g arms reason choice s = .ok ((picked, evidence), s')) :
    (∀ p, picked = some p → s.seededSubmission p.submissionId = false) ∧ s' = s := by
  cases choice with
  | noSelection =>
    simp only [decideSelection, Tx.require_bind, Tx.pure_ok, Prod.mk.injEq] at h
    obtain ⟨-, ⟨rfl, -⟩, hs⟩ := h
    exact ⟨by simp, hs.symm⟩
  | arm arm submission runnerUp =>
    simp only [decideSelection, Tx.require_bind] at h
    obtain ⟨-, h⟩ := h
    obtain ⟨⟨p, e⟩, t, hchoose, h⟩ := Tx.bind_ok.mp h
    simp only [Tx.pure_ok, Prod.mk.injEq] at h
    obtain ⟨⟨rfl, -⟩, rfl⟩ := h
    obtain ⟨hseeded, rfl⟩ := chooseArm_ok hchoose
    refine ⟨?_, rfl⟩
    rintro _ ⟨⟩
    exact hseeded

/-- What every selector does: it finds its group open and its winner unseeded, and records its one
row. -/
structure Selects (s s' : GroupStore) (x : CandidateSelection) : Prop where
  unselected : s.selected x.groupId = false
  unseeded : ∀ p, x.picked = some p → s.seededSubmission p.submissionId = false
  recorded : ∃ t, s.insertSelectionRow x = some t ∧ s' = t.queueWinner x.picked

theorem selectCandidate_ok {group reason principal : String} {choice : SelectionChoice} {now : Int}
    {x : CandidateSelection}
    (h : selectCandidate env group choice reason principal now s = .ok (x, s')) :
    x.groupId = group ∧ Selects s s' x := by
  simp only [selectCandidate, Tx.require_bind, selectorAuthority_reads.peel] at h
  obtain ⟨-, _, -, h⟩ := h
  obtain ⟨g, t, hopen, h⟩ := Tx.bind_ok.mp h
  obtain ⟨hg, hselected, rfl⟩ := openGroup_ok.mp hopen
  simp only [Tx.ask_bind] at h
  obtain ⟨⟨picked, evidence⟩, t, hdecide, hinsert⟩ := Tx.bind_ok.mp h
  obtain ⟨hseeded, rfl⟩ := decideSelection_ok hdecide
  obtain ⟨rfl, hrecorded⟩ := Jobs.insertSelection_ok hinsert
  exact ⟨rfl, hselected, hseeded, hrecorded⟩

theorem presented_ok {group submission : String} {arms : List BoundArm} {a : BoundArm} :
    presented group arms submission s = .ok (a, s') ↔
      arms.find? (fun a => a.first = some submission) = some a ∧ s = s' :=
  Tx.find_ok

theorem presentedArms_reads {group : String} {arms : List BoundArm} {runnerUp : List String} :
    (presentedArms group arms runnerUp).Reads := by
  induction runnerUp with
  | nil => exact .pure _
  | cons submission rest ih => exact .bind (.find ..) fun _ => .bind ih fun _ => .pure _

theorem selectCandidateByJudge_ok [GroupDigests] {group submission judge : String}
    {configuration : Option String} {runnerUp : List String} {now : Int} {x : CandidateSelection}
    (h : selectCandidateByJudge env group submission judge configuration runnerUp now s =
      .ok (x, s')) : x.groupId = group ∧ Selects s s' x := by
  simp only [selectCandidateByJudge, Tx.require_bind, Tx.check_bind,
    selectorAuthority_reads.peel] at h
  obtain ⟨-, _, -, _, -, h⟩ := h
  obtain ⟨g, t, hopen, h⟩ := Tx.bind_ok.mp h
  obtain ⟨hg, hselected, rfl⟩ := openGroup_ok.mp hopen
  simp only [Tx.ask_bind] at h
  obtain ⟨chosen, t, hchosen, h⟩ := Tx.bind_ok.mp h
  obtain ⟨-, rfl⟩ := presented_ok.mp hchosen
  obtain ⟨_, t, hrefuse, h⟩ := Tx.bind_ok.mp h
  obtain ⟨hseeded, rfl⟩ := refuseSeededWinner_ok.mp hrefuse
  simp only [presentedArms_reads.peel, Tx.check_bind] at h
  obtain ⟨_, -, _, -, h⟩ := h
  obtain ⟨rfl, hrecorded⟩ := Jobs.insertSelection_ok h
  refine ⟨rfl, hselected, ?_, hrecorded⟩
  rintro _ ⟨⟩
  exact hseeded

/-- What the rule found of the arms: the winner is the first eligible one, and every arm before it
is settled. -/
structure RuleDecides (s : GroupStore) (g : CandidateGroup) (x : CandidateSelection) : Prop where
  winner : ∀ p, x.picked = some p → ∃ i a, (s.boundArms g.groupId)[i]? = some a ∧
    s.ruleEligible a = true ∧ p = ⟨a.arm, a.attempt, a.accepted.getD ""⟩ ∧
    ∀ b ∈ (s.boundArms g.groupId).take i, b.outcome ≠ .pending ∧ s.ruleEligible b = false
  none : x.picked = none → g.arms.length ≤ (s.boundArms g.groupId).length ∧
    ∀ b ∈ s.boundArms g.groupId, b.outcome ≠ .pending ∧ s.ruleEligible b = false

/-- The first arm that the rule accepts, and the arms before it. -/
theorem take_findIdx? {α : Type} {p : α → Bool} {l : List α} {i : Nat}
    (h : l.findIdx? p = some i) : (∃ a, l[i]? = some a ∧ p a = true) ∧ ∀ b ∈ l.take i, p b = false := by
  obtain ⟨hlt, hp, hbefore⟩ := List.findIdx?_eq_some_iff_getElem.mp h
  refine ⟨⟨l[i], List.getElem?_eq_getElem hlt, hp⟩, fun b hb => ?_⟩
  obtain ⟨j, hj, rfl⟩ := List.mem_take_iff_getElem.mp hb
  simpa using hbefore j (by omega)

/-- An accepted arm names its first accepted submission. -/
theorem armOutcome_accepted {attempt : AttemptId} (h : (s.armOutcome attempt).outcome = .accepted) :
    ∃ sub, (s.submissionsOf attempt).find? (fun sub => s.verification sub = .accepted) = some sub ∧
      (s.armOutcome attempt).accepted = some sub.submissionId := by
  simp only [GroupStore.armOutcome] at h ⊢
  cases hfind : (s.submissionsOf attempt).find? fun sub => s.verification sub = .accepted with
  | some sub => exact ⟨sub, rfl, rfl⟩
  | none =>
    simp only [hfind, Option.isSome_none, Bool.false_eq_true, if_false] at h
    split at h
    · cases h
    · split at h <;> cases h

theorem mem_boundArms {group : String} {a : BoundArm} : a ∈ s.boundArms group ↔
    ∃ b ∈ s.arms.rows, b.groupId = group ∧ a = ⟨s.armOutcome b.attemptId, b.arm, b.attemptId⟩ := by
  simp only [GroupStore.boundArms, List.mem_map, List.mem_insertionSort, List.mem_filter,
    decide_eq_true_eq]
  constructor
  · rintro ⟨b, ⟨hb, hg⟩, rfl⟩
    exact ⟨b, hb, hg, rfl⟩
  · rintro ⟨b, hb, hg, rfl⟩
    exact ⟨b, ⟨hb, hg⟩, rfl⟩

/-- An arm that the rule accepts names a submission that is not seeded. -/
theorem ruleEligible_unseeded {group : String} {a : BoundArm} (ha : a ∈ s.boundArms group)
    (h : s.ruleEligible a = true) : ∃ id, a.accepted = some id ∧ s.seededSubmission id = false := by
  obtain ⟨b, -, -, rfl⟩ := mem_boundArms.mp ha
  simp only [GroupStore.ruleEligible, Bool.and_eq_true, decide_eq_true_eq, Bool.not_eq_eq_eq_not,
    Bool.not_true] at h
  obtain ⟨haccepted, hskipped⟩ := h
  obtain ⟨sub, -, hsub⟩ := armOutcome_accepted haccepted
  refine ⟨sub.submissionId, hsub, ?_⟩
  simpa [GroupStore.skipped, haccepted, hsub] using hskipped

theorem selectCandidateByRule_ok {group : String} {now : Int} {x : CandidateSelection}
    (h : selectCandidateByRule env group now s = .ok (x, s')) : x.groupId = group ∧
      Selects s s' x ∧ ∃ g, s.groups.find group = some g ∧ RuleDecides s g x := by
  simp only [selectCandidateByRule] at h
  obtain ⟨g, t, hopen, hrest⟩ := Tx.bind_ok.mp h
  obtain ⟨hg, hselected, rfl⟩ := openGroup_ok.mp hopen
  have hid : g.groupId = group := Table.find_key hg
  subst hid
  simp only [Tx.ask_bind] at hrest
  generalize harms : s.boundArms g.groupId = arms at hrest
  cases hpending : (arms.take ((arms.findIdx? s.ruleEligible).getD arms.length)).find?
      fun a => a.outcome = .pending with
  | some a => simp only [hpending, Tx.throw_ok] at hrest
  | none =>
    simp only [hpending, Tx.require_bind] at hrest
    obtain ⟨hcount, hinsert⟩ := hrest
    obtain ⟨hx, hrecorded⟩ := Jobs.insertSelection_ok hinsert
    have hgroup : x.groupId = g.groupId := by rw [hx]
    have hpicked : x.picked = ((arms.findIdx? s.ruleEligible).bind fun i => arms[i]?).map fun a =>
        ⟨a.arm, a.attempt, a.accepted.getD ""⟩ := by rw [hx]
    rw [← hx] at hrecorded
    clear hx hinsert
    rw [List.find?_eq_none] at hpending
    have hsettled : ∀ b ∈ arms.take ((arms.findIdx? s.ruleEligible).getD arms.length),
        b.outcome ≠ .pending := fun b hb => by simpa using hpending b hb
    cases hwinner : arms.findIdx? s.ruleEligible with
    | none =>
      have hall : ∀ b ∈ arms, s.ruleEligible b = false := by
        simpa using List.findIdx?_eq_none_iff.mp hwinner
      simp only [hwinner, Option.isSome_none, Bool.false_eq_true, false_or, Option.getD_none,
        List.take_length, Option.bind_none, Option.map_none] at hcount hsettled hpicked
      refine ⟨hgroup, ⟨hgroup ▸ hselected, by simp [hpicked], hrecorded⟩, g, hg,
        by simp [hpicked], fun _ => ?_⟩
      rw [harms]
      exact ⟨hcount, fun b hb => ⟨hsettled b hb, hall b hb⟩⟩
    | some i =>
      obtain ⟨⟨a, ha, heligible⟩, hbefore⟩ := take_findIdx? hwinner
      have hmem : a ∈ s.boundArms g.groupId := harms ▸ List.mem_of_getElem? ha
      obtain ⟨id, hid, hunseeded⟩ := ruleEligible_unseeded hmem heligible
      simp only [hwinner, Option.getD_some, Option.bind_some, ha, Option.map_some]
        at hsettled hpicked
      refine ⟨hgroup, ⟨hgroup ▸ hselected, ?_, hrecorded⟩, g, hg, ?_, by simp [hpicked]⟩
      · rintro p hp
        rw [hpicked] at hp
        cases hp
        simpa [hid] using hunseeded
      · intro p hp
        rw [hpicked] at hp
        cases hp
        rw [harms]
        exact ⟨i, a, ha, heligible, rfl, fun b hb => ⟨hsettled b hb, hbefore b hb⟩⟩

/-! ### The boundaries of a hold -/

theorem registerEvaluationCandidate_ok {submission : String} {arm : EvaluationArm} {u : Unit}
    (h : registerEvaluationCandidate env submission arm s = .ok (u, s')) :
    ∃ seeded, s.seeded.insert? ⟨submission, arm⟩ = some seeded ∧
      s' = { s with seeded := seeded } := by
  simp only [registerEvaluationCandidate, Tx.outside_bind, Tx.ask_bind, Tx.require_bind,
    Tx.insert_ok, Option.map_eq_some_iff] at h
  obtain ⟨-, -, -, -, seeded, hinsert, rfl⟩ := h
  exact ⟨seeded, hinsert, rfl⟩

theorem registerReplayCandidate_ok {task : TaskId} {u : Unit}
    (h : registerReplayCandidate env task s = .ok (u, s')) :
    s' = { s with replays := s.replays ++ [task] } := by
  simp only [registerReplayCandidate, Tx.outside_bind, Tx.write_ok] at h
  exact h.2.symm

theorem insertOperation_ok {op : Operation} {t t' : Store} {u : Unit}
    (h : insertOperation op t = .ok (u, t')) : ∃ operations deliveries,
      t.operations.insert? op = some operations ∧
      t' = { t with operations := operations, deliveries := deliveries } := by
  simp only [insertOperation, Tx.insert_bind, Tx.insert_ok, Option.map_eq_some_iff] at h
  obtain ⟨_, ⟨operations, hops, rfl⟩, deliveries, -, rfl⟩ := h
  exact ⟨operations, deliveries, hops, rfl⟩

theorem insertIntegration_ok {i : Integration} (h : s.insertIntegration i = some s') :
    ∃ r integrations, s.results.find i.verifiedResultId = some r ∧
      s.integrations.insert? i = some integrations ∧
      s' = { s with integrations := integrations, pending := s'.pending } ∧
      ∀ id, id ≠ r.submissionId → (s.pending.find id).isSome → (s'.pending.find id).isSome := by
  simp only [GroupStore.insertIntegration, Option.bind_eq_bind, Option.bind_eq_some_iff] at h
  obtain ⟨r, hr, integrations, hinsert, h⟩ := h
  cases h
  exact ⟨r, integrations, hr, hinsert, rfl, fun id hne hpending =>
    Table.isSome_find_filter _ hpending fun w hw => by simpa [hw] using hne⟩

/-- What a begun integration found and wrote. -/
theorem beginIntegration_ok {b : IntegrationBegin} {id : OperationId}
    (h : beginIntegration env b s = .ok (id, s')) :
    s.heldResult b.resultId = false ∧ ∃ t, Quiet s.store t ∧
      ({ s with store := t } : GroupStore).insertIntegration
        ⟨env.lease, b.repository, b.refName, b.resultId, .effectPending⟩ = some s' := by
  simp only [beginIntegration, Tx.require_bind, Tx.outside_bind, Tx.ask_bind, Groups.inStore_bind,
    Tx.insert_bind, Tx.pure_ok] at h
  obtain ⟨-, -, -, -, hheld, -, -, _, t, hop, t', hinsert, -, rfl⟩ := h
  obtain ⟨operations, deliveries, hops, rfl⟩ := insertOperation_ok hop
  refine ⟨hheld, { s.store with operations := operations, deliveries := deliveries }, ?_, hinsert⟩
  exact .of_insert hops rfl (.refl _) (.refl _) ⟨[], by simp, by simp⟩

end Groups

namespace Jobs

open Groups

variable {s s' : GroupStore} {env : Surroundings}

/-- Registering an evaluation candidate or a replay makes nothing eligible. -/
theorem Fed.registerEvaluationCandidate {submission : String} {arm : EvaluationArm} {u : Unit}
    (h : Fed s.jobs)
    (hbody : registerEvaluationCandidate env submission arm s = .ok (u, s')) : Fed s'.jobs := by
  obtain ⟨seeded, hinsert, rfl⟩ := registerEvaluationCandidate_ok hbody
  refine ⟨⟨h.sound.contracts, h.sound.subs, h.sound.policies, h.sound.runs, h.sound.results,
    h.sound.waiting, h.sound.jobs, h.sound.retired⟩, queued_iff.mpr fun x hx => ?_⟩
  have hunseeded : x.submissionId ∉ s.seededSubmissions := by
    intro hmem
    obtain ⟨c, hc, hid⟩ := List.mem_map.mp hmem
    obtain ⟨hc, harm⟩ := List.mem_filter.mp hc
    exact hx.unseeded (List.mem_map.mpr
      ⟨c, List.mem_filter.mpr ⟨(Table.mem_insert? hinsert).mpr (.inl hc), harm⟩, hid⟩)
  exact queued_iff.mp h.queued x ⟨hx.stored, hx.contract, hx.target, hx.task, hx.verified,
    hx.accepted, hx.noJob, hx.noIntegration, hunseeded, hx.unheld, hx.notReplay⟩

theorem Fed.registerReplayCandidate {task : TaskId} {u : Unit} (h : Fed s.jobs)
    (hbody : registerReplayCandidate env task s = .ok (u, s')) : Fed s'.jobs := by
  obtain rfl := registerReplayCandidate_ok hbody
  refine ⟨⟨h.sound.contracts, h.sound.subs, h.sound.policies, h.sound.runs, h.sound.results,
    h.sound.waiting, h.sound.jobs, h.sound.retired⟩, queued_iff.mpr fun x hx => ?_⟩
  exact queued_iff.mp h.queued x ⟨hx.stored, hx.contract, hx.target, hx.task, hx.verified,
    hx.accepted, hx.noJob, hx.noIntegration, hx.unseeded, hx.unheld,
    fun hmem => hx.notReplay (List.mem_append_left _ hmem)⟩

theorem hasIntegration_iff {t : JobStore} {id : String} : t.hasIntegration id = true ↔
    ∃ r ∈ t.results.results.rows, r.submissionId = id ∧
      ∃ i ∈ t.results.integrations.rows, i.verifiedResultId = r.resultId := by
  simp only [JobStore.hasIntegration, List.any_eq_true, Bool.and_eq_true, decide_eq_true_eq]

/-- A begun integration takes the pending row of its own submission. -/
theorem Fed.integration {i : Integration} (h : Fed s.jobs)
    (hinsert : s.insertIntegration i = some s') : Fed s'.jobs := by
  obtain ⟨r, integrations, hr, hi, hframe, hpending⟩ := insertIntegration_ok hinsert
  have hkey : r.resultId = i.verifiedResultId := Table.find_key hr
  refine ⟨?_, queued_iff.mpr fun x hx => ?_⟩
  · rw [hframe]
    exact ⟨h.sound.contracts, h.sound.subs, h.sound.policies, h.sound.runs, h.sound.results,
      h.sound.waiting, h.sound.jobs, h.sound.retired⟩
  · have hrows : s'.integrations = integrations := by rw [hframe]
    have hresults : s'.results = s.results := by rw [hframe]
    have hne : x.submissionId ≠ r.submissionId := by
      intro he
      have hhas : s'.jobs.hasIntegration x.submissionId = true := by
        refine hasIntegration_iff.mpr ⟨r, ?_, he.symm, i, ?_, hkey.symm⟩
        · change r ∈ s'.results.rows
          rw [hresults]
          exact Table.mem_of_find hr
        · change i ∈ s'.integrations.rows
          rw [hrows]
          exact (Table.mem_insert? hi).mpr (.inr rfl)
      rw [hx.noIntegration] at hhas
      cases hhas
    have hnone : s.jobs.hasIntegration x.submissionId = false := by
      rw [Bool.eq_false_iff, Ne, hasIntegration_iff]
      rintro ⟨q, hq, hid, j, hj, hjr⟩
      have hhas : s'.jobs.hasIntegration x.submissionId = true := by
        refine hasIntegration_iff.mpr ⟨q, ?_, hid, j, ?_, hjr⟩
        · change q ∈ s'.results.rows
          rw [hresults]
          exact hq
        · change j ∈ s'.integrations.rows
          rw [hrows]
          exact (Table.mem_insert? hi).mpr (.inl hj)
      rw [hx.noIntegration] at hhas
      cases hhas
    refine hpending _ hne ?_
    rw [hframe] at hx
    exact queued_iff.mp h.queued x ⟨hx.stored, hx.contract, hx.target, hx.task, hx.verified,
      hx.accepted, hx.noJob, hnone, hx.unseeded, hx.unheld, hx.notReplay⟩

theorem Fed.beginIntegration {b : IntegrationBegin} {id : OperationId} (h : Fed s.jobs)
    (hbody : beginIntegration env b s = .ok (id, s')) : Fed s'.jobs := by
  obtain ⟨-, t, hquiet, hinsert⟩ := beginIntegration_ok hbody
  exact Fed.integration (Fed.store h hquiet) hinsert

/-! ## Calls and runs -/

theorem Fed.selects {x : Groups.CandidateSelection} (h : Fed s.jobs) (hs : Selects s s' x) :
    Fed s'.jobs := by
  obtain ⟨t, hinsert, rfl⟩ := hs.recorded
  exact h.selection hinsert

theorem chooseArms_reads {arms : List CandidateArm} {names : List String} :
    (chooseArms env arms names).Reads := by
  induction names generalizing arms with
  | nil => exact .pure _
  | cons name names ih => exact .bind (.check _) fun _ => .bind (.require ..) fun _ => ih

/-- A new group is the only one of its task and contract revision. -/
theorem createCandidateGroup_ok [GroupDigests] {task : TaskId} {profiles : List String}
    {principal : String} {now : Int} {g : Groups.CandidateGroup}
    (h : createCandidateGroup env task profiles principal now s = .ok (g, s')) :
    (∃ arms, chooseArms env [] profiles s = .ok (arms, s) ∧ g.arms = arms) ∧ g.taskId = task ∧
      (∀ o ∈ s.groups.rows, ¬(o.taskId = g.taskId ∧
        o.contractRevision.getD 0 = g.contractRevision.getD 0)) ∧
      ∃ groups, s.groups.insert? g = some groups ∧ s' = { s with groups := groups } := by
  simp only [createCandidateGroup, Tx.require_bind, selectorAuthority_reads.peel, Tx.find_bind,
    Tx.ask_bind, chooseArms_reads.peel, Tx.insert_bind, Tx.pure_ok] at h
  obtain ⟨-, -, _, -, row, -, -, -, arms, harms, t, hinsert, rfl, rfl⟩ := h
  unfold GroupStore.insertGroup at hinsert
  split at hinsert
  · cases hinsert
  · next hnone =>
    obtain ⟨groups, hgroups, rfl⟩ := Option.map_eq_some_iff.mp hinsert
    simp only [List.any_eq_true, Bool.and_eq_true, decide_eq_true_eq, not_exists, not_and]
      at hnone
    exact ⟨⟨arms, harms, rfl⟩, rfl, fun o ho he => hnone o ho he.1 he.2, groups, hgroups, rfl⟩

/-- **Every call keeps the queue fed.** -/
theorem Fed.groupCall [Digests] [JobDigests] [GroupDigests] {c : GroupCall} {u : Unit}
    (h : Fed s.jobs) (hbody : c.body s = .ok (u, s')) : Fed s'.jobs := by
  obtain ⟨method, env⟩ := c
  cases method <;> simp only [GroupCall.body, Groups.discard_ok] at hbody
  case jobs =>
    obtain ⟨t, hcall, rfl⟩ := Tx.within_ok.mp hbody
    obtain ⟨hfed, hresults⟩ := h.call hcall
    rwa [jobs_withJobs hresults]
  case installContract => exact h.installContract hbody
  case createCandidateGroup =>
    obtain ⟨g, hcreate⟩ := hbody
    obtain ⟨-, -, -, groups, -, rfl⟩ := createCandidateGroup_ok hcreate
    exact h
  case admitPrepared => exact h.admitPrepared hbody
  case submitResult => exact h.submitResult hbody
  case commitVerification => exact h.commitVerification hbody
  case selectCandidate =>
    obtain ⟨x, hselect⟩ := hbody
    exact h.selects (selectCandidate_ok hselect).2
  case selectCandidateByRule =>
    obtain ⟨x, hselect⟩ := hbody
    exact h.selects (selectCandidateByRule_ok hselect).2.1
  case selectCandidateByJudge =>
    obtain ⟨x, hselect⟩ := hbody
    exact h.selects (selectCandidateByJudge_ok hselect).2
  case registerEvaluationCandidate => exact h.registerEvaluationCandidate hbody
  case registerReplayCandidate => exact h.registerReplayCandidate hbody
  case beginIntegration =>
    obtain ⟨id, hbegin⟩ := hbody
    exact h.beginIntegration hbegin
  case requestCompletion =>
    obtain ⟨task, hrequest⟩ := hbody
    exact h.requestCompletion hrequest

end Jobs

namespace Groups

open Jobs

variable {s s' : GroupStore}

/-- A write of another method: it leaves the queue and what it reads alone, but for the states of
integrations. -/
structure Elsewhere (s s' : GroupStore) : Prop where
  quiet : Quiet s.store s'.store
  integrations : ∀ id, s'.jobs.hasIntegration id = s.jobs.hasIntegration id
  frame : s' = { s with
    store := s'.store
    integrations := s'.integrations }

theorem Elsewhere.fed (h : Elsewhere s s') (hs : Fed s.jobs) : Fed s'.jobs := by
  obtain ⟨hquiet, hintegrations, hframe⟩ := h
  have hbeside : Beside s.jobs s'.jobs := by
    refine ⟨hquiet, ?_, hintegrations, ?_, ?_⟩
    · rw [hframe]
      rfl
    · rw [hframe]
      rfl
    · rw [hframe]
      rfl
  exact hs.beside hbeside

/-- A new store has nothing that could be eligible. -/
theorem fed_created (path : String) : Fed (GroupStore.created path).jobs := by
  refine ⟨?_, ?_⟩
  · constructor <;> intro x hx <;> cases hx
  · intro id hid
    cases hid

/-- A call with the stores before and after it, or a write of another method. -/
structure GroupStep where
  before : GroupStore
  call : Option GroupCall
  after : GroupStore

section Runs

variable [Digests] [JobDigests] [GroupDigests]

def GroupStep.Valid (step : GroupStep) : Prop :=
  match step.call with
  | some c => step.after = (c.exec step.before).2
  | none => Elsewhere step.before step.after

/-- The steps of a run from `s`. -/
inductive Trace : GroupStore → List GroupStep → Prop
  | nil (s : GroupStore) : Trace s []
  | cons {step : GroupStep} {steps : List GroupStep} (valid : step.Valid)
    (rest : Trace step.after steps) : Trace step.before (step :: steps)

theorem Trace.elsewhere {steps : List GroupStep} (h : Elsewhere s s') (rest : Trace s' steps) :
    Trace s (⟨s, none, s'⟩ :: steps) := by
  have hvalid : GroupStep.Valid ⟨s, none, s'⟩ := h
  exact .cons hvalid rest

theorem GroupCall.exec_fed {c : GroupCall} (h : Fed s.jobs) : Fed (c.exec s).2.jobs :=
  Tx.commit_preserves (R := fun s t => Fed s.jobs → Fed t.jobs) id (fun hbody h => h.groupCall hbody)
    h

theorem GroupStep.fed {step : GroupStep} (hvalid : step.Valid) (h : Fed step.before.jobs) :
    Fed step.after.jobs := by
  obtain ⟨before, call, after⟩ := step
  cases call with
  | none => exact Elsewhere.fed hvalid h
  | some c =>
    have hafter : after = (c.exec before).2 := hvalid
    subst hafter
    exact GroupCall.exec_fed h

theorem Trace.fed {steps : List GroupStep} (h : Trace s steps) (hs : Fed s.jobs) :
    ∀ step ∈ steps, Fed step.after.jobs := by
  induction h with
  | nil => simp
  | cons hvalid _ ih =>
    have hafter := GroupStep.fed hvalid hs
    exact List.forall_mem_cons.mpr ⟨hafter, ih hafter⟩

/-- **No eligible submission is forgotten.** In a run from a new store, of the producer, the
delivery protocol, the results, the candidate groups and any other writers, every submission that
satisfies the producer's query waits in its queue after every step. -/
theorem eligible_submission_queued {path : String} {steps : List GroupStep}
    (h : Trace (.created path) steps) :
    ∀ step ∈ steps, ∀ id, (step.after.jobs.eligible id).isSome →
      (step.after.jobs.pending.find id).isSome :=
  fun step hstep => (h.fed (fed_created path) step hstep).queued

/-! ### A run

A task with two arms: the first attempt submits twice and ends, the second submits once and the
rule selects its candidate. -/

/-- The steps of a list of calls. -/
def callSteps (s : GroupStore) : List GroupCall → List GroupStep
  | [] => []
  | c :: calls => ⟨s, some c, (c.exec s).2⟩ :: callSteps (c.exec s).2 calls

/-- The store that a list of calls leads to. -/
def after (s : GroupStore) : List GroupCall → GroupStore
  | [] => s
  | c :: calls => after (c.exec s).2 calls

theorem Trace.callSteps {calls : List GroupCall} {steps : List GroupStep}
    (h : Trace (after s calls) steps) : Trace s (Groups.callSteps s calls ++ steps) := by
  induction calls generalizing s with
  | nil => exact h
  | cons c calls ih =>
    have hvalid : GroupStep.Valid ⟨s, some c, (c.exec s).2⟩ := rfl
    exact .cons hvalid (ih h)

end Runs

namespace Relaunch

/-- The two launches have different digests, and so have their grants. -/
@[reducible] def digests : Digests := { Sample.digests with
  inputs := fun i =>
    if i.taskRevision = 3 then "1111111111111111111111111111111111111111111111111111111111111111"
    else "9999999999999999999999999999999999999999999999999999999999999999"
  grant := fun g =>
    if g.scope.taskRevision = 4 then "3333333333333333333333333333333333333333333333333333333333333333"
    else "eeeeeeeeeeeeeeeeeeeeeeeeeeeeeeeeeeeeeeeeeeeeeeeeeeeeeeeeeeeeeeee" }

/-- Job identities are told apart by their parts. -/
@[reducible] def jobDigests : JobDigests where
  parts ps := ",".intercalate ps
  bound ps revision := ",".intercalate ps ++ "," ++ toString revision

@[reducible] def groupDigests : GroupDigests where
  configuration profile _ := profile.id
  group task _ _ _ := "group-" ++ task.val
  presentation group submission := group ++ submission
  submission _ key _ := "submission-" ++ key
  run _ key _ := "run-" ++ key
  result run _ _ := "result-" ++ run

def contractDigest : String := "cccccccccccccccccccccccccccccccccccccccccccccccccccccccccccccccc"

def firstInputs : LaunchInputs := { Sample.inputs with
  taskContract := some ⟨"task", 1, contractDigest⟩
  profile := { Sample.inputs.profile with id := "first" } }

def secondInputs : LaunchInputs := { firstInputs with
  taskRevision := 5
  approval := ⟨"approval-eeeeeeeeeeeeeeeeeeeeeeeeeeeeeeeeeeeeeeeeeeeeeeeeeeeeeeeeeeeeeeee", 1,
    "eeeeeeeeeeeeeeeeeeeeeeeeeeeeeeeeeeeeeeeeeeeeeeeeeeeeeeeeeeeeeeee"⟩
  profile := { firstInputs.profile with id := "second" } }

def secondGrant : ApprovalGrant := { Sample.grant with
  scope := { Sample.grant.scope with taskRevision := 6 } }

/-- The project has one queued task and the approvals of its two launches. -/
def start : GroupStore := { GroupStore.created "/state.db" with
  store := { Sample.store with
    grants := ⟨[⟨firstInputs.approval.id, Sample.grant⟩, ⟨secondInputs.approval.id, secondGrant⟩],
      by decide⟩ } }

def surroundings : Surroundings where
  outside := Sample.outside
  retainedProfile name := .ok ("digest", name)

def first : AttemptId :=
  ⟨"attempt-1111111111111111111111111111111111111111111111111111111111111111"⟩

def second : AttemptId :=
  ⟨"attempt-9999999999999999999999999999999999999999999999999999999999999999"⟩

def submission (attempt : AttemptId) (key : String) : GroupCall :=
  ⟨.submitResult ⟨⟨"task"⟩, 1, contractDigest, attempt, "/repo", key, "payload"⟩, surroundings⟩

/-- The verification run that accepts the submission of the key. -/
def accepted (key : String) : GroupCall :=
  ⟨.commitVerification ⟨"submission-" ++ key, "tests", key, "payload", none, none⟩, surroundings⟩

/-- The first attempt has two accepted candidates, and the first of them is a seeded one. -/
def calls : List GroupCall :=
  [⟨.installContract ⟨⟨⟨"task"⟩, 1, contractDigest, .verifyThenIntegrate⟩, 0, ["tests"]⟩,
    surroundings⟩,
   ⟨.createCandidateGroup ⟨"task"⟩ ["first", "second"] "owner" 50, surroundings⟩,
   ⟨.admitPrepared [firstInputs] 1 100 false none, surroundings⟩,
   submission first "a", accepted "a", submission first "b", accepted "b",
   ⟨.registerEvaluationCandidate "submission-a" .seeded, surroundings⟩,
   ⟨.jobs (.configureIntegrationRef "/repo" "refs/heads/integration"), surroundings⟩]

attribute [local instance] digests jobDigests groupDigests

/-- The first attempt has ended and its task is queued again. -/
def requeued (s : GroupStore) : GroupStore := { s with
  store := { s.store with
    tasks := s.store.tasks.update ⟨⟨"task"⟩, 5, .queued, "Task", none⟩
    attempts := s.store.attempts.update { firstInputs.reserved.attemptRow with
      revision := 2
      state := .failed
      terminationObserved := true } } }

/-- The second arm launches, and its accepted candidate is the winner. -/
def laterCalls : List GroupCall :=
  [⟨.admitPrepared [secondInputs] 4 200 false none, surroundings⟩,
   submission second "c", accepted "c",
   ⟨.selectCandidateByRule "group-task" 300, surroundings⟩]

/-- The winner is registered as a seeded candidate. -/
def seeding : GroupCall := ⟨.registerEvaluationCandidate "submission-c" .seeded, surroundings⟩

def ended : GroupStore := requeued (after start calls)

def steps : List GroupStep :=
  ⟨.created "/state.db", none, start⟩ :: (callSteps start calls ++
    ⟨after start calls, none, ended⟩ :: (callSteps ended (laterCalls ++ [seeding]) ++ []))

theorem start_elsewhere : Elsewhere (.created "/state.db") start := by
  refine ⟨.of_operations rfl (fun _ h => by cases h) (fun _ h => by cases h) ⟨[], rfl, by simp⟩,
    fun _ => rfl, rfl⟩

theorem requeued_elsewhere (s : GroupStore) : Elsewhere s (requeued s) := by
  refine ⟨.of_operations rfl (.update _ _) (.update _ _) ⟨[], by simp [requeued], by simp⟩,
    fun _ => rfl, rfl⟩

theorem trace : Trace (.created "/state.db") steps :=
  .elsewhere start_elsewhere (.callSteps (.elsewhere (requeued_elsewhere (after start calls))
    (.callSteps (.nil (after ended (laterCalls ++ [seeding]))))))

end Relaunch

/-- The winner of the run is eligible, and so it waits in the queue. -/
theorem eligible_submission_queued_relaunch :
    letI := Relaunch.digests
    letI := Relaunch.jobDigests
    letI := Relaunch.groupDigests
    (∃ step ∈ Relaunch.steps, (step.after.jobs.eligible "submission-c").isSome) ∧
      ∀ step ∈ Relaunch.steps, ∀ id, (step.after.jobs.eligible id).isSome →
        (step.after.jobs.pending.find id).isSome := by
  let _ := Relaunch.digests
  let _ := Relaunch.jobDigests
  let _ := Relaunch.groupDigests
  exact ⟨by decide +kernel, eligible_submission_queued Relaunch.trace⟩

end Groups

end Herdr
