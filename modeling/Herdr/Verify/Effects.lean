import Herdr.Store.Calls
import Herdr.Verify.Reservations

/-!
# What one call can do

`Effect` lists every way in which a call of the lifecycle changes the store, with what the call
had to find. `exec_effect` says that the list is complete: a call that is refused, or that answers
a repeated request, only reads. The invariants of the later modules are case analyses on `Effect`.
-/

namespace Herdr

/-- The claim that an answer hands out. -/
def handedOut : Except StoreError Response → Option Claim
  | .ok (.claim c) => some c
  | _ => none

/-- The launch evidence that one boundary appends, and what it found in the log. -/
inductive Records (s : Store) : List Event → Prop
  | prepares {c : Claim} {es : List Event} (h : Prepares s c es) : Records s es
  | workspace {target : LaunchTarget} (layout : Bool) (revision : Nat)
    (fresh : s.hasEvent target.operation.val
      [workspaceKind layout, .launchLayout, .launchTarget, .launchStarted] = false) :
    Records s [⟨target.operation.val, revision,
      if layout then .launchLayout target else .launchWorkspace target⟩]
  | target {target : LaunchTarget} (revision : Nat) (direct : Bool)
    (fresh : s.event? target.operation.val EventBody.target? = none)
    (root : direct = true →
      s.hasEvent target.operation.val [.launchLayout, .launchWorkspace] = true →
      s.exactTargets target = 2) :
    Records s (targetEvents target revision direct)
  | gate {operation : OperationId} {intent : LaunchReleaseIntent} (revision : Nat) (naming : Bool)
    (target : s.event? operation.val EventBody.target? = some intent.target)
    (creation : ∃ creation, s.event? operation.val EventBody.creation? = some creation)
    (fresh : s.hasEvent operation.val [gateKind naming, .launchStarted] = false) :
    Records s [⟨operation.val, revision,
      if naming then .launchName intent else .launchRelease intent⟩]

/-- The kinds of the events that boundaries append. -/
def recordKinds : List EventKind :=
  [.worktreesCreation, .launchCreation, .launchWorkspace, .launchLayout, .launchTarget,
    .launchRelease, .launchName]

theorem Records.kind_mem {s : Store} {es : List Event} (h : Records s es) :
    ∀ e ∈ es, e.kind ∈ recordKinds := by
  intro e he
  cases h with
  | prepares hp =>
    cases hp with
    | none => cases he
    | worktrees | native =>
      rw [List.mem_singleton.mp he]
      simp [Event.kind, EventBody.kind, recordKinds]
  | workspace layout =>
    rw [List.mem_singleton.mp he]
    cases layout <;> simp [Event.kind, EventBody.kind, recordKinds]
  | target revision direct =>
    cases direct with
    | false =>
      rw [List.mem_singleton.mp he]
      simp [Event.kind, EventBody.kind, recordKinds]
    | true =>
      simp only [targetEvents, if_true, List.cons_append, List.nil_append, List.mem_cons,
        List.not_mem_nil, or_false] at he
      rcases he with rfl | rfl <;> simp [Event.kind, EventBody.kind, recordKinds]
  | gate revision naming =>
    rw [List.mem_singleton.mp he]
    cases naming <;> simp [Event.kind, EventBody.kind, recordKinds]

variable [Digests]

/-- What one call did to the store, given what it read outside it; the index is the claim that it
handed out. -/
inductive Effect (env : Outside) (s : Store) : Option Claim → Store → Prop
  | reads : Effect env s none s
  | claims {s' : Store} {c : Claim} {old : Delivery} {op : Operation}
    (claimed : Claimed s s' c old op) : Effect env s (some c) s'
  | settles {s' : Store} {old : Delivery} {outcome : Outcome} {now : Int}
    (row : s.deliveries.find old.operation = some old)
    (settled : Settles s s' (old.settle outcome now)) : Effect env s none s'
  | expires {s' : Store} (now : Int) (only : OutcomesOnly s s')
    (rows : ∀ {id d}, s.deliveries.find id = some d → ∃ d', s'.deliveries.find id = some d' ∧
      ((id ∈ s.expired now ∧ d' = d.expire now) ∨ (id ∉ s.expired now ∧ d' = d))) :
    Effect env s none s'
  | records {es : List Event} (recorded : Records s es) : Effect env s none (s.logged es)
  | starts {s' : Store} {claim : Option Claim} {receipt : LaunchStartedReceipt}
    {record : AttemptInputRecord} {attempt : Attempt} {task : Task} {target : LaunchTarget}
    {old : Delivery} {now : Int}
    (row : s.deliveries.find receipt.operation = some old)
    (acknowledged : Acknowledges s claim receipt record attempt task target)
    (published : PublishesStart s s' receipt old attempt now) : Effect env s none s'
  | reserves {s' : Store} {record : AttemptInputRecord} {task : Task} {now : Int}
    (admissible : Admissible s task) (of_task : record.inputs.task = task.id)
    (clear : env.overlap task.id = none) (reserved : Reserves s s' record task now) : Effect env s none s'
  | cancels {s' : Store} {attempt : Attempt} {task : Task} {request : CancellationRequest}
    {released : Bool} (cancelled : Cancels s s' attempt task request released) :
    Effect env s none s'
  | ends {s' : Store} {attempt : Attempt} {task : Task} (ended : Ends s s' attempt task)
    (quiet : QuietLog s.events s'.events) : Effect env s none s'
  | stops {s' : Store} {operation : OperationId} {attempt : Attempt} {task : Task}
    (ended : Ends s s' attempt task) (stopped : Stops s s' operation attempt) :
    Effect env s none s'
  | completes {s' : Store} {attempt : Attempt}
    (row : s.attempts.find attempt.id = some attempt)
    (frame : s' = { s with
      attempts := s.attempts.update { attempt with revision := attempt.revision + 1 }
      events := s'.events })
    (quiet : QuietLog s.events s'.events) : Effect env s none s'
  | queues {s' : Store} {task new : Task} {queue : Table QueueRecord QueueRecord.task}
    (queued : Queues s s' task new queue) : Effect env s none s'
  | adopts {s' : Store} {policy : SchedulerPolicy}
    (frame : s' = { s with policy := policy, events := s'.events })
    (quiet : QuietLog s.events s'.events) : Effect env s none s'

variable {env : Outside} {s s' : Store}

theorem RecordsWorkspace.effect {target : LaunchTarget} {layout : Bool} {revision : Nat}
    (h : RecordsWorkspace s s' target layout revision) : Effect env s none s' := by
  rw [h.frame]
  exact .records (.workspace layout revision h.fresh)

theorem SelectsTarget.effect {target : LaunchTarget} (h : SelectsTarget s target s') :
    Effect env s none s' := by
  cases h with
  | again => exact .reads
  | first revision direct fresh root => exact .records (.target revision direct fresh root)

theorem RecordsGate.effect {c : Claim} {intent : LaunchReleaseIntent} {naming : Bool}
    (h : RecordsGate s s' c intent naming) : Effect env s none s' := by
  rw [h.frame]
  exact .records (.gate c.revision naming h.target h.creation h.fresh)

/-- The rows of a delivery that was read by its own key. -/
theorem settles_effect {id : OperationId} {old : Delivery} {outcome : Outcome} {now : Int}
    (row : s.deliveries.find id = some old) (h : Settles s s' (old.settle outcome now)) :
    Effect env s none s' := by
  have hid : old.operation = id := Table.find_key row
  exact .settles (hid ▸ row) h

theorem applyLaunchStarted_effect {claim : Option Claim} {expectedHead : Option Nat}
    {revision : Nat} {receipt : LaunchStartedReceipt} {now : Int} {d : Delivery}
    (h : applyLaunchStarted env claim expectedHead revision receipt now s = .ok (d, s')) :
    Effect env s none s' := by
  obtain ⟨old, row, ⟨-, rfl, -⟩ | ⟨record, attempt, task, target, ha, hp⟩⟩ :=
    applyLaunchStarted_ok h
  · exact .reads
  · exact .starts row ha hp

/-- A body that succeeded had one of the listed effects. -/
theorem Method.body_effect {method : Method} {response : Response}
    (h : method.body env s = .ok (response, s')) : Effect env s (handedOut (.ok response)) s' := by
  cases method <;> simp only [Method.body, Tx.map_ok] at h <;> obtain ⟨answer, h, rfl⟩ := h
  case claimOperation =>
    obtain ⟨-, old, op, hc⟩ := claimWithCreation_ok h
    exact .claims hc
  case validateClaim =>
    obtain ⟨rfl, -⟩ := validateClaim_ok h
    exact .reads
  case finishOperation =>
    obtain ⟨old, row, -, hs⟩ := finishOperation_ok h
    exact settles_effect row hs
  case expireClaims now =>
    obtain ⟨only, rows⟩ := expireClaims_ok h
    exact .expires now only rows
  case observeOperation =>
    obtain ⟨old, row, -, hs⟩ := observeOperation_ok h
    exact settles_effect row hs
  case retireOperation =>
    obtain ⟨old, outcome, row, -, hs⟩ := retireOperation_ok h
    exact settles_effect row hs
  case continueWorktreeLaunchCreation =>
    obtain ⟨es, hp, rfl⟩ := continueWorktreeLaunchCreation_ok h
    exact .records (.prepares hp)
  case recordLaunchWorkspace => exact (recordWorkspaceBoundary_ok h).effect
  case recordLaunchLayout => exact (recordWorkspaceBoundary_ok h).effect
  case observeLaunchWorkspace => exact (recordWorkspaceBoundary_ok h).effect
  case recordLaunchTarget => exact (applyLaunchTarget_ok h).effect
  case observeLaunchTarget => exact (applyLaunchTarget_ok h).effect
  case recordLaunchRelease => exact (recordLaunchBoundary_ok h).effect
  case recordLaunchName => exact (recordLaunchBoundary_ok h).effect
  case recordLaunchStarted => exact applyLaunchStarted_effect h
  case observeLaunchStarted => exact applyLaunchStarted_effect h
  case recordLaunchStopped =>
    obtain ⟨attempt, task, he, hs⟩ := recordLaunchStopped_ok h
    exact .stops he hs
  case recordWorkerTermination =>
    rcases recordWorkerTermination_ok h with rfl | ⟨attempt, task, he, hq⟩
    · exact .reads
    · exact .ends he hq
  case requestCompletion =>
    rcases requestCompletion_ok h with rfl | ⟨attempt, row, hframe, hq⟩
    · exact .reads
    · exact .completes row hframe hq
  case admitPrepared =>
    rcases admitPrepared_ok h with ⟨rfl, -⟩ | ⟨reservation, task, -, ha, ht, hc, hr⟩
    · exact .reads
    · exact .reserves ha ht hc hr
  case cancelAttempt =>
    rcases cancelAttempt_ok h with ⟨_, -, -, rfl⟩ | ⟨-, attempt, task, -, hc⟩
    · exact .reads
    · exact .cancels hc
  case queueTask =>
    rcases queueTask_ok h with rfl | ⟨task, new, queue, hq⟩
    · exact .reads
    · exact .queues hq
  case setSchedulerPolicy =>
    rcases setSchedulerPolicy_ok h with rfl | ⟨policy, hframe, hq⟩
    · exact .reads
    · exact .adopts hframe hq

/-- **Every call has one of the listed effects.** -/
theorem exec_effect (c : Call) (s : Store) :
    Effect c.outside s (handedOut (exec c s).1) (exec c s).2 := by
  unfold exec
  obtain ⟨response, s', hbody, hcommit⟩ | ⟨e, -, hcommit⟩ := Tx.commit_eq (c.method.body c.outside) s
  · rw [hcommit]
    exact Method.body_effect hbody
  · rw [hcommit]
    exact .reads

/-! ## Tables that only grow -/

/-- How a call changes the operations, the sealed inputs and the cancellation requests: only a
reservation and a cancellation write them. -/
inductive SealedMove (s s' : Store) : Prop
  | same (operations : s'.operations = s.operations) (inputs : s'.inputs = s.inputs)
    (cancellations : s'.cancellations = s.cancellations)
  | reserves {record : AttemptInputRecord} {task : Task} {now : Int}
    (admissible : Admissible s task) (reserved : Reserves s s' record task now)
  | cancels {attempt : Attempt} {task : Task} {request : CancellationRequest} {released : Bool}
    (cancelled : Cancels s s' attempt task request released)

theorem SealedMove.of_eq (h : s' = { s' with
    operations := s.operations, inputs := s.inputs, cancellations := s.cancellations }) :
    SealedMove s s' :=
  .same (by rw [h]) (by rw [h]) (by rw [h])

theorem Effect.sealedMove {o : Option Claim} (h : Effect env s o s') : SealedMove s s' := by
  cases h with
  | reserves admissible _ _ reserved => exact .reserves admissible reserved
  | cancels cancelled => exact .cancels cancelled
  | reads => exact .of_eq rfl
  | records => exact .of_eq rfl
  | claims claimed => exact .of_eq (by rw [claimed.frame])
  | settles _ settled => exact .of_eq (by rw [settled.frame])
  | expires _ only => exact .of_eq (by rw [only.frame])
  | starts _ _ published => exact .of_eq (by rw [published.frame])
  | ends ended => exact .of_eq (by rw [ended.frame])
  | stops ended => exact .of_eq (by rw [ended.frame])
  | completes _ frame => exact .of_eq (by rw [frame])
  | queues queued => exact .of_eq (by rw [queued.frame])
  | adopts frame => exact .of_eq (by rw [frame])

/-- The uses after a call: a claim may have added one. -/
theorem Effect.uses_extends {o : Option Claim} (h : Effect env s o s') : s.uses.Extends s'.uses := by
  have hsame : s'.uses = s.uses → s.uses.Extends s'.uses := by
    intro he
    rw [he]
    exact .refl _
  cases h with
  | @claims _ c old op claimed =>
    by_cases hkind : op.kind = .runtimeLaunch
    · obtain ⟨use, hu⟩ := claimed.launch hkind
      exact .insert? hu.inserted
    · exact hsame (claimed.other hkind)
  | reads => exact hsame rfl
  | records => exact hsame rfl
  | settles _ settled => exact hsame (by rw [settled.frame])
  | expires _ only => exact hsame (by rw [only.frame])
  | starts _ _ published => exact hsame (by rw [published.frame])
  | reserves _ _ _ reserved => exact hsame (by rw [reserved.frame])
  | cancels cancelled => exact hsame (by rw [cancelled.frame])
  | ends ended => exact hsame (by rw [ended.frame])
  | stops ended => exact hsame (by rw [ended.frame])
  | completes _ frame => exact hsame (by rw [frame])
  | queues queued => exact hsame (by rw [queued.frame])
  | adopts frame => exact hsame (by rw [frame])

/-- Accepted intent, sealed inputs, cancellation requests and approval uses are never rewritten. -/
structure Grows (s s' : Store) : Prop where
  operations : s.operations.Extends s'.operations
  inputs : s.inputs.Extends s'.inputs
  cancellations : s.cancellations.Extends s'.cancellations
  uses : s.uses.Extends s'.uses

omit [Digests] in
theorem Grows.refl (s : Store) : Grows s s := ⟨.refl _, .refl _, .refl _, .refl _⟩

omit [Digests] in
theorem Grows.trans {t : Store} (h : Grows s s') (h' : Grows s' t) : Grows s t :=
  ⟨h.operations.trans h'.operations, h.inputs.trans h'.inputs,
    h.cancellations.trans h'.cancellations, h.uses.trans h'.uses⟩

theorem Effect.grows {o : Option Claim} (h : Effect env s o s') : Grows s s' := by
  have huses := h.uses_extends
  cases h.sealedMove with
  | same operations inputs cancellations =>
    exact ⟨operations ▸ .refl _, inputs ▸ .refl _, cancellations ▸ .refl _, huses⟩
  | reserves _ reserved =>
    refine ⟨.insert? reserved.operations, .insert? reserved.inputs, ?_, huses⟩
    rw [reserved.frame]
    exact .refl _
  | cancels cancelled =>
    refine ⟨?_, ?_, .insert? cancelled.cancellations, huses⟩
    · rw [cancelled.frame]
      exact .refl _
    · rw [cancelled.frame]
      exact .refl _

/-- Over any run, no row of these tables is ever rewritten. -/
theorem Grows.calls (run : StoreRun) (calls : List Call) :
    Grows run.state (run.calls exec calls).state :=
  Run.preserves .refl .trans fun _ call _ => (exec_effect call _).grows

end Herdr
