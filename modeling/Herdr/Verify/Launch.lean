import Herdr.Store.Launch
import Herdr.Verify.Delivery

/-!
# What the launch boundaries do

Every boundary but the start only appends evidence to the log. The lemmas state the events it
appends and what it had to find in the log before, which is all that the order of the evidence
rests on.
-/

namespace Herdr

variable {env : Outside} {s s' : Store}

theorem expectHead?_reads {expected : Option Nat} : (expectHead? expected).Reads := by
  cases expected with
  | none => exact .pure _
  | some n => exact .bind (.ask _) fun _ => .require ..

variable [Digests]

/-- The launch is still eligible whenever the caller carries a claim. -/
def ClaimEligible (s : Store) (claim : Option Claim) : Prop :=
  ∀ c, claim = some c → ∃ record attempt task, LaunchEligible s c.operation record attempt task

/-! ## Workspace and layout -/

theorem authorizeWorkspace_ok {claim : Option Claim} {record : AttemptInputRecord}
    {delivery : Delivery} {layout : Bool} {now : Int} {u : Unit}
    (h : authorizeWorkspace env claim record delivery layout now s = .ok (u, s')) :
    s' = s ∧ ClaimEligible s claim := by
  cases claim with
  | none =>
    simp only [authorizeWorkspace, validateHistoricalConsumption_reads.peel, Tx.require_ok] at h
    obtain ⟨_, -, -, rfl⟩ := h
    exact ⟨rfl, fun c hc => by cases hc⟩
  | some c =>
    simp only [authorizeWorkspace, Tx.require_bind] at h
    obtain ⟨rfl, heligible⟩ := validateUse_ok h.2
    exact ⟨rfl, fun c hc => by cases hc; exact heligible⟩

theorem authorizeWorkspace_reads {claim : Option Claim} {record : AttemptInputRecord}
    {delivery : Delivery} {layout : Bool} {now : Int} :
    (authorizeWorkspace env claim record delivery layout now).Reads :=
  ⟨fun h => (authorizeWorkspace_ok h).1⟩

omit [Digests] in
theorem requireWorkspace_ok {target : LaunchTarget} {layout : Bool} {u : Unit}
    (h : requireWorkspace target layout s = .ok (u, s')) :
    s' = s ∧ (layout = true →
      s.event? target.operation.val EventBody.workspace? = some target) := by
  cases layout with
  | false => exact ⟨(Tx.pure_ok.mp h).2.symm, by simp⟩
  | true =>
    simp only [requireWorkspace, if_true, readEvent, Tx.find_bind, Tx.require_ok] at h
    obtain ⟨workspace, hw, rfl, rfl⟩ := h
    exact ⟨rfl, fun _ => hw⟩

omit [Digests] in
theorem requireWorkspace_reads {target : LaunchTarget} {layout : Bool} :
    (requireWorkspace target layout).Reads := ⟨fun h => (requireWorkspace_ok h).1⟩

/-- The kind of a workspace boundary. -/
def workspaceKind (layout : Bool) : EventKind :=
  if layout then .launchLayout else .launchWorkspace

/-- What a workspace or layout boundary records. -/
structure RecordsWorkspace (s s' : Store) (target : LaunchTarget) (layout : Bool) (revision : Nat) :
    Prop where
  fresh : s.hasEvent target.operation.val
    [workspaceKind layout, .launchLayout, .launchTarget, .launchStarted] = false
  workspace : layout = true → s.event? target.operation.val EventBody.workspace? = some target
  frame : s' = s.logged [⟨target.operation.val, revision,
    if layout then .launchLayout target else .launchWorkspace target⟩]

theorem recordWorkspaceBoundary_ok {claim : Option Claim} {expectedHead : Option Nat}
    {revision : Nat} {target : LaunchTarget} {layout : Bool} {now : Int} {n : Nat}
    (h : recordWorkspaceBoundary env claim expectedHead revision target layout now s =
      .ok (n, s')) :
    RecordsWorkspace s s' target layout revision := by
  simp only [recordWorkspaceBoundary, priorValidation, readDelivery, readBinding, readAttempt,
    readEvent, nowCheck_bind, Tx.outside_bind, Tx.check_bind, Tx.require_bind, Tx.find_bind,
    Tx.ask_bind, expectHead?_reads.peel, readInput_reads.peel, authorizeWorkspace_reads.peel,
    requireWorkspace_reads.peel, logEvent_bind, head, Tx.ask_ok] at h
  obtain ⟨-, -, _, -, -, _, -, record, -, -, delivery, -, -, _, -, intent, -, binding, -, -,
    attempt, -, -, -, hused, _, hrequire, -, -, -, rfl⟩ := h
  exact ⟨hused, (requireWorkspace_ok hrequire).2, rfl⟩

/-! ## The selected target -/

theorem authorizeTarget_ok {claim : Option Claim} {record : AttemptInputRecord} {old : Delivery}
    {target : LaunchTarget} {now : Int} {u : Unit}
    (h : authorizeTarget env claim record old target now s = .ok (u, s')) :
    s' = s ∧ ClaimEligible s claim := by
  cases claim with
  | none =>
    simp only [authorizeTarget, readEvent, validateHistoricalConsumption_reads.peel,
      Tx.require_bind, Tx.find_bind, Tx.require_ok] at h
    obtain ⟨_, -, -, intent, -, -, rfl⟩ := h
    exact ⟨rfl, fun c hc => by cases hc⟩
  | some c =>
    simp only [authorizeTarget, Tx.require_bind] at h
    obtain ⟨rfl, heligible⟩ := validateUse_ok h.2
    exact ⟨rfl, fun c hc => by cases hc; exact heligible⟩

theorem authorizeTarget_reads {claim : Option Claim} {record : AttemptInputRecord}
    {old : Delivery} {target : LaunchTarget} {now : Int} :
    (authorizeTarget env claim record old target now).Reads :=
  ⟨fun h => (authorizeTarget_ok h).1⟩

omit [Digests] in
/-- A direct root has no legacy workspace on record, unless its exact target is. -/
theorem directRoot_ok {binding : RuntimeBinding} {target : LaunchTarget}
    {execution : RuntimeRoute} {direct : Bool}
    (h : directRoot binding target execution s = .ok (direct, s')) :
    s' = s ∧ (direct = true →
      s.hasEvent target.operation.val [.launchLayout, .launchWorkspace] = true →
      s.exactTargets target = 2) := by
  unfold directRoot at h
  split at h
  · simp only [readEvent, Tx.find_bind] at h
    obtain ⟨creation, -, h⟩ := h
    split at h
    · simp only [directRootOf, Tx.require_bind, Tx.ask_bind, Tx.pure_ok] at h
      obtain ⟨-, hsame, rfl, rfl⟩ := h
      refine ⟨rfl, fun _ hlegacy => ?_⟩
      have h := hsame hlegacy
      simp only [Bool.and_eq_true, decide_eq_true_eq] at h
      exact h.1
    · split at h
      · simp only [historicalRoot, readEvent, Tx.find_bind, Tx.ask_bind, Tx.require_bind,
          Tx.pure_ok] at h
        obtain ⟨_, -, -, rfl, rfl⟩ := h
        exact ⟨rfl, by simp⟩
      · exact (Tx.throw_ok.mp h).elim
  · obtain ⟨rfl, rfl⟩ := Tx.pure_ok.mp h
    exact ⟨rfl, by simp⟩

omit [Digests] in
theorem directRoot_reads {binding : RuntimeBinding} {target : LaunchTarget}
    {execution : RuntimeRoute} : (directRoot binding target execution).Reads :=
  ⟨fun h => (directRoot_ok h).1⟩

/-- The events that a new target appends: a direct root is its own workspace receipt. -/
def targetEvents (target : LaunchTarget) (revision : Nat) (direct : Bool) : List Event :=
  (if direct then [⟨target.operation.val, revision, .launchWorkspace target⟩] else []) ++
    [⟨target.operation.val, revision, .launchTarget target⟩]

/-- What selecting a target does: nothing when it is selected already. -/
inductive SelectsTarget (s : Store) (target : LaunchTarget) : Store → Prop
  | again (prior : s.event? target.operation.val EventBody.target? = some target) :
    SelectsTarget s target s
  | first (revision : Nat) (direct : Bool)
    (fresh : s.event? target.operation.val EventBody.target? = none)
    (root : direct = true →
      s.hasEvent target.operation.val [.launchLayout, .launchWorkspace] = true →
      s.exactTargets target = 2) :
    SelectsTarget s target (s.logged (targetEvents target revision direct))

omit [Digests] in
theorem selectTarget_ok {target : LaunchTarget} {revision n : Nat} {direct : Bool}
    (root : direct = true →
      s.hasEvent target.operation.val [.launchLayout, .launchWorkspace] = true →
      s.exactTargets target = 2)
    (h : selectTarget env target revision direct s = .ok (n, s')) :
    SelectsTarget s target s' := by
  simp only [selectTarget, Tx.ask_bind] at h
  cases hprior : s.event? target.operation.val EventBody.target? with
  | some prior =>
    simp only [hprior, Tx.require_bind, head, Tx.ask_ok] at h
    obtain ⟨rfl, -, rfl⟩ := h
    exact .again hprior
  | none =>
    simp only [hprior] at h
    cases direct with
    | false =>
      simp only [recordRoot, Bool.false_eq_true, if_false, pure_bind, logEvent_bind,
        Tx.outside_bind, head, Tx.ask_ok] at h
      obtain ⟨-, -, -, rfl⟩ := h
      exact .first revision false hprior root
    | true =>
      simp only [recordRoot, if_true, logEvent_bind, Tx.outside_bind, head, Tx.ask_ok] at h
      obtain ⟨-, -, -, -, rfl⟩ := h
      have hs := SelectsTarget.first revision true hprior root
      simpa [Store.logged, targetEvents] using hs

theorem applyLaunchTarget_ok {claim : Option Claim} {expectedHead : Option Nat} {revision : Nat}
    {target : LaunchTarget} {now : Int} {n : Nat}
    (h : applyLaunchTarget env claim expectedHead revision target now s = .ok (n, s')) :
    SelectsTarget s target s' := by
  simp only [applyLaunchTarget, readDelivery, readBinding, readAttempt, nowCheck_bind,
    Tx.check_bind, Tx.require_bind, Tx.find_bind, Tx.ask_bind, expectHead?_reads.peel,
    readInput_reads.peel, authorizeTarget_reads.peel, directRoot_reads.peel] at h
  obtain ⟨-, _, -, -, -, _, -, old, -, -, record, -, -, _, -, binding, -, attempt, -, -,
    execution, -, -, direct, hdirect, -, -, h⟩ := h
  exact selectTarget_ok (directRoot_ok hdirect).2 h

/-! ## Gate release and naming -/

omit [Digests] in
theorem requireRelease_ok {intent : LaunchReleaseIntent} {operation : OperationId} {naming : Bool}
    {u : Unit} (h : requireRelease intent operation naming s = .ok (u, s')) :
    s' = s ∧ (naming = true → ∃ release,
      s.event? operation.val EventBody.release? = some release) := by
  cases naming with
  | false => exact ⟨(Tx.pure_ok.mp h).2.symm, by simp⟩
  | true =>
    simp only [requireRelease, if_true, readEvent, Tx.find_bind, Tx.require_ok] at h
    obtain ⟨release, hr, -, rfl⟩ := h
    exact ⟨rfl, fun _ => ⟨release, hr⟩⟩

omit [Digests] in
theorem requireRelease_reads {intent : LaunchReleaseIntent} {operation : OperationId}
    {naming : Bool} : (requireRelease intent operation naming).Reads :=
  ⟨fun h => (requireRelease_ok h).1⟩

/-- The kind of a gate boundary. -/
def gateKind (naming : Bool) : EventKind := if naming then .launchName else .launchRelease

/-- What a gate boundary found and records. -/
structure RecordsGate (s s' : Store) (c : Claim) (intent : LaunchReleaseIntent) (naming : Bool) :
    Prop where
  eligible : ∃ record attempt task, LaunchEligible s c.operation record attempt task
  target : s.event? c.operation.val EventBody.target? = some intent.target
  creation : ∃ creation, s.event? c.operation.val EventBody.creation? = some creation
  fresh : s.hasEvent c.operation.val [gateKind naming, .launchStarted] = false
  frame : s' = s.logged [⟨c.operation.val, c.revision,
    if naming then .launchName intent else .launchRelease intent⟩]

theorem recordLaunchBoundary_ok {c : Claim} {intent : LaunchReleaseIntent} {now : Int}
    {naming : Bool} {n : Nat}
    (h : recordLaunchBoundary env c intent now naming s = .ok (n, s')) :
    RecordsGate s s' c intent naming := by
  simp only [recordLaunchBoundary, priorValidation, readDelivery, readBinding, readAttempt,
    readTask, readEvent, Tx.outside_bind, Tx.check_bind, Tx.require_bind, Tx.find_bind,
    Tx.ask_bind, validateUse_reads.peel, readInput_reads.peel, requireRelease_reads.peel,
    logEvent_bind, head, Tx.ask_ok] at h
  obtain ⟨-, -, supervisor, -, -, delivery, -, -, _, huse, record, -, -, binding, -, attempt, -,
    task, -, -, target, htarget, rfl, creation, hcreation, execution, -, -, _, -, hused, -, -, -,
    rfl⟩ := h
  exact ⟨(validateUse_ok huse).2, htarget, ⟨creation, hcreation⟩, hused, rfl⟩

theorem continueWorktreeLaunchCreation_ok {c : Claim} {intent : LaunchCreationIntent} {now : Int}
    {u : Unit} (h : continueWorktreeLaunchCreation env c intent now s = .ok (u, s')) :
    ∃ es, Prepares s c es ∧ s' = s.logged es := by
  simp only [continueWorktreeLaunchCreation, priorValidation, Tx.outside_bind, Tx.require_bind,
    Tx.ask_bind] at h
  obtain ⟨-, -, -, h⟩ := h
  obtain ⟨_, t, hcreation, h⟩ := Tx.bind_ok.mp h
  obtain ⟨-, rfl⟩ := Tx.outside_ok.mp h
  obtain ⟨hfresh, -, rfl⟩ := recordCreation_ok hcreation
  exact ⟨_, .native intent hfresh, rfl⟩

/-! ## The start acknowledgment -/

theorem authorizeStart_ok {claim : Option Claim} {record : AttemptInputRecord} {old : Delivery}
    {receipt : LaunchStartedReceipt} {now : Int} {u : Unit}
    (h : authorizeStart env claim record old receipt now s = .ok (u, s')) :
    s' = s ∧ ClaimEligible s claim := by
  cases claim with
  | none =>
    simp only [authorizeStart, Tx.ask_bind, Tx.require_bind] at h
    exact ⟨validateHistoricalConsumption_reads.keeps h.2, fun c hc => by cases hc⟩
  | some c =>
    simp only [authorizeStart, Tx.require_bind] at h
    obtain ⟨rfl, heligible⟩ := validateUse_ok h.2
    exact ⟨rfl, fun c hc => by cases hc; exact heligible⟩

theorem authorizeStart_reads {claim : Option Claim} {record : AttemptInputRecord} {old : Delivery}
    {receipt : LaunchStartedReceipt} {now : Int} :
    (authorizeStart env claim record old receipt now).Reads :=
  ⟨fun h => (authorizeStart_ok h).1⟩

omit [Digests] in
theorem requireGate_ok {target : LaunchTarget} {receipt : LaunchStartedReceipt} {u : Unit}
    (h : requireGate target receipt s = .ok (u, s')) :
    s' = s ∧ (target.version = 2 → ∃ release,
      s.event? receipt.operation.val EventBody.release? = some release ∧
        release.target = target) := by
  unfold requireGate at h
  split at h
  · simp only [Tx.find_bind, Tx.require_ok] at h
    obtain ⟨release, hr, ⟨-, htarget, -⟩, rfl⟩ := h
    exact ⟨rfl, fun _ => ⟨release, hr, htarget⟩⟩
  · next hv => exact ⟨(Tx.pure_ok.mp h).2.symm, fun h => absurd h hv⟩

omit [Digests] in
theorem requireGate_reads {target : LaunchTarget} {receipt : LaunchStartedReceipt} :
    (requireGate target receipt).Reads := ⟨fun h => (requireGate_ok h).1⟩

/-- The attempt after its start is acknowledged. -/
def Attempt.launched (attempt : Attempt) : Attempt :=
  { attempt with revision := attempt.revision + 1, state := .launching }

/-- What publishing a start writes. -/
structure PublishesStart (s s' : Store) (receipt : LaunchStartedReceipt) (old : Delivery)
    (attempt : Attempt) (now : Int) : Prop where
  frame : s' = { s with
    bindings := s'.bindings
    ownership := s'.ownership
    attempts := s.attempts.update attempt.launched
    tasks := s'.tasks
    deliveries := s.deliveries.update (old.settle (.confirmed receipt.toJson) now)
    events := s'.events }
  tasks : s'.tasks = s.tasks ∨ ∃ old new, Finalizes s s'.tasks old new
  log : ∃ before, QuietLog s.events before ∧
    QuietLog (before ++ [⟨receipt.operation.val, old.revision, .launchStarted receipt⟩]) s'.events

theorem publishStart_ok {claim : Option Claim} {record : AttemptInputRecord} {old d : Delivery}
    {receipt : LaunchStartedReceipt} {binding : RuntimeBinding} {attempt : Attempt}
    {worktree : Option WorktreeReceipt} {now : Int}
    (h : publishStart env claim record old receipt binding attempt worktree now s = .ok (d, s')) :
    PublishesStart s s' receipt old attempt now := by
  simp only [publishStart, integer, next_bind, Tx.check_bind, Tx.require_bind, Tx.write_bind,
    Tx.ask_bind, Tx.insert_bind, Tx.outside_bind, updateAttempt_bind, logEvent_bind] at h
  obtain ⟨-, threadDir, -, -, -, t, hinsert, -, -, -, -, -, -, h⟩ := h
  obtain ⟨ownership, -, rfl⟩ := Option.map_eq_some_iff.mp hinsert
  obtain ⟨d', t', hout, h⟩ := Tx.bind_ok.mp h
  simp only [Tx.outside_bind, Tx.pure_ok] at h
  obtain ⟨-, -, rfl⟩ := h
  have hs := updateOutcome_settles hout
  refine ⟨?_, ?_, _, .snoc (.refl _) rfl, QuietLog.trans (.snoc (.refl _) rfl) hs.log⟩
  · rw [hs.frame]
    rfl
  · rcases hs.tasks with h | ⟨o, n, h⟩
    · exact .inl h
    · exact .inr ⟨o, n, h.found, h.idle, h.stopped, h.id_eq, h.revision, h.active, h.state,
        h.tasks_eq⟩

/-- What acknowledging a start for the first time found. -/
structure Acknowledges (s : Store) (claim : Option Claim) (receipt : LaunchStartedReceipt)
    (record : AttemptInputRecord) (attempt : Attempt) (task : Task) (target : LaunchTarget) :
    Prop where
  sealed : SealedInput s receipt.operation record
  eligible : ClaimEligible s claim
  attemptRow : s.attempts.find record.attempt = some attempt
  taskRow : s.tasks.find record.inputs.task = some task
  active : task.activeAttempt = some attempt.id
  reserved : attempt.state = .reserved
  retained : attempt.terminationObserved = false
  selected : s.event? receipt.operation.val EventBody.target? = some target
  release : target.version = 2 → ∃ release,
    s.event? receipt.operation.val EventBody.release? = some release ∧ release.target = target

theorem acknowledgeStart_ok {claim : Option Claim} {revision : Nat}
    {receipt : LaunchStartedReceipt} {old d : Delivery} {now : Int}
    (h : acknowledgeStart env claim revision receipt old now s = .ok (d, s')) :
    ∃ record attempt task target, Acknowledges s claim receipt record attempt task target ∧
      PublishesStart s s' receipt old attempt now := by
  simp only [acknowledgeStart, readBinding, readAttempt, readTask, readEvent, Tx.check_bind,
    Tx.require_bind, Tx.find_bind, Tx.ask_bind, readInput_reads.peel, authorizeStart_reads.peel,
    requireGate_reads.peel] at h
  obtain ⟨-, record, hrecord, -, _, hauthorize, profile, -, target, htarget, -, _, hgate, binding,
    -, task, htask, attempt, hattempt, ⟨hactive, hretain, hreserved, -⟩, execution, -, -, -, h⟩ := h
  refine ⟨record, attempt, task, target, ?_, publishStart_ok h⟩
  have hterm : attempt.terminationObserved = false := by
    simpa [Attempt.retainsCapacity] using hretain
  exact ⟨(readInput_ok hrecord).2, (authorizeStart_ok hauthorize).2, hattempt, htask, hactive,
    hreserved, hterm, htarget, (requireGate_ok hgate).2⟩

/-- **The start.** It is the replay of a confirmed receipt, which reads, or a first start. -/
theorem applyLaunchStarted_ok {claim : Option Claim} {expectedHead : Option Nat} {revision : Nat}
    {receipt : LaunchStartedReceipt} {now : Int} {d : Delivery}
    (h : applyLaunchStarted env claim expectedHead revision receipt now s = .ok (d, s')) :
    ∃ old, s.deliveries.find receipt.operation = some old ∧
      ((s.startReplayed old receipt = true ∧ s' = s ∧ d = old) ∨
        ∃ record attempt task target, Acknowledges s claim receipt record attempt task target ∧
          PublishesStart s s' receipt old attempt now) := by
  simp only [applyLaunchStarted, readDelivery, nowCheck_bind, Tx.check_bind, Tx.require_bind,
    Tx.find_bind, Tx.ask_bind, expectHead?_reads.peel] at h
  obtain ⟨-, _, -, -, -, _, -, old, hold, h⟩ := h
  refine ⟨old, hold, ?_⟩
  split at h
  · next hreplay =>
    obtain ⟨rfl, rfl⟩ := Tx.pure_ok.mp h
    exact .inl ⟨hreplay, rfl, rfl⟩
  · exact .inr (acknowledgeStart_ok h)

end Herdr
