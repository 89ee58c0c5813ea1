import Herdr.Store.Delivery

/-!
# Launch evidence

`src/store/launch.rs`: the boundaries that a launch records between its claim and its start.
Each method exists for the holder of the claim and, where it only records an observation, for
anyone who saw the resource (`claim` is then `none`). The claim-carrying workspace and gate
boundaries first run `validate_claim` in a transaction of their own; its answer is
`Outside.validated`.
-/

namespace Herdr

variable [Digests] (env : Outside)

/-- Before writing, the holder of a claim has validated it in an earlier transaction. -/
def priorValidation (claim : Option Claim) : Body Unit :=
  .outside (if claim.isSome then env.validated else none)

/-- `expected_head.is_some_and(|h| head != h)`. -/
def expectHead? : Option Nat → Body Unit
  | some expected => expectHead expected
  | none => pure ()

/-! ## Workspace and layout -/

/-- The shape of a workspace receipt. -/
def LaunchTarget.workspaceReceipt (target : LaunchTarget) (claim : Option Claim) (now : Int) :
    Prop :=
  target.version = 1 ∧ target.supervisor = none ∧
  (claim.all fun c => target.operation = c.operation) ∧
  ¬target.route.workspaceId.isEmpty ∧ ¬target.route.tabId.isEmpty ∧
  ¬target.route.paneId.isEmpty ∧ boundedText target.terminal 512 ∧
  0 ≤ target.observedUnixMs ∧ target.observedUnixMs ≤ now

instance (target : LaunchTarget) (claim : Option Claim) (now : Int) :
    Decidable (target.workspaceReceipt claim now) := by
  unfold LaunchTarget.workspaceReceipt
  infer_instance

/-- The authority under which a workspace boundary is recorded. -/
def authorizeWorkspace (claim : Option Claim) (record : AttemptInputRecord) (delivery : Delivery)
    (layout : Bool) (now : Int) : Body Unit :=
  match claim with
  | some claim => do
    .require (delivery.heldBy claim now) .conflict
    validateUse env claim now
  | none => do
    validateHistoricalConsumption record
    .require (layout = false ∧ (delivery.state = .claimed ∨ delivery.state = .ambiguous)) .conflict

/-- The recorded creation intent is the historical kind that this workspace belongs to. -/
def LaunchCreationIntent.createdWorkspace (intent : LaunchCreationIntent) (target : LaunchTarget)
    (record : AttemptInputRecord) (binding : RuntimeBinding) : Prop :=
  intent.version = 1 ∧ intent.operation = target.operation ∧ intent.attempt = target.attempt ∧
  intent.route.workspaceId.isEmpty ∧ intent.route.tabId.isEmpty ∧ intent.route.paneId.isEmpty ∧
  intent.route.machine.isEmpty ∧ intent.session = target.session ∧
  intent.route.socket = target.route.socket ∧ intent.route.cwd = target.route.cwd ∧
  target.route.machine.isEmpty ∧ intent.route = .fromIdentity binding.identity ∧
  binding.revision = record.inputs.bindingRevision ∧
  Digests.identity binding.identity = record.inputs.bindingDigest

instance (intent : LaunchCreationIntent) (target : LaunchTarget) (record : AttemptInputRecord)
    (binding : RuntimeBinding) : Decidable (intent.createdWorkspace target record binding) := by
  unfold LaunchCreationIntent.createdWorkspace
  infer_instance

/-- A layout is submitted for the very workspace that was recorded. -/
def requireWorkspace (target : LaunchTarget) (layout : Bool) : Body Unit :=
  if layout then do
    let workspace ← readEvent target.operation EventBody.workspace?
    .require (workspace = target) .conflict
  else pure ()

/-- `record_workspace_boundary`. -/
def recordWorkspaceBoundary (claim : Option Claim) (expectedHead : Option Nat)
    (expectedRevision : Nat) (target : LaunchTarget) (layout : Bool) (now : Int) : Body Nat := do
  nowCheck now
  priorValidation env claim
  .check (target.route.validate.mapError .invalid)
  .require (target.workspaceReceipt claim now) (invalid "invalid workspace creation receipt")
  expectHead? expectedHead
  let record ← readInput env target.operation
  .require (record.attempt = target.attempt) .conflict
  let delivery ← readDelivery target.operation
  .require (delivery.revision = expectedRevision ∧ delivery.attempts = 1) .conflict
  authorizeWorkspace env claim record delivery layout now
  let intent ← readEvent target.operation EventBody.creation?
  let binding ← readBinding record.inputs.binding
  .require (intent.createdWorkspace target record binding) .conflict
  let attempt ← readAttempt target.attempt
  .require (attempt.state = .reserved ∧ attempt.retainsCapacity) .conflict
  .require (claim = none → intent.workspaceToken.isSome)
    (invalid "workspace creation lacks recovery marker")
  let kind := if layout then EventKind.launchLayout else .launchWorkspace
  let used ← .ask (·.hasEvent target.operation.val
    [kind, .launchLayout, .launchTarget, .launchStarted])
  .require (used = false) (invalid "workspace boundary already attempted; reconcile without replay")
  requireWorkspace target layout
  logEvent target.operation.val expectedRevision
    (if layout then .launchLayout target else .launchWorkspace target)
  .outside env.fault
  head

/-- `record_launch_workspace`. -/
def recordLaunchWorkspace (claim : Claim) (target : LaunchTarget) (now : Int) : Body Nat :=
  recordWorkspaceBoundary env (some claim) none claim.revision target false now

/-- `record_launch_layout`. -/
def recordLaunchLayout (claim : Claim) (workspace : LaunchTarget) (now : Int) : Body Nat :=
  recordWorkspaceBoundary env (some claim) none claim.revision workspace true now

/-- `observe_launch_workspace`: keeps an observed resource without renewing authority. -/
def observeLaunchWorkspace (target : LaunchTarget) (expectedRevision expectedHead : Nat)
    (now : Int) : Body Nat :=
  recordWorkspaceBoundary env none (some expectedHead) expectedRevision target false now

/-! ## The selected target -/

/-- The shape of a target observation. -/
def LaunchTarget.observation (target : LaunchTarget) (claim : Option Claim) (now : Int) : Prop :=
  ((target.version = 1 ∧ target.supervisor = none) ∨
    (target.version = 2 ∧ target.supervisor.isSome)) ∧
  (claim.all fun c => target.operation = c.operation) ∧
  0 ≤ target.observedUnixMs ∧ target.observedUnixMs ≤ now ∧ now - target.observedUnixMs ≤ 30000 ∧
  target.session.bornNanos < 1000000000 ∧ target.route.machine.isEmpty ∧
  ¬target.route.paneId.isEmpty ∧ boundedText target.terminal 512

instance (target : LaunchTarget) (claim : Option Claim) (now : Int) :
    Decidable (target.observation claim now) := by
  unfold LaunchTarget.observation
  infer_instance

/-- An observed target belongs to the recorded creation intent. -/
def LaunchCreationIntent.admitsTarget (intent : LaunchCreationIntent) (target : LaunchTarget) :
    Prop :=
  intent.version ∈ [1, 2, 3] ∧
  (2 ≤ intent.version → intent.route.workspaceId.isEmpty ∧ intent.workspaceToken = none) ∧
  intent.operation = target.operation ∧ intent.attempt = target.attempt ∧
  intent.session = target.session ∧ intent.route.socket = target.route.socket ∧
  (¬intent.route.workspaceId.isEmpty → intent.route.workspaceId = target.route.workspaceId) ∧
  intent.route.cwd = target.route.cwd

instance (intent : LaunchCreationIntent) (target : LaunchTarget) :
    Decidable (intent.admitsTarget target) := by
  unfold LaunchCreationIntent.admitsTarget
  infer_instance

/-- The authority under which a target is recorded. -/
def authorizeTarget (claim : Option Claim) (record : AttemptInputRecord) (old : Delivery)
    (target : LaunchTarget) (now : Int) : Body Unit :=
  match claim with
  | some claim => do
    .require (old.heldBy claim now) .conflict
    validateUse env claim now
  | none => do
    validateHistoricalConsumption record
    .require (old.attempts = 1 ∧ old.state ≠ .confirmed ∧ target.version = 2) .conflict
    let intent ← readEvent target.operation EventBody.creation?
    .require (intent.admitsTarget target) .conflict

/-- The workspace and target events of an operation that hold exactly this target. -/
def Store.exactTargets (s : Store) (target : LaunchTarget) : Nat :=
  s.events.countP fun e => e.entity = target.operation.val &&
    (e.body = .launchWorkspace target || e.body = .launchTarget target)

/-- A version-2 or version-3 creation owns the worker's pane itself. A legacy workspace receipt
must never authorize the conversion. -/
def directRootOf (creation : LaunchCreationIntent) (target : LaunchTarget)
    (execution : RuntimeRoute) : Body Bool := do
  .require (creation.operation = target.operation ∧ creation.attempt = target.attempt ∧
      creation.session = target.session ∧ creation.route = execution ∧
      creation.workspaceToken = none ∧ ¬target.route.workspaceId.isEmpty ∧
      ¬target.route.tabId.isEmpty) (invalid "direct root differs from prepared creation")
  let legacy ← .ask (·.hasEvent target.operation.val [.launchLayout, .launchWorkspace])
  let same ← .ask fun s => s.exactTargets target = 2 &&
    !s.hasEvent target.operation.val [.launchLayout]
  .require (legacy = true → same = true) (invalid "direct workspace ownership changed")
  pure true

/-- A version-1 creation of a workspace needs the workspace and the layout on record. -/
def historicalRoot (target : LaunchTarget) : Body Bool := do
  let workspace ← readEvent target.operation EventBody.workspace?
  let submitted ← .ask (·.events.any fun e =>
    e.entity = target.operation.val && e.body = .launchLayout workspace)
  .require (submitted = true ∧ workspace.attempt = target.attempt ∧
      workspace.session = target.session ∧
      workspace.route.workspaceId = target.route.workspaceId ∧
      workspace.route.paneId ≠ target.route.paneId)
    (invalid "target does not belong to the created worker workspace")
  pure false

/-- Whether the target is the root pane that its own creation made. -/
def directRoot (binding : RuntimeBinding) (target : LaunchTarget) (execution : RuntimeRoute) :
    Body Bool :=
  if binding.identity.workspaceId.isEmpty ∧ target.version = 2 then do
    let creation ← readEvent target.operation EventBody.creation?
    if creation.version = 2 ∨ creation.version = 3 then directRootOf creation target execution
    else if creation.version = 1 then historicalRoot target
    else throw (invalid "unsupported creation intent")
  else pure false

/-- Another runtime binding records this local pane. -/
def Store.paneTaken (s : Store) (binding : String) (route : RuntimeRoute) : Bool :=
  s.bindings.rows.any fun b => b.id ≠ binding && b.identity.machine = "" &&
    b.identity.socket = route.socket && b.identity.paneId = route.paneId

/-- A retained launch of another operation selected this pane. -/
def Store.paneStaged (s : Store) (target : LaunchTarget) : Bool :=
  s.events.any fun e => e.entity ≠ target.operation.val && (e.body.target?.any fun t =>
    t.route.socket = target.route.socket && t.route.paneId = target.route.paneId &&
      ((s.attempts.find t.attempt).any fun a => !a.terminationObserved))

/-- A direct root is its own workspace receipt. -/
def recordRoot (target : LaunchTarget) (revision : Nat) (direct : Bool) : Body Unit :=
  if direct then logEvent target.operation.val revision (.launchWorkspace target) else pure ()

/-- One operation never replaces its target: the same target again is a read. -/
def selectTarget (target : LaunchTarget) (revision : Nat) (direct : Bool) : Body Nat := do
  let prior ← .ask (·.event? target.operation.val EventBody.target?)
  match prior with
  | some prior =>
    .require (prior = target) (invalid "launch target is immutable after selection")
    head
  | none =>
    recordRoot target revision direct
    logEvent target.operation.val revision (.launchTarget target)
    .outside env.fault
    head

/-- `apply_launch_target`. -/
def applyLaunchTarget (claim : Option Claim) (expectedHead : Option Nat) (expectedRevision : Nat)
    (target : LaunchTarget) (now : Int) : Body Nat := do
  nowCheck now
  .check (target.route.validate.mapError .invalid)
  .require (target.observation claim now) (invalid "invalid launch target observation")
  .require (target.supervisor.all (·.validate)) (invalid "invalid staged supervisor identity")
  expectHead? expectedHead
  let old ← readDelivery target.operation
  .require (old.revision = expectedRevision) .conflict
  let record ← readInput env target.operation
  .require (record.attempt = target.attempt) .conflict
  authorizeTarget env claim record old target now
  let binding ← readBinding record.inputs.binding
  let attempt ← readAttempt target.attempt
  .require (binding.revision = record.inputs.bindingRevision ∧
      Digests.identity binding.identity = record.inputs.bindingDigest ∧
      attempt.state = .reserved ∧ attempt.retainsCapacity) .conflict
  let execution ← .check (env.executionRoute record binding)
  .require (binding.identity.worktreePath.isEmpty ∧ binding.identity.machine.isEmpty ∧
      target.route.socket = binding.identity.socket ∧ target.route.cwd = execution.1.cwd ∧
      (¬binding.identity.workspaceId.isEmpty →
        target.route.workspaceId = binding.identity.workspaceId) ∧
      (¬binding.identity.tabId.isEmpty → target.route.tabId = binding.identity.tabId))
    (invalid "launch target differs from prepared local execution")
  let direct ← directRoot binding target execution.1
  let taken ← .ask (·.paneTaken binding.id target.route)
  .require (taken = false) (invalid "launch target belongs to another runtime binding")
  let staged ← .ask (·.paneStaged target)
  .require (staged = false) (invalid "launch target belongs to another retained launch")
  selectTarget env target old.revision direct

/-- `record_launch_target`. -/
def recordLaunchTarget (claim : Claim) (target : LaunchTarget) (now : Int) : Body Nat :=
  applyLaunchTarget env (some claim) none claim.revision target now

/-- `observe_launch_target`. -/
def observeLaunchTarget (target : LaunchTarget) (expectedRevision expectedHead : Nat)
    (now : Int) : Body Nat :=
  applyLaunchTarget env none (some expectedHead) expectedRevision target now

/-! ## Gate release and naming -/

/-- The shape of a gate observation. -/
def LaunchReleaseIntent.observation (intent : LaunchReleaseIntent) (claim : Claim) (now : Int) :
    Prop :=
  intent.version = 1 ∧ intent.target.version = 2 ∧ intent.target.operation = claim.operation ∧
  intent.target.observedUnixMs ≤ intent.observedUnixMs ∧ intent.observedUnixMs ≤ now ∧
  now - intent.observedUnixMs ≤ 30000

instance (intent : LaunchReleaseIntent) (claim : Claim) (now : Int) :
    Decidable (intent.observation claim now) := by
  unfold LaunchReleaseIntent.observation
  infer_instance

/-- Naming follows the release of the same target. -/
def requireRelease (intent : LaunchReleaseIntent) (operation : OperationId) (naming : Bool) :
    Body Unit :=
  if naming then do
    let release ← readEvent operation EventBody.release?
    .require (release.version = 1 ∧ release.target = intent.target ∧
      release.observedUnixMs ≤ intent.observedUnixMs) .conflict
  else pure ()

/-- The creation intent belongs to the claim, its attempt and the selected session. -/
def LaunchCreationIntent.admitsGate (creation : LaunchCreationIntent) (claim : Claim)
    (record : AttemptInputRecord) (target : LaunchTarget) (execution : RuntimeRoute) : Prop :=
  creation.version ∈ [1, 2, 3] ∧
  (2 ≤ creation.version → creation.route.workspaceId.isEmpty ∧ creation.workspaceToken = none) ∧
  creation.operation = claim.operation ∧ creation.attempt = record.attempt ∧
  creation.session = target.session ∧ creation.route = execution

instance (creation : LaunchCreationIntent) (claim : Claim) (record : AttemptInputRecord)
    (target : LaunchTarget) (execution : RuntimeRoute) :
    Decidable (creation.admitsGate claim record target execution) := by
  unfold LaunchCreationIntent.admitsGate
  infer_instance

/-- `record_launch_boundary`. -/
def recordLaunchBoundary (claim : Claim) (intent : LaunchReleaseIntent) (now : Int)
    (naming : Bool) : Body Nat := do
  priorValidation env (some claim)
  .require (intent.observation claim now) (invalid "invalid gate release observation")
  let supervisor ← .find (fun _ => intent.target.supervisor) .conflict
  .require supervisor.validate (invalid "invalid gate supervisor identity")
  let delivery ← readDelivery claim.operation
  .require (delivery.heldBy claim now) .conflict
  validateUse env claim now
  let record ← readInput env claim.operation
  .require (record.attempt = intent.target.attempt) .conflict
  let binding ← readBinding record.inputs.binding
  let attempt ← readAttempt record.attempt
  let task ← readTask record.inputs.task
  let owned ← .ask (·.ownership.find binding.id)
  .require (binding.revision = record.inputs.bindingRevision ∧
      Digests.identity binding.identity = record.inputs.bindingDigest ∧ owned = none ∧
      attempt.state = .reserved ∧ attempt.retainsCapacity ∧
      task.activeAttempt = some record.attempt) .conflict
  let target ← readEvent claim.operation EventBody.target?
  .require (target = intent.target) .conflict
  let creation ← readEvent claim.operation EventBody.creation?
  let execution ← .check (env.executionRoute record binding)
  .require (creation.admitsGate claim record intent.target execution.1) .conflict
  requireRelease intent claim.operation naming
  let kind := if naming then EventKind.launchName else .launchRelease
  let used ← .ask (·.hasEvent claim.operation.val [kind, .launchStarted])
  .require (used = false) (invalid "launch boundary already attempted; observation required")
  logEvent claim.operation.val claim.revision
    (if naming then .launchName intent else .launchRelease intent)
  .outside env.fault
  head

/-- `record_launch_release`: consumes the sole gate-input opportunity. -/
def recordLaunchRelease (claim : Claim) (intent : LaunchReleaseIntent) (now : Int) : Body Nat :=
  recordLaunchBoundary env claim intent now false

/-- `record_launch_name`. -/
def recordLaunchName (claim : Claim) (intent : LaunchReleaseIntent) (now : Int) : Body Nat :=
  recordLaunchBoundary env claim intent now true

/-! ## The start acknowledgment -/

/-- `worker_agent_name`. -/
def workerAgentName (attempt : AttemptId) : String :=
  "hp-" ++ String.ofList ((Digests.text attempt.val).toList.take 29)

/-- The shape of a start receipt. -/
def LaunchStartedReceipt.acknowledgment (receipt : LaunchStartedReceipt) (claim : Option Claim)
    (now : Int) : Prop :=
  ((receipt.version = 1 ∧ receipt.supervisor = none) ∨
    (receipt.version = 2 ∧ receipt.supervisor.isSome)) ∧
  (claim.all fun c => receipt.operation = c.operation) ∧
  0 ≤ receipt.observedUnixMs ∧ receipt.observedUnixMs ≤ now ∧
  now - receipt.observedUnixMs ≤ 30000 ∧ receipt.session.bornNanos < 1000000000 ∧
  boundedText receipt.terminal 512 ∧ boundedText receipt.agent.name 512 ∧
  ¬receipt.route.paneId.isEmpty ∧ receipt.route.machine.isEmpty

instance (receipt : LaunchStartedReceipt) (claim : Option Claim) (now : Int) :
    Decidable (receipt.acknowledgment claim now) := by
  unfold LaunchStartedReceipt.acknowledgment
  infer_instance

/-- The receipt is about the selected target, under the same supervisor when it is gated. -/
def LaunchStartedReceipt.ofTarget (receipt : LaunchStartedReceipt) (target : LaunchTarget) : Prop :=
  ((target.version = 1 ∧ target.supervisor = none) ∨
    (target.version = 2 ∧ target.supervisor.isSome)) ∧
  target.attempt = receipt.attempt ∧ target.operation = receipt.operation ∧
  target.route = receipt.route ∧ target.session = receipt.session ∧
  target.terminal = receipt.terminal ∧
  (target.version = 2 → receipt.version = 2 ∧ target.supervisor = receipt.supervisor) ∧
  target.observedUnixMs ≤ receipt.observedUnixMs

instance (receipt : LaunchStartedReceipt) (target : LaunchTarget) :
    Decidable (receipt.ofTarget target) := by
  unfold LaunchStartedReceipt.ofTarget
  infer_instance

/-- The authority under which a start is acknowledged. Expired or revoked authority must not
erase a worker that already exists. -/
def authorizeStart (claim : Option Claim) (record : AttemptInputRecord) (old : Delivery)
    (receipt : LaunchStartedReceipt) (now : Int) : Body Unit :=
  match claim with
  | some claim => do
    .require (old.heldBy claim now) .conflict
    validateUse env claim now
  | none => do
    let released ← .ask (·.hasEvent receipt.operation.val [.launchRelease])
    .require (old.attempts = 1 ∧ (old.state = .ambiguous ∨
      (old.state = .claimed ∧ receipt.version = 2 ∧ released = true))) .conflict
    validateHistoricalConsumption record

/-- A gated start needs the release of its very target. -/
def requireGate (target : LaunchTarget) (receipt : LaunchStartedReceipt) : Body Unit :=
  if target.version = 2 then do
    let release ← .find (·.event? receipt.operation.val EventBody.release?)
      (invalid "gated launch has no durable release intent")
    .require (release.version = 1 ∧ release.target = target ∧
      target.observedUnixMs ≤ release.observedUnixMs ∧
      release.observedUnixMs ≤ receipt.observedUnixMs)
      (invalid "start observation does not match the gate release")
  else pure ()

/-- The binding that a start publishes. -/
def RuntimeBinding.launched (binding : RuntimeBinding) (receipt : LaunchStartedReceipt)
    (threadDir : String) (worktree : Option WorktreeReceipt) : RuntimeBinding :=
  { binding with
    revision := binding.revision + 1
    identity := { binding.identity with
      workspaceId := receipt.route.workspaceId
      tabId := receipt.route.tabId
      paneId := receipt.route.paneId
      agent := receipt.agent.kind
      agentName := receipt.agent.name
      cwd := receipt.route.cwd
      threadDir := threadDir
      repo := (worktree.map (·.repository)).getD binding.identity.repo
      branch := (worktree.map (·.branch)).getD binding.identity.branch
      worktreePath := (worktree.map (·.path)).getD binding.identity.worktreePath } }

/-- The largest ownership revision ever recorded for a binding. -/
def Store.ownershipRevision (s : Store) (binding : String) : Nat :=
  ((s.events.filter (·.isAbout binding [.runtimeAdopted, .runtimeLaunched])).map
    (·.revision)).foldl max 0

/-- The ownership that a start publishes, for the binding as it leaves it. -/
def LaunchStartedReceipt.ownership (receipt : LaunchStartedReceipt) (record : AttemptInputRecord)
    (binding : RuntimeBinding) (worktree : Option WorktreeReceipt) (revision : Nat) :
    RuntimeOwnership where
  binding := binding.id
  revision := revision
  bindingRevision := binding.revision
  identityDigest := Digests.identity binding.identity
  origin := .launched
  attempt := some receipt.attempt
  session := some receipt.session
  worktree := worktree.map (·.directory)
  agent := some receipt.agent
  configDigest := record.inputs.config.digest
  observedUnixMs := receipt.observedUnixMs

/-- Publish the started worker: binding, ownership, attempt, receipt and outcome together. -/
def publishStart (claim : Option Claim) (record : AttemptInputRecord) (old : Delivery)
    (receipt : LaunchStartedReceipt) (binding : RuntimeBinding) (attempt : Attempt)
    (worktree : Option WorktreeReceipt) (now : Int) : Body Delivery := do
  let _ ← next binding.revision .conflict
  let threadDir ← .check (env.workerOutputPath record)
  let binding := binding.launched receipt threadDir worktree
  integer binding.revision
  .write fun s => { s with bindings := s.bindings.update binding }
  let previous ← .ask (·.ownershipRevision binding.id)
  let revision ← next previous .conflict
  let owned := receipt.ownership record binding worktree revision
  .insert (fun s => (s.ownership.insert? owned).map fun t => { s with ownership := t }) .conflict
  let _ ← next attempt.revision .conflict
  let attempt := { attempt with revision := attempt.revision + 1, state := .launching }
  updateAttempt attempt
  .outside env.subsidiary
  logEvent binding.id owned.revision (.runtimeLaunched owned)
  logEvent receipt.operation.val old.revision (.launchStarted receipt)
  logEvent attempt.id.val attempt.revision (.attemptChanged attempt)
  let result ← updateOutcome env old (.confirmed receipt.toJson) now
    ((claim.map (·.owner)).getD "launch-recovery")
  .outside env.fault
  pure result

/-- The part of `apply_launch_started` that records a start for the first time. -/
def acknowledgeStart (claim : Option Claim) (expectedRevision : Nat)
    (receipt : LaunchStartedReceipt) (old : Delivery) (now : Int) : Body Delivery := do
  .require (old.revision = expectedRevision) .conflict
  let record ← readInput env receipt.operation
  .require (record.attempt = receipt.attempt) .conflict
  authorizeStart env claim record old receipt now
  let profile ← .find (fun _ => record.inputs.effectiveProfile) .conflict
  let target ← readEvent receipt.operation EventBody.target?
  .require (receipt.ofTarget target)
    (invalid "launch acknowledgment differs from the selected target incarnation")
  requireGate target receipt
  let binding ← readBinding record.inputs.binding
  let task ← readTask record.inputs.task
  let attempt ← readAttempt record.attempt
  let owned ← .ask (·.ownership.find binding.id)
  .require (task.activeAttempt = some attempt.id ∧ attempt.retainsCapacity ∧
      attempt.state = .reserved ∧ binding.revision = record.inputs.bindingRevision ∧
      Digests.identity binding.identity = record.inputs.bindingDigest ∧ owned = none) .conflict
  let execution ← .check (env.executionRoute record binding)
  .require (binding.identity.worktreePath.isEmpty ∧ binding.identity.machine.isEmpty ∧
      receipt.agent.kind = profile.kind ∧ receipt.agent.name = workerAgentName record.attempt ∧
      receipt.route.socket = binding.identity.socket ∧ receipt.route.cwd = execution.1.cwd ∧
      (¬binding.identity.workspaceId.isEmpty →
        receipt.route.workspaceId = binding.identity.workspaceId) ∧
      (¬binding.identity.tabId.isEmpty → receipt.route.tabId = binding.identity.tabId))
    (invalid "launch acknowledgment differs from prepared local execution")
  let taken ← .ask (·.paneTaken binding.id receipt.route)
  .require (taken = false) (invalid "launch pane belongs to another runtime binding")
  publishStart env claim record old receipt binding attempt execution.2 now

/-- The receipt is already the confirmed outcome of its operation. -/
def Store.startReplayed (s : Store) (old : Delivery) (receipt : LaunchStartedReceipt) : Bool :=
  old.state = .confirmed && old.lastOutcome = some (.confirmed receipt.toJson) &&
    s.hasStartedReceipt receipt.operation receipt.toJson

/-- `apply_launch_started`. Exact receipt replay is read-only and cannot resurrect a later
state. -/
def applyLaunchStarted (claim : Option Claim) (expectedHead : Option Nat) (expectedRevision : Nat)
    (receipt : LaunchStartedReceipt) (now : Int) : Body Delivery := do
  nowCheck now
  .check (receipt.route.validate.mapError .invalid)
  .require (receipt.acknowledgment claim now) (invalid "invalid local launch acknowledgment")
  .require (receipt.supervisor.all (·.validate)) (invalid "invalid supervisor incarnation")
  expectHead? expectedHead
  let old ← readDelivery receipt.operation
  let replayed ← .ask (·.startReplayed old receipt)
  if replayed then pure old else acknowledgeStart env claim expectedRevision receipt old now

/-- `record_launch_started`. -/
def recordLaunchStarted (claim : Claim) (receipt : LaunchStartedReceipt) (now : Int) :
    Body Delivery :=
  applyLaunchStarted env (some claim) none claim.revision receipt now

/-- `observe_launch_started`. -/
def observeLaunchStarted (receipt : LaunchStartedReceipt) (expectedRevision expectedHead : Nat)
    (now : Int) : Body Delivery :=
  applyLaunchStarted env none (some expectedHead) expectedRevision receipt now

/-- `continue_worktree_launch_creation`: advances the existing worktree claim, and never consumes
approval twice. -/
def continueWorktreeLaunchCreation (claim : Claim) (intent : LaunchCreationIntent) (now : Int) :
    Body Unit := do
  priorValidation env (some claim)
  .require (claim.owner = "canonical-worktree-adapter") .conflict
  let ready ← .ask (·.hasEvent claim.operation.val [.worktreesReady])
  .require (ready = true) (invalid "worktree launch has no complete receipt")
  recordCreation env claim intent now
  .outside env.fault

end Herdr
