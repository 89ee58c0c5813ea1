import Herdr.Domain.Records

/-!
# Runtime bindings and launch evidence

The records of `src/domain/runtime.rs`, `src/domain/ownership.rs`, `src/domain/launch.rs` and
`src/worker_supervision.rs`. A prepared value of the source wraps exactly one of these records;
the wrapper only restricts who may build it, so the model passes the record.
-/

namespace Herdr

structure ResourceIdentity where
  device : Nat
  inode : Nat
  bornSecs : Nat
  bornNanos : Nat
deriving DecidableEq, Repr

structure AgentIdentity where
  kind : String
  name : String
deriving DecidableEq, Repr

structure RuntimeIdentity where
  machine : String
  socket : String
  workspaceId : String
  tabId : String
  paneId : String
  cwd : String
  repo : String
  branch : String
  worktreePath : String
  threadDir : String
  agent : String
  agentName : String
  legacyStatus : String
  executionFingerprint : Option String
deriving DecidableEq, Repr

structure RuntimeBinding where
  id : String
  task : Option TaskId
  /-- Revision of this runtime record, not of the task. -/
  revision : Nat
  identity : RuntimeIdentity
deriving DecidableEq, Repr

/-- `RuntimeOwnership.origin`. -/
inductive OwnershipOrigin where
  | adopted | launched
deriving DecidableEq, Repr

structure RuntimeOwnership where
  binding : String
  revision : Nat
  bindingRevision : Nat
  identityDigest : String
  origin : OwnershipOrigin
  attempt : Option AttemptId
  session : Option ResourceIdentity
  worktree : Option ResourceIdentity
  agent : Option AgentIdentity
  configDigest : Option String
  observedUnixMs : Int
deriving DecidableEq, Repr

structure RuntimeRoute where
  machine : String
  socket : String
  workspaceId : String
  tabId : String
  paneId : String
  cwd : String
deriving DecidableEq, Repr

def RuntimeRoute.fromIdentity (identity : RuntimeIdentity) : RuntimeRoute where
  machine := identity.machine
  socket := identity.socket
  workspaceId := identity.workspaceId
  tabId := identity.tabId
  paneId := identity.paneId
  cwd := identity.cwd

/-- `RuntimeRoute::validate`; the first failing rule names the error. -/
def RuntimeRoute.validate (route : RuntimeRoute) : Except String Unit :=
  let fields := [route.machine, route.socket, route.workspaceId, route.tabId, route.paneId,
    route.cwd]
  if fields.any fun v => v.utf8ByteSize > 4096 || hasControl v then
    .error "runtime route fields must be bounded and contain no control characters"
  else if [route.socket, route.cwd].any fun v => !v.isEmpty && !isAbsolute v then
    .error "socket and cwd must be absolute or empty"
  else if route.machine.toList.head? = some '-' ||
      !route.machine.toList.all fun c => asciiAlphanumeric c || "._-:@[]".toList.contains c then
    .error "invalid machine identifier"
  else if [route.workspaceId, route.tabId, route.paneId].any fun v =>
      !v.toList.all fun c => asciiAlphanumeric c || "-_.:".toList.contains c then
    .error "invalid Herdr identity"
  else if !route.paneId.isEmpty &&
      [route.socket, route.workspaceId, route.tabId, route.cwd].any String.isEmpty then
    .error "a recorded pane requires socket, workspace, tab and cwd"
  else .ok ()

structure ProcessIncarnation where
  pid : Nat
  device : Nat
  inode : Nat
deriving DecidableEq, Repr

structure SupervisorIdentity where
  version : Nat
  bootId : String
  hostId : Option String
  observerNamespace : Nat × Nat
  workerNamespace : Nat × Nat
  outer : ProcessIncarnation
  init : ProcessIncarnation
deriving DecidableEq, Repr

structure HostRebootEvidence where
  version : Nat
  hostId : String
  previousBootId : String
  currentBootId : String
deriving DecidableEq, Repr

/-- Exact target selected before agent submission. -/
structure LaunchTarget where
  version : Nat
  attempt : AttemptId
  operation : OperationId
  route : RuntimeRoute
  terminal : String
  session : ResourceIdentity
  supervisor : Option SupervisorIdentity
  observedUnixMs : Int
deriving DecidableEq, Repr

structure LaunchStartedReceipt where
  version : Nat
  attempt : AttemptId
  operation : OperationId
  route : RuntimeRoute
  terminal : String
  session : ResourceIdentity
  agent : AgentIdentity
  supervisor : Option SupervisorIdentity
  observedUnixMs : Int
deriving DecidableEq, Repr

/-- Pre-effect identity of one resource creation request. Version 1 is an existing workspace or a
historical bootstrap, versions 2 and 3 create the workspace with the worker's pane. -/
structure LaunchCreationIntent where
  version : Nat
  operation : OperationId
  attempt : AttemptId
  route : RuntimeRoute
  session : ResourceIdentity
  commandDigest : String
  workspaceToken : Option String
deriving DecidableEq, Repr

/-- One-use boundary committed before gate input, and again before naming. -/
structure LaunchReleaseIntent where
  version : Nat
  target : LaunchTarget
  observedUnixMs : Int
deriving DecidableEq, Repr

structure LaunchStoppedReceipt where
  version : Nat
  target : LaunchTarget
  hostReboot : Option HostRebootEvidence
  observedUnixMs : Int
deriving DecidableEq, Repr

/-- The part of a worktree receipt that a start acknowledgment copies. -/
structure WorktreeReceipt where
  repository : String
  branch : String
  path : String
  directory : ResourceIdentity
deriving DecidableEq, Repr

inductive WorkerTerminationCause where
  | cancellation | processExit | completion
deriving DecidableEq, Repr

structure WorkerTerminationReceipt where
  version : Nat
  attempt : AttemptId
  launch : OperationId
  binding : String
  bindingRevision : Nat
  ownershipRevision : Nat
  supervisor : SupervisorIdentity
  hostReboot : Option HostRebootEvidence
  retainedResources : RuntimeIdentity
  cause : WorkerTerminationCause
  observedUnixMs : Int
deriving DecidableEq, Repr

/-! ## Validation of supervisor identities -/

/-- `SupervisorIdentity::validate`. -/
def SupervisorIdentity.validate (i : SupervisorIdentity) : Bool :=
  ((i.version = 1 && i.hostId.isNone) || (i.version = 2 && i.hostId.any digest64)) &&
    i.bootId.utf8ByteSize = 36 &&
    (i.bootId.toList.zipIdx.all fun (c, n) =>
      if [8, 13, 18, 23].contains n then c = '-' else asciiHex c) &&
    0 < i.observerNamespace.2 && 0 < i.workerNamespace.2 &&
    i.observerNamespace ≠ i.workerNamespace &&
    1 < i.outer.pid && 1 < i.init.pid && i.outer.pid < 2 ^ 31 && i.init.pid < 2 ^ 31 &&
    i.outer.pid ≠ i.init.pid && 0 < i.outer.inode && 0 < i.init.inode &&
    (i.outer.device, i.outer.inode) ≠ (i.init.device, i.init.inode)

/-- `HostRebootEvidence::validate_for`. -/
def HostRebootEvidence.validateFor (e : HostRebootEvidence) (i : SupervisorIdentity) : Bool :=
  i.validate && { i with bootId := e.currentBootId }.validate && e.version = 1 && i.version = 2 &&
    i.hostId = some e.hostId && i.bootId = e.previousBootId && e.currentBootId ≠ e.previousBootId

/-! ## The text of a start receipt

A launch is confirmed by the text of its receipt, so this one record needs its JSON. -/

def ResourceIdentity.toJson (r : ResourceIdentity) : String :=
  Json.object [("device", toString r.device), ("inode", toString r.inode),
    ("born_secs", toString r.bornSecs), ("born_nanos", toString r.bornNanos)]

def RuntimeRoute.toJson (r : RuntimeRoute) : String :=
  Json.object [("machine", Json.string r.machine), ("socket", Json.string r.socket),
    ("workspace_id", Json.string r.workspaceId), ("tab_id", Json.string r.tabId),
    ("pane_id", Json.string r.paneId), ("cwd", Json.string r.cwd)]

def ProcessIncarnation.toJson (p : ProcessIncarnation) : String :=
  Json.object [("pid", toString p.pid), ("device", toString p.device),
    ("inode", toString p.inode)]

def SupervisorIdentity.toJson (i : SupervisorIdentity) : String :=
  Json.object ([("version", toString i.version), ("boot_id", Json.string i.bootId)] ++
    Json.optional "host_id" (i.hostId.map Json.string) ++
    [("observer_namespace", Json.array [toString i.observerNamespace.1,
        toString i.observerNamespace.2]),
      ("worker_namespace", Json.array [toString i.workerNamespace.1,
        toString i.workerNamespace.2]),
      ("outer", i.outer.toJson), ("init", i.init.toJson)])

/-- `serde_json::to_string` of a start receipt. -/
def LaunchStartedReceipt.toJson (r : LaunchStartedReceipt) : String :=
  Json.object ([("version", toString r.version), ("attempt", Json.string r.attempt.val),
      ("operation", Json.string r.operation.val), ("route", r.route.toJson),
      ("terminal", Json.string r.terminal), ("session", r.session.toJson),
      ("agent", Json.object [("kind", Json.string r.agent.kind),
        ("name", Json.string r.agent.name)])] ++
    Json.optional "supervisor" (r.supervisor.map SupervisorIdentity.toJson) ++
    [("observed_unix_ms", toString r.observedUnixMs)])

end Herdr
