import Herdr.Lib.Steps
import Herdr.Store.ReadSets

/-!
# Delivery of memory changes

`src/store/consumer_bindings.rs`, `src/store/memory_delivery.rs`, `src/store/memory_receipts.rs`,
`src/store/update_packages.rs` and `src/store/memory_supersession.rs`. A change is routed to every
active binding as an intent and an obligation of that binding. A worker acknowledges single
changes, a consumer acknowledges immutable packages of its unresolved changes, and a retired
binding hands what is unresolved to its successor.
-/

namespace Herdr.Updates

open Objects (MemoryHead)
open ReadSets (ValidityState MemoryValidity)

/-! ## Tables -/

structure MemorySnapshot where
  id : String
  /-- `none` is the coordinator. -/
  task : Option TaskId
deriving DecidableEq, Repr

structure ConsumerBinding where
  bindingId : String
  consumerId : String
  generation : Nat
  snapshotId : String
  attemptId : Option AttemptId
  taskId : Option TaskId
  active : Bool
  retired : Bool
  successorBindingId : Option String
  appliedCursor : Option String
deriving DecidableEq, Repr

inductive Severity where
  | informational | reconcileBeforeCompletion | stopAtCheckpoint
deriving DecidableEq, Repr

/-- A row of `memory_delivery_intents`; no statement updates it. -/
structure DeliveryIntent where
  id : String
  causeId : String
  subscriber : String
  snapshotId : String
  taskId : Option TaskId
  recordId : String
  revision : Nat
  severity : Severity
  triggeringSeq : Nat
deriving DecidableEq, Repr

structure Obligation where
  bindingId : String
  deliveryId : String
deriving DecidableEq, Repr

def Obligation.key (o : Obligation) : String × String := (o.bindingId, o.deliveryId)

structure Undeliverable where
  bindingId : String
  deliveryId : String
  reason : String
deriving DecidableEq, Repr

def Undeliverable.key (u : Undeliverable) : String × String := (u.bindingId, u.deliveryId)

inductive Disposition where
  | seen | applied
deriving DecidableEq, Repr

/-- `memory_update_receipts`: what a worker declared about one change. -/
structure UpdateReceipt where
  deliveryId : String
  attemptId : AttemptId
  state : Disposition
  manifestHash : String
  sequence : Nat
deriving DecidableEq, Repr

def UpdateReceipt.key (r : UpdateReceipt) : String × AttemptId × Disposition :=
  (r.deliveryId, r.attemptId, r.state)

/-- `memory_change_receipts`: what a consumer declared through a package. -/
structure ChangeReceipt where
  bindingId : String
  changeId : String
  disposition : Disposition
  generation : Nat
  packageId : String
  sequence : Nat
deriving DecidableEq, Repr

def ChangeReceipt.key (r : ChangeReceipt) : String × String × Disposition :=
  (r.bindingId, r.changeId, r.disposition)

/-- A package with its members in the order of their positions. -/
structure UpdatePackage where
  packageId : String
  bindingId : String
  consumerBindingGeneration : Nat
  manifestHash : String
  changeIds : List String
deriving DecidableEq, Repr

structure UpdatePackageAck where
  schemaVersion : Nat
  packageId : String
  manifestHash : String
  changeIds : List String
  disposition : Disposition
deriving DecidableEq, Repr

/-- A `memory.package_ack` event of its package. -/
structure AckEvent where
  sequence : Nat
  ack : UpdatePackageAck
deriving DecidableEq, Repr

structure Supersession where
  bindingId : String
  changeId : String
  attemptId : AttemptId
  replacementChangeId : String
  replacementManifestHash : String
  reason : String
  generation : Nat
  replacementReceiptSequence : Nat
  sequence : Nat
deriving DecidableEq, Repr

def Supersession.key (s : Supersession) : String × String := (s.bindingId, s.changeId)

structure WorkerChangeReceipt where
  changeId : String
  manifestHash : String
  sequence : Nat
deriving DecidableEq, Repr

/-- A row of `worker_package_acknowledgments` with the evidence of its event. -/
structure WorkerPackageAcknowledgment where
  packageId : String
  attemptId : AttemptId
  disposition : Disposition
  packageReceiptSequence : Nat
  evidenceSequence : Nat
  receipts : List WorkerChangeReceipt
deriving DecidableEq, Repr

def WorkerPackageAcknowledgment.key (w : WorkerPackageAcknowledgment) :
    String × AttemptId × Disposition := (w.packageId, w.attemptId, w.disposition)

structure RevisionBody where
  recordId : String
  revision : Nat
  bodyHash : String
deriving DecidableEq, Repr

def RevisionBody.key (r : RevisionBody) : String × Nat := (r.recordId, r.revision)

structure Routing where
  /-- The number of events. -/
  head : Nat
  tasks : Table Task Task.id
  attempts : Table Attempt Attempt.id
  snapshots : Table MemorySnapshot MemorySnapshot.id
  revisions : Table RevisionBody RevisionBody.key
  heads : Table MemoryHead MemoryHead.recordId
  validity : Table MemoryValidity MemoryValidity.key
  bindings : Table ConsumerBinding ConsumerBinding.bindingId
  intents : Table DeliveryIntent DeliveryIntent.id
  obligations : Table Obligation Obligation.key
  undeliverable : Table Undeliverable Undeliverable.key
  updateReceipts : Table UpdateReceipt UpdateReceipt.key
  changeReceipts : Table ChangeReceipt ChangeReceipt.key
  packages : Table UpdatePackage UpdatePackage.packageId
  /-- The `memory.package_ack` events, in sequence order. -/
  acks : List AckEvent
  workerAcks : Table WorkerPackageAcknowledgment WorkerPackageAcknowledgment.key
  supersessions : Table Supersession Supersession.key
deriving DecidableEq

def Routing.created : Routing :=
  ⟨0, .empty, .empty, .empty, .empty, .empty, .empty, .empty, .empty, .empty, .empty, .empty, .empty,
    .empty, [], .empty, .empty⟩

abbrev RoutingTx (α : Type) := Tx Routing StoreError α

def obligationRows : Tx.Column Routing Obligation.key where
  get := (·.obligations)
  put := fun t db => { db with obligations := t }
  get_put := fun _ _ => rfl
  put_put := fun _ _ _ => rfl
  put_get := fun _ => rfl

def undeliverableRows : Tx.Column Routing Undeliverable.key where
  get := (·.undeliverable)
  put := fun t db => { db with undeliverable := t }
  get_put := fun _ _ => rfl
  put_put := fun _ _ _ => rfl
  put_get := fun _ => rfl

def changeReceiptRows : Tx.Column Routing ChangeReceipt.key where
  get := (·.changeReceipts)
  put := fun t db => { db with changeReceipts := t }
  get_put := fun _ _ => rfl
  put_put := fun _ _ _ => rfl
  put_get := fun _ => rfl

structure Member where
  changeId : String
  recordId : String
  revision : Nat
  bodyHash : String
  severity : Severity
  triggeringSeq : Nat
  snapshotId : String
deriving DecidableEq, Repr

/-- SHA-256 over the identities that the source hashes, as lowercase hexadecimal. -/
class UpdateDigests where
  /-- `binding_identity`. -/
  binding : String → Nat → String → String
  /-- The identity of an intent. -/
  delivery : String → String → String → String → Nat → String
  /-- The manifest of a single change for one attempt. -/
  update : AttemptId → Member → String
  /-- `package_identity`. -/
  package : String → Nat → List String → String
  /-- `manifest_hash`. -/
  manifest : String → Nat → List Member → String

/-- What a call reads outside these tables. -/
structure Outside where
  /-- `affected`: a change concerns the reader of a snapshot. -/
  affected : String → Option TaskId → String → Nat → Bool := fun _ _ _ _ => true
  /-- The record is neither hard nor of a mandatory kind. -/
  optional : String → Bool := fun _ => true
  /-- The body is available and the dependencies of a revision are current. -/
  current : String → Nat → Bool := fun _ _ => true
  /-- A full disk, an exhausted budget or another table refused. -/
  fault : Option StoreError := none

def invalid (message : String) : StoreError := .invalid message

/-- `hex64`. -/
def hex64 (value : String) : Bool := value.utf8ByteSize = 64 && value.toList.all asciiHex

def insertEvent : RoutingTx Nat := do
  .write fun db => { db with head := db.head + 1 }
  .ask (·.head)

/-! ## Bindings -/

section Bindings

variable [UpdateDigests]

/-- The attempt is live on this snapshot. -/
def Attempt.reads (attempt : Attempt) (task : TaskId) (snapshot : String) : Bool :=
  attempt.task = task && attempt.snapshot = some snapshot && !attempt.terminationObserved &&
    (attempt.state = .reserved || attempt.state = .launching || attempt.state = .running ||
      attempt.state = .awaitingInput)

def TaskState.ended : TaskState → Bool
  | .succeeded | .failed | .cancelled => true
  | _ => false

/-- `route_state` of a stored snapshot. -/
def Routing.routeState (db : Routing) (snapshot : MemorySnapshot) : Bool × Option AttemptId :=
  match snapshot.task with
  | none => (true, none)
  | some id =>
    match db.tasks.find id with
    | none => (false, none)
    | some task =>
      if TaskState.ended task.state then (false, none)
      else match task.activeAttempt with
        | none => (true, none)
        | some active =>
          if (db.attempts.find active).any (Attempt.reads · id snapshot.id) then (true, some active)
          else (false, none)

/-- The generation that the next binding of a consumer has. -/
def Routing.nextGeneration (db : Routing) (consumer : String) : Nat :=
  ((db.bindings.rows.filter fun b => b.consumerId = consumer).map (·.generation)).foldr max 0 + 1

/-- `ensure_for_snapshot` of a snapshot that was just inserted. -/
def ensureForSnapshot (consumer : String) (snapshot : MemorySnapshot) : RoutingTx Unit := do
  let existing ← .ask fun db => db.bindings.rows.any fun b => b.snapshotId = snapshot.id
  if existing then pure ()
  else do
    let generation ← .ask (·.nextGeneration consumer)
    let route ← .ask (·.routeState snapshot)
    .require (1 ≤ consumer.utf8ByteSize ∧ consumer.utf8ByteSize ≤ 256 ∧ snapshot.id ≠ "")
      (invalid "invalid consumer binding")
    .insert (fun db => (db.bindings.insert? {
        bindingId := UpdateDigests.binding consumer generation snapshot.id
        consumerId := consumer
        generation := generation
        snapshotId := snapshot.id
        attemptId := if snapshot.task.isSome then route.2 else none
        taskId := snapshot.task
        active := route.1
        retired := false
        successorBindingId := none
        appliedCursor := none }).map fun bindings => { db with bindings := bindings }) .conflict

/-- The snapshot and the binding that `create_memory_snapshot` inserts. The same snapshot again is
a read. -/
def createMemorySnapshot (consumer : String) (snapshot : MemorySnapshot) (env : Outside) :
    RoutingTx Unit := do
  .outside env.fault
  let existing ← .ask fun db => (db.snapshots.find snapshot.id).isSome
  if existing then pure ()
  else do
    .insert (fun db => (db.snapshots.insert? snapshot).map fun snapshots =>
      { db with snapshots := snapshots }) .conflict
    ensureForSnapshot consumer snapshot

/-- What `reconcile_active` makes of one binding. -/
def Routing.reconciled (db : Routing) (b : ConsumerBinding) : ConsumerBinding :=
  if b.retired then b
  else match db.snapshots.find b.snapshotId with
    | none => b
    | some snapshot =>
      let route := db.routeState snapshot
      { b with
        active := route.1
        attemptId := if b.attemptId.isNone ∧ b.taskId.isSome then route.2 else b.attemptId }

omit [UpdateDigests] in
theorem Routing.reconciled_bindingId (db : Routing) (b : ConsumerBinding) :
    (db.reconciled b).bindingId = b.bindingId := by
  unfold Routing.reconciled
  split
  · rfl
  · split <;> rfl

/-- The change `f` of the bindings that `p` selects. -/
def selecting (p : ConsumerBinding → Bool) (f : ConsumerBinding → ConsumerBinding)
    (b : ConsumerBinding) : ConsumerBinding := if p b then f b else b

omit [UpdateDigests] in
theorem selecting_bindingId {p : ConsumerBinding → Bool} {f : ConsumerBinding → ConsumerBinding}
    (hf : ∀ b, (f b).bindingId = b.bindingId) (b : ConsumerBinding) :
    (selecting p f b).bindingId = b.bindingId := by
  unfold selecting
  split
  · exact hf b
  · rfl

/-- An UPDATE of `consumer_bindings`; its identity is fixed. -/
def Routing.modifyBindings (db : Routing) (p : ConsumerBinding → Bool)
    (f : ConsumerBinding → ConsumerBinding) (hf : ∀ b, (f b).bindingId = b.bindingId) : Routing :=
  { db with bindings := db.bindings.modify (selecting p f) (selecting_bindingId hf) }

/-- `reconcile_selected`: all bindings, or those of one task. -/
def reconcileSelected (task : Option TaskId) : RoutingTx Unit :=
  .write fun db => db.modifyBindings (fun b => task.all fun t => b.taskId = some t) db.reconciled
    db.reconciled_bindingId

/-- `reconcile_active`. -/
def reconcileActive : RoutingTx Unit := reconcileSelected none

/-! ## Routing of changes -/

/-- `active_binding_recipients`. -/
def Routing.recipients (db : Routing) : List ConsumerBinding :=
  (db.bindings.rows.filter fun b => b.active && (db.snapshots.find b.snapshotId).isSome).insertionSort
    fun a b => a.consumerId < b.consumerId ∨ (a.consumerId = b.consumerId ∧ a.generation ≤ b.generation)

/-- The intent of a change for one recipient. -/
def intentFor (b : ConsumerBinding) (task : Option TaskId) (cause record : String) (revision : Nat)
    (severity : Severity) (sequence : Nat) : DeliveryIntent where
  id := UpdateDigests.delivery cause b.consumerId b.snapshotId record revision
  causeId := cause
  subscriber := b.consumerId
  snapshotId := b.snapshotId
  taskId := task
  recordId := record
  revision := revision
  severity := severity
  triggeringSeq := sequence

/-- A new row of `consumer_binding_obligations`. -/
def oblige (binding delivery : String) : RoutingTx Unit :=
  obligationRows.insert ⟨binding, delivery⟩ .conflict

/-- One recipient of a change: its intent, which references a stored revision, and its
obligation. -/
def deliver (cause record : String) (revision : Nat) (severity : Severity) (sequence : Nat)
    (env : Outside) (b : ConsumerBinding) : RoutingTx Unit := do
  let snapshot ← .find (·.snapshots.find b.snapshotId) .noRows
  if env.affected snapshot.id snapshot.task record revision then do
    let intent := intentFor b snapshot.task cause record revision severity sequence
    .insert (fun db =>
      if (db.revisions.find (record, revision)).isNone then none
      else (db.intents.insert? intent).map fun intents => { db with intents := intents }) .conflict
    oblige b.bindingId intent.id
  else pure ()

/-- `record_change`. -/
def recordChange (cause record : String) (revision : Nat) (severity : Severity) (sequence : Nat)
    (env : Outside) : RoutingTx Unit := do
  reconcileActive
  let recipients ← .ask Routing.recipients
  .require (recipients.length ≤ 10000)
    (.limit "memory routing exceeds 10000 recipients; promotion not committed")
  Tx.forEach (deliver cause record revision severity sequence env) recipients
  .outside env.fault

/-! ## Acknowledgements of single changes -/

structure MemoryUpdateAck where
  schemaVersion : Nat
  deliveryId : String
  attemptId : AttemptId
  state : Disposition
  manifestHash : String
deriving DecidableEq, Repr

/-- The row of a change as it is sent. -/
def Routing.member (db : Routing) (d : DeliveryIntent) : Option Member :=
  (db.revisions.find (d.recordId, d.revision)).map fun v =>
    ⟨d.id, d.recordId, d.revision, v.bodyHash, d.severity, d.triggeringSeq, d.snapshotId⟩

/-- The attempt is the running one of its task. -/
def Routing.liveAttempt (db : Routing) (task : TaskId) (attempt : AttemptId) : Option Attempt :=
  ((db.tasks.find task).filter fun t =>
      t.activeAttempt = some attempt && !TaskState.ended t.state).bind fun _ =>
    (db.attempts.find attempt).filter fun a => a.task = task && !a.terminationObserved &&
      (a.state = .running || a.state = .awaitingInput)

/-- `memory_receipts::update`: only the live attempt that started from the snapshot. -/
def Routing.update (db : Routing) (delivery : String) (attempt : AttemptId) :
    Option (DeliveryIntent × Member) := do
  let d ← db.intents.find delivery
  let task ← d.taskId
  let live ← db.liveAttempt task attempt
  if live.snapshot = some d.snapshotId then do
    let member ← db.member d
    pure (d, member)
  else none

/-- The revision is the active, valid head of its record and has not expired. -/
def Routing.eligible (db : Routing) (record : String) (revision : Nat) (now : Int) : Bool :=
  ((db.heads.find record).any fun h => h.revision = revision && h.active) &&
    (db.validity.find (record, revision)).any fun v =>
      v.state = .valid && v.expiryUnixMs.all fun expiry => now < expiry

/-- `acknowledge_memory_update`. -/
def acknowledgeMemoryUpdate (ack : MemoryUpdateAck) (now : Int) : RoutingTx Nat := do
  .require (ack.schemaVersion = 1) (invalid "unsupported memory acknowledgment version or state")
  let item ← .find (·.update ack.deliveryId ack.attemptId)
    (invalid "update does not belong to the current live attempt and snapshot")
  .require (ack.manifestHash = UpdateDigests.update ack.attemptId item.2)
    (invalid "memory acknowledgment digest mismatch")
  let existing ← .ask fun db => (db.updateReceipts.find (ack.deliveryId, ack.attemptId, ack.state)).filter
    fun r => r.manifestHash = ack.manifestHash
  match existing with
  | some receipt => pure receipt.sequence
  | none => do
    let seen ← .ask fun db => (db.updateReceipts.find (ack.deliveryId, ack.attemptId, .seen)).any
      fun r => r.manifestHash = ack.manifestHash
    .require (ack.state = .applied → seen = true)
      (invalid "explicit seen acknowledgment required before applied")
    let current ← .ask (·.eligible item.1.recordId item.1.revision now)
    .require (ack.state = .applied → current = true)
      (invalid "cannot apply a superseded or invalid memory revision; pull the current update")
    let sequence ← insertEvent
    .insert (fun db => (db.updateReceipts.insert?
      ⟨ack.deliveryId, ack.attemptId, ack.state, ack.manifestHash, sequence⟩).map
        fun receipts => { db with updateReceipts := receipts }) .conflict
    pure sequence

/-! ## Packages -/

/-- The binding has an applied receipt of the change. -/
def Routing.appliedBy (db : Routing) (binding change : String) : Bool :=
  (db.changeReceipts.find (binding, change, .applied)).isSome

def Routing.supersededBy (db : Routing) (binding change : String) : Bool :=
  (db.supersessions.find (binding, change)).isSome

/-- The changes of a binding that it neither applied nor superseded. -/
def Routing.unresolvedOf (db : Routing) (binding : String) : List String :=
  (((db.obligations.rows.filter fun o => o.bindingId = binding).map (·.deliveryId)).filter fun change =>
    !db.appliedBy binding change && !db.supersededBy binding change).insertionSort (· ≤ ·)

/-- The joined row of a change. -/
def Routing.memberOf (db : Routing) (change : String) : Option Member :=
  (db.intents.find change).bind db.member

/-- `unresolved_members`. -/
def unresolvedMembers (binding : String) : RoutingTx (List Member) := do
  let changes ← .ask (·.unresolvedOf binding)
  let members ← .ask fun db => changes.filterMap db.memberOf
  .require ((members.take 10001).length ≤ 10000) (.limit "unresolved obligations exceed 10000")
  .require (changes.length = members.length)
    (.corrupt "obligation is missing its delivery revision")
  pure members

/-- `normalize_change_ids`. -/
def normalizeChangeIds (changes : List String) : Except StoreError (List String) :=
  if changes = [] ∨ 10000 < changes.length then
    .error (invalid "package acknowledgment must list that package's change ids")
  else
    let sorted := changes.insertionSort (· ≤ ·)
    if ¬sorted.Nodup then .error (invalid "package acknowledgment repeats a change id")
    else if sorted.any fun id => id = "" || 128 < id.utf8ByteSize then
      .error (invalid "invalid change id")
    else .ok sorted

/-- One selected change, which must still be unresolved. -/
def selectMember (binding change : String) : RoutingTx Member :=
  .find (fun db =>
    if (db.obligations.find (binding, change)).isSome && !db.appliedBy binding change &&
        !db.supersededBy binding change then db.memberOf change
    else none)
    (invalid "selected change is not an unresolved obligation of this binding")

def selectMembers (binding : String) : List String → RoutingTx (List Member)
  | [] => pure []
  | change :: rest => do
    let member ← selectMember binding change
    let members ← selectMembers binding rest
    pure (member :: members)

/-- `selected_members`. -/
def selectedMembers (binding : String) (selected : List String) : RoutingTx (List Member) := do
  let changes ← .check (normalizeChangeIds selected)
  selectMembers binding changes

/-- `load_binding`. -/
def loadBinding (id : String) : RoutingTx ConsumerBinding := do
  let binding ← .find (·.bindings.find id) (invalid "consumer binding is missing")
  .require (binding.generation ≠ 0) (invalid "invalid consumer binding")
  pure binding

/-- The members that a package is built from. -/
def membersOf (binding : String) : Option (List String) → RoutingTx (List Member)
  | some changes => selectedMembers binding changes
  | none => unresolvedMembers binding

/-- `materialize_parts`. -/
def materializeParts (binding : String) (selected : Option (List String)) :
    RoutingTx UpdatePackage := do
  let row ← loadBinding binding
  let members ← membersOf binding selected
  .require (members ≠ []) (invalid "no unresolved obligations")
  let changes := members.map (·.changeId)
  let package : UpdatePackage := ⟨UpdateDigests.package binding row.generation changes, binding,
    row.generation, UpdateDigests.manifest binding row.generation members, changes⟩
  let existing ← .ask (·.packages.find package.packageId)
  match existing with
  | some stored => do
    .require (stored = package) (.corrupt "stored update package does not match its obligations")
    pure stored
  | none => do
    .require (row.generation ≤ i64Max) (invalid "invalid consumer binding")
    .insert (fun db => (db.packages.insert? package).map fun packages =>
      { db with packages := packages }) .conflict
    pure package

/-- `materialize_update_package` and its selected variant. -/
def materializeUpdatePackage (binding : String) (selected : Option (List String)) :
    RoutingTx UpdatePackage := do
  .require (hex64 binding) (invalid "invalid consumer binding")
  materializeParts binding selected

structure PackageAckReceipt where
  packageId : String
  disposition : Disposition
  changeIds : List String
  sequence : Nat
deriving DecidableEq, Repr

/-- The acceptance events of a package, checked one by one. -/
def checkEvents (package : UpdatePackage) (expected : List String) (seen : List Disposition) :
    List AckEvent → RoutingTx Unit
  | [] => pure ()
  | event :: rest => do
    let listed ← .check (normalizeChangeIds event.ack.changeIds)
    .require (event.ack.schemaVersion = 1 ∧ event.ack.packageId = package.packageId ∧
        event.ack.manifestHash = package.manifestHash ∧ listed = expected ∧
        event.ack.disposition ∉ seen) (.corrupt "package acceptance event mismatch")
    checkEvents package expected (event.ack.disposition :: seen) rest

/-- The changes of a package that have no receipt of this disposition yet. -/
def missingReceipts (package : UpdatePackage) (generation : Nat) (disposition : Disposition) :
    List String → RoutingTx (List String)
  | [] => pure []
  | change :: rest => do
    let receipt ← .ask (·.changeReceipts.find (package.bindingId, change, disposition))
    .require (receipt.all fun r => r.generation = generation)
      (.corrupt "change receipt generation mismatch")
    let missing ← missingReceipts package generation disposition rest
    pure (if receipt.isNone then change :: missing else missing)

/-- What an applied acknowledgement needs of one change. -/
def checkApplied (package : UpdatePackage) (generation : Nat) (now : Int) (change : String) :
    RoutingTx Unit := do
  let eligible ← .ask fun db => (db.intents.find change).any fun d =>
    db.eligible d.recordId d.revision now
  .require (eligible = true)
    (invalid "cannot apply a superseded or invalid memory revision; pull the current update")
  let seen ← .ask fun db => (db.changeReceipts.find (package.bindingId, change, .seen)).any
    fun r => r.generation = generation
  .require (seen = true) (invalid "explicit seen acknowledgment required before applied")

def insertReceipt (row : ChangeReceipt) : RoutingTx Unit := changeReceiptRows.insert row .conflict

/-- The coordinator's cursor. -/
def moveCursor (binding package : String) : RoutingTx Unit :=
  .write fun db => db.modifyBindings (fun b => b.bindingId = binding && b.taskId.isNone)
    (fun b => { b with appliedCursor := some package }) fun _ => rfl

/-- What an acknowledgement needs of every change of its package. -/
def checkChanges (ack : UpdatePackageAck) (package : UpdatePackage) (generation : Nat) (now : Int) :
    RoutingTx Unit :=
  if ack.disposition = .applied then
    Tx.forEach (checkApplied package generation now) package.changeIds
  else pure ()

/-- The cursor moves for the coordinator only. -/
def advanceCursor (ack : UpdatePackageAck) (package : UpdatePackage) (binding : ConsumerBinding) :
    RoutingTx Unit :=
  if ack.disposition = .applied ∧ binding.taskId = none then
    moveCursor package.bindingId package.packageId
  else pure ()

/-- The writes of a first acknowledgement. -/
def accept (ack : UpdatePackageAck) (package : UpdatePackage) (binding : ConsumerBinding)
    (missing : List String) (now : Int) : RoutingTx PackageAckReceipt := do
  checkChanges ack package binding.generation now
  let sequence ← insertEvent
  .write fun db => { db with acks := db.acks ++ [⟨sequence, ack⟩] }
  Tx.forEach (fun change => insertReceipt ⟨package.bindingId, change, ack.disposition,
    binding.generation, package.packageId, sequence⟩) missing
  advanceCursor ack package binding
  pure ⟨package.packageId, ack.disposition, package.changeIds, sequence⟩

/-- `acknowledge`. -/
def acknowledge (ack : UpdatePackageAck) (now : Int) : RoutingTx PackageAckReceipt := do
  .require (ack.schemaVersion = 1)
    (invalid "unsupported package acknowledgment version or disposition")
  .require (hex64 ack.packageId ∧ hex64 ack.manifestHash) (invalid "invalid package acknowledgment")
  let listed ← .check (normalizeChangeIds ack.changeIds)
  let package ← .find (·.packages.find ack.packageId) (invalid "update package is missing")
  .require (ack.manifestHash = package.manifestHash)
    (invalid "package acknowledgment digest mismatch")
  let expected := package.changeIds.insertionSort (· ≤ ·)
  .require (listed = expected)
    (invalid "package acknowledgment must list that package's change ids")
  let binding ← loadBinding package.bindingId
  .require (binding.generation = package.consumerBindingGeneration)
    (.corrupt "update package generation does not match its binding")
  let events ← .ask fun db => (db.acks.filter fun e => e.ack.packageId = package.packageId).take 3
  .require (events.length ≤ 2) (.corrupt "duplicate package acceptance events")
  checkEvents package expected [] events
  let missing ← missingReceipts package binding.generation ack.disposition package.changeIds
  match events.find? fun e => e.ack.disposition = ack.disposition with
  | some event => do
    .require (missing = []) (.corrupt "package acceptance is missing change receipts")
    pure ⟨package.packageId, ack.disposition, package.changeIds, event.sequence⟩
  | none => accept ack package binding missing now

/-- The package belongs to the binding of the attempt that runs. -/
def Routing.currentWorker (db : Routing) (package : UpdatePackage) (attempt : AttemptId) : Bool :=
  (db.bindings.find package.bindingId).any fun b =>
    b.generation = package.consumerBindingGeneration && b.attemptId = some attempt && b.active &&
      !b.retired && b.taskId.any fun task =>
        ((db.tasks.find task).any fun t => t.activeAttempt = some attempt) &&
          (db.attempts.find attempt).any fun a => a.task = task && a.snapshot = some b.snapshotId &&
            !a.terminationObserved && (a.state = .running || a.state = .awaitingInput)

/-- The receipt of one change that the worker declared itself. -/
def workerReceipt (attempt : AttemptId) (disposition : Disposition) (change : String) :
    RoutingTx WorkerChangeReceipt := do
  let item ← .find (·.update change attempt)
    (invalid "update does not belong to the current live attempt and snapshot")
  let receipt ← .find (fun db => (db.updateReceipts.find (change, attempt, disposition)).filter
      fun r => r.manifestHash = UpdateDigests.update attempt item.2)
    (invalid "exact worker change receipts are required before package acknowledgment")
  pure ⟨change, receipt.manifestHash, receipt.sequence⟩

def workerReceipts (attempt : AttemptId) (disposition : Disposition) :
    List String → RoutingTx (List WorkerChangeReceipt)
  | [] => pure []
  | change :: rest => do
    let receipt ← workerReceipt attempt disposition change
    let receipts ← workerReceipts attempt disposition rest
    pure (receipt :: receipts)

/-- `worker_members`. -/
def workerMembers (attempt : AttemptId) (ack : UpdatePackageAck) :
    RoutingTx (List WorkerChangeReceipt) := do
  .require (ack.schemaVersion = 1 ∧ hex64 ack.packageId ∧ hex64 ack.manifestHash)
    (invalid "invalid worker package acknowledgment")
  let package ← .find (·.packages.find ack.packageId) (invalid "update package is missing")
  let listed ← .check (normalizeChangeIds ack.changeIds)
  .require (package.manifestHash = ack.manifestHash ∧
      listed = package.changeIds.insertionSort (· ≤ ·))
    (invalid "worker acknowledgment does not match the exact package")
  let current ← .ask (·.currentWorker package attempt)
  .require (current = true) (invalid "package does not belong to the current live worker binding")
  workerReceipts attempt ack.disposition package.changeIds

structure WorkerPackageAckReceipt where
  receipt : PackageAckReceipt
  evidenceSequence : Nat
deriving DecidableEq, Repr

/-- `acknowledge_worker_update_package`. -/
def acknowledgeWorkerUpdatePackage (attempt : AttemptId) (ack : UpdatePackageAck) (now : Int)
    (env : Outside) : RoutingTx WorkerPackageAckReceipt := do
  let receipts ← workerMembers attempt ack
  let receipt ← acknowledge ack now
  let existing ← .ask (·.workerAcks.find (ack.packageId, attempt, ack.disposition))
  match existing with
  | some stored => do
    .require (stored.packageReceiptSequence = receipt.sequence ∧ stored.receipts = receipts)
      (.corrupt "worker package supporting evidence mismatch")
    pure ⟨receipt, stored.evidenceSequence⟩
  | none => do
    .outside env.fault
    let sequence ← insertEvent
    .insert (fun db => (db.workerAcks.insert? ⟨ack.packageId, attempt, ack.disposition,
      receipt.sequence, sequence, receipts⟩).map fun workerAcks =>
        { db with workerAcks := workerAcks }) .conflict
    pure ⟨receipt, sequence⟩

/-! ## Supersessions -/

structure SupersessionRequest where
  bindingId : String
  changeId : String
  replacementChangeId : String
  replacementManifestHash : String
  reason : String
deriving DecidableEq, Repr

/-- The binding of the live worker. -/
def Routing.liveBinding (db : Routing) (binding : String) (attempt : AttemptId) :
    Option ConsumerBinding := do
  let b ← db.bindings.find binding
  let task ← b.taskId
  let live ← db.liveAttempt task attempt
  if b.attemptId = some attempt && b.active && !b.retired && live.snapshot = some b.snapshotId then
    some b
  else none

/-- `supersede_worker_update`. -/
def supersedeWorkerUpdate (attempt : AttemptId) (request : SupersessionRequest) (now : Int)
    (env : Outside) : RoutingTx Nat := do
  .require (hex64 request.bindingId ∧ hex64 request.replacementManifestHash ∧
      request.changeId ≠ request.replacementChangeId ∧ ¬trimEmpty request.reason ∧
      request.reason.utf8ByteSize ≤ 1024) (invalid "invalid worker supersession request")
  let binding ← .find (·.liveBinding request.bindingId attempt)
    (invalid "supersession requires the current live worker binding")
  let old ← .find (·.update request.changeId attempt)
    (invalid "update does not belong to the current live attempt and snapshot")
  let new ← .find (·.update request.replacementChangeId attempt)
    (invalid "update does not belong to the current live attempt and snapshot")
  let belongs ← .ask fun db => (db.obligations.find (request.bindingId, old.1.id)).isSome &&
    (db.obligations.find (request.bindingId, new.1.id)).isSome
  .require (belongs = true ∧ old.1.snapshotId = binding.snapshotId ∧
      new.1.snapshotId = binding.snapshotId)
    (invalid "supersession changes must belong to the exact binding and snapshot")
  .require (request.replacementManifestHash = UpdateDigests.update attempt new.2 ∧
      old.1.recordId = new.1.recordId ∧ old.1.revision < new.1.revision)
    (invalid "supersession requires an exact newer revision of the same record")
  let support ← .find (fun db => (db.updateReceipts.find (new.1.id, attempt, .applied)).filter
      fun r => r.manifestHash = request.replacementManifestHash)
    (invalid "supersession requires the worker's exact applied replacement receipt")
  let existing ← .ask (·.supersessions.find (request.bindingId, request.changeId))
  match existing with
  | some stored => do
    .require (stored.attemptId = attempt ∧
      stored.replacementChangeId = request.replacementChangeId ∧
      stored.replacementManifestHash = request.replacementManifestHash ∧
      stored.reason = request.reason) .conflict
    pure stored.sequence
  | none => do
    .require (old.1.severity = .informational ∧ env.optional old.1.recordId = true)
      (invalid "mandatory changes require explicit reconciliation, not optional supersession")
    let applied ← .ask (·.appliedBy request.bindingId request.changeId)
    .require (applied = false) (invalid "change already has an applied logical receipt")
    let eligible ← .ask (·.eligible new.1.recordId new.1.revision now)
    .require (eligible = true ∧ env.current new.1.recordId new.1.revision = true)
      (invalid "superseding revision is no longer current and valid")
    let sequence ← insertEvent
    .insert (fun db => (db.supersessions.insert? ⟨request.bindingId, request.changeId, attempt,
      request.replacementChangeId, request.replacementManifestHash, request.reason,
      binding.generation, support.sequence, sequence⟩).map fun supersessions =>
        { db with supersessions := supersessions }) .conflict
    pure sequence

/-! ## Retirement -/

/-- A worker applied the change. -/
def Routing.workerApplied (db : Routing) (delivery : String) : Bool :=
  db.updateReceipts.rows.any fun r => r.deliveryId = delivery && r.state = .applied

/-- `unresolved_deliveries`: the changes routed to the snapshot of a binding and the obligations of
the binding that no worker applied. -/
def Routing.unresolvedDeliveries (db : Routing) (b : ConsumerBinding) : List String :=
  ((((db.intents.rows.filter fun d => d.snapshotId = b.snapshotId).map (·.id)) ++
    ((db.obligations.rows.filter fun o => o.bindingId = b.bindingId).map (·.deliveryId))).dedup.filter
      fun d => !db.workerApplied d).insertionSort (· ≤ ·)

/-- Where the unresolved changes go, or why nowhere. -/
def Routing.moveTo (db : Routing) : Option String → Except String String
  | none => .error "retired without a successor"
  | some id =>
    match db.bindings.find id with
    | none => .error "successor binding is missing"
    | some row =>
      if row.retired then .error "successor binding is retired"
      else if row.active then .ok id
      else .error "successor binding is not active"

/-- The row of a binding that retired. -/
def ConsumerBinding.retiredTo (binding : ConsumerBinding) (successor : Option String) :
    ConsumerBinding :=
  { binding with retired := true, active := false, successorBindingId := successor }

def recordUndeliverable (binding reason delivery : String) : RoutingTx Unit :=
  undeliverableRows.insert ⟨binding, delivery, reason⟩ .conflict

/-- The writes of a first retirement. -/
def retire (binding : ConsumerBinding) (successor : Option String) : RoutingTx Unit := do
  let unresolved ← .ask (·.unresolvedDeliveries binding)
  .require (unresolved.length ≤ 10000) (.limit "unresolved obligations exceed 10000")
  let moveTo ← .ask (·.moveTo successor)
  match moveTo with
  | .ok id => do
    Tx.forEach (oblige id) unresolved
    .write fun db => db.modifyBindings (fun b => b.bindingId = binding.bindingId)
      (·.retiredTo (some id)) fun _ => rfl
  | .error reason => do
    Tx.forEach (recordUndeliverable binding.bindingId reason) unresolved
    .write fun db => db.modifyBindings (fun b => b.bindingId = binding.bindingId)
      (fun b => b.retiredTo b.successorBindingId) fun _ => rfl

/-- `retire_consumer_binding`. -/
def retireConsumerBinding (id : String) (successor : Option String) : RoutingTx Unit := do
  .require (hex64 id ∧ successor.all hex64) (invalid "invalid consumer binding")
  .require (successor ≠ some id) (invalid "invalid successor binding")
  reconcileActive
  let binding ← .find (·.bindings.find id) (invalid "consumer binding is missing")
  if binding.retired then .require (binding.successorBindingId = successor) .conflict
  else retire binding successor

/-! ## Calls -/

/-- What other writers did: tasks, attempts, heads and validity moved, revisions were added and
events were logged. -/
structure Elsewhere where
  tasks : Table Task Task.id
  attempts : Table Attempt Attempt.id
  revisions : List RevisionBody
  heads : Table MemoryHead MemoryHead.recordId
  validity : Table MemoryValidity MemoryValidity.key
  events : Nat

def addRevisions (revisions : Table RevisionBody RevisionBody.key) (rows : List RevisionBody) :
    Table RevisionBody RevisionBody.key :=
  rows.foldl (fun t row => (t.insert? row).getD t) revisions

def Elsewhere.apply (change : Elsewhere) (db : Routing) : Routing :=
  { db with
    head := db.head + change.events
    tasks := change.tasks
    attempts := change.attempts
    revisions := addRevisions db.revisions change.revisions
    heads := change.heads
    validity := change.validity }

inductive Call where
  | createMemorySnapshot (consumer : String) (snapshot : MemorySnapshot) (env : Outside)
  | recordChange (cause record : String) (revision : Nat) (severity : Severity) (sequence : Nat)
      (env : Outside)
  | reconcile (task : Option TaskId)
  | acknowledgeMemoryUpdate (ack : MemoryUpdateAck) (now : Int)
  | materialize (binding : String) (selected : Option (List String))
  | acknowledge (ack : UpdatePackageAck) (now : Int)
  | acknowledgeWorker (attempt : AttemptId) (ack : UpdatePackageAck) (now : Int) (env : Outside)
  | supersede (attempt : AttemptId) (request : SupersessionRequest) (now : Int) (env : Outside)
  | retire (binding : String) (successor : Option String)
  | elsewhere (change : Elsewhere)

inductive Answer where
  | done
  | sequence (n : Nat)
  | package (package : UpdatePackage)
  | receipt (receipt : PackageAckReceipt)
  | worker (receipt : WorkerPackageAckReceipt)
deriving DecidableEq, Repr

def Call.body : Call → RoutingTx Answer
  | .createMemorySnapshot consumer snapshot env =>
    (fun _ => .done) <$> Updates.createMemorySnapshot consumer snapshot env
  | .recordChange cause record revision severity sequence env =>
    (fun _ => .done) <$> Updates.recordChange cause record revision severity sequence env
  | .reconcile task => (fun _ => .done) <$> reconcileSelected task
  | .acknowledgeMemoryUpdate ack now => .sequence <$> Updates.acknowledgeMemoryUpdate ack now
  | .materialize binding selected => .package <$> materializeUpdatePackage binding selected
  | .acknowledge ack now => .receipt <$> Updates.acknowledge ack now
  | .acknowledgeWorker attempt ack now env =>
    .worker <$> acknowledgeWorkerUpdatePackage attempt ack now env
  | .supersede attempt request now env => .sequence <$> supersedeWorkerUpdate attempt request now env
  | .retire binding successor => (fun _ => .done) <$> retireConsumerBinding binding successor
  | .elsewhere change => do
    .write change.apply
    pure .done

def exec (call : Call) (db : Routing) : Except StoreError Answer × Routing := Tx.commit call.body db

end Bindings

end Herdr.Updates
