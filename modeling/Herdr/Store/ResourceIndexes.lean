import Herdr.Lib.Views

/-!
# Retained resources and identity gaps

The two stored views of migration 0043 that pane and worktree checks read instead of the event log:
`retained_launch_resources`, the launch targets and workspaces that a pane may still belong to, and
`identity_reference_gaps`, the references whose binding is missing. Each trigger of the migration
refreshes the rows of the keys that a change of one row of a source table names.

A source table has the columns that the views read; a payload is its `$.route.pane_id`, when that is
a text. Of the constraints only the keys are modelled, so more statements are admitted than the
store admits: foreign keys and the refusal to change attempt inputs are left out.
-/

namespace Herdr.ResourceIndexes

open Table (RowChange Changed)

/-! ## Source tables -/

structure Event where
  sequence : Int
  kind : String
  entity : String
  /-- `json_extract(payload,'$.route.pane_id')` when its `json_type` is `text`. -/
  paneId : Option String
deriving DecidableEq, Repr

structure AttemptInput where
  attemptId : String
  operationId : String
deriving DecidableEq, Repr

structure Attempt where
  id : String
  terminationObserved : Bool
deriving DecidableEq, Repr

structure RuntimeObservation where
  bindingId : String
deriving DecidableEq, Repr

structure RuntimeOwnership where
  bindingId : String
deriving DecidableEq, Repr

structure RuntimeBinding where
  id : String
  sourcePath : Option String
deriving DecidableEq, Repr

structure LegacySource where
  path : String
  kind : String
deriving DecidableEq, Repr

/-! ## Stored views -/

structure RetainedLaunchResource where
  sequence : Int
  operationId : String
  pane : String
  unknownPane : Bool
deriving DecidableEq, Repr

inductive GapKind where
  | observation | ownership | imported
deriving DecidableEq, Repr

structure IdentityReferenceGap where
  kind : GapKind
  referenceKey : String
deriving DecidableEq, Repr

structure IndexStore where
  events : Table Event Event.sequence
  attemptInputs : Table AttemptInput AttemptInput.attemptId
  /-- `operation_id` is `UNIQUE`. -/
  operations : (attemptInputs.rows.map (·.operationId)).Nodup
  attempts : Table Attempt Attempt.id
  runtimeObservations : Table RuntimeObservation RuntimeObservation.bindingId
  runtimeOwnership : Table RuntimeOwnership RuntimeOwnership.bindingId
  runtimeBindings : Table RuntimeBinding RuntimeBinding.id
  /-- `source_path` is `UNIQUE`, where it is not null. -/
  sourcePaths : (runtimeBindings.rows.filterMap (·.sourcePath)).Nodup
  legacySources : Table LegacySource LegacySource.path
  retainedLaunchResources : Table RetainedLaunchResource RetainedLaunchResource.sequence
  identityReferenceGaps : Table IdentityReferenceGap id

/-! ## Definitions of the views -/

def launchTarget : String := "runtime.launch_target"
def launchWorkspace : String := "runtime.launch_workspace"
def launchStarted : String := "runtime.launch_started"

/-- The kinds that the view of retained resources reads. -/
def launchKinds : List String := [launchTarget, launchWorkspace, launchStarted]

def Event.resource (e : Event) : RetainedLaunchResource :=
  { sequence := e.sequence
    operationId := e.entity
    pane := e.paneId.getD ""
    unknownPane := !e.paneId.any (· ≠ "") }

/-- The launch of an operation was acknowledged. -/
def IndexStore.started (db : IndexStore) (operation : String) : Bool :=
  db.events.rows.any fun started => started.entity = operation && started.kind = launchStarted

/-- The `WHERE` of `retained_launch_resource_source`. -/
def IndexStore.retains (db : IndexStore) (e : Event) (a : Option Attempt) : Bool :=
  e.kind = launchWorkspace || (e.kind = launchTarget &&
    (a.all (·.terminationObserved = false) || !db.started e.entity))

/-- `retained_launch_resource_source`. -/
def IndexStore.retainedLaunchResourceSource (db : IndexStore) : List RetainedLaunchResource :=
  db.events.rows.flatMap fun e =>
    (leftJoin (·.operationId = e.entity) db.attemptInputs.rows).flatMap fun i =>
      (leftJoin (fun a => i.any (a.id = ·.attemptId)) db.attempts.rows).filterMap fun a =>
        if db.retains e a then some e.resource else none

/-- The observations whose binding is missing. -/
def IndexStore.observationGaps (db : IndexStore) : List IdentityReferenceGap :=
  db.runtimeObservations.rows.flatMap fun r =>
    (leftJoin (·.id = r.bindingId) db.runtimeBindings.rows).filterMap fun b =>
      if b.isNone then some ⟨.observation, r.bindingId⟩ else none

/-- The ownership rows whose binding is missing. -/
def IndexStore.ownershipGaps (db : IndexStore) : List IdentityReferenceGap :=
  db.runtimeOwnership.rows.flatMap fun r =>
    (leftJoin (·.id = r.bindingId) db.runtimeBindings.rows).filterMap fun b =>
      if b.isNone then some ⟨.ownership, r.bindingId⟩ else none

/-- An imported thread, or the imported coordinator. -/
def LegacySource.identifies (s : LegacySource) : Bool :=
  s.kind = "thread" || (s.path = ".state/coordinator.json" && s.kind = "runtime")

/-- The imported sources without a binding. -/
def IndexStore.importedGaps (db : IndexStore) : List IdentityReferenceGap :=
  db.legacySources.rows.flatMap fun s =>
    (leftJoin (·.sourcePath = some s.path) db.runtimeBindings.rows).filterMap fun b =>
      if s.identifies && b.isNone then some ⟨.imported, s.path⟩ else none

/-! ## Triggers -/

/-- Delete and select again the resources of some operations. -/
def IndexStore.refreshResources (db : IndexStore) (operations : List String) : Option IndexStore :=
  (db.retainedLaunchResources.refresh (fun r => operations.contains r.operationId)
    db.retainedLaunchResourceSource).map ({ db with retainedLaunchResources := · })

/-- The operations of some attempts. -/
def IndexStore.operationsOf (db : IndexStore) (attempts : List String) : List String :=
  (db.attemptInputs.rows.filter fun i => attempts.contains i.attemptId).map (·.operationId)

/-- Delete and select again the gaps of one kind at some keys. -/
def IndexStore.refreshGaps (db : IndexStore) (kind : GapKind) (source : List IdentityReferenceGap)
    (keys : List String) : Option IndexStore :=
  (db.identityReferenceGaps.refresh (fun g => g.kind = kind && keys.contains g.referenceKey)
    source).map ({ db with identityReferenceGaps := · })

def IndexStore.refreshObservations (db : IndexStore) (bindings : List String) : Option IndexStore :=
  db.refreshGaps .observation db.observationGaps bindings

def IndexStore.refreshOwnership (db : IndexStore) (bindings : List String) : Option IndexStore :=
  db.refreshGaps .ownership db.ownershipGaps bindings

def IndexStore.refreshImported (db : IndexStore) (paths : List String) : Option IndexStore :=
  db.refreshGaps .imported db.importedGaps paths

/-- The triggers of one table: what follows an insert, an update and a delete of a row. -/
structure Triggers (α : Type) where
  insert : α → IndexStore → Option IndexStore
  update : α → α → IndexStore → Option IndexStore
  delete : α → IndexStore → Option IndexStore

/-- Run the trigger of a statement that changed a row. -/
def Triggers.run {α κ : Type} {key : α → κ} (t : Triggers α) (d : Changed α key) (db : IndexStore) :
    Option IndexStore :=
  match d.old, d.new with
  | none, none => some db
  | none, some new => t.insert new db
  | some old, some new => t.update old new db
  | some old, none => t.delete old db

/-- `retained_launch_resources_events_*`. -/
def eventTriggers : Triggers Event where
  insert new db :=
    if new.kind ∈ launchKinds then db.refreshResources [new.entity] else some db
  update old new db :=
    if old.kind ∈ launchKinds ∨ new.kind ∈ launchKinds then
      db.refreshResources [old.entity, new.entity]
    else some db
  delete old db :=
    if old.kind ∈ launchKinds then db.refreshResources [old.entity] else some db

/-- `retained_launch_resources_attempt_inputs_*`. -/
def attemptInputTriggers : Triggers AttemptInput where
  insert new db := db.refreshResources [new.operationId]
  update old new db := db.refreshResources [old.operationId, new.operationId]
  delete old db := db.refreshResources [old.operationId]

/-- `retained_launch_resources_attempts_*`. -/
def attemptTriggers : Triggers Attempt where
  insert new db := db.refreshResources (db.operationsOf [new.id])
  update old new db := db.refreshResources (db.operationsOf [old.id, new.id])
  delete old db := db.refreshResources (db.operationsOf [old.id])

/-- `identity_reference_gaps_runtime_observations_*`. -/
def runtimeObservationTriggers : Triggers RuntimeObservation where
  insert new db := db.refreshObservations [new.bindingId]
  update old new db := db.refreshObservations [old.bindingId, new.bindingId]
  delete old db := db.refreshObservations [old.bindingId]

/-- `identity_reference_gaps_runtime_ownership_*`. -/
def runtimeOwnershipTriggers : Triggers RuntimeOwnership where
  insert new db := db.refreshOwnership [new.bindingId]
  update old new db := db.refreshOwnership [old.bindingId, new.bindingId]
  delete old db := db.refreshOwnership [old.bindingId]

/-- The body that the three triggers of `runtime_bindings` share; `IN` never finds a null path. -/
def IndexStore.refreshBindings (db : IndexStore) (rows : List RuntimeBinding) : Option IndexStore := do
  let db ← db.refreshObservations (rows.map (·.id))
  let db ← db.refreshOwnership (rows.map (·.id))
  db.refreshImported (rows.filterMap (·.sourcePath))

/-- `identity_reference_gaps_runtime_bindings_*`. -/
def runtimeBindingTriggers : Triggers RuntimeBinding where
  insert new db := db.refreshBindings [new]
  update old new db := db.refreshBindings [old, new]
  delete old db := db.refreshBindings [old]

/-- `identity_reference_gaps_legacy_sources_*`. -/
def legacySourceTriggers : Triggers LegacySource where
  insert new db := db.refreshImported [new.path]
  update old new db := db.refreshImported [old.path, new.path]
  delete old db := db.refreshImported [old.path]

/-! ## Statements -/

inductive Statement where
  | events (c : RowChange Event Int)
  | attemptInputs (c : RowChange AttemptInput String)
  | attempts (c : RowChange Attempt String)
  | runtimeObservations (c : RowChange RuntimeObservation String)
  | runtimeOwnership (c : RowChange RuntimeOwnership String)
  | runtimeBindings (c : RowChange RuntimeBinding String)
  | legacySources (c : RowChange LegacySource String)
deriving DecidableEq

/-- Why a statement is rolled back: a key of its own table, or a statement of a trigger. -/
inductive Failure where
  | key | trigger
deriving DecidableEq, Repr

def orFail {α : Type} (f : Failure) : Option α → Except Failure α
  | some a => .ok a
  | none => .error f

/-- One statement with its triggers. -/
def IndexStore.exec (db : IndexStore) : Statement → Except Failure IndexStore
  | .events c => do
    let d ← orFail .key (db.events.change? c)
    orFail .trigger (eventTriggers.run d { db with events := d.table })
  | .attemptInputs c => do
    let d ← orFail .key (db.attemptInputs.change? c)
    if h : (d.table.rows.map (·.operationId)).Nodup then
      orFail .trigger
        (attemptInputTriggers.run d { db with attemptInputs := d.table, operations := h })
    else .error .key
  | .attempts c => do
    let d ← orFail .key (db.attempts.change? c)
    orFail .trigger (attemptTriggers.run d { db with attempts := d.table })
  | .runtimeObservations c => do
    let d ← orFail .key (db.runtimeObservations.change? c)
    orFail .trigger (runtimeObservationTriggers.run d { db with runtimeObservations := d.table })
  | .runtimeOwnership c => do
    let d ← orFail .key (db.runtimeOwnership.change? c)
    orFail .trigger (runtimeOwnershipTriggers.run d { db with runtimeOwnership := d.table })
  | .runtimeBindings c => do
    let d ← orFail .key (db.runtimeBindings.change? c)
    if h : (d.table.rows.filterMap (·.sourcePath)).Nodup then
      orFail .trigger
        (runtimeBindingTriggers.run d { db with runtimeBindings := d.table, sourcePaths := h })
    else .error .key
  | .legacySources c => do
    let d ← orFail .key (db.legacySources.change? c)
    orFail .trigger (legacySourceTriggers.run d { db with legacySources := d.table })

/-- The store after a statement; one that fails changes nothing. -/
def IndexStore.next (db : IndexStore) (s : Statement) : IndexStore :=
  match db.exec s with
  | .ok db' => db'
  | .error _ => db

/-- The migration's own selects, which fill the two new tables. -/
def IndexStore.migrate (db : IndexStore) : Option IndexStore := do
  let resources ← Table.insertAll .empty db.retainedLaunchResourceSource
  let gaps ← Table.insertAll .empty db.observationGaps
  let gaps ← gaps.insertAll db.ownershipGaps
  let gaps ← gaps.insertAll db.importedGaps
  pure { db with
    retainedLaunchResources := resources
    identityReferenceGaps := gaps }

end Herdr.ResourceIndexes
