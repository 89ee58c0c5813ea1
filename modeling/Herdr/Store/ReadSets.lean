import Herdr.Store.Objects

/-!
# Memory records and the read-set fence

The writers of the memory tables (`src/store/memory.rs`, `src/store/memory_invalidation.rs`,
`src/store/memory_policy.rs`, the import decisions of `src/store/memory_candidates.rs` and the
promotions of `src/store/reviews.rs`) with the triggers of `migrations/0038_memory_read_sets.sql`,
and the fence that `src/store/read_set.rs` computes from them. A promotion is signed against a
fence, and compares it with the current one in its own transaction.
-/

namespace Herdr.ReadSets

open Objects (MemoryKind MemoryHead ObjectId headExpected)

/-! ## Tables -/

structure MemoryRecord where
  id : String
  recordKey : String
  scopeId : String
  kind : MemoryKind
  isHard : Bool
deriving DecidableEq, Repr

structure Applicability where
  domains : List String
  paths : List String
deriving DecidableEq, Repr

structure MemoryRevision where
  recordId : String
  revision : Nat
  bodyHash : ObjectId
  provenanceHash : ObjectId
  promotedSeq : Nat
  applicability : Applicability
deriving DecidableEq, Repr

def MemoryRevision.key (r : MemoryRevision) : String × Nat := (r.recordId, r.revision)

inductive ValidityState where
  | valid | stale | blocked
deriving DecidableEq, Repr

structure MemoryValidity where
  recordId : String
  revision : Nat
  state : ValidityState
  reason : String
  expiryUnixMs : Option Int
  evaluatedSeq : Nat
deriving DecidableEq, Repr

def MemoryValidity.key (v : MemoryValidity) : String × Nat := (v.recordId, v.revision)

structure MemoryDependency where
  derived : String × Nat
  source : String × Nat
  kind : String
deriving DecidableEq, Repr

structure ScopeCatalogGeneration where
  scopeId : String
  generation : Nat
deriving DecidableEq, Repr

inductive MemoryPolicyOp where
  | importAck | hardRule | revokeHead | cutover
deriving DecidableEq, Repr

structure MemoryPolicy where
  revision : Nat
  projectStore : String
  expectedHead : Nat
  op : MemoryPolicyOp
  recordKey : Option String
deriving DecidableEq, Repr

/-- The columns of `delegation_grants` that the fence reads. -/
structure GrantEpoch where
  id : String
  revocationEpoch : Nat
deriving DecidableEq, Repr

/-- What a statement did to a record. -/
inductive Change where
  | inserted | reclassified | revised | revoked | revalidated
deriving DecidableEq, Repr

structure Write where
  record : String
  change : Change
deriving DecidableEq, Repr

structure Knowledge where
  path : String
  /-- The number of events. -/
  head : Nat
  records : Table MemoryRecord MemoryRecord.id
  revisions : Table MemoryRevision MemoryRevision.key
  heads : Table MemoryHead MemoryHead.recordId
  validity : Table MemoryValidity MemoryValidity.key
  dependencies : List MemoryDependency
  requiredGeneration : Nat
  catalog : Table ScopeCatalogGeneration ScopeCatalogGeneration.scopeId
  policies : List MemoryPolicy
  grants : Table GrantEpoch GrantEpoch.id
  revoked : List String
  /-- What the statements so far did, oldest first. No statement reads it. -/
  writes : List Write
deriving DecidableEq

def Knowledge.created (path : String) : Knowledge :=
  ⟨path, 0, .empty, .empty, .empty, .empty, [], 0, .empty, [], .empty, [], []⟩

abbrev KnowledgeTx (α : Type) := Tx Knowledge StoreError α

/-- What a call reads and checks outside these tables. -/
structure Outside where
  /-- `objects::require_available`. -/
  available : ObjectId → Bool
  /-- `Applicability::validate`. -/
  applicability : Applicability → Option StoreError := fun _ => none
  /-- `barriers::memory_changed` and `memory_delivery::record_change`. -/
  routing : Option StoreError := none
  /-- The signature, identity and other tables that a document is checked against. -/
  document : Option StoreError := none

/-! ## Triggers -/

/-- `is_hard = 1 OR kind IN ('constraint', 'hard_memory')`. -/
def MemoryRecord.required (r : MemoryRecord) : Bool :=
  r.isHard || r.kind = .constraint || r.kind = .hardMemory

/-- `is_hard = 1 OR kind IN ('constraint', 'hard_memory', 'contract')`. -/
def MemoryRecord.mandatory (r : MemoryRecord) : Bool := r.required || r.kind = .contract

abbrev Catalog := Table ScopeCatalogGeneration ScopeCatalogGeneration.scopeId

/-- `UPDATE memory_scope_catalog SET generation = generation + 1 WHERE scope_id = ..`. -/
def advance (catalog : Catalog) (scope : String) : Catalog :=
  match catalog.find scope with
  | some row => catalog.update { row with generation := row.generation + 1 }
  | none => catalog

/-- The same, for a scope that may not be there yet. -/
def upsert (catalog : Catalog) (scope : String) : Catalog :=
  match catalog.insert? ⟨scope, 1⟩ with
  | some catalog => catalog
  | none => advance catalog scope

namespace Knowledge

variable (db : Knowledge)

/-- `memory_read_set_on_record`. -/
def onRecord (r : MemoryRecord) : Knowledge :=
  { db with
    requiredGeneration := if r.required then db.requiredGeneration + 1 else db.requiredGeneration
    catalog := if r.mandatory then upsert db.catalog r.scopeId else db.catalog }

/-- `memory_read_set_on_reclassify`. -/
def onReclassify (old new : MemoryRecord) : Knowledge :=
  if old.isHard ≠ new.isHard ∨ old.kind ≠ new.kind then
    { db with
      requiredGeneration :=
        if old.required || new.required then db.requiredGeneration + 1 else db.requiredGeneration
      catalog :=
        if old.mandatory || new.mandatory then upsert db.catalog new.scopeId else db.catalog }
  else db

/-- `memory_read_set_on_revision`, `memory_read_set_on_validity` and `memory_read_set_on_head`. -/
def onChange (id : String) : Knowledge :=
  match db.records.find id with
  | none => db
  | some r =>
    { db with
      requiredGeneration := if r.required then db.requiredGeneration + 1 else db.requiredGeneration
      catalog := if r.mandatory then advance db.catalog r.scopeId else db.catalog }

def logged (id : String) (change : Change) : Knowledge :=
  { db with writes := db.writes ++ [⟨id, change⟩] }

end Knowledge

/-! ## Statements -/

def insertEvent : KnowledgeTx Nat := do
  .write fun db => { db with head := db.head + 1 }
  .ask (·.head)

/-- `INSERT INTO memory_records`, unique by scope and key. -/
def insertRecord (r : MemoryRecord) : KnowledgeTx Unit :=
  .insert (fun db =>
    if db.records.rows.any fun old => old.scopeId = r.scopeId && old.recordKey = r.recordKey then none
    else (db.records.insert? r).map fun records =>
      (({ db with records := records }).logged r.id .inserted).onRecord r) .conflict

/-- `UPDATE memory_records SET is_hard = 1`. -/
def setHard (id : String) : KnowledgeTx Unit :=
  .write fun db =>
    match db.records.find id with
    | none => db
    | some old =>
      if old.isHard then db
      else
        let new := { old with isHard := true }
        (({ db with records := db.records.update new }).logged id .reclassified).onReclassify old new

/-- `INSERT INTO memory_revisions`. -/
def insertRevision (row : MemoryRevision) : KnowledgeTx Unit :=
  .insert (fun db => (db.revisions.insert? row).map fun revisions =>
    (({ db with revisions := revisions }).logged row.recordId .revised).onChange row.recordId) .conflict

/-- `INSERT INTO memory_validity`, which no trigger watches. -/
def insertValidity (row : MemoryValidity) : KnowledgeTx Unit :=
  .insert (fun db => (db.validity.insert? row).map fun validity =>
    { db with validity := validity }) .conflict

/-- `UPDATE memory_validity SET state, reason, expiry_unix_ms` of one row. -/
def updateValidity (key : String × Nat) (change : MemoryValidity → MemoryValidity) :
    KnowledgeTx Unit :=
  .write fun db =>
    match db.validity.find key with
    | none => db
    | some old =>
      let new := { change old with recordId := old.recordId, revision := old.revision }
      (({ db with validity := db.validity.update new }).logged key.1 .revalidated).onChange key.1

/-- `INSERT INTO memory_dependencies`: both ends are revisions, and not the same one. -/
def insertDependency (row : MemoryDependency) : KnowledgeTx Unit :=
  .insert (fun db =>
    if row.derived = row.source ∨ (db.revisions.find row.derived).isNone ∨
        (db.revisions.find row.source).isNone ∨ row ∈ db.dependencies then none
    else some { db with dependencies := db.dependencies ++ [row] }) .conflict

/-- `INSERT INTO memory_heads`, which no trigger watches. -/
def insertHead (head : MemoryHead) : KnowledgeTx Unit :=
  .insert (fun db => (db.heads.insert? head).map fun heads => { db with heads := heads }) .conflict

/-- `UPDATE memory_heads SET revision, status` of a row that is there. -/
def updateHead (head : MemoryHead) (change : Change) : KnowledgeTx Unit :=
  .write fun db =>
    (({ db with heads := db.heads.update head }).logged head.recordId change).onChange head.recordId

/-! ## Revisions -/

structure NewRevision where
  id : String
  recordKey : String
  scopeId : String
  kind : MemoryKind
  bodyHash : ObjectId
  provenanceHash : ObjectId
  applicability : Applicability
  dependencies : List (String × Nat × String)
  expected : Option Nat
  expiryUnixMs : Option Int
  validityState : String
  validityReason : String
deriving DecidableEq, Repr

/-- The validity column of a text; empty is `valid`. -/
def validityState (text : String) : Option ValidityState :=
  if text = "" ∨ text = "valid" then some .valid
  else if text = "stale" then some .stale
  else if text = "blocked" then some .blocked
  else none

/-- The revisions that depend on one of these. -/
def Knowledge.derivedFrom (db : Knowledge) (sources : List (String × Nat)) : List (String × Nat) :=
  ((db.dependencies.filter fun d => sources.contains d.source).map (·.derived)).dedup

/-- The recursive query of `dependents`: every edge is followed at most once. -/
def Knowledge.affected (db : Knowledge) (source : String × Nat) : List (String × Nat) :=
  (db.dependencies.foldl (fun seen _ => (seen ++ db.derivedFrom seen).dedup)
    (db.derivedFrom [source]))

/-- One dependent: a valid active head becomes stale. -/
def invalidate (sequence : Nat) (key : String × Nat) : KnowledgeTx Unit := do
  let row ← .ask (·.validity.find key)
  let head ← .ask (·.heads.find key.1)
  if row.any (·.state = .valid) ∧ head.any (fun h => h.revision = key.2 && h.active) then
    updateValidity key fun v =>
      { v with state := .stale, reason := "dependency_changed", evaluatedSeq := sequence }
  else pure ()

/-- `memory_invalidation::dependents`. -/
def dependents (source : String × Nat) (sequence : Nat) (env : Outside) : KnowledgeTx Unit := do
  let rows ← .ask (·.affected source)
  .require (rows.length ≤ 10000)
    (.limit "memory dependency invalidation exceeds 10000 revisions")
  .outside env.routing
  Tx.forEach (invalidate sequence) rows

/-- The record of a revision: the known one, whose identity must not change, or a new one. -/
def admitRecord (next : NewRevision) : KnowledgeTx Unit := do
  let existing ← .ask (·.records.find next.id)
  match existing with
  | some old =>
    .require (old.recordKey = next.recordKey ∧ old.scopeId = next.scopeId ∧ old.kind = next.kind)
      (.invalid "memory record identity mismatch")
  | none => insertRecord ⟨next.id, next.recordKey, next.scopeId, next.kind, false⟩

/-- The rows of a new revision and the head that points to it. -/
def publish (next : NewRevision) (current : Option MemoryHead) (state : ValidityState)
    (sequence : Nat) : KnowledgeTx MemoryHead := do
  let revision := (current.map (·.revision)).getD 0 + 1
  let rowRevision := (current.map (·.rowRevision)).getD 0 + 1
  .require (revision ≤ i64Max ∧ rowRevision ≤ i64Max) (.invalid "integer exceeds SQLite range")
  insertRevision ⟨next.id, revision, next.bodyHash, next.provenanceHash, sequence, next.applicability⟩
  let reason := if next.validityReason = "" then "control_insert" else next.validityReason
  .require (reason.utf8ByteSize ≤ 64 ∧ hasControl reason = false) (.invalid "invalid validity reason")
  insertValidity ⟨next.id, revision, state, reason, next.expiryUnixMs, sequence⟩
  Tx.forEach (fun d => do
    .require (d.2.2 ≠ "" ∧ d.2.2.utf8ByteSize ≤ 64) (.invalid "invalid memory dependency kind")
    insertDependency ⟨(next.id, revision), (d.1, d.2.1), d.2.2⟩) next.dependencies
  let head : MemoryHead := ⟨next.id, revision, true, rowRevision⟩
  match current with
  | some _ => updateHead head .revised
  | none => insertHead head
  pure head

/-- `apply_memory_revision_in_tx`. -/
def applyMemoryRevision (next : NewRevision) (env : Outside) : KnowledgeTx (MemoryHead × Nat) := do
  .outside (env.applicability next.applicability)
  .require (next.recordKey ≠ "" ∧ next.recordKey.utf8ByteSize ≤ 512 ∧
    hasControl next.recordKey = false) (.invalid "invalid memory record_key")
  .require (next.scopeId ≠ "" ∧ next.scopeId.utf8ByteSize ≤ 128) (.invalid "invalid memory scope")
  .require (env.available next.bodyHash = true ∧ env.available next.provenanceHash = true)
    (.invalid "missing object")
  admitRecord next
  let current ← .ask (·.heads.find next.id)
  .require (headExpected next.expected current = true) .conflict
  let sequence ← insertEvent
  let state ← .find (fun _ => validityState next.validityState) (.invalid "invalid validity state")
  let head ← publish next current state sequence
  match current with
  | some old => dependents (next.id, old.revision) sequence env
  | none => pure ()
  .outside env.routing
  pure (head, sequence)

/-! ## Policy operations -/

/-- The writes of one policy operation on a record's head. -/
def applyOp (op : MemoryPolicyOp) (head : MemoryHead) (env : Outside) : KnowledgeTx Unit := do
  let key := (head.recordId, head.revision)
  match op with
  | .importAck =>
    updateValidity key fun v => { v with state := .valid, reason := "import_acked" }
    let _ ← insertEvent
    .outside env.routing
  | .hardRule =>
    setHard head.recordId
    updateValidity key fun v => { v with state := .valid, reason := "control_hard_rule" }
    let _ ← insertEvent
    .outside env.routing
  | .revokeHead =>
    updateHead { head with active := false, rowRevision := head.rowRevision + 1 } .revoked
    updateValidity key fun v => { v with state := .blocked, reason := "revoked" }
    let sequence ← insertEvent
    dependents key sequence env
  | .cutover => throw (.invalid "cutover is not applied in the memory store")

/-- `apply_memory_op_in_tx`. The first record of that key is the one the query returns. -/
def applyMemoryOp (op : MemoryPolicyOp) (recordKey : String) (env : Outside) :
    KnowledgeTx Unit := do
  let record ← .find (fun db => db.records.rows.find? fun r => r.recordKey = recordKey)
    (.invalid "memory record missing")
  let head ← .find (fun db => (db.heads.find record.id).filter (·.active))
    (.invalid "memory head missing")
  applyOp op head env

/-- `install_memory_policy`. -/
def installMemoryPolicy (policy : MemoryPolicy) (expectedHead : Nat) (env : Outside) :
    KnowledgeTx Unit := do
  .outside env.document
  let head ← .ask (·.head)
  .require (head = expectedHead) .conflict
  .require (policy.expectedHead = expectedHead)
    (.invalid "memory policy expected_head does not match store head")
  let path ← .ask (·.path)
  .require (path = policy.projectStore) (.invalid "memory policy belongs to a different project")
  let history ← .ask (·.policies)
  .require (history.length < 10000) (.invalid "memory policy history limit reached")
  .require (policy.revision = history.length + 1) .conflict
  .write fun db => { db with policies := db.policies ++ [policy], head := db.head + 1 }
  .outside env.routing
  if policy.op = .cutover then pure ()
  else do
    let key ← .find (fun _ => policy.recordKey) (.invalid "memory policy requires record_key")
    applyMemoryOp policy.op key env

/-! ## The fence -/

structure ReadSetHead where
  recordId : String
  revision : Nat
deriving DecidableEq, Repr

structure MemoryReadSet where
  recordHeads : List ReadSetHead
  validityRevisions : List ReadSetHead
  reviewerGrantId : Option String
  revocationEpoch : Nat
  policyRevision : Nat
  requiredSetGeneration : Nat
  scopeCatalogGenerations : List ScopeCatalogGeneration
deriving DecidableEq, Repr

/-- `grant_id_ok`. -/
def grantIdOk (id : String) : Bool := digest64 id

namespace Knowledge

variable (db : Knowledge)

/-- The records that the fence covers, in the order of their identities. -/
def mandatoryRecords : List MemoryRecord :=
  (db.records.rows.filter MemoryRecord.mandatory).insertionSort fun a b => a.id ≤ b.id

/-- The active head of a record. -/
def activeHead (id : String) : Option MemoryHead := (db.heads.find id).filter (·.active)

def recordHeads : List ReadSetHead :=
  db.mandatoryRecords.filterMap fun r => (db.activeHead r.id).map fun h => ⟨r.id, h.revision⟩

def validityRevisions : List ReadSetHead :=
  db.mandatoryRecords.filterMap fun r => (db.activeHead r.id).bind fun h =>
    (db.validity.find (r.id, h.revision)).map fun v => ⟨r.id, v.revision⟩

/-- `revocation_epoch`. -/
def revocationEpoch : Option String → Except StoreError Nat
  | none => .ok 0
  | some id =>
    match db.grants.find id with
    | none => .error .conflict
    | some grant =>
      if id ∈ db.revoked then
        if grant.revocationEpoch + 1 ≤ i64Max then .ok (grant.revocationEpoch + 1)
        else .error (.invalid "revocation epoch exhausted")
      else .ok grant.revocationEpoch

/-- `read_set::current`. -/
def current (grant : Option String) : Except StoreError MemoryReadSet :=
  if ¬grant.all grantIdOk then .error (.invalid "invalid reviewer grant id")
  else if 10000 < db.recordHeads.length then .error (.limit "memory read set exceeds 10000 records")
  else if 10000 < db.validityRevisions.length then
    .error (.limit "memory read set exceeds 10000 validity rows")
  else if 10000 < db.catalog.rows.length then
    .error (.limit "memory read set exceeds 10000 scope catalogs")
  else (db.revocationEpoch grant).map fun epoch => {
    recordHeads := db.recordHeads
    validityRevisions := db.validityRevisions
    reviewerGrantId := grant
    revocationEpoch := epoch
    policyRevision := db.policies.length
    requiredSetGeneration := db.requiredGeneration
    scopeCatalogGenerations := db.catalog.rows.insertionSort fun a b => a.scopeId ≤ b.scopeId }

end Knowledge

/-- `require_match`. The bounds that `validate_signed` checks hold for every current value. -/
def requireMatch (signed : MemoryReadSet) (env : Outside) : KnowledgeTx Unit := do
  .outside env.document
  let value ← .query fun db => db.current signed.reviewerGrantId
  .require (value = signed) .conflict

/-! ## Calls -/

/-- `insert_memory_revision`. -/
def insertMemoryRevision (next : NewRevision) (env : Outside) : KnowledgeTx Unit := do
  let _ ← applyMemoryRevision next env

/-- The revision that an approved import publishes over its base. -/
def importRevision (candidate : Objects.ImportCandidate) : KnowledgeTx NewRevision := do
  let previous ← .ask (·.records.find candidate.recordId)
  let kind := (previous.map (·.kind)).getD .observation
  match candidate.expectedRevision with
  | some base => do
    let row ← .find (·.revisions.find (candidate.recordId, base)) .noRows
    let validity ← .find (·.validity.find (candidate.recordId, base)) .noRows
    let sources ← .ask fun db =>
      db.dependencies.filter fun d => d.derived = (candidate.recordId, base)
    pure ⟨candidate.recordId, candidate.recordKey, "project", kind, candidate.bodyHash,
      candidate.provenanceHash, row.applicability,
      sources.map fun d => (d.source.1, d.source.2, d.kind), candidate.expectedRevision,
      validity.expiryUnixMs, "valid", "control_import_review"⟩
  | none =>
    pure ⟨candidate.recordId, candidate.recordKey, "project", kind, candidate.bodyHash,
      candidate.provenanceHash, ⟨[], [candidate.recordKey]⟩, [], none, none, "valid",
      "control_import_review"⟩

/-- `decide_memory_import` of a stored candidate. -/
def decideMemoryImport (candidate : Objects.ImportCandidate) (approve : Bool) (env : Outside) :
    KnowledgeTx Unit := do
  .outside env.document
  if approve then do
    let next ← importRevision candidate
    let _ ← applyMemoryRevision next env
    .outside env.routing
  else pure ()
  let _ ← insertEvent

/-- `finish_promotion` under a version-2 review: the signed fence is the current one. -/
def promote (signed : MemoryReadSet) (changes : List NewRevision) (env : Outside) :
    KnowledgeTx Unit := do
  requireMatch signed env
  Tx.forEach (fun next => do
    let record ← .ask (·.records.find next.id)
    .require (record.all fun r => !r.required)
      (.invalid "worker promotion cannot change mandatory rules")) changes
  Tx.forEach (fun next => do
    let _ ← applyMemoryRevision next env
    .outside env.routing) changes
  let _ ← insertEvent

inductive Call where
  | insertMemoryRevision (next : NewRevision) (env : Outside)
  | decideMemoryImport (candidate : Objects.ImportCandidate) (approve : Bool) (env : Outside)
  | promote (signed : MemoryReadSet) (changes : List NewRevision) (env : Outside)
  | installMemoryPolicy (policy : MemoryPolicy) (expectedHead : Nat) (env : Outside)
  /-- A validity row is evaluated again. -/
  | revalidate (key : String × Nat) (state : ValidityState) (reason : String)
      (expiryUnixMs : Option Int)
  | installDelegation (grant : GrantEpoch)
  | revokeDelegation (id : String)

def Call.body : Call → KnowledgeTx Unit
  | .insertMemoryRevision next env => ReadSets.insertMemoryRevision next env
  | .decideMemoryImport candidate approve env => ReadSets.decideMemoryImport candidate approve env
  | .promote signed changes env => ReadSets.promote signed changes env
  | .installMemoryPolicy policy expectedHead env =>
    ReadSets.installMemoryPolicy policy expectedHead env
  | .revalidate key state reason expiryUnixMs =>
    updateValidity key fun v => { v with state := state, reason := reason, expiryUnixMs := expiryUnixMs }
  | .installDelegation grant =>
    .insert (fun db => if db.grants.find grant.id = some grant then some db
      else (db.grants.insert? grant).map fun grants =>
        { db with grants := grants, head := db.head + 1 }) .conflict
  | .revokeDelegation id =>
    .insert (fun db => if (db.grants.find id).isNone ∨ id ∈ db.revoked then none
      else some { db with revoked := db.revoked ++ [id], head := db.head + 1 }) .conflict

def exec (call : Call) (db : Knowledge) : Except StoreError Unit × Knowledge :=
  Tx.commit call.body db

end Herdr.ReadSets
