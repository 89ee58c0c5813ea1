import Mathlib.Data.List.Sort
import Herdr.Domain.Records
import Herdr.Lib.Run
import Herdr.Lib.Table
import Herdr.Lib.Transaction

/-!
# Content-addressed objects and their collection

`src/store/objects.rs`, the object file steps of `src/memory/mod.rs`, and the writers that refer to
objects: `apply_memory_revision_in_tx`, `insert_proposal` and `stage_memory_import`. The bytes of
an object live in a file beside the database. Publishing and collecting hold the object I/O lock
and span several transactions; the other writers are single transactions and take no lock. A step
of the system is one transaction or one file operation, so every interleaving and every crash
between two of them is a list of steps.
-/

namespace Herdr.Objects

/-! ## Object identities -/

/-- `ObjectId`: 64 lowercase hexadecimal characters. -/
structure ObjectId where
  val : String
  valid : digest64 val = true
deriving DecidableEq

instance : Repr ObjectId := ⟨fun id => reprPrec id.val⟩

/-- `ObjectId::from_hex`. -/
def ObjectId.fromHex (value : String) : Except String ObjectId :=
  if h : digest64 value = true then .ok ⟨value, h⟩
  else .error "object hash must be 64 lowercase hex characters"

def scheme : List Char := "sha256:".toList

/-- `ObjectId::parse`. -/
def ObjectId.parse (value : String) : Except String ObjectId :=
  ObjectId.fromHex (if scheme.isPrefixOf value.toList then
    String.ofList (value.toList.drop scheme.length) else value)

/-! ## Tables -/

inductive Availability where
  | available | missing | purged
deriving DecidableEq, Repr

inductive Collection where
  | unclaimed | gcPending | gcDeleting
deriving DecidableEq, Repr

/-- A row of `objects`. -/
structure ObjectRow where
  hash : ObjectId
  size : Nat
  availability : Availability
  collection : Collection
  pinCount : Nat
  fencingToken : Nat
deriving DecidableEq, Repr

inductive MemoryKind where
  | constraint | hardMemory | contract | observation | assumption | taskLocal
deriving DecidableEq, Repr

structure MemoryRecord where
  id : String
  recordKey : String
  scopeId : String
  kind : MemoryKind
deriving DecidableEq, Repr

structure MemoryHead where
  recordId : String
  revision : Nat
  active : Bool
  rowRevision : Nat
deriving DecidableEq, Repr

structure MemoryRevision where
  recordId : String
  revision : Nat
  bodyHash : ObjectId
  provenanceHash : ObjectId
deriving DecidableEq, Repr

def MemoryRevision.key (r : MemoryRevision) : String × Nat := (r.recordId, r.revision)

/-- A change of a proposal: the objects it names, as they are written. -/
structure ProposalChange where
  bodyObject : String
  evidence : List (Option String)
deriving DecidableEq, Repr

/-- The objects that a change names, in the order they are checked. -/
def ProposalChange.objects (c : ProposalChange) : List String :=
  c.bodyObject :: c.evidence.filterMap id

structure Proposal where
  id : String
  payloadDigest : String
  validated : Bool
  /-- The `changes` of the payload. -/
  changes : List ProposalChange
deriving DecidableEq, Repr

structure ImportCandidate where
  id : String
  recordId : String
  recordKey : String
  expectedRevision : Option Nat
  bodyHash : ObjectId
  provenanceHash : ObjectId
deriving DecidableEq, Repr

/-- The tables that object references live in. -/
structure Memory where
  objects : Table ObjectRow ObjectRow.hash
  records : Table MemoryRecord MemoryRecord.id
  heads : Table MemoryHead MemoryHead.recordId
  revisions : Table MemoryRevision MemoryRevision.key
  proposals : Table Proposal Proposal.id
  candidates : Table ImportCandidate ImportCandidate.id
deriving DecidableEq

def Memory.empty : Memory := ⟨.empty, .empty, .empty, .empty, .empty, .empty⟩

abbrev MemoryTx (α : Type) := Tx Memory StoreError α

/-- `json_extract(..) IN (hash, 'sha256:' || hash)`. -/
def names (raw : String) (hash : ObjectId) : Bool :=
  raw = hash.val || raw.toList = scheme ++ hash.val.toList

/-- `referenced`: by a revision, a validated proposal or a staged import. -/
def Memory.referenced (db : Memory) (hash : ObjectId) : Bool :=
  (db.revisions.rows.any fun r => r.bodyHash = hash || r.provenanceHash = hash) ||
  (db.proposals.rows.any fun p => p.validated &&
    p.changes.any fun c => c.objects.any (names · hash)) ||
  (db.candidates.rows.any fun c => c.bodyHash = hash || c.provenanceHash = hash)

/-! ## Object rows -/

namespace ObjectRow

variable (row : ObjectRow)

/-- The row of bytes that were published again. -/
def upload : ObjectRow :=
  { row with
    availability := .available
    collection := .unclaimed
    fencingToken := row.fencingToken + 1 }

def pin : ObjectRow := { row with pinCount := row.pinCount + 1, collection := .unclaimed }

def unclaim : ObjectRow := { row with collection := .unclaimed }

/-- A claim takes a fresh token. -/
def claim : ObjectRow :=
  { row with collection := .gcPending, fencingToken := row.fencingToken + 1 }

def delete : ObjectRow := { row with collection := .gcDeleting }

def purge : ObjectRow := { row with availability := .purged, collection := .unclaimed }

/-- What `require_available` asks of a row. -/
def usable : Bool := row.availability = .available && row.collection ≠ .gcDeleting

end ObjectRow

def setObject (row : ObjectRow) : MemoryTx Unit :=
  .write fun db => { db with objects := db.objects.update row }

/-- `require_available`. -/
def requireAvailable (hash : ObjectId) : MemoryTx Unit := do
  let row ← .ask (·.objects.find hash)
  .require (row.any (·.usable) = true) (.invalid "missing object")

/-- `cancel_pending`. -/
def cancelPending (hash : ObjectId) : MemoryTx Unit :=
  .write fun db => match db.objects.find hash with
    | some row =>
      if row.collection = .gcPending then
        { db with objects := db.objects.update row.unclaim }
      else db
    | none => db

/-- `upsert_available`. The caller publishes the bytes under the object I/O lock first. -/
def upsertAvailable (hash : ObjectId) (size : Nat) : MemoryTx Unit := do
  let old ← .ask (·.objects.find hash)
  match old with
  | some row =>
    .require (row.size = size) (.invalid "object size mismatch")
    setObject row.upload
  | none =>
    .insert (fun db => (db.objects.insert? ⟨hash, size, .available, .unclaimed, 0, 0⟩).map
      fun objects => { db with objects := objects }) .conflict

/-- `pin`. -/
def pin (hash : ObjectId) : MemoryTx Unit := do
  requireAvailable hash
  .write fun db => match db.objects.find hash with
    | some row => { db with objects := db.objects.update row.pin }
    | none => db

/-- The objects that a collector may claim, in the order of their hashes. -/
def Memory.unreferenced (db : Memory) : List ObjectRow :=
  (db.objects.rows.filter fun r =>
    r.pinCount = 0 && r.availability = .available && !db.referenced r.hash).insertionSort
    fun a b => a.hash.val ≤ b.hash.val

/-- `claim_unreferenced`. An interrupted pending or deleting object is claimed again with a fresh
token. The candidates are read first, and each is updated under the token that was read, which no
other writer of this transaction changed. -/
def claimUnreferenced (limit : Nat) : MemoryTx (List (ObjectId × Nat)) := do
  let candidates ← .ask fun db => db.unreferenced.take limit
  .forEach (fun row => setObject row.claim) candidates
  pure (candidates.map fun row => (row.hash, row.fencingToken + 1))

/-- `begin_delete`. -/
def beginDelete (hash : ObjectId) (token : Nat) : MemoryTx Bool := do
  let referenced ← .ask (·.referenced hash)
  let row ← .ask (·.objects.find hash)
  match row with
  | some row =>
    if referenced = false ∧ row.availability = .available ∧ row.collection = .gcPending ∧
        row.pinCount = 0 ∧ row.fencingToken = token then
      setObject row.delete
      pure true
    else pure false
  | none => pure false

/-- `finish_purge`: whether the row changed. -/
def finishPurge (hash : ObjectId) (token : Nat) : MemoryTx Bool := do
  let row ← .ask (·.objects.find hash)
  match row with
  | some row =>
    if row.collection = .gcDeleting ∧ row.fencingToken = token then
      setObject row.purge
      pure true
    else pure false
  | none => pure false

/-! ## Writers that refer to objects -/

/-- What a writer checks and writes outside these tables. -/
structure MemoryOutside where
  /-- Applicability, validity, dependencies, the invalidation of dependents and barriers. -/
  revision : Option StoreError := none
  /-- The attempt and snapshot that a proposal is bound to. -/
  bound : Bool := true

structure NewRevision where
  id : String
  recordKey : String
  scopeId : String
  kind : MemoryKind
  bodyHash : ObjectId
  provenanceHash : ObjectId
  expected : Option Nat
deriving DecidableEq, Repr

/-- `memory_records` of a new record, or the identity check of a known one. -/
def admitRecord (next : NewRevision) : MemoryTx Unit := do
  let existing ← .ask (·.records.find next.id)
  match existing with
  | some old =>
    .require (old.recordKey = next.recordKey ∧ old.scopeId = next.scopeId ∧ old.kind = next.kind)
      (.invalid "memory record identity mismatch")
  | none =>
    .insert (fun db =>
      -- UNIQUE (scope_id, record_key)
      if db.records.rows.any fun r => r.scopeId = next.scopeId && r.recordKey = next.recordKey then
        none
      else (db.records.insert? ⟨next.id, next.recordKey, next.scopeId, next.kind⟩).map
        fun records => { db with records := records }) .conflict

/-- The caller expects no head, or the active one that is there. -/
def headExpected : Option Nat → Option MemoryHead → Bool
  | none, none => true
  | some revision, some head => head.revision = revision && head.active
  | _, _ => false

/-- The head that a revision replaces, under the caller's expectation. -/
def expectedHead (next : NewRevision) : MemoryTx (Option MemoryHead) := do
  let current ← .ask (·.heads.find next.id)
  .require (headExpected next.expected current = true) .conflict
  pure current

def writeHead (head : MemoryHead) (fresh : Bool) : MemoryTx Unit :=
  if fresh then
    .insert (fun db => (db.heads.insert? head).map fun heads => { db with heads := heads }) .conflict
  else .write fun db => { db with heads := db.heads.update head }

/-- `apply_memory_revision_in_tx`. -/
def applyMemoryRevision (env : MemoryOutside) (next : NewRevision) : MemoryTx MemoryHead := do
  .require (next.recordKey ≠ "" ∧ next.recordKey.utf8ByteSize ≤ 512 ∧
    hasControl next.recordKey = false) (.invalid "invalid memory record_key")
  .require (next.scopeId ≠ "" ∧ next.scopeId.utf8ByteSize ≤ 128) (.invalid "invalid memory scope")
  requireAvailable next.bodyHash
  requireAvailable next.provenanceHash
  cancelPending next.bodyHash
  cancelPending next.provenanceHash
  admitRecord next
  let current ← expectedHead next
  let revision := (current.map (·.revision)).getD 0 + 1
  let rowRevision := (current.map (·.rowRevision)).getD 0 + 1
  .require (revision ≤ i64Max ∧ rowRevision ≤ i64Max) (.invalid "integer exceeds SQLite range")
  .insert (fun db => (db.revisions.insert? ⟨next.id, revision, next.bodyHash,
    next.provenanceHash⟩).map fun revisions => { db with revisions := revisions }) .conflict
  let head : MemoryHead := ⟨next.id, revision, true, rowRevision⟩
  writeHead head current.isNone
  .outside env.revision
  pure head

/-- `require_available` and `cancel_pending` of an object as it is written. -/
def retainRaw (raw : String) : MemoryTx Unit := do
  let id ← .check ((ObjectId.parse raw).mapError .invalid)
  requireAvailable id
  cancelPending id

/-- The arguments of `insert_proposal`; `changes` is missing when the payload does not decode. -/
structure NewProposal where
  id : String
  digest : String
  validated : Bool
  payloadBytes : Nat
  changes : Option (List ProposalChange)
deriving DecidableEq, Repr

/-- `PROPOSAL_LIMIT`. -/
def proposalLimit : Nat := 65536

/-- `insert_proposal`: whether an earlier receipt was reused. -/
def insertProposal (env : MemoryOutside) (p : NewProposal) : MemoryTx Bool := do
  .require (p.id ≠ "" ∧ p.id.utf8ByteSize ≤ 128 ∧ p.digest.utf8ByteSize = 64 ∧
    0 < p.payloadBytes ∧ p.payloadBytes ≤ proposalLimit) (.invalid "invalid memory proposal")
  let existing ← .ask (·.proposals.find p.id)
  match existing with
  | some old =>
    .require (old.payloadDigest = p.digest) (.invalid "idempotency key conflict")
    pure true
  | none =>
    if p.validated then do
      let changes ← .find (fun _ => p.changes) (.invalid "invalid proposal payload")
      .require (env.bound = true)
        (.invalid "attempt snapshot binding changed before proposal acceptance")
      .forEach retainRaw (changes.flatMap (·.objects))
    .insert (fun db => (db.proposals.insert? ⟨p.id, p.digest, p.validated, p.changes.getD []⟩).map
      fun proposals => { db with proposals := proposals }) .conflict
    pure false

/-- `check_base`. -/
def Memory.baseCurrent (db : Memory) (c : ImportCandidate) : Bool :=
  let existing := db.records.rows.find? fun r =>
    r.scopeId = "project" && r.recordKey = c.recordKey && (db.heads.find r.id).isSome
  match existing, c.expectedRevision with
  | none, none => true
  | some record, some expected => record.id = c.recordId &&
      (db.heads.find record.id).any fun head => head.revision = expected && head.active
  | _, _ => false

/-- `stage_memory_import`. -/
def stageMemoryImport (c : ImportCandidate) : MemoryTx Unit := do
  .require (c.id.utf8ByteSize ≤ 128 ∧ c.recordKey.utf8ByteSize ≤ 512 ∧ c.id ≠ "" ∧
    c.recordKey ≠ "") (.invalid "invalid import candidate")
  let current ← .ask (·.baseCurrent c)
  .require (current = true) .conflict
  let old ← .ask (·.candidates.find c.id)
  match old with
  | some old => .require (old = c) (.invalid "candidate identity conflict")
  | none =>
    requireAvailable c.bodyHash
    cancelPending c.bodyHash
    requireAvailable c.provenanceHash
    cancelPending c.provenanceHash
    .insert (fun db => (db.candidates.insert? c).map
      fun candidates => { db with candidates := candidates }) .conflict

/-! ## The system -/

/-- Where the collector stands with the first object of its list. -/
inductive Stage where
  | claimed | deleting | unlinked
deriving DecidableEq, Repr

/-- What the holder of the object I/O lock is doing. -/
inductive Holder where
  /-- The bytes are in place and synced; the row is not written yet. -/
  | ingesting (hash : ObjectId) (size : Nat)
  | collecting (claims : List (ObjectId × Nat)) (stage : Stage)
deriving DecidableEq, Repr

structure World where
  db : Memory
  /-- The objects whose bytes are present. -/
  files : List ObjectId
  lock : Option Holder
deriving DecidableEq

def World.empty : World := ⟨.empty, [], none⟩

/-- One step of a client. -/
inductive Act where
  /-- `ingest_object` takes the lock and puts the bytes in place. -/
  | publish (hash : ObjectId) (size : Nat)
  /-- Its `upsert_object`, after which it returns. -/
  | upsertObject
  /-- `collect_unreferenced` takes the lock and runs `claim_gc`. -/
  | claimGc (limit : Nat)
  | beginGcDelete
  | unlink
  | finishGcPurge
  /-- The lock holder returns, stops on an error, or crashes. -/
  | release
  | pinObject (hash : ObjectId)
  | insertMemoryRevision (env : MemoryOutside) (next : NewRevision)
  | insertProposal (env : MemoryOutside) (proposal : NewProposal)
  | stageMemoryImport (candidate : ImportCandidate)

/-- What a step did to objects and tokens. -/
inductive Effect where
  | none
  | uploaded (hash : ObjectId)
  | claimed (claims : List (ObjectId × Nat))
  | deleting (hash : ObjectId) (token : Nat)
  | purged (hash : ObjectId) (token : Nat)
  | pinned (hash : ObjectId)
deriving DecidableEq, Repr

namespace World

/-- Run a transaction of a client that holds no lock. -/
def transact {α : Type} (w : World) (body : MemoryTx α) (effect : Effect) : Effect × World :=
  match body w.db with
  | .ok (_, db) => (effect, { w with db := db })
  | .error _ => (.none, w)

def publish (w : World) (hash : ObjectId) (size : Nat) : Effect × World :=
  match w.lock with
  | none => (.none, { w with files := hash :: w.files, lock := some (.ingesting hash size) })
  | some _ => (.none, w)

def upsertObject (w : World) : Effect × World :=
  match w.lock with
  | some (.ingesting hash size) =>
    { w with lock := none }.transact (upsertAvailable hash size) (.uploaded hash)
  | _ => (.none, w)

def claimGc (w : World) (limit : Nat) : Effect × World :=
  match w.lock with
  | none =>
    match claimUnreferenced limit w.db with
    | .ok (claims, db) =>
      (.claimed claims, { w with db := db, lock := some (.collecting claims .claimed) })
    | .error _ => (.none, w)
  | some _ => (.none, w)

def beginGcDelete (w : World) : Effect × World :=
  match w.lock with
  | some (.collecting ((hash, token) :: rest) .claimed) =>
    match beginDelete hash token w.db with
    | .ok (true, db) =>
      (.deleting hash token,
        { w with db := db, lock := some (.collecting ((hash, token) :: rest) .deleting) })
    | .ok (false, db) => (.none, { w with db := db, lock := some (.collecting rest .claimed) })
    | .error _ => (.none, { w with lock := none })
  | _ => (.none, w)

/-- `fs::remove_file`; a file that is not there is no error. -/
def unlink (w : World) : Effect × World :=
  match w.lock with
  | some (.collecting ((hash, token) :: rest) .deleting) =>
    (.none, { w with
      files := w.files.filter (· ≠ hash)
      lock := some (.collecting ((hash, token) :: rest) .unlinked) })
  | _ => (.none, w)

def finishGcPurge (w : World) : Effect × World :=
  match w.lock with
  | some (.collecting ((hash, token) :: rest) .unlinked) =>
    match finishPurge hash token w.db with
    | .ok (changed, db) =>
      (if changed then .purged hash token else .none,
        { w with db := db, lock := some (.collecting rest .claimed) })
    | .error _ => (.none, { w with lock := none })
  | _ => (.none, w)

end World

/-- One step of the system. -/
def exec (a : Act) (w : World) : Effect × World :=
  match a with
  | .publish hash size => w.publish hash size
  | .upsertObject => w.upsertObject
  | .claimGc limit => w.claimGc limit
  | .beginGcDelete => w.beginGcDelete
  | .unlink => w.unlink
  | .finishGcPurge => w.finishGcPurge
  | .release => (.none, { w with lock := none })
  | .pinObject hash => w.transact (pin hash) (.pinned hash)
  | .insertMemoryRevision env next => w.transact (applyMemoryRevision env next) .none
  | .insertProposal env proposal => w.transact (Objects.insertProposal env proposal) .none
  | .stageMemoryImport candidate => w.transact (Objects.stageMemoryImport candidate) .none

end Herdr.Objects
