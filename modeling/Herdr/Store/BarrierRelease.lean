import Herdr.Lib.GraphSearch
import Herdr.Store.Contracts

/-!
# Consuming a barrier release

`require_current_release_valid_until` of `src/store/barriers.rs`, with the check of one release of
`src/store/barriers/authorization.rs` and `result_barrier` of `src/store/contract_binding.rs`. A
release may be consumed while it and every release that its members' results were reserved under
are current. The members of a barrier are written with it and never changed.
-/

namespace Herdr.Barriers

/-! ## Tables -/

structure BarrierMember where
  taskId : TaskId
  contractRevision : Nat
  attemptId : AttemptId
  resultId : String
  verificationId : String
  integrationId : Option String
  proposalDispositions : List (String × String)
deriving DecidableEq, Repr

/-- A barrier with its members in the order of their positions. -/
structure FrozenBarrier where
  barrierId : String
  memoryManifestVersion : Nat
  requiredSetGeneration : Nat
  memoryManifestDigest : String
  releasedSeq : Option Nat
  revokedSeq : Option Nat
  members : List BarrierMember
deriving DecidableEq, Repr

/-- A row of `barrier_release_authorizations`. -/
structure ReleaseAuthorization where
  barrierId : String
  authorizationDigest : String
  sequence : Nat
  raw : List UInt8
deriving DecidableEq, Repr

/-- A row of `events` of the kind `barrier.released`, with the digest of its payload. -/
structure ReleaseEvent where
  sequence : Nat
  entity : String
  authorizationDigest : String
deriving DecidableEq, Repr

variable [Documents]

structure BarrierStore extends ContractStore where
  barriers : Table FrozenBarrier FrozenBarrier.barrierId
  authorizations : List ReleaseAuthorization
  releases : List ReleaseEvent
  /-- The attempts of `attempt_required_releases`. -/
  requiredReleases : List AttemptId
  /-- The attempts of `attempt_barrier_invalidations`. -/
  invalidations : List AttemptId
  /-- `active_work_meta`. -/
  incarnation : String

/-! ## Release documents -/

structure BarrierReleaseAuthorization where
  schemaVersion : Nat
  action : String
  projectStore : String
  storeIncarnation : String
  authority : VersionedReference
  configDigest : String
  controlRevision : Nat
  controlEpoch : Nat
  expectedHead : Nat
  barrierId : String
  memoryManifestVersion : Nat
  memoryManifestDigest : String
  requiredSetGeneration : Nat
  releasePolicy : String
  issuedUnixMs : Int
  expiresUnixMs : Int
deriving DecidableEq, Repr

/-- What a call reads outside these tables. -/
structure Outside where
  /-- `serde_json::from_slice` of a release authorization. -/
  decode : List UInt8 → Option BarrierReleaseAuthorization
  /-- `fs::canonicalize` of the path of the database. -/
  canonicalPath : String → Except StoreError String
  /-- `config_reference` of a configuration file as it is now. -/
  configReference : String → Except StoreError ConfigReference
  /-- `recheck_ready_with_budget`: the evidence of the members and the live memory manifest, with
  the instant at which its facts expire. -/
  ready : FrozenBarrier → Int → Except StoreError (Option Int)

structure PreparedBarrierRelease where
  document : BarrierReleaseAuthorization
  digest : String

/-- The envelope of a release authorization. -/
def BarrierReleaseAuthorization.accepted (d : BarrierReleaseAuthorization) : Bool :=
  d.schemaVersion = 1 && d.action = "release_barrier" && d.memoryManifestVersion = 2 &&
    d.releasePolicy = "all_members_ready_v1" && d.authority.id = "owner-approval-policy" &&
    d.authority.revision ≠ 0 && d.authority.revision ≤ i64Max && d.controlRevision ≠ 0 &&
    d.controlRevision ≤ i64Max && d.controlEpoch ≠ 0 && d.controlEpoch ≤ i64Max &&
    d.expectedHead ≤ i64Max && d.requiredSetGeneration ≤ i64Max && 0 ≤ d.issuedUnixMs &&
    d.issuedUnixMs < d.expiresUnixMs && isAbsolute d.projectStore &&
    d.projectStore.utf8ByteSize ≤ 4096 && !hasControl d.projectStore &&
    !(d.projectStore.toList.splitOn '/').contains ['.', '.'] &&
    [d.storeIncarnation, d.authority.digest, d.configDigest, d.barrierId,
      d.memoryManifestDigest].all digest64

/-- `PreparedBarrierRelease::parse_verified`. -/
def parseRelease (env : Outside) (raw : List UInt8) : Except String PreparedBarrierRelease :=
  if 65536 < raw.length then .error "barrier authorization exceeds 65536 bytes"
  else match env.decode raw with
    | none => .error "invalid barrier authorization document"
    | some document =>
      if document.accepted then .ok ⟨document, Documents.sha256 raw⟩
      else .error "invalid barrier authorization envelope"

/-! ## One release -/

/-- A release that a result was reserved under, or that a caller asks for. -/
structure ResultBarrier where
  reference : BarrierReleaseReference
  authority : VersionedReference
  config : Option String
deriving DecidableEq, Repr

namespace BarrierStore

variable (db : BarrierStore) (env : Outside)

/-- `load`. -/
def load (barrierId : String) : Except StoreError (Option FrozenBarrier) :=
  match db.barriers.find barrierId with
  | none => .ok none
  | some barrier =>
    if 1000 < barrier.members.length then
      .error (.limit "stored barrier membership exceeds 1000")
    else .ok (some barrier)

/-- The authorization that a reference names, with the event that released it. -/
def evidence (reference : BarrierReleaseReference) : Option ReleaseAuthorization :=
  db.authorizations.find? fun a => a.barrierId = reference.barrierId &&
    a.authorizationDigest = reference.authorizationDigest &&
    a.sequence = reference.releaseSequence &&
    db.releases.contains ⟨a.sequence, a.barrierId, a.authorizationDigest⟩

/-- The release identity that a document signs is the one required. -/
def identifies (prepared : PreparedBarrierRelease) (required : ResultBarrier)
    (barrier : FrozenBarrier) : Bool :=
  prepared.digest = required.reference.authorizationDigest &&
    prepared.document.barrierId = required.reference.barrierId &&
    prepared.document.authority = required.authority &&
    required.config = some prepared.document.configDigest &&
    prepared.document.memoryManifestVersion = barrier.memoryManifestVersion &&
    prepared.document.memoryManifestDigest = barrier.memoryManifestDigest &&
    prepared.document.requiredSetGeneration = barrier.requiredSetGeneration

/-- The control row is the one that the document was signed for. -/
def controlCurrent (document : BarrierReleaseAuthorization) : Bool :=
  db.control.state = .active && !db.control.reconciliationRequired &&
    db.control.revision = document.controlRevision && db.control.epoch = document.controlEpoch &&
    db.control.configDigest = some document.configDigest &&
    db.incarnation = document.storeIncarnation

/-- `authorization::require_current_release`. -/
def requireCurrentRelease (required : ResultBarrier) (now : Int) :
    Except StoreError (Option Int) := do
  required.reference.validate.mapError .invalid
  let loaded ← db.load required.reference.barrierId
  match loaded with
  | none => .error (invalid "required barrier is missing")
  | some barrier =>
    if barrier.revokedSeq.isSome ∨
        barrier.releasedSeq ≠ some required.reference.releaseSequence then
      .error (invalid "required barrier is not currently released")
    else match db.evidence required.reference with
      | none => .error (invalid "required barrier lacks exact signed release evidence")
      | some row => do
        let prepared ← (parseRelease env row.raw).mapError .corrupt
        if identifies prepared required barrier = false then
          .error (invalid "required barrier release identity or authority changed")
        else do
          let path ← env.canonicalPath db.path
          if db.controlCurrent prepared.document = false ∨
              path ≠ prepared.document.projectStore then
            .error (invalid "required barrier store or control identity changed")
          else env.ready barrier now

/-! ## Prerequisites -/

/-- A row of `barrier_members` with the digest of its contract. -/
structure MemberRow where
  task : TaskId
  revision : Nat
  digest : String
  attempt : AttemptId
deriving DecidableEq, Repr

/-- The members of a barrier whose contracts are there, by their positions. -/
def memberRows (barrierId : String) : List MemberRow :=
  (((db.barriers.find barrierId).map (·.members)).getD []).filterMap fun m =>
    (db.contracts.find (m.taskId, m.contractRevision)).map fun row =>
      ⟨m.taskId, m.contractRevision, row.contract.digest, m.attemptId⟩

/-- The reserved inputs of an attempt fit the contract of its result. -/
def checkReservation (contract : PreparedContract) (row : MemberRow) :
    Option AttemptInputRecord → Except StoreError Unit
  | none => .ok ()
  | some record =>
    if record.inputs.task ≠ row.task ∨ record.inputs.projectStore ≠ contract.projectStore then
      .error (invalid "result differs from its reserved attempt")
    else if record.inputs.taskContract.isSome ∧ (record.inputs.version ≠ 2 ∨
        record.inputs.taskContract ≠ some contract.reference) then
      .error (invalid "result contract differs from its reservation")
    else .ok ()

/-- The barrier that a contract requires, as the attempt was reserved under it. -/
def reservedBarrier (contract : PreparedContract) (barrier : BarrierReleaseReference)
    (row : MemberRow) (record : Option AttemptInputRecord) : Except StoreError ResultBarrier :=
  if db.latestContractRevision row.task ≠ some row.revision then
    .error (invalid "required barrier contract is no longer current")
  else match record with
    | none => .error (invalid "required barrier result lacks reserved launch inputs")
    | some record =>
      if record.inputs.version ≠ 2 ∨ record.inputs.taskContract ≠ some contract.reference then
        .error (invalid "required barrier result differs from its reservation")
      else do
        let config ← env.configReference record.inputs.config.path
        if config ≠ record.inputs.config then
          .error (invalid "required barrier configuration changed")
        else .ok ⟨barrier, contract.authority, record.inputs.config.digest⟩

/-- `result_barrier`. -/
def resultBarrier (row : MemberRow) : Except StoreError (Option ResultBarrier) :=
  if db.invalidations.contains row.attempt then
    .error (invalid "attempt's required barrier was revoked")
  else match db.contracts.find (row.task, row.revision) with
    | none => .error (.corrupt "result task contract is missing")
    | some installed =>
      let contract := installed.contract
      if contract.digest ≠ row.digest then
        .error (.corrupt "result task contract binding mismatch")
      else do
        let record := db.inputs.rows.find? (·.attempt = row.attempt)
        checkReservation contract.toPreparedContract row record
        match contract.requiredBarrier with
        | none =>
          if db.requiredReleases.contains row.attempt then
            .error (invalid "result contract omits the attempt's reserved barrier")
          else .ok none
        | some barrier =>
          (db.reservedBarrier env contract.toPreparedContract barrier row record).map some

/-! ## Ancestry -/

/-- The identity by which a release is visited once. -/
def visitKey (required : ResultBarrier) :
    String × Nat × String × VersionedReference × Option String :=
  (required.reference.barrierId, required.reference.releaseSequence,
    required.reference.authorizationDigest, required.authority, required.config)

/-- The members and the instant that the search has accumulated. -/
structure Ancestry where
  members : Nat := 0
  expiresUnixMs : Option Int := none
deriving DecidableEq, Repr

def earliestExpiry : Option Int → Option Int → Option Int
  | some left, some right => some (min left right)
  | some left, none => some left
  | none, right => right

/-- The loop over the members of a barrier: their prerequisites, and the members counted so far. -/
def prerequisites (required : ResultBarrier) :
    Nat → List MemberRow → Except StoreError (List ResultBarrier × Nat)
  | members, [] => .ok ([], members)
  | members, row :: rest =>
    if 1000 < members + 1 then
      .error (.limit "barrier ancestry exceeds 1000 member references")
    else match db.resultBarrier env row with
      | .error e => .error e
      | .ok none => prerequisites required (members + 1) rest
      | .ok (some parent) =>
        if required.reference.releaseSequence ≤ parent.reference.releaseSequence then
          .error (invalid "barrier prerequisite release is not earlier than its consuming wave")
        else match prerequisites required (members + 1) rest with
          | .error e => .error e
          | .ok (parents, members) => .ok (parent :: parents, members)

/-- The turn of the search for a release that was not visited. `visit` is the order in which the
members are read. -/
def ancestryTurn (visit : List MemberRow → List MemberRow) (now : Int) (required : ResultBarrier)
    (acc : Ancestry) : Except StoreError (List ResultBarrier × Ancestry) :=
  match db.requireCurrentRelease env required now with
  | .error e => .error e
  | .ok expires =>
    match db.prerequisites env required acc.members
        (visit (db.memberRows required.reference.barrierId)) with
    | .error e => .error e
    | .ok (parents, members) =>
      .ok (parents, ⟨members, earliestExpiry acc.expiresUnixMs expires⟩)

def maxReleases : Nat := 64

/-- The search in some order of members, and of pending prerequisites. -/
def ancestry (visit : List MemberRow → List MemberRow)
    (join : List ResultBarrier → List ResultBarrier → List ResultBarrier) (root : ResultBarrier)
    (now : Int) : Except StoreError (Option Int) :=
  (GraphSearch.explore visitKey maxReleases (.limit "barrier ancestry exceeds 64 releases") join
    (db.ancestryTurn env visit now) [] {} [root]).map (·.expiresUnixMs)

/-- `pending` is a stack: what was pushed last is popped first. -/
def pushAll (pending parents : List ResultBarrier) : List ResultBarrier :=
  parents.reverse ++ pending

/-- `require_current_release_valid_until`. -/
def requireCurrentReleaseValidUntil (reference : BarrierReleaseReference)
    (authority : VersionedReference) (config : Option String) (now : Int) :
    Except StoreError (Option Int) :=
  db.ancestry env (fun rows => rows) pushAll ⟨reference, authority, config⟩ now

end BarrierStore

end Herdr.Barriers
