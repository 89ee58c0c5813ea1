import Herdr.Domain.Contract
import Herdr.Store.Calls
import Herdr.Store.Plans

/-!
# Delegated reservations

`src/store/delegated_reservation.rs` with the documents of `src/domain/delegated_reservation.rs`
and the grants of `src/store/delegation.rs`. A subject reserves attempts under a finite grant of the
owner: each request is one exact launch, bound to its key forever, and the launch it derives is
checked against the grant again at every claim. The reservation itself is `admit_prepared` of
`Store.Reservations`.
-/

namespace Herdr.Delegation

open Plans (Bytes identifier)

/-! ## Grants and requests -/

inductive DelegationAction where
  | reserveAttempt | reviewMemory
deriving DecidableEq, Repr

structure RepositoryBase where
  repository : String
  gitRef : String
  commitOid : String
  objectFormat : ObjectFormat
deriving DecidableEq, Repr

structure ReservationScope where
  taskContracts : List VersionedReference
  profiles : List VersionedReference
  budget : VersionedReference
  repositoryBases : List RepositoryBase
  maxTotalAttempts : Nat
deriving DecidableEq, Repr

/-- A grant, as its stored bytes parse. -/
structure PreparedDelegation where
  digest : String
  subject : String
  actions : List DelegationAction
  profileKinds : List String
  maxConcurrentAttempts : Nat
  expiresUnixMs : Int
  projectStore : String
  authority : VersionedReference
  /-- Version 1 has none. -/
  reservationScope : Option ReservationScope
deriving DecidableEq, Repr

structure DelegatedReservationRequest where
  schemaVersion : Nat
  grantId : String
  subject : String
  storeIncarnation : String
  idempotencyKey : String
  expectedHead : Nat
  issuedUnixMs : Int
  inputs : LaunchInputs
deriving DecidableEq, Repr

/-- A request with the bytes that the subject signed. -/
structure SignedRequest where
  request : DelegatedReservationRequest
  raw : Bytes
  digest : String
deriving DecidableEq, Repr

/-- What the latest contract of a task says about its authority and base. -/
structure ContractBase where
  authority : VersionedReference
  repository : String
  baseOid : String
  objectFormat : ObjectFormat
deriving DecidableEq, Repr

/-- The pure functions that requests are read and checked with. -/
class Signed where
  /-- SHA-256 as lowercase hexadecimal. -/
  sha256 : Bytes → String
  /-- `serde_json::from_slice`. -/
  decode : Bytes → Option DelegatedReservationRequest
  /-- `profile.validate_for_launch` and the comparison with its own reference. -/
  profile : LaunchInputs → Option StoreError

section Documents

variable [Signed]

/-- `PreparedDelegatedReservation::parse_verified`. -/
def parseVerified (raw : Bytes) : Except String SignedRequest :=
  if 65536 < raw.length then .error "delegated request exceeds 65536 bytes"
  else match Signed.decode raw with
    | none => .error "invalid delegated reservation request"
    | some request =>
      if request.schemaVersion ≠ 1 ∨ ¬digest64 request.grantId ∨ ¬digest64 request.storeIncarnation ∨
          ¬identifier request.idempotencyKey ∨ request.subject.isEmpty ∨
          256 < request.subject.utf8ByteSize ∨ hasControl request.subject ∨
          i64Max < request.expectedHead ∨ request.issuedUnixMs < 0 then
        .error "invalid delegated reservation envelope"
      else .ok ⟨request, raw, Signed.sha256 raw⟩

end Documents

variable [Digests]

/-- `PreparedDelegatedReservation::approval`: the approval that a request derives from a grant. -/
def SignedRequest.approval (prepared : SignedRequest) (grant : PreparedDelegation) :
    Except String ApprovalGrant := do
  if prepared.request.grantId ≠ grant.digest ∨ prepared.request.subject ≠ grant.subject then
    throw "delegated request subject or grant mismatch"
  let scope ← ApprovalScope.forLaunch prepared.request.inputs
  let approval : ApprovalGrant :=
    ⟨1, scope, grant.authority, prepared.request.issuedUnixMs, grant.expiresUnixMs⟩
  approval.validate
  pure approval

/-! ## The store -/

/-- The `request_bytes` of a row of `delegated_reservations`. -/
structure StoredRequest where
  grantId : String
  idempotencyKey : String
  raw : Bytes
deriving DecidableEq, Repr

def StoredRequest.key (row : StoredRequest) : String × String := (row.grantId, row.idempotencyKey)

structure DelegationStore where
  store : Store
  /-- `delegation_grants`. -/
  grants : Table PreparedDelegation PreparedDelegation.digest
  /-- The grants of `delegation_revocations`. -/
  revoked : List String
  requests : Table StoredRequest StoredRequest.key
  /-- `active_work_meta.incarnation`. -/
  incarnation : String
deriving DecidableEq

/-- What one call reads outside these tables. -/
structure Reads where
  outside : Outside
  /-- `contract_binding::latest`. -/
  contract : TaskId → Except StoreError (Option ContractBase)

namespace DelegationStore

variable (db : DelegationStore) (reads : Reads)

/-- `load`. -/
def load (id : String) : Except StoreError PreparedDelegation :=
  if id.utf8ByteSize ≠ 64 ∨ ¬id.toList.all asciiHex then .error (invalid "invalid delegation id")
  else match db.grants.find id with
    | none => .error (invalid "delegation is missing")
    | some grant => .ok grant

/-- `incarnation`. -/
def checkIncarnation (request : DelegatedReservationRequest) : Except StoreError Unit :=
  if db.incarnation ≠ request.storeIncarnation then
    .error (invalid "delegated request belongs to another store incarnation")
  else .ok ()

/-- `scope`. -/
def scope (grant : PreparedDelegation) (inputs : LaunchInputs) (now : Int) :
    Except StoreError Unit :=
  match grant.reservationScope with
  | none => .error (invalid "delegation v1 cannot reserve attempts")
  | some bounds =>
    if grant.projectStore ≠ inputs.projectStore ∨ grant.expiresUnixMs ≤ now ∨
        .reserveAttempt ∉ grant.actions then
      .error (invalid "delegation is expired or belongs to another action/store")
    else if grant.digest ∈ db.revoked then .error (invalid "delegation is revoked")
    else match inputs.effectiveProfile with
      | none => .error (invalid "delegation requires an effective profile")
      | some profile =>
        if profile.permissionPolicy ≠ grant.authority ∨ profile.kind ∉ grant.profileKinds ∨
            inputs.profile ∉ bounds.profiles ∨ inputs.budget ≠ some bounds.budget ∨
            ¬inputs.taskContract.any (fun r => r.id = inputs.task.val && bounds.taskContracts.contains r) then
          .error (invalid "launch exceeds delegated contract, profile, budget or policy scope")
        else match reads.contract inputs.task with
          | .error e => .error e
          | .ok none => .error (invalid "delegation requires a signed task contract")
          | .ok (some contract) =>
            if contract.authority ≠ grant.authority then
              .error (invalid "delegated contract uses another authority policy")
            else if inputs.repositories.isEmpty ∨
                ¬inputs.repositories.all (fun repo => bounds.repositoryBases.any fun base =>
                  base.repository = repo.repository && base.commitOid = repo.commit &&
                    repo.tree.utf8ByteSize = base.commitOid.utf8ByteSize) ∨
                ¬bounds.repositoryBases.any (fun base => base.repository = contract.repository &&
                  base.commitOid = contract.baseOid && base.objectFormat = contract.objectFormat) then
              .error (invalid "launch exceeds delegated repository bases")
            else .ok ()

/-- The reservations of a grant whose attempts are stored. -/
def reservations (grant : String) : List DelegatedReservation :=
  db.store.delegated.rows.filter fun d => d.grantId = grant &&
    (db.store.attempts.find d.attempt).isSome

/-- Those whose attempts have not been observed to end. -/
def unterminated (grant : String) : List DelegatedReservation :=
  db.store.delegated.rows.filter fun d => d.grantId = grant &&
    (db.store.attempts.find d.attempt).any fun a => !a.terminationObserved

/-- What `install_derived` checks before it inserts the approval. -/
def checkDerived (prepared : SignedRequest) (inputs : LaunchInputs) (now : Int) :
    Except StoreError Unit := do
  db.checkIncarnation prepared.request
  let grant ← db.load prepared.request.grantId
  db.scope reads grant inputs now
  let approval ← (prepared.approval grant).mapError .invalid
  (approval.matchesLaunch inputs grant.projectStore now).mapError .invalid
  match grant.reservationScope with
  | none => throw (invalid "delegation lacks reservation scope")
  | some bounds => do
    if bounds.maxTotalAttempts ≤ (db.reservations grant.digest).length then
      throw (invalid "delegation lifetime attempt limit reached")
    if grant.maxConcurrentAttempts ≤ (db.unterminated grant.digest).length then
      throw (invalid "delegation concurrent attempt limit reached")

variable [Signed]

/-- `validate_derived`. -/
def validateDerived (inputs : LaunchInputs) (now : Int) : Except StoreError Unit :=
  match db.store.delegated.rows.find? fun d => d.approval = inputs.approval.id with
  | none => .ok ()
  | some row => do
    let raw := ((db.requests.find row.key).map (·.raw)).getD []
    let prepared ← (parseVerified raw).mapError .corrupt
    if prepared.digest ≠ row.requestDigest then
      throw (.corrupt "delegated request digest mismatch")
    db.checkIncarnation prepared.request
    let grant ← db.load prepared.request.grantId
    db.scope reads grant inputs now
    let approval ← (prepared.approval grant).mapError .corrupt
    (approval.matchesLaunch inputs grant.projectStore now).mapError .invalid

/-- The verdict of a check. -/
def verdict : Except StoreError Unit → Option StoreError
  | .ok _ => none
  | .error e => some e

/-- What a transaction at the clock `now` reads outside the tables of `Store`: every launch check
validates derived approvals. -/
def outside (now : Int) : Outside :=
  { reads.outside with
    derived := fun i => verdict (db.validateDerived reads i now)
    profile := Signed.profile }

/-- The same, for the admission of a delegated launch. -/
def admission (prepared : SignedRequest) (inputs : LaunchInputs) (now : Int) : Outside :=
  { db.outside reads now with
    delegation := fun _ => verdict (db.checkDerived reads prepared inputs now) }

end DelegationStore

abbrev DelegationTx (α : Type) := Tx DelegationStore StoreError α

/-- A statement of the tables of `Store`. -/
def inStore {α : Type} (body : Body α) : DelegationTx α :=
  .within (·.store) (fun s db => { db with store := s }) body

/-! ## Calls -/

/-- `install_delegation` of bytes that parse. The same grant again is a read. -/
def installDelegation (grant : PreparedDelegation) (now : Int) : DelegationTx String := do
  .require (now < grant.expiresUnixMs) (invalid "delegation grant is expired")
  let path ← .ask (·.store.path)
  .require (grant.projectStore = path) (invalid "delegation belongs to another project")
  let existing ← .ask (·.grants.find grant.digest)
  match existing with
  | some stored => do
    .require (stored = grant) (invalid "changed delegation bytes")
    pure grant.digest
  | none => do
    .insert (fun db => (db.grants.insert? grant).map fun grants => { db with grants := grants })
      .conflict
    pure grant.digest

/-- `revoke_delegation`. -/
def revokeDelegation (id : String) (expectedHead : Nat) (now : Int) (reason : String) :
    DelegationTx Unit := do
  inStore (nowCheck now)
  .require (¬trimEmpty reason ∧ reason.utf8ByteSize ≤ 4000 ∧ ¬hasControl reason)
    (invalid "invalid delegation revocation reason")
  inStore (expectHead expectedHead)
  let known ← .ask fun db => (db.grants.find id).isSome
  .require (known = true) (invalid "delegation grant is missing")
  -- the grant is the primary key of its revocation
  let revoked ← .ask fun db => db.revoked.contains id
  .require (revoked = false) .conflict
  .write fun db => { db with revoked := db.revoked ++ [id] }

section Reserve

variable [Signed]

/-- `replay`: the answer that this key already has. -/
def replay (prepared : SignedRequest) (reads : Reads) : DelegationTx (Option Reservation) := do
  .query fun db => db.checkIncarnation prepared.request
  let stored ← .ask fun db =>
    db.store.delegated.find (prepared.request.grantId, prepared.request.idempotencyKey)
  match stored with
  | none => pure none
  | some row => do
    let raw ← .ask fun db => ((db.requests.find row.key).map (·.raw)).getD []
    .require (row.requestDigest = prepared.digest ∧ raw = prepared.raw) .conflict
    let env ← .ask fun db => db.outside reads 0
    let retained ← inStore (readInput env row.response.record.operation)
    .require (retained = row.response.record)
      (.corrupt "delegated response differs from retained reservation")
    pure (some row.response)

/-- The request bytes of the row that `record` inserts. -/
def recordRequest (prepared : SignedRequest) : DelegationTx Unit :=
  .insert (fun db => (db.requests.insert?
    ⟨prepared.request.grantId, prepared.request.idempotencyKey, prepared.raw⟩).map
      fun requests => { db with requests := requests }) .conflict

/-- The transaction of `admit_prepared` for one delegated launch. -/
def admitDelegated (prepared : SignedRequest) (approval : ApprovalGrant) (inputs : LaunchInputs)
    (now : Int) (reads : Reads) : DelegationTx Reservation := do
  let env ← .ask fun db => db.admission reads prepared inputs now
  inStore (nowCheck now)
  inStore (checkPrepared env [] [inputs])
  let replayed ← replay prepared reads
  match replayed with
  | some result => pure result
  | none => do
    let result ← inStore (admitFresh env [inputs] prepared.request.expectedHead now false
      (some ⟨prepared.request.grantId, prepared.request.idempotencyKey, prepared.digest, approval⟩))
    let result ← .find (fun _ => result) (invalid "delegated reservation missing")
    recordRequest prepared
    pure result

/-- `reserve_delegated`. What it reads before its transaction is read in the transaction again. -/
def reserveDelegated (prepared : SignedRequest) (now : Int) (reads : Reads) :
    DelegationTx Reservation := do
  let reparsed ← .check ((parseVerified prepared.raw).mapError .invalid)
  .require (reparsed.request = prepared.request ∧ reparsed.digest = prepared.digest)
    (invalid "changed delegated request")
  let replayed ← replay prepared reads
  match replayed with
  | some result => pure result
  | none => do
    let grant ← .query fun db => db.load prepared.request.grantId
    let approval ← .check ((prepared.approval grant).mapError .invalid)
    let own ← .check (approval.reference.mapError .invalid)
    admitDelegated prepared approval { prepared.request.inputs with approval := own } now reads

end Reserve

/-! ## Runs -/

/-- The clock that a method is given. -/
def methodClock : Method → Int
  | .claimOperation _ _ _ now _ _ | .validateClaim _ now | .finishOperation _ _ now
  | .expireClaims now | .observeOperation _ _ _ _ now | .retireOperation _ _ _ _ now
  | .continueWorktreeLaunchCreation _ _ now | .recordLaunchWorkspace _ _ now
  | .recordLaunchLayout _ _ now | .observeLaunchWorkspace _ _ _ now | .recordLaunchTarget _ _ now
  | .observeLaunchTarget _ _ _ now | .recordLaunchRelease _ _ now | .recordLaunchName _ _ now
  | .recordLaunchStarted _ _ now | .observeLaunchStarted _ _ _ now
  | .recordLaunchStopped _ _ _ now | .recordWorkerTermination _ _ _ now
  | .requestCompletion _ _ now | .admitPrepared _ _ now _ _ | .cancelAttempt _ _ _ _ now
  | .queueTask _ _ _ _ now => now
  | .setSchedulerPolicy _ _ _ _ => 0

/-- A delegated reservation is admitted by `reserve_delegated` only. -/
def undelegated : Method → Bool
  | .admitPrepared _ _ _ _ delegated => delegated.isNone
  | _ => true

/-- What other writers did: project control, policy, tasks, queue, bindings and ownership changed,
and approvals were installed and revoked. -/
structure Elsewhere where
  control : ProjectControl
  policy : SchedulerPolicy
  tasks : Table Task Task.id
  queue : Table QueueRecord QueueRecord.task
  bindings : Table RuntimeBinding RuntimeBinding.id
  ownership : Table RuntimeOwnership RuntimeOwnership.binding
  approvals : List GrantRow
  revocations : Table ApprovalRevocation ApprovalRevocation.approval

/-- Approvals whose identity is taken are refused. -/
def installApprovals (grants : Table GrantRow GrantRow.id) (rows : List GrantRow) :
    Table GrantRow GrantRow.id :=
  rows.foldl (fun t row => (t.insert? row).getD t) grants

def Elsewhere.apply (change : Elsewhere) (s : Store) : Store :=
  { s with
    control := change.control
    policy := change.policy
    tasks := change.tasks
    queue := change.queue
    bindings := change.bindings
    ownership := change.ownership
    grants := installApprovals s.grants change.approvals
    revocations := change.revocations }

inductive Call where
  | reserve (prepared : SignedRequest) (now : Int) (reads : Reads)
  | method (method : { m : Method // undelegated m = true }) (reads : Reads)
  | install (grant : PreparedDelegation) (now : Int)
  | revoke (id : String) (expectedHead : Nat) (now : Int) (reason : String)
  | elsewhere (change : Elsewhere)

inductive Answer where
  | reserved (result : Reservation)
  | response (response : Response)
  | done
deriving DecidableEq, Repr

variable [Signed]

/-- A method of the lifecycle. -/
def execMethod (method : Method) (reads : Reads) : DelegationTx Response := do
  let env ← .ask fun db => db.outside reads (methodClock method)
  inStore (method.body env)

/-- Answer one call. -/
def answer {α : Type} (wrap : α → Answer) (body : DelegationTx α) (db : DelegationStore) :
    Except StoreError Answer × DelegationStore :=
  ((Tx.commit body db).1.map wrap, (Tx.commit body db).2)

def exec : Call → DelegationStore → Except StoreError Answer × DelegationStore
  | .reserve prepared now reads => answer .reserved (reserveDelegated prepared now reads)
  | .method method reads => answer .response (execMethod method.val reads)
  | .install grant now => answer (fun _ => .done) (installDelegation grant now)
  | .revoke id expectedHead now reason =>
    answer (fun _ => .done) (revokeDelegation id expectedHead now reason)
  | .elsewhere change => fun db => (.ok .done, { db with store := change.apply db.store })

end Herdr.Delegation
