import Mathlib.Data.List.Infix
import Herdr.Domain.Contract
import Herdr.Store.Calls
import Mathlib.Data.List.DropRight

/-!
# Contracts and resource claims

`install_contract` of `src/store/results.rs` and the overlap check of `src/store/satisfaction.rs`:
a contract's scope becomes resource claims when it is installed, and an admission compares the
claims of its task's latest contract with those that retained attempts hold. Rows of
`task_contracts` and `resource_claims` are written once, in one transaction, so the claims of a row
are those of its contract.
-/

namespace Herdr

/-! ## Resource claims -/

inductive ClaimKind where
  | path | named
deriving DecidableEq, Repr

def ClaimKind.asStr : ClaimKind → String
  | .path => "path"
  | .named => "named"

structure ResourceClaim where
  kind : ClaimKind
  resource : String
  access : ScopeAccess
  certainty : ScopeCertainty
deriving DecidableEq, Repr

def ContractScopePath.claim (scope : ContractScopePath) : ResourceClaim :=
  ⟨.path, scope.path, scope.access, scope.certainty⟩

def ContractNamedResource.claim (resource : ContractNamedResource) : ResourceClaim :=
  ⟨.named, resource.name.asStr, resource.access, .exact⟩

/-- The rows of `resource_claims` in the order of their ordinals. -/
def PreparedContract.claims (contract : PreparedContract) : List ResourceClaim :=
  contract.scopePaths.map (·.claim) ++ contract.namedResources.map (·.claim)

def PreparedContract.reference (contract : PreparedContract) : VersionedReference :=
  ⟨contract.taskId.val, contract.contractRevision, contract.digest⟩

/-- The segments of a claimed path, and whether it names a directory. -/
def splitClaimPath (path : String) : Bool × List (List Char) :=
  (namesDirectory path,
    ((path.toList.rdropWhile (· = '/')).splitOn '/').filter (· ≠ []))

/-- `segment.contains("**")`. -/
def coversRest (segment : List Char) : Bool := ['*', '*'] <:+: segment

/-- The loop of `paths_could_overlap` and its end. `**` can cover the rest of either path. -/
def segmentsCouldOverlap (leftDir rightDir : Bool) : List (List Char) → List (List Char) → Bool
  | leftPart :: left, rightPart :: right =>
    if coversRest leftPart || coversRest rightPart then true
    else if leftPart ≠ rightPart && !hasGlob leftPart && !hasGlob rightPart then false
    else segmentsCouldOverlap leftDir rightDir left right
  | [], [] => true
  | [], _ :: _ => leftDir
  | _ :: _, [] => rightDir

def pathsCouldOverlap (left right : String) : Bool :=
  let (leftDir, leftSegs) := splitClaimPath left
  let (rightDir, rightSegs) := splitClaimPath right
  if leftSegs = [] || rightSegs = [] then true
  else segmentsCouldOverlap leftDir rightDir leftSegs rightSegs

def claimsConflict (left right : ResourceClaim) : Bool :=
  if left.kind ≠ right.kind then false
  else match left.kind with
    | .named => left.resource = right.resource && (left.access = .write || right.access = .write)
    | .path =>
      if left.certainty = .exact && right.certainty = .exact then
        left.resource = right.resource && (left.access = .write || right.access = .write)
      else pathsCouldOverlap left.resource right.resource

/-- One claim as bounded display text. -/
def ResourceClaim.show (claim : ResourceClaim) : String :=
  let resource := (claim.resource.toList.map fun c => if isControl c then '?' else c).take 128
  claim.kind.asStr ++ " " ++ String.ofList resource ++ " (" ++ claim.access.asStr ++ ")"

/-! ## Installed contracts -/

variable [Documents]

/-- A contract whose bytes the parser accepts. -/
structure AcceptedContract extends PreparedContract where
  accepted : ∃ raw, PreparedContract.parseVerified raw = .ok toPreparedContract

/-- `parse_verified`, with the evidence that it accepted. -/
def acceptContract (raw : List UInt8) : Except String AcceptedContract :=
  match h : PreparedContract.parseVerified raw with
  | .ok contract => .ok ⟨contract, raw, h⟩
  | .error e => .error e

/-- A row of `task_contracts` with its resource claims. -/
structure InstalledContract where
  contract : AcceptedContract
  installedSeq : Nat

def InstalledContract.key (row : InstalledContract) : TaskId × Nat :=
  (row.contract.taskId, row.contract.contractRevision)

/-- The project store together with its contracts. -/
structure ContractStore extends Store where
  contracts : Table InstalledContract InstalledContract.key

def ContractStore.created (path : String) : ContractStore := ⟨.created path, .empty⟩

namespace ContractStore

variable (s : ContractStore)

/-- The contracts of one task that a filter keeps. -/
def revisions (task : TaskId) (keep : InstalledContract → Bool) : List Nat :=
  (s.contracts.rows.filter fun row => row.contract.taskId = task && keep row).map
    (·.contract.contractRevision)

/-- `SELECT MAX(contract_revision)`. -/
def latestContractRevision (task : TaskId) : Option Nat := (s.revisions task fun _ => true).max?

/-- `SELECT MIN(sequence) FROM events WHERE kind='attempt.reserved' AND entity=?`. -/
def reservedSequence (attempt : AttemptId) : Option Nat :=
  (s.events.findIdx? fun e => e.isAbout attempt.val [.attemptReserved]).map (· + 1)

/-- Revision already installed when this attempt was reserved. A later one does not move it. -/
def revisionAtReservation (attempt : AttemptId) (task : TaskId) : Option Nat :=
  match s.reservedSequence attempt with
  | none => none
  | some reserved => (s.revisions task fun row => row.installedSeq ≤ reserved).max?

def claimRows (task : TaskId) (revision : Nat) : Except StoreError (List ResourceClaim) :=
  let claims := ((s.contracts.find (task, revision)).map (·.contract.claims)).getD []
  if 72 < claims.length then .error (.limit "task resource claim limit exceeded") else .ok claims

/-- The first pair of conflicting claims, in the candidate's order. -/
def firstConflict (candidate held : List ResourceClaim) : Option (ResourceClaim × ResourceClaim) :=
  candidate.findSome? fun claim =>
    (held.find? (claimsConflict claim)).map fun other => (claim, other)

def overlapText (claim other : ResourceClaim) (holder : Attempt) : String :=
  claim.show ++ " overlaps " ++ other.show ++ " held by task " ++ holder.task.val ++ " attempt " ++
    holder.id.val

/-- The loop over the retained attempts. -/
def overlapWithHolders (task : TaskId) (candidate : List ResourceClaim) :
    List Attempt → Except StoreError (Option String)
  | [] => .ok none
  | attempt :: rest =>
    if !attempt.retainsCapacity || attempt.task = task then
      overlapWithHolders task candidate rest
    else match s.revisionAtReservation attempt.id attempt.task with
      | none => overlapWithHolders task candidate rest
      | some revision => do
        let held ← s.claimRows attempt.task revision
        match firstConflict candidate held with
        | some (claim, other) => pure (some (overlapText claim other attempt))
        | none => overlapWithHolders task candidate rest

/-- The first retained holder whose claims overlap the task's, as display text. -/
def overlapWithRetained (task : TaskId) (attempts : List Attempt) :
    Except StoreError (Option String) :=
  match s.latestContractRevision task with
  | none => .ok none
  | some revision => do
    let candidate ← s.claimRows task revision
    if candidate = [] then pure none else s.overlapWithHolders task candidate attempts

/-- `contract_binding::latest`. -/
def latestContract (task : TaskId) : Option AcceptedContract :=
  (s.latestContractRevision task).bind fun revision =>
    (s.contracts.find (task, revision)).map (·.contract)

/-- The contract that an attempt was reserved under. -/
def heldContract (attempt : Attempt) : Option AcceptedContract :=
  (s.revisionAtReservation attempt.id attempt.task).bind fun revision =>
    (s.contracts.find (attempt.task, revision)).map (·.contract)

/-- What an admission makes of the overlap of the task that it selected. The verdict is taken on
the tables at the start of the call, which the admission has not changed when it asks. -/
def overlapVerdict (env : Outside) (task : TaskId) : Option StoreError :=
  match s.overlapWithRetained task s.retained with
  | .error e => some e
  | .ok (some overlap) => some (.invalid ("resource_conflict: " ++ overlap))
  | .ok none => env.overlap task

/-- `contract_binding::validate`: the sealed reference is that of the latest contract. -/
def contractBinding (env : Outside) (i : LaunchInputs) : Option StoreError :=
  if (s.latestContract i.task).map (·.reference) ≠ i.taskContract then
    some (.invalid "task contract changed since launch preparation")
  else env.contractBinding i

/-- A call of the lifecycle as this store answers it. -/
def admitting (call : Call) : Call :=
  { call with outside := { call.outside with
      overlap := s.overlapVerdict call.outside
      contractBinding := s.contractBinding call.outside } }

end ContractStore

/-! ## Installation -/

structure ContractInstall where
  taskId : TaskId
  contractRevision : Nat
  digest : String
  replayed : Bool
deriving DecidableEq, Repr

/-- What an installation reads and does outside the modelled tables. -/
structure InstallOutside where
  /-- `fs::canonicalize` of the repository path and its comparison. -/
  repository : String → Option StoreError := fun _ => none
  /-- `validate_dependency_graph`. -/
  dependencyGraph : PreparedContract → Option StoreError := fun _ => none
  /-- `attach_stored_receipts` and the rows of other tables. -/
  subsidiary : Option StoreError := none

/-- The writes of a contract that is new. -/
def installFresh (env : InstallOutside) (parsed : AcceptedContract) :
    Tx ContractStore StoreError ContractInstall := do
  let current ← .ask (·.latestContractRevision parsed.taskId)
  .require (current.getD 0 + 1 = parsed.contractRevision)
    (invalid "contract revision must advance exactly once")
  let head ← .ask (·.head)
  .require (head = parsed.expectedHead) .conflict
  let known ← .ask fun s => (s.tasks.find parsed.taskId).isSome
  .require (known = true) (invalid "contract task is missing")
  .outside (env.dependencyGraph parsed.toPreparedContract)
  .write fun s => { s with events := s.events ++ [⟨parsed.taskId.val, parsed.contractRevision,
    .contractInstalled parsed.digest parsed.route.asStr⟩] }
  let sequence ← .ask (·.head)
  .require (sequence ≤ i64Max) (invalid "integer exceeds SQLite range")
  .insert (fun s => (s.contracts.insert? ⟨parsed, sequence⟩).map
    fun t => { s with contracts := t }) .conflict
  .outside env.subsidiary
  pure ⟨parsed.taskId, parsed.contractRevision, parsed.digest, false⟩

/-- `install_contract`. The same bytes again are a read. -/
def installContract (env : InstallOutside) (prepared : PreparedContract) :
    Tx ContractStore StoreError ContractInstall := do
  let parsed ← .check ((acceptContract prepared.raw).mapError .invalid)
  .require (parsed.digest = prepared.digest ∧ parsed.digest = Documents.sha256 prepared.raw)
    (invalid "changed contract bytes")
  let path ← .ask (·.path)
  .require (parsed.projectStore = path) (invalid "contract belongs to another project")
  .outside (env.repository parsed.repository)
  let existing ← .ask (·.contracts.find (parsed.taskId, parsed.contractRevision))
  match existing with
  | some row =>
    .require (Documents.sha256 row.contract.raw = row.contract.digest)
      (.corrupt "task contract digest mismatch")
    .require (row.contract.raw = parsed.raw ∧ row.contract.digest = parsed.digest)
      (invalid "changed contract bytes")
    pure ⟨parsed.taskId, parsed.contractRevision, row.contract.digest, true⟩
  | none => installFresh env parsed

end Herdr
