import Herdr.Domain.Records
import Herdr.Domain.Text

/-!
# Factory contracts

`src/domain/factory.rs`: a contract document is decoded into an untrusted record and becomes a
`PreparedContract` only when every field passes its check. Its scope paths are normalized here;
`write_scopes` and `in_write_scope` decide which changed files a result may contain.
-/

namespace Herdr

/-! ## Data -/

inductive ObjectFormat where
  | sha1 | sha256
deriving DecidableEq, Repr

def ObjectFormat.oidLen : ObjectFormat → Nat
  | .sha1 => 40
  | .sha256 => 64

inductive ContractRoute where
  | verifyThenIntegrate | verifyOnly
deriving DecidableEq, Repr

def ContractRoute.asStr : ContractRoute → String
  | .verifyThenIntegrate => "verify_then_integrate"
  | .verifyOnly => "verify_only"

structure AcceptancePolicy where
  id : String
  text : String
deriving DecidableEq, Repr

inductive ScopeAccess where
  | read | write
deriving DecidableEq, Repr

def ScopeAccess.asStr : ScopeAccess → String
  | .read => "read"
  | .write => "write"

/-- Exact file paths can be compared literally. Globs and directories stay uncertain. -/
inductive ScopeCertainty where
  | exact | uncertain
deriving DecidableEq, Repr

inductive NamedResource where
  | schema | lockfile | generated
deriving DecidableEq, Repr

def NamedResource.asStr : NamedResource → String
  | .schema => "schema"
  | .lockfile => "lockfile"
  | .generated => "generated"

structure ContractScopePath where
  path : String
  access : ScopeAccess
  certainty : ScopeCertainty
deriving DecidableEq, Repr

structure ContractNamedResource where
  name : NamedResource
  access : ScopeAccess
deriving DecidableEq, Repr

structure ContractDependency where
  predecessor : TaskId
  edge : String
  policyId : String
  policyDigest : Option String
deriving DecidableEq, Repr

structure BarrierReleaseReference where
  schemaVersion : Nat
  barrierId : String
  releaseSequence : Nat
  authorizationDigest : String
deriving DecidableEq, Repr

structure UntrustedScopePath where
  path : String
  access : String
deriving DecidableEq, Repr

structure UntrustedNamedResource where
  name : String
  access : String
deriving DecidableEq, Repr

structure UntrustedScope where
  paths : List UntrustedScopePath := []
  namedResources : List UntrustedNamedResource := []
deriving DecidableEq, Repr

structure UntrustedOutput where
  path : String
  kind : String
deriving DecidableEq, Repr

/-- What `serde_json` decodes from the signed bytes. -/
structure UntrustedContractDocument where
  version : Nat
  projectStore : String
  expectedHead : Nat
  taskId : TaskId
  contractRevision : Nat
  planRevision : Option Nat := none
  deliverable : String
  nonGoals : String
  acceptancePolicies : List AcceptancePolicy
  repository : String
  baseOid : String
  objectFormat : ObjectFormat
  memorySnapshotId : Option String := none
  dependencies : List ContractDependency
  requiredBarrier : Option BarrierReleaseReference := none
  scope : UntrustedScope := {}
  outputs : Option (List UntrustedOutput) := none
  capabilityFlags : List String
  profileKind : String
  retryClass : String
  resultSchemaId : String
  route : ContractRoute
  authority : VersionedReference
deriving DecidableEq, Repr

structure PreparedContract where
  raw : List UInt8
  digest : String
  taskId : TaskId
  contractRevision : Nat
  planRevision : Option Nat
  projectStore : String
  expectedHead : Nat
  repository : String
  baseOid : String
  objectFormat : ObjectFormat
  memorySnapshotId : Option String
  route : ContractRoute
  authority : VersionedReference
  acceptancePolicies : List AcceptancePolicy
  dependencies : List ContractDependency
  requiredBarrier : Option BarrierReleaseReference
  profileKind : String
  capabilityFlags : List String
  requiredOutputs : List String
  scopePaths : List ContractScopePath
  namedResources : List ContractNamedResource
deriving DecidableEq, Repr

/-- What the parser calls outside this module: the JSON decoder, SHA-256 as lowercase hexadecimal,
and the check of a policy text that uses one of the executable keys. -/
class Documents where
  decode : List UInt8 → Option UntrustedContractDocument
  sha256 : List UInt8 → String
  executionPolicy : String → Except String Unit

/-! ## Field checks -/

/-- `if refused { return Err(message.into()) }`. -/
def refuse (refused : Prop) [Decidable refused] (message : String) : Except String Unit :=
  if refused then .error message else .ok ()

def plain (value : String) (max : Nat) : Bool :=
  !value.isEmpty && value.utf8ByteSize ≤ max && !hasControl value

def hexOid (value : String) (format : ObjectFormat) : Bool :=
  value.utf8ByteSize = format.oidLen && value.toList.all lowerHex

def identifier (value : String) : Bool :=
  1 ≤ value.utf8ByteSize && value.utf8ByteSize ≤ 128 &&
    value.toList.all fun c => asciiAlphanumeric c || c = '-' || c = '_' || c = '.' || c = ':'

def BarrierReleaseReference.validate (r : BarrierReleaseReference) : Except String Unit :=
  refuse (r.schemaVersion ≠ 1 ∨ r.releaseSequence = 0 ∨ i64Max < r.releaseSequence ∨
    ¬digest64 r.barrierId ∨ ¬digest64 r.authorizationDigest) "invalid barrier release reference"

def scopeAccess (value : String) : Except String ScopeAccess :=
  if value = "read" then .ok .read
  else if value = "write" then .ok .write
  else .error "invalid scope access"

def namedResource (value : String) : Except String NamedResource :=
  if value = "schema" then .ok .schema
  else if value = "lockfile" then .ok .lockfile
  else if value = "generated" then .ok .generated
  else .error "invalid named resource"

/-! ## Scope paths -/

/-- `value.contains(['*', '?', '['])`. -/
def hasGlob (chars : List Char) : Bool := chars.any fun c => c = '*' || c = '?' || c = '['

/-- `value.ends_with('/')`. -/
def namesDirectory (value : String) : Bool := value.toList.getLast? = some '/'

def notRepoRelative : String := "scope path must be repo-relative"

/-- The loop of `normalize_scope_path`: the parts that are kept, and whether one is a glob. -/
def scopeParts : List (List Char) → Except String (List (List Char) × Bool)
  | [] => .ok ([], false)
  | part :: rest =>
    if part = [] ∨ part = ['.'] then scopeParts rest
    else if part = ['.', '.'] then .error notRepoRelative
    else do
      let (parts, glob) ← scopeParts rest
      pure (part :: parts, hasGlob part || glob)

/-- Collapse `.` and duplicate slashes. `..` is not a repo-relative path. A glob or a trailing
slash is uncertain overlap data. -/
def normalizeScopePath (raw : String) : Except String (String × ScopeCertainty) := do
  refuse (raw.isEmpty ∨ 512 < raw.utf8ByteSize ∨ raw.toList.head? = some '/' ∨
    '\\' ∈ raw.toList ∨ hasControl raw) notRepoRelative
  let directory := namesDirectory raw
  let (parts, glob) ← scopeParts (raw.toList.splitOn '/')
  refuse (parts = []) notRepoRelative
  let path := String.ofList (['/'].intercalate parts ++ if directory then ['/'] else [])
  refuse (512 < path.utf8ByteSize) notRepoRelative
  pure (path, if directory || glob then .uncertain else .exact)

/-- `value.as_bytes()`. -/
def asBytes (value : String) : List UInt8 := value.toByteArray.data.toList

/-- A changed repository path is inside a write scope when it equals the scope or lies under a
scope that names a directory. -/
def inWriteScope (scopes : List String) (path : List UInt8) : Bool :=
  scopes.any fun scope => path = asBytes scope ||
    (namesDirectory scope && (asBytes scope).isPrefixOf path)

/-- Literal write scopes a result may change; `none` when the contract declares no scope. -/
def PreparedContract.writeScopes (contract : PreparedContract) : Option (List String) :=
  if contract.scopePaths = [] then none
  else some (((contract.scopePaths.filter fun scope => scope.access = .write).filter
    fun scope => !hasGlob scope.path.toList).map fun scope => scope.path)

/-! ## Documents -/

def prepareAcceptancePolicies [Documents] (seen : List String) :
    List AcceptancePolicy → Except String (List AcceptancePolicy)
  | [] => .ok []
  | policy :: rest => do
    refuse (¬identifier policy.id ∨ ¬plain policy.text 4000 ∨ policy.id ∈ seen)
      "invalid acceptance policy"
    Documents.executionPolicy policy.text
    let policies ← prepareAcceptancePolicies (policy.id :: seen) rest
    pure (policy :: policies)

/-- An explicit policy digest, or a policy of this contract. -/
def ContractDependency.policyKnown (d : ContractDependency) (policies : List String) : Bool :=
  match d.policyDigest with
  | some digest => hexOid digest .sha256
  | none => policies.contains d.policyId

def checkDependencies (task : TaskId) (policies : List String) (seen : List TaskId) :
    List ContractDependency → Except String Unit
  | [] => .ok ()
  | d :: rest => do
    refuse (d.predecessor ∈ seen ∨ d.predecessor = task ∨
      d.edge ∉ ["verified_result", "integrated_commit", "integration_candidate",
        "landed_commit"] ∨
      ¬identifier d.policyId ∨ ¬d.policyKnown policies) "invalid contract dependency"
    checkDependencies task policies (d.predecessor :: seen) rest

def prepareScopePaths (seen : List String) :
    List UntrustedScopePath → Except String (List ContractScopePath)
  | [] => .ok []
  | path :: rest => do
    let access ← scopeAccess path.access
    let (normalized, certainty) ← normalizeScopePath path.path
    refuse (normalized ∈ seen) "invalid scope path"
    let paths ← prepareScopePaths (normalized :: seen) rest
    pure (⟨normalized, access, certainty⟩ :: paths)

/-- A literal file inside a declared write scope. -/
def outputInScope (scopes : List ContractScopePath) (path : String) : Bool :=
  scopes.any fun scope => scope.access = .write && (scope.path = path ||
    (namesDirectory scope.path && scope.path.toList.isPrefixOf path.toList))

def prepareOutputs (scopes : List ContractScopePath) (seen : List String) :
    List UntrustedOutput → Except String (List String)
  | [] => .ok []
  | output :: rest => do
    let (path, certainty) ← normalizeScopePath output.path
    refuse (output.kind ≠ "git_file" ∨ path ≠ output.path ∨ certainty ≠ .exact ∨
        (path.toList.splitOn '/').any (fun part => part.map Char.toLower = ".git".toList) ∨
        path ∈ seen ∨ ¬outputInScope scopes path)
      "output must be a unique literal git file inside declared write scope"
    let outputs ← prepareOutputs scopes (path :: seen) rest
    pure (path :: outputs)

def prepareNamedResources (seen : List NamedResource) :
    List UntrustedNamedResource → Except String (List ContractNamedResource)
  | [] => .ok []
  | resource :: rest => do
    let name ← namedResource resource.name
    let access ← scopeAccess resource.access
    refuse (name ∈ seen) "invalid named resource"
    let resources ← prepareNamedResources (name :: seen) rest
    pure (⟨name, access⟩ :: resources)

namespace UntrustedContractDocument

variable (document : UntrustedContractDocument)

def checkBarrier : Except String Unit :=
  match document.version, document.requiredBarrier with
  | 1, none | 3, none => .ok ()
  | 2, some reference | 3, some reference => reference.validate
  | _, _ =>
    .error "version 2 requires an exact barrier release; version 1 cannot require one"

/-- The outputs that this version may declare. -/
def declaredOutputs : Except String (List UntrustedOutput) :=
  match document.version, document.outputs with
  | 3, some outputs =>
    if outputs ≠ [] ∧ outputs.length ≤ 64 then .ok outputs
    else .error "version 3 requires 1..64 outputs; older versions cannot declare outputs"
  | 1, none | 2, none => .ok []
  | _, _ => .error "version 3 requires 1..64 outputs; older versions cannot declare outputs"

/-- The checks of the fields that are copied as they are. -/
def checkFields : Except String Unit := do
  refuse (document.version ∉ [1, 2, 3] ∨ document.contractRevision = 0 ∨
    i64Max < document.contractRevision ∨ i64Max < document.expectedHead)
    "invalid contract version or revision"
  document.checkBarrier
  refuse (document.planRevision.any fun revision => revision = 0 || i64Max < revision)
    "invalid plan revision"
  refuse (¬plain document.deliverable 8000 ∨ ¬plain document.nonGoals 8000 ∨
    ¬plain document.profileKind 128 ∨ ¬plain document.retryClass 128 ∨
    ¬plain document.resultSchemaId 128) "invalid contract text"
  refuse (¬isAbsolute document.projectStore ∨ ¬plain document.projectStore 4096 ∨
    ¬isAbsolute document.repository ∨ ¬plain document.repository 4096)
    "contract project_store and repository must be absolute paths"
  refuse (¬hexOid document.baseOid document.objectFormat)
    "contract base oid does not match object format"
  refuse (document.memorySnapshotId.any fun snapshot => !identifier snapshot)
    "invalid memory snapshot id"
  refuse (document.authority.revision = 0 ∨ i64Max < document.authority.revision ∨
    ¬plain document.authority.id 512 ∨ ¬hexOid document.authority.digest .sha256)
    "invalid contract authority reference"

/-- `into_prepared`. -/
def intoPrepared [Documents] (raw : List UInt8) : Except String PreparedContract := do
  document.checkFields
  refuse (document.acceptancePolicies = [] ∨ 32 < document.acceptancePolicies.length)
    "contract acceptance policies exceed bounds"
  let acceptancePolicies ← prepareAcceptancePolicies [] document.acceptancePolicies
  refuse (64 < document.dependencies.length ∨ 32 < document.capabilityFlags.length)
    "contract dependencies or capabilities exceed bounds"
  refuse (document.capabilityFlags.any fun flag => !plain flag 128) "invalid capability flag"
  checkDependencies document.taskId (acceptancePolicies.map (·.id)) [] document.dependencies
  refuse (64 < document.scope.paths.length ∨ 8 < document.scope.namedResources.length)
    "contract scope exceeds bounds"
  let scopePaths ← prepareScopePaths [] document.scope.paths
  let outputs ← document.declaredOutputs
  let requiredOutputs ← prepareOutputs scopePaths [] outputs
  let namedResources ← prepareNamedResources [] document.scope.namedResources
  pure {
    raw := raw
    digest := Documents.sha256 raw
    taskId := document.taskId
    contractRevision := document.contractRevision
    planRevision := document.planRevision
    projectStore := document.projectStore
    expectedHead := document.expectedHead
    repository := document.repository
    baseOid := document.baseOid
    objectFormat := document.objectFormat
    memorySnapshotId := document.memorySnapshotId
    route := document.route
    authority := document.authority
    acceptancePolicies := acceptancePolicies
    dependencies := document.dependencies
    requiredBarrier := document.requiredBarrier
    profileKind := document.profileKind
    capabilityFlags := document.capabilityFlags
    requiredOutputs := requiredOutputs
    scopePaths := scopePaths
    namedResources := namedResources }

end UntrustedContractDocument

/-- Parse bytes that have already been signature-checked. -/
def PreparedContract.parseVerified [Documents] (raw : List UInt8) :
    Except String PreparedContract := do
  refuse (65536 < raw.length) "contract document exceeds 65536 bytes"
  match Documents.decode raw with
  | none => .error "invalid contract document"
  | some document => document.intoPrepared raw

end Herdr
