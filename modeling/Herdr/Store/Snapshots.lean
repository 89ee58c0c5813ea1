import Herdr.Lib.GraphSearch
import Herdr.Store.ReadSets

/-!
# Memory snapshots

`create_memory_snapshot` of `src/store/memory.rs` with the selection of `src/domain/memory.rs`. A
snapshot holds every mandatory record and, in the order of their scores, the optional ones that fit
into what is left of the budget. Snapshots are immutable and written here alone: a row of
`memory_snapshots` is modelled together with its entries and inputs.
-/

namespace Herdr.Snapshots

open Objects (MemoryKind MemoryHead ObjectId ObjectRow)
open ReadSets (MemoryRecord MemoryRevision MemoryValidity Applicability Knowledge)

/-! ## Data -/

def kindText : MemoryKind → String
  | .constraint => "constraint"
  | .hardMemory => "hard_memory"
  | .contract => "contract"
  | .observation => "observation"
  | .assumption => "assumption"
  | .taskLocal => "task_local"

structure ActiveFact where
  record : MemoryRecord
  revision : MemoryRevision
  validity : MemoryValidity
deriving DecidableEq, Repr

structure SnapshotRequest where
  schemaVersion : Nat
  taskId : String
  profile : String
  domains : List String
  paths : List String
  pinnedKeys : List String
  sensitivity : String
deriving DecidableEq, Repr

structure SnapshotPlan where
  coordinator : Bool
  sessionId : Option String
  request : SnapshotRequest
  profileName : String
  profileDigest : String
  configDigest : Option String
  budgetChars : Nat
  estimator : String
  instructions : String
  nowUnixMs : Int
  expectedHeadsDigest : Option String
deriving DecidableEq, Repr

inductive Role where
  | mandatory | optional
deriving DecidableEq, Repr

def Role.asStr : Role → String
  | .mandatory => "mandatory"
  | .optional => "optional"

structure SnapshotEntry where
  ordinal : Nat
  recordId : String
  revision : Nat
  role : Role
  reason : String
deriving DecidableEq, Repr

/-- A row of `memory_snapshots` with its rows of `snapshot_entries` and `memory_snapshot_inputs`. -/
structure SnapshotRow where
  id : String
  taskId : String
  taskRevision : Nat
  profileName : String
  profileDigest : String
  configDigest : Option String
  selectionPolicyVersion : Nat
  estimator : String
  sequence : Nat
  requiredBytes : Nat
  optionalBytes : Nat
  budgetBytes : Nat
  omittedOptionalCount : Nat
  manifestHash : String
  scopeDigest : String
  entries : List SnapshotEntry
  instructions : String
  instructionDigest : String
  taskText : String
  taskHash : String
  request : String
deriving DecidableEq, Repr

structure Subscription where
  id : String
  subscriber : String
  snapshotId : String
  sinceSeq : Nat
deriving DecidableEq, Repr

/-- The columns of `tasks` that a snapshot reads. -/
structure TaskRow where
  id : String
  revision : Nat
  title : String
deriving DecidableEq, Repr

structure MemorySnapshot where
  row : SnapshotRow
  subscriber : String
  sinceSeq : Nat
deriving DecidableEq, Repr

structure Project where
  memory : Knowledge
  objects : Table ObjectRow ObjectRow.hash
  tasks : Table TaskRow TaskRow.id
  control : ProjectControl
  snapshots : Table SnapshotRow SnapshotRow.id
  subscriptions : Table Subscription Subscription.id
deriving DecidableEq

/-- What the identity of a snapshot is the digest of. -/
structure SnapshotCache where
  taskId : String
  taskRevision : Nat
  configDigest : Option String
  headsDigest : String
  selectionPolicyVersion : Nat
  profileDigest : String
  scopeDigest : String
  instructionDigest : String
  manifestHash : String
  budgetChars : Nat
  estimator : String
  subscriber : String
  sequence : Nat
deriving DecidableEq, Repr

/-- SHA-256 over the JSON texts of a snapshot, as lowercase hexadecimal. -/
class SnapshotDigests where
  text : String → String
  heads : List MemoryHead → String
  manifest : List (String × Nat × String × String) → String
  cache : SnapshotCache → String

/-- What a call reads and checks outside these tables. -/
structure Outside where
  /-- `Applicability::validate` of a stored revision. -/
  applicability : Applicability → Option StoreError := fun _ => none
  /-- `worker_brief_framing_chars` of the store path. -/
  framing : Except StoreError Nat := .ok 0
  /-- `consumer_bindings::ensure_for_snapshot`. -/
  consumer : Option StoreError := none

def selectionPolicyVersion : Nat := 1

def workerBriefEstimator : String := "char-count-worker-brief-v2"

def maxRecordBytes : Nat := 1024 * 1024

def u64Max : Nat := 2 ^ 64 - 1

/-- `u64::saturating_add`. -/
def saturatingAdd (a b : Nat) : Nat := min (a + b) u64Max

/-- `if !p { return Err(e) }`. -/
def demand (p : Prop) [Decidable p] (e : StoreError) : Except StoreError Unit :=
  if p then .ok () else .error e

/-- `integer`. -/
def integer (value : Nat) : Except StoreError Unit :=
  demand (value ≤ i64Max) (.invalid "integer exceeds SQLite range")

/-! ## Active facts -/

namespace Project

variable (db : Project)

/-- The recursive query of `dependencies_current`. -/
def sources (key : String × Nat) : List (String × Nat) :=
  let next (key : String × Nat) :=
    (db.memory.dependencies.filter (·.derived = key)).map (·.source)
  GraphSearch.gather next db.memory.dependencies.length (next key)

/-- The object of a revision's body can be read. -/
def available (hash : ObjectId) : Bool :=
  (db.objects.find hash).any (·.availability = .available)

/-- A source is still the valid, unexpired head of its record. -/
def sourceCurrent (now : Int) (source : String × Nat) : Bool :=
  ((db.memory.heads.find source.1).any fun h => h.active && h.revision = source.2) &&
    ((db.memory.validity.find source).any fun v =>
      v.state = .valid && !v.expiryUnixMs.any (· ≤ now)) &&
    (db.memory.revisions.find source).any fun r => db.available r.bodyHash

/-- `memory_invalidation::dependencies_current`. -/
def dependenciesCurrent (now : Int) (key : String × Nat) : Bool :=
  (db.sources key).all (db.sourceCurrent now)

/-- The row of the query of `load_active_facts` for one record, when it is not skipped. -/
def activeFact (now : Int) (record : MemoryRecord) : Option ActiveFact := do
  let head ← db.memory.heads.find record.id
  let revision ← db.memory.revisions.find (record.id, head.revision)
  let validity ← db.memory.validity.find (record.id, head.revision)
  if head.active ∧ validity.state = .valid ∧ db.available revision.bodyHash ∧
      ¬validity.expiryUnixMs.any (· ≤ now) ∧ db.dependenciesCurrent now (record.id, head.revision) then
    some ⟨record, revision, validity⟩
  else none

/-- The facts in the order of their records. -/
def activeFacts (now : Int) : List ActiveFact :=
  (db.memory.records.rows.insertionSort fun a b => a.id ≤ b.id).filterMap (db.activeFact now)

def loadActiveFacts (env : Outside) (now : Int) : Except StoreError (List ActiveFact) :=
  match (db.activeFacts now).findSome? fun f => env.applicability f.revision.applicability with
  | some e => .error e
  | none => .ok (db.activeFacts now)

def headsDigest [SnapshotDigests] : String :=
  SnapshotDigests.heads (db.memory.heads.rows.insertionSort fun a b => a.recordId ≤ b.recordId)

/-- The records that every snapshot must hold. -/
def requiredIds : List String :=
  (db.memory.records.rows.filter fun r =>
    (db.memory.heads.find r.id).any (·.active) && r.required).map (·.id)

/-! ## Ranking -/

/-- The edges between heads, from a derived record to its sources. -/
def hopEdges (id : String) : List String :=
  (db.memory.dependencies.filter fun d => d.derived.1 = id &&
      (db.memory.heads.find d.derived.1).any (fun h => h.active && h.revision = d.derived.2) &&
      (db.memory.heads.find d.source.1).any (fun h => h.active && h.revision = d.source.2)).map
    (·.source.1)

/-- The loop of `hops_from_pins`: a record is queued when its distance is found. -/
def hopsFrom : Nat → List (String × Nat) → List String → List (String × Nat)
  | 0, dist, _ => dist
  | _, dist, [] => dist
  | fuel + 1, dist, id :: queue =>
    let d := (dist.lookup id).getD 0
    if 4 ≤ d then hopsFrom fuel dist queue
    else
      let next := (db.hopEdges id).dedup.filter fun n => (dist.lookup n).isNone
      hopsFrom fuel (dist ++ next.map fun n => (n, d + 1)) (queue ++ next)

def hopsFromPins (pins : List String) : List (String × Nat) :=
  db.hopsFrom (pins.length + db.memory.dependencies.length) (pins.map fun pin => (pin, 0)) pins

end Project

/-- `value.strip_suffix(suffix)`, on the characters. -/
def stripSuffix (suffix value : List Char) : Option (List Char) :=
  if suffix <:+ value then some (value.take (value.length - suffix.length)) else none

/-- `glob_match`. -/
def globMatch (pattern path : List Char) : Bool :=
  if pattern = path then true
  else match stripSuffix ['/', '*', '*'] pattern with
    | some start => path = start || (start ++ ['/']).isPrefixOf path
    | none =>
      match stripSuffix ['/', '*'] pattern with
      | some start =>
        (start ++ ['/']).isPrefixOf path &&
          (let rest := path.drop (start.length + 1)
           rest ≠ [] && !rest.contains '/')
      | none => false

/-- A directory scope without its wildcard. -/
def stripWildcard (path : List Char) : List Char :=
  ((stripSuffix ['/', '*', '*'] path).orElse fun _ => stripSuffix ['/', '*'] path).getD path

/-- `scope_matches`. -/
def scopeMatches (request : SnapshotRequest) (scope : Applicability) : Bool :=
  (scope.domains = [] && scope.paths = []) || (request.domains = [] && request.paths = []) ||
    request.domains.any (scope.domains.contains ·) ||
    request.paths.any fun p => scope.paths.any fun s =>
      let p := stripWildcard p.toList
      let s := stripWildcard s.toList
      p = s || (s ++ ['/']).isPrefixOf p || (p ++ ['/']).isPrefixOf s

/-- `tokens`: the runs of ASCII letters and digits, in lower case. -/
def tokens (text : String) : List (List Char) :=
  (((text.toList.map Char.toLower).splitOnP fun c => !asciiAlphanumeric c).filter (· ≠ [])).dedup

/-- `selection_score`. -/
def selectionScore (request : SnapshotRequest) (fact : ActiveFact) (hops : Option Nat) : Int :=
  let scope := fact.revision.applicability
  let domains := request.domains.any (scope.domains.contains ·)
  let paths := request.paths.any fun p => scope.paths.any fun x =>
    globMatch p.toList x.toList || globMatch x.toList p.toList || p = x
  let kind := match fact.record.kind with
    | .contract => 10
    | .observation => 6
    | .assumption => 2
    | _ => 0
  let source := request.pinnedKeys.foldl (fun source key => source ++ " " ++ key) request.taskId
  let shared := ((tokens source).filter ((tokens fact.record.recordKey).contains ·)).length
  let distance := ((hops.filter (· ≤ 4)).map fun h : Nat => (15 / (1 + h) : Nat)).getD 0
  (if domains then 100 else 0) + (if paths then 40 else 0) + distance + kind + min shared 10

/-! ## Selection -/

def taskScope (plan : SnapshotPlan) : String := "task:" ++ plan.request.taskId

/-- `Constraint` and `HardMemory`, which are never optional. -/
def standing (kind : MemoryKind) : Bool := kind = .constraint || kind = .hardMemory

/-- The fact has to be in the snapshot. -/
def isMandatory (plan : SnapshotPlan) (fact : ActiveFact) : Bool :=
  standing fact.record.kind || fact.record.isHard ||
    (!plan.coordinator && plan.request.pinnedKeys.contains fact.record.recordKey)

/-- The last fact with a key, as collecting into a map leaves it. -/
def byKey (facts : List ActiveFact) (key : String) : Option ActiveFact :=
  facts.reverse.find? (·.record.recordKey = key)

def checkPinned (plan : SnapshotPlan) (facts : List ActiveFact) : List String → Except StoreError Unit
  | [] => .ok ()
  | key :: rest =>
    match byKey facts key with
    | none => .error (.invalid "required pinned memory is missing or not an active fact")
    | some fact => do
      demand (fact.validity.reason ≠ "unverified_import")
        (.invalid "required pinned memory is unverified_import")
      demand (¬(fact.record.kind = .taskLocal ∧ fact.record.scopeId ≠ taskScope plan))
        (.invalid "pinned task-local memory belongs to another task")
      checkPinned plan facts rest

/-- The loop that collects the mandatory facts, with the records seen. -/
def mandatoryFacts (plan : SnapshotPlan) (seen : List String) : List ActiveFact → List ActiveFact
  | [] => []
  | fact :: rest =>
    if isMandatory plan fact && !seen.contains fact.record.id then
      fact :: mandatoryFacts plan (fact.record.id :: seen) rest
    else mandatoryFacts plan seen rest

def entryText (fact : ActiveFact) (role : Role) : String :=
  Json.object [("body", Json.string fact.revision.bodyHash.val),
    ("id", Json.string fact.record.id), ("key", Json.string fact.record.recordKey),
    ("kind", Json.string (kindText fact.record.kind)),
    ("revision", toString fact.revision.revision), ("role", Json.string role.asStr)]

/-- `entry_bytes`. -/
def entryBytes (db : Project) (fact : ActiveFact) (role : Role) : Except StoreError Nat :=
  match db.objects.find fact.revision.bodyHash with
  | none => .error .noRows
  | some object => .ok (object.size + (entryText fact role).utf8ByteSize)

/-- The mandatory entries added to what is required. -/
def addMandatory (db : Project) : Nat → List ActiveFact → Except StoreError Nat
  | required, [] => .ok required
  | required, fact :: rest => do
    let size ← entryBytes db fact .mandatory
    addMandatory db (saturatingAdd required size) rest

def mandatoryReason (fact : ActiveFact) : String :=
  if fact.record.isHard then "hard"
  else if fact.record.kind = .constraint then "constraint"
  else "pinned"

/-- A fact that is not mandatory and that the request may use. -/
def isEligible (plan : SnapshotPlan) (seen : List String) (dist : List (String × Nat))
    (fact : ActiveFact) : Bool :=
  if seen.contains fact.record.id || standing fact.record.kind then false
  else if fact.record.kind = .taskLocal ∧ fact.record.scopeId ≠ taskScope plan then false
  else (dist.lookup fact.record.id).isSome || scopeMatches plan.request fact.revision.applicability

/-- Greater scores first, and records of one score in order. -/
def ranksBefore (plan : SnapshotPlan) (dist : List (String × Nat)) (a b : ActiveFact) : Prop :=
  let score (fact : ActiveFact) := selectionScore plan.request fact (dist.lookup fact.record.id)
  score b < score a ∨ score a = score b ∧ a.record.id ≤ b.record.id

instance (plan : SnapshotPlan) (dist : List (String × Nat)) : DecidableRel (ranksBefore plan dist) :=
  fun _ _ => inferInstanceAs (Decidable (_ ∨ _))

/-- The loop over the ranked facts: those taken, their bytes, and the number of those omitted. -/
def takeOptional (db : Project) :
    (remaining optionalBytes omitted : Nat) → List ActiveFact →
      Except StoreError (List ActiveFact × Nat × Nat)
  | _, optionalBytes, omitted, [] => .ok ([], optionalBytes, omitted)
  | remaining, optionalBytes, omitted, fact :: rest => do
    let size ← entryBytes db fact .optional
    if remaining < size then takeOptional db remaining optionalBytes (omitted + 1) rest
    else
      let (taken, optionalBytes, omitted) ←
        takeOptional db (remaining - size) (optionalBytes + size) omitted rest
      pure (fact :: taken, optionalBytes, omitted)

/-- What is required before any fact: the instructions, the request, the task and the framing. -/
def requiredBase (env : Outside) (plan : SnapshotPlan) (request taskText : String) :
    Except StoreError Nat := do
  let base := plan.instructions.length + request.length + taskText.length + 128
  if plan.estimator = workerBriefEstimator then
    demand (plan.coordinator = false)
      (.invalid "worker brief estimator cannot select coordinator knowledge")
    let framing ← env.framing
    pure (saturatingAdd base framing)
  else pure base

/-- `serde_json::to_string` of the request. -/
def requestText (request : SnapshotRequest) : String :=
  Json.object [("schema_version", toString request.schemaVersion),
    ("task_id", Json.string request.taskId), ("profile", Json.string request.profile),
    ("domains", Json.array (request.domains.map Json.string)),
    ("paths", Json.array (request.paths.map Json.string)),
    ("pinned_keys", Json.array (request.pinnedKeys.map Json.string)),
    ("sensitivity", Json.string request.sensitivity)]

/-- What was selected, and for whom. -/
structure Selection where
  taskId : String
  taskRevision : Nat
  subscriber : String
  taskText : String
  mandatory : List ActiveFact
  optional : List ActiveFact
  required : Nat
  optionalBytes : Nat
  omitted : Nat
deriving DecidableEq, Repr

/-- The facts that may be optional, with their distances from the pinned records. -/
def rankedFacts (db : Project) (plan : SnapshotPlan) (facts mandatory : List ActiveFact) :
    List ActiveFact :=
  let pins := plan.request.pinnedKeys.filterMap fun key => (byKey facts key).map (·.record.id)
  let dist := db.hopsFromPins pins
  (facts.filter (isEligible plan (mandatory.map (·.record.id)) dist)).insertionSort
    (ranksBefore plan dist)

/-- The task that the snapshot is for: its identifier, revision and subscriber. -/
def subject (db : Project) (plan : SnapshotPlan) : Except StoreError (String × Nat × String) :=
  if plan.coordinator then
    .ok ("coordinator", db.control.revision, "coordinator:" ++ plan.sessionId.getD "session")
  else match db.tasks.find plan.request.taskId with
    | none => .error (.invalid "snapshot task is missing")
    | some task => .ok (plan.request.taskId, task.revision, taskScope plan)

def taskText (db : Project) (plan : SnapshotPlan) (taskId : String) : Except StoreError String :=
  if plan.coordinator then .ok "Coordinate the project using this checkpoint."
  else match db.tasks.find taskId with
    | none => .error .noRows
    | some task => .ok task.title

/-- The checks and the selection of `create_memory_snapshot`, which write nothing. -/
def select [SnapshotDigests] (env : Outside) (plan : SnapshotPlan) (db : Project) :
    Except StoreError Selection := do
  demand (plan.profileDigest.utf8ByteSize = 64) (.invalid "invalid profile digest")
  demand (plan.instructions.utf8ByteSize ≤ maxRecordBytes)
    (.invalid "snapshot instructions exceed 1 MiB")
  demand (db.memory.head ≠ 0) (.invalid "memory snapshot requires a committed event head")
  let (taskId, taskRevision, subscriber) ← subject db plan
  demand (∀ expected ∈ plan.expectedHeadsDigest, expected = db.headsDigest) .conflict
  let facts ← db.loadActiveFacts env plan.nowUnixMs
  demand (db.requiredIds.length ≤ 10000) (.limit "mandatory memory inventory exceeds 10000")
  demand (∀ id ∈ db.requiredIds, ∃ fact ∈ facts, fact.record.id = id)
    (.invalid
      "mandatory memory is invalid, expired, unavailable or has a stale dependency")
  checkPinned plan facts plan.request.pinnedKeys
  let mandatory := mandatoryFacts plan [] facts
  let text ← taskText db plan taskId
  let base ← requiredBase env plan (requestText plan.request) text
  let required ← addMandatory db base mandatory
  demand (required ≤ plan.budgetChars)
    (.limit ("required " ++ toString required ++ " budget " ++ toString plan.budgetChars))
  let (optional, optionalBytes, omitted) ←
    if plan.coordinator then pure ([], 0, 0)
    else takeOptional db (plan.budgetChars - required) 0 0 (rankedFacts db plan facts mandatory)
  pure ⟨taskId, taskRevision, subscriber, text, mandatory, optional, required, optionalBytes, omitted⟩

/-- The chosen facts with their roles and reasons, in the order of their ordinals. -/
def Selection.chosen (selection : Selection) : List (ActiveFact × Role × String) :=
  (selection.mandatory.map fun fact => (fact, .mandatory, mandatoryReason fact)) ++
    selection.optional.map fun fact => (fact, .optional, "ranked")

def Selection.entries (selection : Selection) : List SnapshotEntry :=
  selection.chosen.zipIdx.map fun (chosen, i) =>
    ⟨i + 1, chosen.1.record.id, chosen.1.revision.revision, chosen.2.1, chosen.2.2⟩

/-- The row of a selection. -/
def snapshotRow [SnapshotDigests] (db : Project) (plan : SnapshotPlan) (selection : Selection) :
    SnapshotRow :=
  let request := requestText plan.request
  let scopeDigest := SnapshotDigests.text request
  let instructionDigest := SnapshotDigests.text plan.instructions
  let manifestHash := SnapshotDigests.manifest (selection.chosen.map fun c =>
    (c.1.record.id, c.1.revision.revision, c.2.1.asStr, c.2.2))
  let id := "snap-" ++ SnapshotDigests.cache ⟨selection.taskId, selection.taskRevision,
    plan.configDigest, db.headsDigest, selectionPolicyVersion, plan.profileDigest, scopeDigest,
    instructionDigest, manifestHash, plan.budgetChars, plan.estimator, selection.subscriber,
    db.memory.head⟩
  { id := id
    taskId := selection.taskId
    taskRevision := selection.taskRevision
    profileName := plan.profileName
    profileDigest := plan.profileDigest
    configDigest := plan.configDigest
    selectionPolicyVersion := selectionPolicyVersion
    estimator := plan.estimator
    sequence := db.memory.head
    requiredBytes := selection.required
    optionalBytes := selection.optionalBytes
    budgetBytes := plan.budgetChars
    omittedOptionalCount := selection.omitted
    manifestHash := manifestHash
    scopeDigest := scopeDigest
    entries := selection.entries
    instructions := plan.instructions
    instructionDigest := instructionDigest
    taskText := selection.taskText
    taskHash := SnapshotDigests.text selection.taskText
    request := request }

def checkIntegers (row : SnapshotRow) : Except StoreError Unit := do
  integer row.taskRevision
  integer row.sequence
  integer row.requiredBytes
  integer row.optionalBytes
  integer row.budgetBytes
  integer row.omittedOptionalCount
  demand (∀ entry ∈ row.entries, entry.ordinal ≤ i64Max ∧ entry.revision ≤ i64Max)
    (.invalid "integer exceeds SQLite range")

/-- The body of `create_memory_snapshot`. The tables that the selection read are read again before
the writes; the transaction has not changed them. A snapshot that is there is not written again. -/
def createBody [SnapshotDigests] (env : Outside) (plan : SnapshotPlan) :
    Tx Project StoreError String := do
  let selection ← .query (select env plan)
  let row ← .ask fun db => snapshotRow db plan selection
  let known ← .ask fun db => (db.snapshots.find row.id).isSome
  if known then pure row.id
  else do
    .check (checkIntegers row)
    .insert (fun db => (db.snapshots.insert? row).map fun t => { db with snapshots := t }) .conflict
    let subscription : Subscription :=
      ⟨"sub-" ++ SnapshotDigests.text (selection.subscriber ++ "\x00" ++ row.id),
        selection.subscriber, row.id, row.sequence⟩
    .insert (fun db => (db.subscriptions.insert? subscription).map
      fun t => { db with subscriptions := t }) .conflict
    .outside env.consumer
    pure row.id

/-- `read_memory_snapshot`. -/
def readMemorySnapshot (id : String) (db : Project) : Except StoreError MemorySnapshot :=
  match db.snapshots.find id with
  | none => .error .noRows
  | some row =>
    match db.subscriptions.rows.find? (·.snapshotId = id) with
    | none => .error .noRows
    | some subscription => .ok ⟨row, subscription.subscriber, subscription.sinceSeq⟩

/-- `create_memory_snapshot`. -/
def createMemorySnapshot [SnapshotDigests] (env : Outside) (plan : SnapshotPlan) (db : Project) :
    Except StoreError MemorySnapshot × Project :=
  match (createBody env plan).commit db with
  | (.error e, db) => (.error e, db)
  | (.ok id, db) => (readMemorySnapshot id db, db)

end Herdr.Snapshots
