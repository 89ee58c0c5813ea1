import Mathlib.Algebra.Order.Ring.Int
import Mathlib.Data.List.Sort
import Herdr.Lib.Table

/-!
# The usage ledger

`src/telemetry/accounting/ledger.rs` and `otlp.rs`: entries normalized from the Codex tables, with
one disposition for each rollout that observed an entry, and the totals that a sync stores. The
JSON of `thread_usage` is taken as the counters it decodes to.
-/

namespace Herdr.Accounting

/-! ## Source rows -/

/-- The counters of a record as reported, in the order of `NATIVE`. -/
structure Native where
  input : Option Int
  cachedInput : Option Int
  cacheWriteInput : Option Int
  output : Option Int
  reasoningOutput : Option Int
  total : Option Int
deriving DecidableEq, Repr

/-- The counters of a normalized record, in the order of `NORMALIZED`. -/
structure Normalized where
  input : Int
  cacheRead : Int
  newInput : Int
  cacheWrite : Int
  output : Int
  reasoning : Int
  total : Int
deriving DecidableEq, Repr

/-- A row of `codex_usage`. -/
structure UsageRow where
  session : String
  ordinal : Int
  path : String
  responseId : Option String
  turnId : Option String
  model : Option String
  payloadDigest : String
  native : Native
  accepted : Bool
  reason : Option String
deriving DecidableEq, Repr

/-- The primary key of `codex_usage`. -/
def UsageRow.key (u : UsageRow) : String × Int := (u.session, u.ordinal)

/-- A row of `rollout_sources`; `bound` is its attempt. -/
structure RolloutSource where
  path : String
  home : String
  session : String
  originator : Option String
  source : Option String
  records : Int
  threadUsage : Option Native
  bound : Option String
deriving DecidableEq, Repr

/-- The tables that the ledger is derived from. -/
structure Sources where
  usage : Table UsageRow UsageRow.key
  quarantine : List (String × Int)
  rollouts : Table RolloutSource RolloutSource.path

/-! ## Normalization -/

def maxSafe : Int := 2 ^ 53

/-- A counter that is present, not negative and at most 2^53. -/
def counter (value : Option Int) : Option Int := value.filter fun v => 0 ≤ v ∧ v ≤ maxSafe

/-- `codex-v1`. -/
def normalize (native : Native) (claude : Bool) : Option Normalized := do
  let input ← counter native.input
  let cached ← counter native.cachedInput
  let write ← counter native.cacheWriteInput
  let output ← counter native.output
  let reasoning ← counter native.reasoningOutput
  let total ← counter native.total
  if cached ≤ input ∧ (claude = true → cached + write ≤ input) ∧ reasoning ≤ output ∧
      total = input + output then
    some {
      input
      cacheRead := cached
      newInput := input - cached - if claude then write else 0
      cacheWrite := write
      output
      reasoning
      total }
  else none

/-- `starts_with`. -/
def startsWith (text start : String) : Bool := start.toList.isPrefixOf text.toList

/-- `LIKE 'start%'`, which ignores the case of ASCII letters. -/
def likeStart (text start : String) : Bool := start.toList.isPrefixOf (text.toList.map Char.toLower)

/-- Whether cache writes are part of the input of a session's records. -/
def inclusive (session : String) : Bool :=
  startsWith session "claude-code:" || startsWith session "opencode:" ||
    startsWith session "muse:" || startsWith session "otlp:"

def UsageRow.normalized (u : UsageRow) : Option Normalized := normalize u.native (inclusive u.session)

/-! ## Entries -/

inductive Basis where
  | delta | cumulative
deriving DecidableEq, Repr

inductive Disposition where
  | accepted | duplicate | unresolved | conflict
deriving DecidableEq, Repr

structure Provenance where
  path : String
  disposition : Disposition
  reason : Option String
deriving DecidableEq, Repr

structure Entry where
  id : String
  session : String
  basis : Basis
  scope : String
  precedence : Int
  position : Int
  responseId : Option String
  model : Option String
  native : Native
  normalized : Option Normalized
  /-- First observation first. -/
  provenance : List Provenance
deriving DecidableEq, Repr

/-- Counted in usage totals: the delta basis with an accepted observation. -/
def Entry.counted (e : Entry) : Bool :=
  e.basis = .delta && e.provenance.any fun p => p.disposition = .accepted

/-- `REPEATED`. -/
def responseRepeated : String := "response_repeated"

/-- A delta record repeating an earlier accepted record of its session. -/
def Entry.repeated (e : Entry) : Bool :=
  e.provenance.head?.any fun p => p.reason = some responseRepeated

/-- `source`. -/
def source (session : String) : String :=
  if startsWith session "otlp:grok:" then "otlp:grok"
  else if startsWith session "otlp:devin:" then "otlp:devin"
  else if startsWith session "otlp:claude-code:" then "otlp:claude-code"
  else if startsWith session "otlp:muse:" then "otlp:muse"
  else if startsWith session "muse:" then "muse"
  else if startsWith session "opencode:" then "opencode"
  else if startsWith session "claude-code:" then "claude-code"
  else "codex"

/-- Accepted `(session, response_id)` → payload digest, first ordinal first. -/
abbrev Responses := List ((String × String) × String)

/-- The disposition of a record and what it adds to the responses. -/
def classify (responses : Responses) (quarantined : Bool) (u : UsageRow) :
    Disposition × Option String × Responses :=
  match quarantined, u.accepted, u.normalized with
  | true, _, _ => (.conflict, some "payload_digest_mismatch", responses)
  | false, true, some _ =>
    match u.responseId with
    | none => (.accepted, none, responses)
    | some response =>
      match responses.lookup (u.session, response) with
      | some first =>
        -- the same response, recorded again with the same payload
        if first = u.payloadDigest then (.duplicate, some responseRepeated, responses)
        else (.accepted, none, responses)
      | none => (.accepted, none, ((u.session, response), u.payloadDigest) :: responses)
  | false, true, none => (.unresolved, some "normalization_refused", responses)
  | false, false, _ => (.unresolved, u.reason, responses)

namespace Sources

variable (db : Sources)

def quarantined (u : UsageRow) : Bool := db.quarantine.contains (u.session, u.ordinal)

/-- The other rollouts of the session whose records reach the ordinal. -/
def others (u : UsageRow) : List String :=
  ((db.rollouts.rows.filter fun r =>
    r.session = u.session && r.path ≠ u.path && u.ordinal ≤ r.records).map (·.path)).insertionSort
    (· ≤ ·)

/-- The entry of a record. -/
def deltaEntry (responses : Responses) (u : UsageRow) : Entry :=
  let (disposition, reason, _) := classify responses (db.quarantined u) u
  { id := source u.session ++ ":" ++ u.session ++ ":" ++ toString u.ordinal
    session := u.session
    basis := .delta
    scope := "request"
    precedence := 1
    position := u.ordinal
    responseId := u.responseId
    model := u.model
    native := u.native
    normalized := u.normalized
    provenance := ⟨u.path, disposition, reason⟩ :: (db.others u).map fun path =>
      if db.quarantined u then ⟨path, disposition, reason⟩ else ⟨path, .duplicate, none⟩ }

/-- The loop over the records, in `(session, ordinal)` order. -/
def deltas : Responses → List UsageRow → List Entry
  | _, [] => []
  | responses, u :: rest =>
    db.deltaEntry responses u ::
      deltas (classify responses (db.quarantined u) u).2.2 rest

/-- The entry of a thread total. -/
def totalEntry (r : RolloutSource) (native : Native) (disposition : Disposition)
    (reason : Option String) : Entry where
  id := "codex:" ++ r.session ++ ":thread:" ++ r.path
  session := r.session
  basis := .cumulative
  scope := "thread"
  precedence := 2
  position := r.records
  responseId := none
  model := none
  native
  normalized := normalize native (inclusive r.session)
  provenance := [⟨r.path, disposition, reason⟩]

/-- The loop over the thread totals; `high` is the high-water mark of a session. -/
def cumulatives : Option (String × Int) → List RolloutSource → List Entry
  | _, [] => []
  | high, r :: rest =>
    match r.threadUsage with
    | none => cumulatives high rest
    | some native =>
      let mark := (high.filter fun h => h.1 = r.session).map (·.2)
      match (normalize native (inclusive r.session)).map (·.total), mark with
      | none, _ =>
        totalEntry r native .unresolved (some "invariant_violation") :: cumulatives high rest
      | some total, some mark =>
        if total = mark then totalEntry r native .duplicate none :: cumulatives high rest
        else if total < mark then
          totalEntry r native .unresolved (some "regression_without_reset") :: cumulatives high rest
        else totalEntry r native .accepted none :: cumulatives (some (r.session, total)) rest
      | some total, none =>
        totalEntry r native .accepted none :: cumulatives (some (r.session, total)) rest

/-- `losing_sessions`: a native source that is bound to the attempt wins over its OTLP records. -/
def losing (session : String) : Bool :=
  db.rollouts.rows.any fun o => o.session = session &&
    (o.originator = some "otlp:claude-code" || o.originator = some "otlp:muse") &&
    db.rollouts.rows.any fun n => n.bound.isSome && n.bound = o.bound &&
      n.originator.map ("otlp:" ++ ·) = o.originator

/-- `apply_precedence`. -/
def applyPrecedence (entries : List Entry) : List Entry :=
  if entries.any fun e => startsWith e.session "otlp:" then
    entries.map fun e => if db.losing e.session then
      { e with provenance := e.provenance.map fun p =>
        ⟨p.path, .duplicate, some "native_surface_precedence"⟩ } else e
  else entries

/-- `ORDER BY session_id,ordinal`. -/
def usageLe (a b : UsageRow) : Prop :=
  a.session < b.session ∨ a.session = b.session ∧ a.ordinal ≤ b.ordinal

instance : DecidableRel usageLe := fun a b =>
  inferInstanceAs (Decidable (a.session < b.session ∨ a.session = b.session ∧ a.ordinal ≤ b.ordinal))

/-- `ORDER BY session_id,records,path_digest`. -/
def rolloutLe (a b : RolloutSource) : Prop :=
  a.session < b.session ∨ a.session = b.session ∧
    (a.records < b.records ∨ a.records = b.records ∧ a.path ≤ b.path)

instance : DecidableRel rolloutLe := fun a b =>
  inferInstanceAs (Decidable (a.session < b.session ∨ a.session = b.session ∧
    (a.records < b.records ∨ a.records = b.records ∧ a.path ≤ b.path)))

/-- `derive_scoped` on the sessions of `scope`. -/
def deriveScoped (scope : String → Bool) : List Entry :=
  db.applyPrecedence <|
    db.deltas [] ((db.usage.rows.filter fun u => scope u.session).insertionSort usageLe) ++
    cumulatives none ((db.rollouts.rows.filter fun r => scope r.session).insertionSort rolloutLe)

/-- `derive`. -/
def derive : List Entry := db.deriveScoped fun _ => true

end Sources

/-! ## Totals of a sync -/

structure Totals where
  input : Int
  output : Int
  reasoning : Int
deriving DecidableEq, Repr

/-- The row of `accounting_usage_totals` of a session. -/
def usageTotals (entries : List Entry) (session : String) : Totals :=
  let counted := (entries.filter fun e => e.session = session && e.counted).filterMap (·.normalized)
  ⟨(counted.map (·.input)).sum, (counted.map (·.output)).sum, (counted.map (·.reasoning)).sum⟩

/-- The value of a hexadecimal digit. -/
def hexDigit (c : Char) : Option Nat :=
  if '0' ≤ c ∧ c ≤ '9' then some (c.toNat - 48)
  else if 'a' ≤ c ∧ c ≤ 'f' then some (c.toNat - 87)
  else if 'A' ≤ c ∧ c ≤ 'F' then some (c.toNat - 55)
  else none

/-- `unhex`. -/
def unhex : List Char → Option (List Nat)
  | [] => some []
  | [_] => none
  | a :: b :: rest => do
    let high ← hexDigit a
    let low ← hexDigit b
    let bytes ← unhex rest
    some ((16 * high + low) :: bytes)

/-- The lookup key of a payload digest: `unhex(substr(payload_digest,8))`. -/
def digestKey (digest : String) : Option (List Nat) := unhex (digest.toList.drop 7)

namespace Sources

variable (db : Sources)

/-- The anti-join of `accounting_native_totals`: no earlier accepted row of the session has the
response and the payload. -/
def nativeCounted (u : UsageRow) : Bool :=
  u.accepted && !db.usage.rows.any fun e => e.session = u.session && e.accepted &&
    e.responseId.isSome && e.responseId = u.responseId &&
    digestKey e.payloadDigest = digestKey u.payloadDigest && e.payloadDigest = u.payloadDigest &&
    e.ordinal < u.ordinal

/-- The row of `accounting_native_totals` of a session. OTLP sessions take theirs from the entries. -/
def nativeTotals (session : String) : Totals :=
  if likeStart session "otlp:" then usageTotals db.derive session
  else
    let counted := db.usage.rows.filter fun u => u.session = session && db.nativeCounted u
    ⟨(counted.filterMap (·.native.input)).sum, (counted.filterMap (·.native.output)).sum,
      (counted.filterMap (·.native.reasoningOutput)).sum⟩

end Sources

end Herdr.Accounting
