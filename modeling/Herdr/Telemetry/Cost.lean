import Mathlib.Data.List.Sort
import Herdr.Domain.Text
import Herdr.Lib.Patch
import Herdr.Lib.Transaction

/-!
# Valuation revisions

`src/telemetry/accounting/cost.rs` and the migrations of the `accounting` stream: a reprice values
every entry of the synced ledger and appends a calculation revision when the result differs from
the latest one. A revision is stored as a delta against the previous revision as it reads back;
revisions written before stream version 9 are full copies. Which rows a reprice computes
(`value` over the ledger and the rate cards) is part of the reprice's input here: every result of
this development holds for all of them. The read aggregates of `store_metrics` are not modelled.
-/

namespace Herdr

/-! ## Rows -/

/-- One valuation as a reprice computes it. -/
structure ValuationRow where
  entryId : String
  sessionId : String
  role : String
  attemptId : Option String
  model : Option String
  usage : Option (Int × Int)
  usageBasis : Option String
  /-- `[new_input, cache_read, cache_write, output]`. -/
  quantities : Option (Int × Int × Int × Int)
  reason : Option String
  card : Option (String × Int)
  currency : Option String
  amount : Option String
  components : Option (List (String × String))
  providerCheck : Option String
deriving DecidableEq, Repr

/-- One valuation as stored and read back. -/
structure Stored where
  entryId : String
  sessionId : String
  role : String
  attemptId : Option String
  model : Option String
  usageFrom : Option Int
  usageTo : Option Int
  newInput : Option Int
  cacheRead : Option Int
  cacheWrite : Option Int
  output : Option Int
  status : String
  reason : Option String
  cardId : Option String
  cardVersion : Option Int
  currency : Option String
  amount : Option String
  components : Option String
  usageBasis : Option String
  providerCheck : Option String
deriving DecidableEq, Repr

/-- `Row::stored`. -/
def ValuationRow.stored (row : ValuationRow) : Stored where
  entryId := row.entryId
  sessionId := row.sessionId
  role := row.role
  attemptId := row.attemptId
  model := row.model
  usageFrom := row.usage.map (·.1)
  usageTo := row.usage.map (·.2)
  newInput := row.quantities.map (·.1)
  cacheRead := row.quantities.map (·.2.1)
  cacheWrite := row.quantities.map (·.2.2.1)
  output := row.quantities.map (·.2.2.2)
  status := if row.reason.isNone then "priced" else "unavailable"
  reason := row.reason
  cardId := row.card.map (·.1)
  cardVersion := row.card.map (·.2)
  currency := row.currency
  amount := row.amount
  components := row.components.map fun c => Json.object (c.map fun f => (f.1, Json.string f.2))
  usageBasis := row.usageBasis
  providerCheck := row.providerCheck

def fallbackBasis : String := "session_start..first_observed"

/-- `Row::legacy`: the result that a revision before A4 would give. -/
def ValuationRow.legacy (row : ValuationRow) : Bool :=
  row.usageBasis.all (· = fallbackBasis) && row.providerCheck.all (· = "provider_unverified") &&
    row.reason ≠ some "provider_mismatch"

/-- The row without the A4 fields. -/
def ValuationRow.withoutBases (row : ValuationRow) : ValuationRow :=
  { row with usageBasis := none, providerCheck := none }

/-- A `BTreeMap<String, Stored>`: at most one row for each entry, in no particular order. -/
abbrev Keyed := Table Stored Stored.entryId

/-- Collect rows into a map; of two rows of one entry the later one stays. -/
def Keyed.collect (rows : List Stored) : Keyed := rows.foldl Table.put .empty

/-! ## Tables -/

structure ValuationRevision where
  revision : Nat
  policy : String
  ledgerSyncedUnixMs : Int
  digest : String
  computedUnixMs : Int
deriving DecidableEq, Repr

/-- A row of `valuations`: the columns up to `components`. -/
structure FullValuation where
  revision : Nat
  row : Stored
deriving DecidableEq, Repr

def FullValuation.key (v : FullValuation) : Nat × String := (v.revision, v.row.entryId)

structure ValuationBasis where
  revision : Nat
  entryId : String
  usageBasis : Option String
  providerCheck : Option String
deriving DecidableEq, Repr

def ValuationBasis.key (b : ValuationBasis) : Nat × String := (b.revision, b.entryId)

structure DeltaRevision where
  revision : Nat
  changed : Nat
  removed : Nat
deriving DecidableEq, Repr

/-- A row of `valuation_deltas`: the row that an entry has from this revision on, or that the
entry is not in it. -/
structure ValuationDelta where
  revision : Nat
  change : Table.Change Stored String
deriving DecidableEq

def ValuationDelta.key (d : ValuationDelta) : Nat × String :=
  (d.revision, d.change.target Stored.entryId)

/-- `valuation_inputs`, the one row that a reprice replaces. -/
structure ValuationInputs where
  digest : String
  revision : Nat
  recordedUnixMs : Int
deriving DecidableEq, Repr

structure Valuations where
  revisions : Table ValuationRevision ValuationRevision.revision
  valuations : Table FullValuation FullValuation.key
  bases : Table ValuationBasis ValuationBasis.key
  deltaRevisions : Table DeltaRevision DeltaRevision.revision
  deltas : Table ValuationDelta ValuationDelta.key
  inputs : Option ValuationInputs

namespace Valuations

variable (db : Valuations)

/-- `SELECT .. FROM valuation_revisions ORDER BY revision DESC LIMIT 1`. -/
def latest : Option ValuationRevision :=
  ((db.revisions.rows.map (·.revision)).max?).bind db.revisions.find

/-- `SELECT revision FROM valuation_delta_revisions WHERE revision<=?1 ORDER BY revision`. -/
def deltasUpTo (revision : Nat) : List Nat :=
  ((db.deltaRevisions.rows.map (·.revision)).filter (· ≤ revision)).insertionSort (· ≤ ·)

/-- The latest full copy at or below a revision. -/
def fullAt (revision : Nat) : Option Nat :=
  ((db.revisions.rows.map (·.revision)).filter fun r =>
    r ≤ revision ∧ r ∉ db.deltasUpTo revision).max?

/-- `valuations v LEFT JOIN valuation_bases b`. -/
def copied (v : FullValuation) : Stored :=
  let basis := db.bases.find v.key
  { v.row with
    usageBasis := basis.bind (·.usageBasis)
    providerCheck := basis.bind (·.providerCheck) }

/-- The rows of a full copy. -/
def fullCopy (revision : Nat) : Keyed :=
  Keyed.collect ((db.valuations.rows.filter fun v => v.revision = revision).map db.copied)

/-- The changes of one delta revision. -/
def changesOf (revision : Nat) : List (Table.Change Stored String) :=
  (db.deltas.rows.filter fun d => d.revision = revision).map (·.change)

/-- `stored_at`: the latest full copy at or below the revision, then every delta above it. -/
def storedAt (revision : Nat) : Keyed :=
  let full := db.fullAt revision
  let base := full.elim .empty db.fullCopy
  ((db.deltasUpTo revision).filter fun d => full.all (· < d)).foldl
    (fun state d => state.patch (db.changesOf d)) base

end Valuations

/-! ## Reprice -/

def valuationPolicy : String :=
  "usage_interval=record_time|session_start..first_observed;split=none;provider=checked_when_reported"

def legacyPolicy : String := "usage_interval=session_start..first_observed;split=none"

/-- SHA-256 over the JSON text of a policy and its rows. Nothing in this development depends on
which function it is. -/
class RowDigest where
  digest : String → List ValuationRow → String

/-- What one reprice reads: when the ledger was synced, the rate card versions, the inputs'
fingerprint and size, and the rows that the ledger and the cards give; with the budget of a
ticker's reprice. -/
structure Reprice where
  synced : Option Int
  versions : List (String × Int × String)
  fingerprint : String
  inputBytes : Nat
  rows : List ValuationRow
  gate : Option Nat
  now : Int

/-- What `run` reports. -/
inductive Repriced where
  | ledgerNotSynced
  | skipped (reason : String)
  | same (revision entries : Nat)
  | appended (revision entries changed removed : Nat)
deriving DecidableEq, Repr

/-- The map that a reprice computes. -/
def Reprice.current (r : Reprice) : Keyed := Keyed.collect (r.rows.map (·.stored))

abbrev Accounting (α : Type) := Tx Valuations String α

def constraintFailed : String := "UNIQUE constraint failed"

/-- `INSERT INTO valuation_inputs .. ON CONFLICT DO UPDATE`. -/
def recordInputs (r : Reprice) (revision : Nat) : Accounting Unit :=
  .write fun db => { db with inputs := some ⟨r.fingerprint, revision, r.now⟩ }

def insertRevision (row : ValuationRevision) : Accounting Unit :=
  .insert (fun db => (db.revisions.insert? row).map ({ db with revisions := · })) constraintFailed

def insertDeltaRevision (row : DeltaRevision) : Accounting Unit :=
  .insert (fun db => (db.deltaRevisions.insert? row).map ({ db with deltaRevisions := · }))
    constraintFailed

def insertDelta (row : ValuationDelta) : Accounting Unit :=
  .insert (fun db => (db.deltas.insert? row).map ({ db with deltas := · })) constraintFailed

variable [RowDigest]

/-- Whether the result is the one that the latest revision stored. -/
def Reprice.same (r : Reprice) (latest : ValuationRevision) : Bool :=
  if latest.policy ≠ legacyPolicy then latest.digest = RowDigest.digest valuationPolicy r.rows
  else r.rows.all (·.legacy) &&
    latest.digest = RowDigest.digest legacyPolicy (r.rows.map (·.withoutBases))

/-- The revision that differs from the latest one, stored as a delta against it. -/
def appendRevision (r : Reprice) (synced : Int) (latest : Option ValuationRevision) :
    Accounting Repriced := do
  let previous ← .ask fun db => latest.elim .empty fun l => db.storedAt l.revision
  let changed := Table.changed previous r.current
  let removed := Table.removed previous r.current
  let revision := latest.elim 1 (·.revision + 1)
  insertRevision ⟨revision, valuationPolicy, synced, RowDigest.digest valuationPolicy r.rows, r.now⟩
  insertDeltaRevision ⟨revision, changed.length, removed.length⟩
  .forEach (fun row => insertDelta ⟨revision, .set row⟩) changed
  .forEach (fun id => insertDelta ⟨revision, .unset id⟩) removed
  recordInputs r revision
  pure (.appended revision r.rows.length changed.length removed.length)

/-- The reprice after its gates. -/
def reprice (r : Reprice) (synced : Int) : Accounting Repriced := do
  let latest ← .ask Valuations.latest
  match latest.filter r.same with
  | some l =>
    recordInputs r l.revision
    pure (.same l.revision r.rows.length)
  | none => appendRevision r synced latest

/-- `run`. -/
def Reprice.run (r : Reprice) : Accounting Repriced :=
  match r.synced with
  | none => pure .ledgerNotSynced
  | some synced =>
    if r.gate.isSome ∧ r.versions.isEmpty then pure (.skipped "no_rate_cards")
    else do
      let last ← .ask fun db => db.inputs.map (·.digest)
      if r.gate.isSome ∧ last = some r.fingerprint then pure (.skipped "unchanged")
      else if r.gate.any (· < r.inputBytes) then pure (.skipped "budget_exhausted")
      else reprice r synced

/-- A reprice is one immediate transaction. -/
def Reprice.exec (r : Reprice) (db : Valuations) : Except String Repriced × Valuations :=
  Tx.commit r.run db

end Herdr
