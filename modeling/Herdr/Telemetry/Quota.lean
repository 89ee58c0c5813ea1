import Mathlib.Algebra.Order.Ring.Int
import Mathlib.Data.List.DropRight
import Mathlib.Data.List.Sort
import Mathlib.Data.String.Basic
import Herdr.Lib.Decimal
import Herdr.Lib.Table

/-!
# Quota windows

`src/telemetry/accounting/quota.rs`: snapshots of provider rate limits become observations with a
trust level and the windows they identify. The replay goes through the snapshots in order and keeps
the current window of each account, limit and kind. `none` is an `i64` overflow.
-/

namespace Herdr.Quota

/-! ## Arithmetic on `i64` -/

def i64Min : Int := -2 ^ 63
def i64Max : Int := 2 ^ 63 - 1

/-- A value that fits. -/
def fit (n : Int) : Option Int := if i64Min ≤ n ∧ n ≤ i64Max then some n else none

def mul64 (a b : Int) : Option Int := fit (a * b)
def sub64 (a b : Int) : Option Int := fit (a - b)
def abs64 (a : Int) : Option Int := fit |a|

/-! ## Percent values -/

/-- Fixed-point places for percent values. -/
def places : Nat := 12

def hundred : Int := 100 * 10 ^ places

/-- `0 ≤ used ≤ 100` in plain decimal notation, as a fixed-point value. -/
def percent (text : String) : Option Int :=
  let (whole, rest) := Decimal.splitPoint text.toList
  let fraction := rest.getD []
  if whole = [] ∨ 3 < whole.length ∨ places < fraction.length ∨ !whole.all Char.isDigit ∨
      !fraction.all Char.isDigit ∨ text.toList.getLast? = some '.' then none
  else
    let value : Int := Nat.ofDigitChars 10 whole 0 * 10 ^ places +
      Nat.ofDigitChars 10 (fraction ++ List.replicate (places - fraction.length) '0') 0
    if value ≤ hundred then some value else none

/-- `show`: exact, trailing zeros trimmed. -/
def display (value : Int) : String :=
  let whole := toString (value.tdiv (10 ^ places))
  let fraction := Decimal.padStart places (toString (value.tmod (10 ^ places))).toList
  let fraction := fraction.rdropWhile (· = '0')
  if fraction = [] then whole else whole ++ "." ++ String.ofList fraction

/-! ## Snapshots -/

/-- `RESETS_TOLERANCE_MS`. -/
def resetsTolerance : Int := 60000

inductive Kind where
  | primary | secondary
deriving DecidableEq, Repr

def Kind.text : Kind → String
  | primary => "primary"
  | secondary => "secondary"

/-- One window of a snapshot as collected. -/
structure Fields where
  used : Option String
  minutes : Option Int
  resets : Option Int
deriving DecidableEq, Repr

/-- A row of the replay's query; `homes` are the distinct home digests of the session's rollouts. -/
structure SnapshotRow where
  session : String
  ordinal : Int
  limit : Option String
  primary : Fields
  plan : Option String
  observed : Int
  homes : List String
  secondary : Option Fields
  reached : Option String
deriving DecidableEq, Repr

/-- One window of one row. -/
structure Reading where
  row : SnapshotRow
  kind : Kind
  fields : Fields
deriving DecidableEq, Repr

/-- `KINDS` zipped with the windows of the row. -/
def SnapshotRow.readings (row : SnapshotRow) : List Reading :=
  ⟨row, .primary, row.primary⟩ :: (row.secondary.map fun fields => ⟨row, .secondary, fields⟩).toList

/-- `min(home_digest)`. -/
def SnapshotRow.account (row : SnapshotRow) : Option String :=
  (row.homes.insertionSort (· ≤ ·)).head?

/-- `count(DISTINCT home_digest)`. -/
def SnapshotRow.homeCount (row : SnapshotRow) : Nat := row.homes.dedup.length

structure Key where
  account : String
  limit : String
  kind : Kind
deriving DecidableEq, Repr

/-- One complete snapshot of a window. -/
structure Snapshot where
  key : Key
  minutes : Int
  resets : Int
  observed : Int
  used : Int
  plan : Option String
deriving DecidableEq, Repr

inductive Trust where
  | accountAmbiguous | notReported | trusted | windowConflict | usedDecreased | windowRegressed
  | unparseable | incomplete
deriving DecidableEq, Repr

/-- The reset in milliseconds: `checked_mul(1000)`. -/
def Reading.resets (r : Reading) : Option Int := r.fields.resets.bind fun s => mul64 s 1000

/-- `minutes > 0` and a window start that fits. -/
def startFits (minutes resets : Int) : Bool :=
  0 < minutes && ((mul64 minutes 60000).bind fun w => sub64 resets w).isSome

/-- A reading that is complete, or why it is not. -/
def Reading.judge (r : Reading) : Except Trust Snapshot :=
  if r.row.account.isSome ∧ 1 < r.row.homeCount then .error .accountAmbiguous
  else if r.fields.used = none ∧ r.fields.minutes = none ∧ r.resets = none ∧
      r.kind = .secondary then .error .notReported
  else match r.row.account, r.row.limit, r.fields.used, r.fields.minutes, r.resets with
    | some account, some limit, some used, some minutes, some resets =>
      match percent used with
      | some used =>
        if startFits minutes resets then
          .ok ⟨⟨account, limit, r.kind⟩, minutes, resets, r.row.observed, used, r.row.plan⟩
        else .error .unparseable
      | none => .error .unparseable
    | _, _, _, _, _ => .error .incomplete

/-! ## Windows -/

inductive Evidence where
  | firstObservation | resetElapsed | resetMoved
deriving DecidableEq, Repr

structure Window where
  id : String
  key : Key
  minutes : Int
  resets : Int
  evidence : Evidence
  firstObserved : Int
  lastObserved : Int
  firstUsed : Int
  used : Int
  plan : Option String
  observations : Nat
  flagged : Nat
deriving DecidableEq, Repr

/-- `codex:account:limit:kind:resets`. -/
def windowId (key : Key) (resets : Int) : String :=
  "codex:" ++ key.account ++ ":" ++ key.limit ++ ":" ++ key.kind.text ++ ":" ++ toString resets

/-- `Window::open`. -/
def Window.opened (s : Snapshot) (evidence : Evidence) : Window where
  id := windowId s.key s.resets
  key := s.key
  minutes := s.minutes
  resets := s.resets
  evidence
  firstObserved := s.observed
  lastObserved := s.observed
  firstUsed := s.used
  used := s.used
  plan := s.plan
  observations := 1
  flagged := 0

/-- A trusted observation of the window. -/
def Window.raise (w : Window) (s : Snapshot) : Window :=
  { w with
    used := s.used
    lastObserved := s.observed
    observations := w.observations + 1
    plan := if s.plan.isSome then s.plan else w.plan }

/-- A decrease without a reset. -/
def Window.flag (w : Window) : Window := { w with flagged := w.flagged + 1 }

/-- What a snapshot does to the current window: the trust, the window it names, the current window
after it and the window that it closes. -/
structure Verdict where
  trust : Trust
  names : Option String
  current : Window
  closed : Option Window := none
deriving DecidableEq, Repr

/-- The same window: a conflict, a decrease or a trusted observation. -/
def Window.observe (w : Window) (s : Snapshot) : Verdict :=
  if s.minutes ≠ w.minutes then ⟨.windowConflict, none, w, none⟩
  else if s.used < w.used then ⟨.usedDecreased, some w.id, w.flag, none⟩
  else ⟨.trusted, some w.id, w.raise s, none⟩

/-- The arms of the replay. -/
def weigh (current : Option Window) (s : Snapshot) : Option Verdict :=
  match current with
  | none =>
    let w := Window.opened s .firstObservation
    some ⟨.trusted, some w.id, w, none⟩
  | some w => do
    let apart ← sub64 s.resets w.resets
    let apart ← abs64 apart
    -- within the tolerance of the window's reset, before it elapsed
    if apart ≤ resetsTolerance ∧ s.observed < w.resets then some (w.observe s)
    else if w.resets < s.resets then
      let next := Window.opened s (if w.resets ≤ s.observed then .resetElapsed else .resetMoved)
      some ⟨.trusted, some next.id, next, some w⟩
    else if s.resets < w.resets then some ⟨.windowRegressed, none, w, none⟩
    else some (w.observe s)

structure Observation where
  session : String
  ordinal : Int
  account : Option String
  limit : Option String
  kind : Kind
  minutes : Option Int
  resets : Option Int
  used : Option String
  remaining : Option String
  plan : Option String
  observed : Int
  trust : Trust
  windowId : Option String
  reached : Option String
deriving DecidableEq, Repr

/-- The observation of a reading. -/
def Reading.observation (r : Reading) (trust : Trust) (names : Option String) : Observation where
  session := r.row.session
  ordinal := r.row.ordinal
  account := r.row.account.filter fun _ => r.row.homeCount = 1
  limit := r.row.limit
  kind := r.kind
  minutes := r.fields.minutes
  resets := r.resets
  used := (r.fields.used.bind percent).map display
  remaining := (r.fields.used.bind percent).map fun u => display (hundred - u)
  plan := r.row.plan
  observed := r.row.observed
  trust
  windowId := names
  reached := r.row.reached

/-! ## The replay -/

/-- The state of the replay. -/
structure Replay where
  current : Table Window Window.key := .empty
  done : List Window := []
  observations : List Observation := []

/-- One reading. `resume` finds the window that an earlier replay left current for a key; a full
replay has none. -/
def Replay.step (resume : Key → Option Window) (st : Replay) (r : Reading) : Option Replay :=
  match r.judge with
  | .error trust => some { st with observations := st.observations ++ [r.observation trust none] }
  | .ok s => do
    let v ← weigh ((st.current.find s.key).or (resume s.key)) s
    some {
      current := st.current.upsert v.current
      done := st.done ++ v.closed.toList
      observations := st.observations ++ [r.observation v.trust v.names] }

def Replay.run (resume : Key → Option Window) (st : Replay) (rows : List SnapshotRow) :
    Option Replay :=
  (rows.flatMap SnapshotRow.readings).foldlM (Replay.step resume) st

/-- The windows of the plan: the closed ones and the current ones. -/
def Replay.windows (st : Replay) : List Window := st.done ++ st.current.rows

/-- A row of `quota_windows`. -/
structure WindowRow where
  window : Window
  windowStart : Int
  firstUsed : String
  used : String
  remaining : String
  observedIncrease : String
deriving DecidableEq, Repr

/-- The row that `store_prepared` inserts. -/
def Window.row (w : Window) : Option WindowRow := do
  let length ← mul64 w.minutes 60000
  let start ← sub64 w.resets length
  some {
    window := w
    windowStart := start
    firstUsed := display w.firstUsed
    used := display w.used
    remaining := display (hundred - w.used)
    observedIncrease := display (w.used - w.firstUsed) }

/-- The rows of a plan. -/
def Replay.rows (st : Replay) : Option (List WindowRow) := st.windows.mapM Window.row

end Herdr.Quota
