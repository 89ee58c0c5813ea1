import Herdr.Domain.Contract
import Herdr.Store.Reservations

/-!
# The paged admission scan

`src/store/admission_read.rs`: automatic admission reads the waiting tasks in pages of 64. The rank
time of a scan is frozen with its first page, and the cursor that a page returns is kept in memory
or saved in the one row of `admission_scan_cursor`.
-/

namespace Herdr.AdmissionScan

/-- `PAGE_SIZE`. -/
def pageSize : Nat := 64

structure Header where
  head : Nat
  policy : SchedulerPolicy
  control : ProjectControl
deriving DecidableEq, Repr

structure Cursor where
  score : Int
  sequence : Nat
  task : String
  rankTime : Int
deriving DecidableEq, Repr

structure Entry where
  task : Task
  score : Int
  binding : Option RuntimeBinding
deriving DecidableEq, Repr

structure Page where
  entries : List Entry
  next : Option Cursor
deriving DecidableEq, Repr

/-- The row of `admission_scan_cursor`. -/
structure SavedCursor where
  controlEpoch : Nat
  policyRevision : Nat
  cursor : Cursor
deriving DecidableEq, Repr

structure ScanStore extends Store where
  scanCursor : Option SavedCursor
deriving DecidableEq

/-! ## The saved cursor -/

/-- `admission_cursor_with_budget`. -/
def ScanStore.admissionCursor (s : ScanStore) (header : Header) :
    Except StoreError (Option Cursor) :=
  match s.scanCursor with
  | none => .ok none
  | some row =>
    if row.controlEpoch = header.control.epoch ∧ row.policyRevision = header.policy.revision then
      if identifier row.cursor.task then .ok (some row.cursor)
      else .error (.corrupt "identifier must contain 1–128 ASCII letters, digits, -, _, . or :")
    else .ok none

/-- `advance_admission_cursor`. -/
def ScanStore.advanceAdmissionCursor (s : ScanStore) (header : Header) (next : Option Cursor) :
    Except StoreError ScanStore :=
  if s.head ≠ header.head then .error .conflict
  else .ok { s with
    scanCursor := next.map fun cursor => ⟨header.control.epoch, header.policy.revision, cursor⟩ }

/-! ## The rows of a page -/

/-- The columns that the query selects. -/
def Cursor.ofRow (rankTime : Int) (q : QueueRecord) : Cursor where
  score := (rankTime - q.enqueuedUnixMs).tdiv 60000 + q.priority
  sequence := q.enqueueSequence
  task := q.task.val
  rankTime := rankTime

/-- `score<?2 OR (score=?2 AND (enqueue_sequence>?3 OR (enqueue_sequence=?3 AND id>?4)))`. -/
def Cursor.after (last c : Cursor) : Prop :=
  c.score < last.score ∨ (c.score = last.score ∧
    (last.sequence < c.sequence ∨ (c.sequence = last.sequence ∧ last.task < c.task)))

/-- `ORDER BY score DESC,enqueue_sequence,id`. -/
def Cursor.precedes (a b : Cursor) : Prop :=
  b.score < a.score ∨ (a.score = b.score ∧
    (a.sequence < b.sequence ∨ (a.sequence = b.sequence ∧ a.task ≤ b.task)))

instance : DecidableRel Cursor.after := fun last c => by
  unfold Cursor.after
  infer_instance

instance : DecidableRel Cursor.precedes := fun a b => by
  unfold Cursor.precedes
  infer_instance

/-- `t.state='queued' AND t.active_attempt IS NULL`. -/
def isQueued (s : Store) (task : TaskId) : Bool :=
  (s.tasks.find task).any fun t => t.state = .queued && t.activeAttempt.isNone

/-- The queue rows of the tasks that wait at `now`. -/
def waiting (s : Store) (now : Int) : List QueueRecord :=
  s.queue.rows.filter fun q => isQueued s q.task && q.enqueuedUnixMs ≤ now

/-- The query of `admission_page_with_budget`: one row more than a page. -/
def admissionRows (s : Store) (now rankTime : Int) (after : Option Cursor) : List Cursor :=
  ((((waiting s now).map (Cursor.ofRow rankTime)).filter fun c =>
    after.all fun last => last.after c).insertionSort Cursor.precedes).take (pageSize + 1)

/-- The rows that a page considers, and the cursor that it returns. -/
def considered (s : Store) (now : Int) (after : Option Cursor) :
    List Cursor × Option Cursor :=
  let cursors := admissionRows s now ((after.map (·.rankTime)).getD now) after
  if pageSize < cursors.length then (cursors.dropLast, cursors.dropLast.getLast?)
  else (cursors, none)

/-! ## The entries of a page -/

/-- `unused_binding`: the first binding of the task that no worker has used. -/
def unusedBinding (s : Store) (task : TaskId) : Except StoreError (Option RuntimeBinding) :=
  let bindings := ((s.bindings.rows.filter fun b => b.task = some task).insertionSort
    fun a b => a.id ≤ b.id).take 65
  if 64 < bindings.length then .error (.limit "task runtime binding limit exceeded")
  else .ok (bindings.find? fun b =>
    b.identity.paneId.isEmpty && b.identity.tabId.isEmpty && b.identity.machine.isEmpty &&
      b.identity.worktreePath.isEmpty && !((s.ownership.find b.id).any fun o =>
        o.attempt.isSome || o.session.isSome || o.agent.isSome))

/-- A considered row is an entry unless the task has used up its attempts or has a retained one. -/
def admissionEntry (s : Store) (header : Header) (c : Cursor) :
    Except StoreError (Option Entry) :=
  let id : TaskId := ⟨c.task⟩
  if header.policy.maxAttemptsPerTask ≤ s.attemptCount id header.policy.maxAttemptsPerTask then
    .ok none
  else if s.attempts.rows.any fun a => a.task = id && a.retainsCapacity then .ok none
  else match s.tasks.find id with
    | none => .error .conflict
    | some task => do
      let binding ← unusedBinding s id
      pure (some ⟨task, c.score, binding⟩)

/-- `admission_page_with_budget`. -/
def admissionPage (s : Store) (header : Header) (now : Int) (after : Option Cursor) :
    Except StoreError Page :=
  if s.head ≠ header.head then .error .conflict
  else do
    let (cursors, next) := considered s now after
    let entries ← cursors.mapM (admissionEntry s header)
    pure ⟨entries.reduceOption, next⟩

end Herdr.AdmissionScan
