import Herdr.Lib.Cursor
import Herdr.Store.Plans

/-!
# Waits

The wait half of `src/store/plans.rs` with `src/store/plans/waits.rs`, `src/domain/wait.rs` and the
tables of `migrations/0036_waits.sql`, `0042_wait_subscription.sql` and
`0043_admission_indexes.sql`. A wait is registered together with its cursor into the event log,
replays the log page by page until an event wakes it, and may then be rearmed once. What counts as
evidence is read from the rest of the store, a type `ω` with an instance of `World`.
-/

namespace Herdr.Waits

open Plans (sha256Text InboxContent InboxRow)

/-! ## Subjects -/

inductive WaitCondition where
  | dependencyEvidence | userDecision | resourceAvailability | adapterRecovery
  | validationCompletion
deriving DecidableEq, Repr

def WaitCondition.text : WaitCondition → String
  | .dependencyEvidence => "dependency_evidence"
  | .userDecision => "user_decision"
  | .resourceAvailability => "resource_availability"
  | .adapterRecovery => "adapter_recovery"
  | .validationCompletion => "validation_completion"

/-- `wait_condition`, with the condition that the text names. -/
def waitCondition : String → Option WaitCondition
  | "dependency_evidence" => some .dependencyEvidence
  | "user_decision" => some .userDecision
  | "resource_availability" => some .resourceAvailability
  | "adapter_recovery" => some .adapterRecovery
  | "validation_completion" => some .validationCompletion
  | _ => none

inductive WaitTrigger where
  | approvalDecision (approvalId : String) (taskRevision : Nat)
  | attemptCapacityReleased (attemptId : AttemptId) (afterRevision : Nat)
  | ownedRuntimeRecovered (bindingId : String) (bindingRevision ownershipRevision : Nat)
deriving DecidableEq, Repr

namespace WaitTrigger

/-- The condition that a trigger is for. -/
def condition : WaitTrigger → WaitCondition
  | .approvalDecision .. => .userDecision
  | .attemptCapacityReleased .. => .resourceAvailability
  | .ownedRuntimeRecovered .. => .adapterRecovery

/-- `approval-` and a digest. -/
def approvalIdOk (id : String) : Bool :=
  "approval-".toList.isPrefixOf id.toList &&
    (id.toList.drop 9).length = 64 && (id.toList.drop 9).all lowerHex

/-- `WaitTrigger::validate`. -/
def validate (trigger : WaitTrigger) (condition : String) : Except String Unit :=
  match trigger with
  | .ownedRuntimeRecovered bindingId bindingRevision ownershipRevision =>
    if condition ≠ "adapter_recovery" ∨ bindingId.isEmpty ∨ 512 < bindingId.utf8ByteSize ∨
        hasControl bindingId ∨ bindingRevision = 0 ∨ ownershipRevision = 0 ∨
        i64Max < bindingRevision ∨ i64Max < ownershipRevision then
      .error "runtime recovery wait requires exact binding and ownership revisions"
    else .ok ()
  | .attemptCapacityReleased _ afterRevision =>
    if condition ≠ "resource_availability" ∨ afterRevision = 0 ∨ i64Max ≤ afterRevision then
      .error "capacity wait requires an attempt and a prior revision"
    else .ok ()
  | .approvalDecision approvalId taskRevision =>
    if condition ≠ "user_decision" ∨ ¬ approvalIdOk approvalId ∨ taskRevision = 0 ∨
        i64Max < taskRevision then
      .error "approval decision wait requires an exact approval ID and task revision"
    else .ok ()

/-- `serde_json::to_string`. -/
def json : WaitTrigger → String
  | .approvalDecision approvalId taskRevision =>
    Json.object [("kind", Json.string "approval_decision"),
      ("approval_id", Json.string approvalId), ("task_revision", toString taskRevision)]
  | .attemptCapacityReleased attemptId afterRevision =>
    Json.object [("kind", Json.string "attempt_capacity_released"),
      ("attempt_id", Json.string attemptId.val), ("after_revision", toString afterRevision)]
  | .ownedRuntimeRecovered bindingId bindingRevision ownershipRevision =>
    Json.object [("kind", Json.string "owned_runtime_recovered"),
      ("binding_id", Json.string bindingId), ("binding_revision", toString bindingRevision),
      ("ownership_revision", toString ownershipRevision)]

end WaitTrigger

/-- What a wait waits for. -/
structure Subject where
  task : TaskId
  attempt : Option AttemptId
  condition : WaitCondition
  trigger : Option WaitTrigger
deriving DecidableEq, Repr

/-! ## Tables -/

/-- Why a wake was written. -/
inductive WakeCause where
  | evidence (sourceSequence : Nat)
  | deadlineExpired (deadlineUnixMs : Option Int)
deriving DecidableEq, Repr

/-- What an event records. -/
inductive EventBody where
  | registered (task : TaskId) (condition : WaitCondition) (planRevision : Nat)
      (deadline : Option Int) (trigger : Option WaitTrigger)
  | rearmed (subject : Subject) (planRevision : Nat) (deadline : Option Int) (predecessor : String)
  | wake (cause : WakeCause)
  | notified (inboxId : String) (triggerSequence triggerThrough : Nat)
  | other (kind payload : String)
deriving DecidableEq, Repr

def EventBody.kind : EventBody → String
  | .registered .. => "wait.registered"
  | .rearmed .. => "wait.registered"
  | .wake _ => "wait.wake"
  | .notified .. => "wait.notified"
  | .other kind _ => kind

/-- A row of `events`. -/
structure Event where
  sequence : Nat
  entity : String
  revision : Nat
  body : EventBody
deriving DecidableEq, Repr

/-- The columns of an event that a replay reads. -/
structure Seen where
  sequence : Nat
  kind : String
  entity : String
deriving DecidableEq, Repr

def Event.seen (e : Event) : Seen := ⟨e.sequence, e.body.kind, e.entity⟩

inductive WaitState where
  | waiting | replayed
deriving DecidableEq, Repr

/-- A row of `wait_conditions`. -/
structure WaitRow where
  waitId : String
  task : TaskId
  attempt : Option AttemptId
  condition : WaitCondition
  planRevision : Nat
  cursorSequence : Nat
  state : WaitState
  replayedThrough : Option Nat
  wakeRequested : Bool
  createdUnixMs : Int
  deadlineUnixMs : Option Int
deriving DecidableEq, Repr

namespace WaitRow

variable (row : WaitRow)

/-- The last event that was replayed, or the cursor. -/
def after : Nat := row.replayedThrough.getD row.cursorSequence

/-- The deadline has come. -/
def expired (now : Int) : Bool := row.deadlineUnixMs.any fun deadline => deadline ≤ now

def subject (trigger : Option WaitTrigger) : Subject :=
  ⟨row.task, row.attempt, row.condition, trigger⟩

end WaitRow

/-- A row of `wait_replay_events`. -/
structure ReplayRow where
  waitId : String
  eventSequence : Nat
  kind : String
  wake : Bool
deriving DecidableEq, Repr

def ReplayRow.key (r : ReplayRow) : String × Nat := (r.waitId, r.eventSequence)

structure Rearm where
  predecessor : String
  successor : String
deriving DecidableEq, Repr

structure TriggerRow where
  waitId : String
  trigger : WaitTrigger
deriving DecidableEq, Repr

/-- The waits of a store, and the rest of it. -/
structure WaitStore (ω : Type) where
  world : ω
  events : List Event
  waits : Table WaitRow WaitRow.waitId
  replays : Table ReplayRow ReplayRow.key
  rearms : Table Rearm Rearm.predecessor
  triggers : Table TriggerRow TriggerRow.waitId
  inbox : Table InboxRow InboxRow.id
deriving DecidableEq

/-- A store in which nothing has happened yet. -/
def WaitStore.created {ω : Type} (world : ω) : WaitStore ω where
  world := world
  events := []
  waits := .empty
  replays := .empty
  rearms := .empty
  triggers := .empty
  inbox := .empty

/-- What the waits read of the rest of the store. -/
class World (ω : Type) where
  hasTask : ω → TaskId → Bool
  hasAttempt : ω → AttemptId → TaskId → Bool
  /-- `current_revision`. -/
  planRevision : ω → Nat
  /-- The checks of `wait_triggers::insert`. -/
  reference : ω → WaitTrigger → Except StoreError Unit
  /-- `current_wait_evidence`. -/
  currentWaitEvidence : ω → List Event → Subject → Except StoreError (Option Seen)
  /-- `relevant_wait_event`. -/
  relevantWaitEvent : ω → List Event → Subject → Seen → Except StoreError Bool

variable {ω : Type}

namespace WaitStore

variable (db : WaitStore ω)

/-- `head`. -/
def head : Nat := Cursor.head Event.sequence db.events

/-- The events that replays of a wait have recorded, in the order they were recorded. -/
def recorded (wait : String) : List Nat :=
  (db.replays.rows.filter fun r => r.waitId = wait).map (·.eventSequence)

end WaitStore

abbrev WaitTx (ω α : Type) := Tx (WaitStore ω) StoreError α

/-! ## Statements -/

/-- `INSERT INTO events`, at the next sequence number. -/
def logEvent (entity : String) (body : EventBody) : WaitTx ω Unit :=
  .write fun db => { db with events := db.events ++ [⟨db.head + 1, entity, 1, body⟩] }

def insertWait (row : WaitRow) : WaitTx ω Unit :=
  .insert (fun db => (db.waits.insert? row).map fun waits => { db with waits := waits }) .conflict

def insertReplay (row : ReplayRow) : WaitTx ω Unit :=
  .insert (fun db => (db.replays.insert? row).map fun replays => { db with replays := replays })
    .conflict

/-- The primary key, `UNIQUE(successor)` and the `CHECK` of `wait_rearms`. -/
def insertRearm (predecessor successor : String) : WaitTx ω Unit :=
  .insert (fun db =>
    if predecessor = successor ∨ db.rearms.rows.any (·.successor = successor) then none
    else (db.rearms.insert? ⟨predecessor, successor⟩).map fun rearms =>
      { db with rearms := rearms }) .conflict

variable [Plans.Documents]

/-- `INSERT INTO inbox_items` of an unread item. -/
def insertInbox (c : InboxContent) : WaitTx ω Unit :=
  .insert (fun db => (db.inbox.insert? ⟨c.id, 1, Plans.InboxContent.json c,
    sha256Text (Plans.InboxContent.json c), false, false⟩).map fun inbox =>
      { db with inbox := inbox }) .conflict

variable [World ω]

/-- `wait_triggers::insert`. -/
def insertTrigger (wait : String) : Option WaitTrigger → WaitTx ω Unit
  | none => pure ()
  | some trigger => do
    .query fun db => World.reference db.world trigger
    .insert (fun db => (db.triggers.insert? ⟨wait, trigger⟩).map fun triggers =>
      { db with triggers := triggers }) .conflict

/-- `wait_triggers::load`. -/
def loadTrigger (wait : String) : WaitTx ω (Option WaitTrigger) :=
  .query fun db =>
    match db.triggers.find wait with
    | none => .ok none
    | some row => ((row.trigger.validate row.trigger.condition.text).mapError .corrupt).map
        fun _ => some row.trigger

/-! ## Registration -/

structure WaitRegistration where
  waitId : String
  cursorSequence : Nat
  alreadyRegistered : Bool
deriving DecidableEq, Repr

/-- Evidence may precede the registration: what is relevant now becomes a wake of this wait. -/
def wakeOnEvidence (wait : String) (subject : Subject) : WaitTx ω Unit := do
  let evidence ← .query fun db => World.currentWaitEvidence db.world db.events subject
  match evidence with
  | none => pure ()
  | some seen => do
    let relevant ← .query fun db => World.relevantWaitEvent db.world db.events subject seen
    match relevant with
    | true => logEvent wait (.wake (.evidence seen.sequence))
    | false => pure ()

/-- `INSERT INTO wait_rearms`, for a successor. -/
def linkRearm (successor : String) : Option String → WaitTx ω Unit
  | none => pure ()
  | some predecessor => insertRearm predecessor successor

/-- The writes of `register_wait` and of `rearm_wait`: the event, the wait with its cursor, the
link to the predecessor, the trigger and the wake. -/
def subscribe (wait : String) (subject : Subject) (planRevision : Nat) (deadline : Option Int)
    (predecessor : Option String) (now : Int) : WaitTx ω WaitRegistration := do
  logEvent wait (match predecessor with
    | none => .registered subject.task subject.condition planRevision deadline subject.trigger
    | some previous => .rearmed subject planRevision deadline previous)
  let cursor ← .ask WaitStore.head
  .require (cursor ≤ i64Max) (Plans.invalid "wait cursor exceeds range")
  .require (planRevision ≤ i64Max) (Plans.invalid "integer exceeds SQLite range")
  insertWait ⟨wait, subject.task, subject.attempt, subject.condition, planRevision, cursor,
    .waiting, none, false, now, deadline⟩
  linkRearm wait predecessor
  insertTrigger wait subject.trigger
  wakeOnEvidence wait subject
  pure ⟨wait, cursor, false⟩

/-- The text that a wait's identity is the digest of. -/
def waitIdentity (subject : Subject) (planRevision : Nat) (deadline : Option Int) : String :=
  subject.task.val ++ "\x00" ++ (subject.attempt.map AttemptId.val).getD "" ++ "\x00" ++
    subject.condition.text ++ "\x00" ++ toString planRevision ++
    (match deadline with
      | none => ""
      | some deadline => "\x00deadline\x00" ++ toString deadline) ++
    match subject.trigger with
      | none => ""
      | some trigger => "\x00trigger\x00" ++ trigger.json

/-- A deadline that is a time. -/
def deadlineOk (deadline : Option Int) : Bool :=
  deadline.all fun value => 0 ≤ value && (Plans.Documents.timestamp value).isSome

def validateTrigger (condition : String) : Option WaitTrigger → Except StoreError Unit
  | none => .ok ()
  | some trigger => (trigger.validate condition).mapError .invalid

/-- `register_wait_with_budget`. A read budget that runs out is a `fault`. -/
def registerWait (task : TaskId) (attempt : Option AttemptId) (condition : String)
    (deadline : Option Int) (trigger : Option WaitTrigger) (now : Int)
    (fault : Option StoreError) : WaitTx ω WaitRegistration := do
  .outside fault
  .check (validateTrigger condition trigger)
  .require (deadlineOk deadline) (Plans.invalid "invalid wait deadline")
  .require (Plans.identifier task.val) (Plans.invalid "wait is invalid")
  let condition ← .find (fun _ => waitCondition condition) (Plans.invalid "wait is invalid")
  .require (attempt.all fun a => Plans.identifier a.val) (Plans.invalid "wait attempt is invalid")
  let world ← .ask (·.world)
  .require (World.hasTask world task) (Plans.invalid "wait task is missing")
  .require (attempt.all fun a => World.hasAttempt world a task)
    (Plans.invalid "wait attempt is missing")
  let planRevision := World.planRevision world
  let subject : Subject := ⟨task, attempt, condition, trigger⟩
  let wait := sha256Text (waitIdentity subject planRevision deadline)
  let existing ← .ask (·.waits.find wait)
  match existing with
  | some row => pure ⟨wait, row.cursorSequence, true⟩
  | none => subscribe wait subject planRevision deadline none now

/-- The successor of a wait with this deadline. -/
def rearmId (previous : String) (deadline : Option Int) : String :=
  sha256Text ("wait-rearm\x00" ++ previous ++ "\x00" ++
    match deadline with
      | none => "None"
      | some value => "Some(" ++ toString value ++ ")")

/-- The successor that a wait has. -/
def WaitStore.successor (db : WaitStore ω) (previous : String) : Option WaitRow :=
  (db.rearms.find previous).bind fun r => db.waits.find r.successor

/-- `rearm_wait_with_budget`. -/
def rearmWait (previous : String) (deadline : Option Int) (now : Int)
    (fault : Option StoreError) : WaitTx ω WaitRegistration := do
  .outside fault
  .require (Plans.identifier previous ∧ deadlineOk deadline)
    (Plans.invalid "invalid wait rearm request")
  let row ← .find (·.waits.find previous) (Plans.invalid "wait is not registered")
  let world ← .ask (·.world)
  .require (World.planRevision world ≤ i64Max) (Plans.invalid "integer exceeds SQLite range")
  .require (row.planRevision = World.planRevision world ∧ row.wakeRequested = true)
    (Plans.invalid "only a terminal wait in the current plan can be rearmed")
  let trigger ← loadTrigger previous
  let wait := rearmId previous deadline
  let existing ← .ask (·.successor previous)
  match existing with
  | some successor => do
    .require (successor.waitId = wait)
      (Plans.invalid "wait already rearmed with a different deadline")
    pure ⟨wait, successor.cursorSequence, true⟩
  | none => subscribe wait (row.subject trigger) row.planRevision deadline (some previous) now

/-! ## Replay -/

structure WaitReplay where
  waitId : String
  cursorSequence : Nat
  replayedThrough : Nat
  eventsApplied : Nat
  wakeRequested : Bool
  alreadyReplayed : Bool
deriving DecidableEq, Repr

def replayPage : Nat := 1000

/-- What a replay reads: the next page, or the wake that it writes for an expired deadline. -/
def replayEvents (row : WaitRow) (now : Int) : WaitTx ω (List Seen) :=
  if row.expired now then do
    logEvent row.waitId (.wake (.deadlineExpired row.deadlineUnixMs))
    let head ← .ask WaitStore.head
    .require (head ≤ i64Max) (Plans.invalid "integer exceeds SQLite range")
    pure [⟨head, "wait.wake", row.waitId⟩]
  else .ask fun db => (Cursor.page Event.sequence replayPage row.after db.events).map Event.seen

/-- An event wakes the wait that it addresses; before the first wake, a relevant one does too. -/
def isWake (wait : String) (subject : Subject) (seen : Seen) (woken : Bool) : WaitTx ω Bool :=
  if seen.kind = "wait.wake" ∧ seen.entity = wait then pure true
  else if woken then pure false
  else .query fun db => World.relevantWaitEvent db.world db.events subject seen

/-- The loop of `replay_wait`, which returns the sequence of the first wake. -/
def applyEvents (wait : String) (subject : Subject) :
    List Seen → Option Nat → WaitTx ω (Option Nat)
  | [], wake => pure wake
  | seen :: rest, wake => do
    let woke ← isWake wait subject seen wake.isSome
    insertReplay ⟨wait, seen.sequence, seen.kind, woke⟩
    applyEvents wait subject rest (wake.or (if woke then some seen.sequence else none))

/-- The inbox item of a wait's wake. -/
def noticeId (wait : String) : String := sha256Text ("wait-notice\x00" ++ wait)

def noticeContent (wait : String) (task : TaskId) (condition : WaitCondition) (sequence : Nat)
    (expired : Bool) (created : String) : InboxContent where
  id := noticeId wait
  kind := "wait-wake"
  subject := task.val
  created := created
  summary := "reevaluate " ++ condition.text ++ " for " ++ task.val
  body := "Wait " ++ wait ++ " requests reevaluation because " ++
    (if expired then "its deadline expired" else "a relevant event arrived") ++ " (event " ++
    toString sequence ++ "). Revalidate current evidence and authority; " ++
    "this wake is not proof or a launch grant."

/-- `insert_wait_notice`, when there was a wake. -/
def insertWaitNotice (row : WaitRow) (through : Nat) (now : Int) : Option Nat → WaitTx ω Unit
  | none => pure ()
  | some sequence => do
    let created ← .find (fun _ => Plans.Documents.timestamp now)
      (Plans.invalid "timestamp out of range")
    let content := noticeContent row.waitId row.task row.condition sequence (row.expired now) created
    .check (Plans.InboxContent.validate content)
    insertInbox content
    logEvent row.waitId (.notified (noticeId row.waitId) sequence through)

/-- `UPDATE wait_conditions .. WHERE wake_requested=0`, which must change one row, under the trigger
`wait_conditions_replay_monotonic`. -/
def setReplayed (row : WaitRow) (through : Nat) (wake : Bool) : WaitTx ω Unit := do
  let current ← .find (·.waits.find row.waitId) .conflict
  .require (current.wakeRequested = false) .conflict
  .require (current.after ≤ through)
    (.io "wait replay must advance an unresolved subscription")
  let next : WaitRow := { current with
    state := .replayed
    replayedThrough := some through
    wakeRequested := wake }
  .write fun db => { db with waits := db.waits.update next }

/-- A wait that has not been woken. -/
def replayPending (row : WaitRow) (now : Int) (fault : Option StoreError) :
    WaitTx ω WaitReplay := do
  .outside fault
  let trigger ← loadTrigger row.waitId
  let events ← replayEvents row now
  let wake ← applyEvents row.waitId (row.subject trigger) events none
  let through := Cursor.advance Seen.sequence row.after events
  insertWaitNotice row through now wake
  setReplayed row through wake.isSome
  pure ⟨row.waitId, row.cursorSequence, through, events.length, wake.isSome, false⟩

/-- A wait that has been woken. -/
def replayWoken (row : WaitRow) : WaitTx ω WaitReplay := do
  let applied ← .ask (·.recorded row.waitId)
  let through ← .find (fun _ => row.replayedThrough) (.corrupt "replayed wait has no cursor")
  pure ⟨row.waitId, row.cursorSequence, through, applied.length, true, true⟩

/-- `replay_wait_with_budget`. -/
def replayWait (wait : String) (now : Int) (fault : Option StoreError) : WaitTx ω WaitReplay := do
  .require (Plans.identifier wait) (Plans.invalid "wait is invalid")
  let row ← .find (·.waits.find wait) (Plans.invalid "wait is not registered")
  if row.wakeRequested then replayWoken row else replayPending row now fault

/-! ## Runs -/

/-- An event of another writer. -/
structure OtherEvent where
  entity : String
  revision : Nat
  kind : String
  payload : String
deriving DecidableEq, Repr

/-- What other writers of the store do: they own the rest of it, append events of their own kinds
and write inbox items. -/
structure Elsewhere (ω : Type) where
  world : ω
  events : List OtherEvent
  inbox : Table InboxRow InboxRow.id

/-- Append an event of another writer. Only `insert_wait_notice` writes `wait.notified`. -/
def appendOther (events : List Event) (e : OtherEvent) : List Event :=
  if e.kind = "wait.notified" then events
  else events ++ [⟨Cursor.head Event.sequence events + 1, e.entity, e.revision,
    .other e.kind e.payload⟩]

def Elsewhere.apply (e : Elsewhere ω) (db : WaitStore ω) : WaitStore ω :=
  { db with
    world := e.world
    events := e.events.foldl appendOther db.events
    inbox := e.inbox }

inductive Call (ω : Type) where
  | register (task : TaskId) (attempt : Option AttemptId) (condition : String)
      (deadline : Option Int) (trigger : Option WaitTrigger) (now : Int)
      (fault : Option StoreError)
  | replay (wait : String) (now : Int) (fault : Option StoreError)
  | rearm (previous : String) (deadline : Option Int) (now : Int) (fault : Option StoreError)
  | elsewhere (change : Elsewhere ω)

inductive Answer where
  | registration (r : WaitRegistration)
  | replay (r : WaitReplay)
  | done
deriving DecidableEq, Repr

/-- Commit a body and wrap its result. -/
def answer {α : Type} (wrap : α → Answer) (body : WaitTx ω α) (db : WaitStore ω) :
    Except StoreError Answer × WaitStore ω :=
  ((body.commit db).1.map wrap, (body.commit db).2)

def exec : Call ω → WaitStore ω → Except StoreError Answer × WaitStore ω
  | .register task attempt condition deadline trigger now fault =>
    answer .registration (registerWait task attempt condition deadline trigger now fault)
  | .replay wait now fault => answer .replay (replayWait wait now fault)
  | .rearm previous deadline now fault =>
    answer .registration (rearmWait previous deadline now fault)
  | .elsewhere change => fun db => (.ok .done, change.apply db)

end Herdr.Waits
