import Mathlib.Logic.Function.Basic
import Herdr.Domain.Text
import Herdr.Runtime.FairAdmission

/-!
# The command executor

`src/executor.rs`: two lanes of workers over bounded queues. Each critical section is one step, and
so are a worker's clock reading, its second look at the cancellation and the deadline, and the
answer of its runner. A cancelled or expired job is selected past every limit, so that the worker
can drop it.
-/

namespace Herdr.Executor

open FairAdmission (reservedControl ProjectRound.select)

/-! ## Requests -/

inductive Lane where
  | control | transfer | advisory
deriving DecidableEq, Repr

/-- Advisory work shares the bounds of `transfer`. -/
def Lane.index : Lane → Fin 2
  | .control => ⟨0, Nat.zero_lt_two⟩
  | .transfer | .advisory => ⟨1, Nat.one_lt_two⟩

structure Limits where
  workers : Fin 2 → Nat
  /-- Includes running commands. -/
  outstanding : Fin 2 → Nat
  perProject : Nat
  perMachine : Nat

structure Identity where
  operation : String
  revision : Nat
  project : String
  machine : String
  terminal : Option String
deriving DecidableEq, Repr

abbrev Instant := Nat

/-- A cancellation that a caller brought, or the one made for a reply channel. -/
inductive Token where
  | given (n : Nat)
  | made (reply : Nat)
deriving DecidableEq, Repr

/-- The parts of a command that admission reads. -/
structure Cmd where
  program : String
  args : List String := []
  env : List (String × String) := []
  envRemove : List String := []
  stdin : Option String := none
  timeout : Nat
  deadline : Option Instant := none
  ownGroup : Bool := true
  captureLimit : Nat := 0
  cancellation : Option Token := none
deriving DecidableEq, Repr

structure Request where
  identity : Identity
  lane : Lane
  deadline : Instant
  command : Cmd
deriving DecidableEq, Repr

structure Job where
  request : Request
  queued : Instant
  token : Token
  /-- The channel of its completion. -/
  reply : Nat
deriving DecidableEq, Repr

def Identity.key (id : Identity) : String × String := (id.project, id.operation)

def Job.key (job : Job) : String × String := job.request.identity.key

/-! ## State -/

/-- A row of the running map. -/
structure Running where
  identity : Identity
  token : Token
  lane : Lane
deriving DecidableEq, Repr

def Running.key (r : Running) : String × String := r.identity.key

inductive Outcome where
  | cancelled | timedOut
  /-- The runner's own answer. -/
  | ran
  | panicked
deriving DecidableEq, Repr

/-- The runner was entered. -/
def Outcome.entered : Outcome → Bool
  | .ran | .panicked => true
  | .cancelled | .timedOut => false

structure Completion where
  identity : Identity
  startedAt : Instant
  queueDelay : Nat
  runnerEntered : Bool
  outcome : Outcome
deriving DecidableEq, Repr

/-- Where a worker stands with its job. -/
inductive Phase where
  | selected
  | started (startedAt : Instant)
  | entered (startedAt : Instant)
  /-- It has an outcome and still its slot. -/
  | done (startedAt : Instant) (outcome : Outcome)
  | released (completion : Completion)
deriving DecidableEq, Repr

structure Worker where
  lane : Fin 2
  job : Job
  /-- The clock reading at which the selection looked at the job. -/
  testedAt : Instant
  phase : Phase
deriving DecidableEq, Repr

structure State where
  queue : Fin 2 → List Job
  running : Table Running Running.key
  admitted : Fin 2 → Nat
  /-- The projects that each lane's round has served. -/
  rounds : Fin 2 → List String
  stopping : Bool
  uncertain : Bool
  cancelled : List Token
  busy : List Worker
  sent : List (Nat × Completion)
  /-- Every job that was admitted. -/
  submitted : List Job
  clock : Instant

def State.empty : State where
  queue _ := []
  running := .empty
  admitted _ := 0
  rounds _ := []
  stopping := false
  uncertain := false
  cancelled := []
  busy := []
  sent := []
  submitted := []
  clock := 0

namespace State

variable (s : State)

/-- `state.queue.iter().flatten()`. -/
def queued : List Job := s.queue 0 ++ s.queue 1

/-- The running entries of a lane. -/
def runningIn (lane : Fin 2) : List Running := s.running.rows.filter fun r => r.lane.index = lane

def isCancelled (token : Token) : Bool := s.cancelled.contains token

/-- Cancel the queued and the running work. -/
def cancelAll : State :=
  { s with cancelled := s.cancelled ++ s.queued.map (·.token) ++ s.running.rows.map (·.token) }

end State

/-! ## Submission -/

/-- The bytes of a command's input. -/
def Cmd.bytes (cmd : Cmd) : Nat :=
  cmd.program.utf8ByteSize + ((cmd.args ++ cmd.envRemove).map String.utf8ByteSize).sum +
    (cmd.env.map fun e => e.1.utf8ByteSize + e.2.utf8ByteSize).sum +
    cmd.stdin.elim 0 String.utf8ByteSize

/-- `CAPTURE_LIMIT`. -/
def captureLimit : Nat := 1024 * 1024

def validName (s : String) : Bool := s ≠ "" && s.utf8ByteSize ≤ 4096 && !hasControl s

def Identity.valid (id : Identity) : Bool :=
  0 < id.revision && validName id.operation && validName id.project && validName id.machine &&
    id.terminal.all validName

def ensure (p : Prop) [Decidable p] (message : String) : Except String Unit :=
  if p then .ok () else .error message

/-- The deadline of a request is no later than that of its command. -/
def Request.bounded (request : Request) : Request :=
  { request with deadline := request.command.deadline.elim request.deadline (min request.deadline) }

/-- The advisory jobs that are queued or running. -/
def State.advisory (s : State) : Nat :=
  s.queued.countP (fun j => j.request.lane = .advisory) +
    s.running.rows.countP fun r => r.lane = .advisory

/-- The conditions of admission, under the lock. -/
def State.admissible (s : State) (limits : Limits) (request : Request) : Except String Unit := do
  let lane := request.lane.index
  ensure (s.stopping = false) "executor is stopping"
  ensure (s.admitted lane < limits.outstanding lane) "executor queue is full"
  ensure (request.lane = .advisory → s.admitted lane < limits.outstanding lane / 2 ∧ s.advisory < 16)
    "executor queue is full"
  ensure ((s.running.find request.identity.key).isNone = true ∧
    ¬s.queued.any fun j => j.key = request.identity.key) "operation already admitted"

/-- Canonical work cancels running advisory work. -/
def State.yielding (s : State) (lane : Lane) : List Token :=
  if lane = .advisory then []
  else (s.running.rows.filter fun r => r.lane = .advisory).map (·.token)

/-- `submit`, at a clock reading for its deadline and one for its queue time. -/
def submit (s : State) (limits : Limits) (request : Request) (reading queued : Instant) :
    Except String State := do
  let cmd := request.command
  ensure (cmd.ownGroup = true)
    "executor commands require an owned process group for cancellation"
  ensure (cmd.bytes ≤ 1024 * 1024 ∧ cmd.args.length ≤ 4096 ∧ cmd.env.length ≤ 4096 ∧
    cmd.envRemove.length ≤ 4096 ∧ cmd.captureLimit ≤ captureLimit)
    "command exceeds executor input/output bounds"
  let request := request.bounded
  ensure (request.identity.valid = true) "invalid command identity"
  ensure (reading < request.deadline ∧ cmd.timeout ≠ 0) "command deadline elapsed"
  s.admissible limits request
  let lane := request.lane.index
  let reply := s.submitted.length
  let job : Job := ⟨request, queued, cmd.cancellation.getD (.made reply), reply⟩
  pure { s with
    cancelled := s.cancelled ++ s.yielding request.lane
    queue := Function.update s.queue lane (s.queue lane ++ [job])
    admitted := Function.update s.admitted lane (s.admitted lane + 1)
    submitted := s.submitted ++ [job]
    clock := queued }

/-! ## Selection -/

namespace State

variable (s : State) (limits : Limits) (lane : Fin 2)

/-- The lane has room for the project and the machine, and nothing runs in the terminal. -/
def room (id : Identity) : Bool :=
  (s.runningIn lane).countP (fun r => r.identity.project = id.project) < limits.perProject &&
  (s.runningIn lane).countP (fun r => r.identity.machine = id.machine) < limits.perMachine &&
  id.terminal.all fun t => !s.running.rows.any fun r => r.identity.terminal = some t

/-- One control worker stays free while `transfer` cannot take more work. -/
def ordinaryCap : Nat :=
  if lane = 0 ∧ 2 ≤ limits.workers lane ∧ limits.outstanding 1 ≤ s.admitted 1 then
    limits.workers lane - 1
  else limits.workers lane

/-- A cancelled or expired job passes every limit. -/
def eligible (job : Job) (reading : Instant) : Bool :=
  (s.isCancelled job.token || job.request.deadline ≤ reading) ||
  (s.room limits lane job.request.identity &&
    ((lane = 0 && reservedControl job.request.identity.operation) ||
      (s.runningIn lane).countP (fun r => !reservedControl r.identity.operation) <
        s.ordinaryCap limits lane))

/-- `eligible_indexes`; the job at an index is looked at when the clock reads `readings index`. -/
def eligibleIndexes (readings : Nat → Instant) : List (Nat × String) :=
  ((s.queue lane).zipIdx.filter fun e => s.eligible limits lane e.1 (readings e.2)).map
    fun e => (e.2, e.1.request.identity.project)

/-- Canonical work is queued or running. -/
def canonicalPending : Bool :=
  s.queued.any (fun j => j.request.lane ≠ .advisory) ||
    s.running.rows.any fun r => r.lane ≠ .advisory

/-- `select`. -/
def select (readings : Nat → Instant) : Option (Nat × List String) :=
  let eligible := s.eligibleIndexes limits lane readings
  let eligible :=
    if s.canonicalPending then eligible.filter fun e =>
      (s.queue lane)[e.1]?.any fun j => j.request.lane ≠ .advisory
    else eligible
  ProjectRound.select (s.rounds lane) eligible

end State

/-- The entry of a job in the running map. -/
def Job.entry (job : Job) : Running := ⟨job.request.identity, job.token, job.request.lane⟩

/-- A worker takes a job. -/
def take (s : State) (limits : Limits) (lane : Fin 2) (readings : Nat → Instant) : Option State := do
  let (index, served) ← s.select limits lane readings
  let job ← (s.queue lane)[index]?
  some { s with
    queue := Function.update s.queue lane ((s.queue lane).eraseIdx index)
    running := s.running.upsert job.entry
    rounds := Function.update s.rounds lane served
    busy := s.busy ++ [⟨lane, job, readings index, .selected⟩]
    clock := readings (s.queue lane).length }

/-! ## Workers -/

namespace State

variable (s : State)

def worker (reply : Nat) : Option Worker := s.busy.find? fun w => w.job.reply = reply

def setPhase (reply : Nat) (phase : Phase) : State :=
  { s with busy := s.busy.map fun w => if w.job.reply = reply then { w with phase := phase } else w }

end State

/-- `Instant::now()` before the second look. -/
def start (s : State) (reply : Nat) (reading : Instant) : Option State := do
  let w ← s.worker reply
  match w.phase with
  | .selected => some { s.setPhase reply (.started reading) with clock := reading }
  | _ => none

/-- The second look: the runner is entered unless the job was cancelled or its deadline is past. -/
def enter (s : State) (reply : Nat) : Option State := do
  let w ← s.worker reply
  match w.phase with
  | .started startedAt =>
    if s.isCancelled w.job.token then some (s.setPhase reply (.done startedAt .cancelled))
    else if startedAt ≤ w.job.request.deadline then some (s.setPhase reply (.entered startedAt))
    else some (s.setPhase reply (.done startedAt .timedOut))
  | _ => none

/-- The runner answers. -/
def answer (s : State) (reply : Nat) : Option State := do
  let w ← s.worker reply
  match w.phase with
  | .entered startedAt => some (s.setPhase reply (.done startedAt .ran))
  | _ => none

/-- The runner panics: the executor is quarantined. -/
def panic (s : State) (reply : Nat) : Option State := do
  let w ← s.worker reply
  match w.phase with
  | .entered startedAt =>
    some { (s.cancelAll.setPhase reply (.done startedAt .panicked)) with
      stopping := true
      uncertain := true }
  | _ => none

/-- The slot of a job is released. -/
def release (s : State) (reply : Nat) : Option State := do
  let w ← s.worker reply
  match w.phase with
  | .done startedAt outcome =>
    let completion : Completion := ⟨w.job.request.identity, startedAt, startedAt - w.job.queued,
      outcome.entered, outcome⟩
    some { s.setPhase reply (.released completion) with
      running := ⟨s.running.rows.filter fun r => r.key ≠ w.job.key,
        s.running.nodup.sublist (List.filter_sublist.map _)⟩
      admitted := Function.update s.admitted w.lane (s.admitted w.lane - 1) }
  | _ => none

/-- The completion is sent and the worker looks for the next job. -/
def send (s : State) (reply : Nat) : Option State := do
  let w ← s.worker reply
  match w.phase with
  | .released completion => some { s with
      busy := s.busy.filter fun w => w.job.reply ≠ reply
      sent := s.sent ++ [(reply, completion)] }
  | _ => none

/-- `stop`. -/
def stop (s : State) : State := { s.cancelAll with stopping := true }

/-! ## Steps -/

inductive Action where
  | submit (request : Request) (reading queued : Instant)
  | cancel (token : Token)
  | take (lane : Fin 2) (readings : Nat → Instant)
  | start (reply : Nat) (reading : Instant)
  | enter (reply : Nat)
  | answer (reply : Nat)
  | panic (reply : Nat)
  | release (reply : Nat)
  | send (reply : Nat)
  | stop

/-- One step; a refused submission and a selection that finds nothing change nothing. -/
def step (limits : Limits) (s : State) : Action → Option State
  | .submit request reading queued =>
    match submit s limits request reading queued with
    | .ok s' => some s'
    | .error _ => some s
  | .cancel token => some { s with cancelled := s.cancelled ++ [token] }
  | .take lane readings => some ((take s limits lane readings).getD s)
  | .start reply reading => start s reply reading
  | .enter reply => enter s reply
  | .answer reply => answer s reply
  | .panic reply => panic s reply
  | .release reply => release s reply
  | .send reply => send s reply
  | .stop => some (stop s)

/-- The clock never runs backwards. -/
def Action.onTime (s : State) : Action → Prop
  | .submit _ reading queued => s.clock ≤ reading ∧ reading ≤ queued
  | .take _ readings => Monotone readings ∧ s.clock ≤ readings 0
  | .start _ reading => s.clock ≤ reading
  | _ => True

end Herdr.Executor
