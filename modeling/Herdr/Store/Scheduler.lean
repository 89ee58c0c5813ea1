import Mathlib.Data.List.Sort
import Herdr.Store.Basic

/-!
# Scheduler policy and queue

`src/store/scheduler.rs`: the capacity policy, the queue of tasks and the check that the
dependencies of the queued tasks form an acyclic graph.
-/

namespace Herdr

variable (env : Outside)

/-! ## The dependency graph -/

/-- `degree.entry(id).or_default()`. -/
def entry (degree : List (TaskId × Nat)) (id : TaskId) : List (TaskId × Nat) :=
  if degree.any fun n => n.1 = id then degree else degree ++ [(id, 0)]

/-- Nodes with their number of unfinished predecessors, edges from predecessor to follower, and
the number of edges. -/
structure QueueGraph where
  degree : List (TaskId × Nat) := []
  followers : List (TaskId × TaskId) := []
  edges : Nat := 0

/-- One dependency of `record`; `seen` are its earlier predecessors. -/
def QueueGraph.addEdge (tasks : List TaskId) (record : QueueRecord) (seen : List TaskId)
    (g : QueueGraph) (edge : Dependency) : Except StoreError QueueGraph :=
  if 100000 < g.edges + 1 ∨ 256 < record.dependencies.length then
    .error (invalid "dependency inventory exceeds bounds")
  else if edge.predecessor = record.task ∨ edge.predecessor ∉ tasks ∨ edge.predecessor ∈ seen then
    .error (invalid "missing, duplicate or self dependency")
  else .ok {
    degree := (entry g.degree edge.predecessor).map fun n =>
      if n.1 = record.task then (n.1, n.2 + 1) else n
    followers := g.followers ++ [(edge.predecessor, record.task)]
    edges := g.edges + 1 }

def QueueGraph.addEdges (tasks : List TaskId) (record : QueueRecord) :
    List TaskId → QueueGraph → List Dependency → Except StoreError QueueGraph
  | _, g, [] => .ok g
  | seen, g, edge :: rest => do
    let g ← g.addEdge tasks record seen edge
    addEdges tasks record (edge.predecessor :: seen) g rest

def QueueGraph.addRecords (tasks : List TaskId) :
    QueueGraph → List QueueRecord → Except StoreError QueueGraph
  | g, [] => .ok g
  | g, record :: rest => do
    if record.task ∉ tasks then throw (invalid "queued task is missing")
    let g ← addEdges tasks record [] { g with degree := entry g.degree record.task }
      record.dependencies
    addRecords tasks g rest

/-- Finish one node: each edge to a follower takes one off its degree, and a follower that has no
predecessor left becomes ready. -/
def QueueGraph.finish (g : QueueGraph) (id : TaskId) (degree : List (TaskId × Nat)) :
    List (TaskId × Nat) × List TaskId :=
  (g.followers.filter fun e => e.1 = id).foldl (fun acc e =>
    let degree := acc.1.map fun n => if n.1 = e.2 then (n.1, n.2 - 1) else n
    (degree, if degree.any fun n => n.1 = e.2 && n.2 = 0 then acc.2 ++ [e.2] else acc.2))
    (degree, [])

/-- The queue loop: the number of nodes that become ready. Every node is finished at most once,
so one round for each node is enough. -/
def QueueGraph.visit (g : QueueGraph) : Nat → List (TaskId × Nat) → List TaskId → Nat
  | 0, _, _ => 0
  | _, _, [] => 0
  | rounds + 1, degree, id :: ready =>
    let (degree, more) := g.finish id degree
    1 + g.visit rounds degree (ready ++ more)

/-- `graph_ids`. -/
def graphIds (tasks : List TaskId) (queue : List QueueRecord) : Except StoreError Unit := do
  if 10000 < queue.length then throw (invalid "queued task inventory exceeds 10000")
  let g ← QueueGraph.addRecords tasks {} queue
  let ready := (g.degree.filter fun n => n.2 = 0).map Prod.fst
  if g.visit g.degree.length g.degree ready ≠ g.degree.length then
    throw (invalid "dependency cycle")

/-- The identities that `queue_graph` collects: queued tasks and known predecessors. -/
def Store.queueIdentities (s : Store) : List TaskId :=
  s.queue.rows.map (·.task) ++ s.queue.rows.flatMap fun q => q.dependencies.map (·.predecessor)

/-- `queue_graph`: the stored graph is checked before it is changed. -/
def queueGraph : Body (List TaskId × List QueueRecord) := do
  let queue ← .ask (·.queue.rows)
  .require (queue.length ≤ 10000) (invalid "queued task inventory exceeds 10000")
  let queued ← .ask fun s => queue.all fun q => (s.tasks.find q.task).isSome
  .require (queued = true) (invalid "queued task is missing")
  .require ((queue.map (·.dependencies.length)).sum ≤ 100000)
    (invalid "dependency inventory exceeds bounds")
  let known ← .ask fun s => queue.all fun q =>
    q.dependencies.all fun d => (s.tasks.find d.predecessor).isSome
  .require (known = true) (invalid "missing, duplicate or self dependency")
  let identities ← .ask Store.queueIdentities
  .check (graphIds identities queue)
  pure (identities, queue)

/-! ## Queueing -/

/-- Insert or replace the queue entry of a task. -/
def upsertQueue (record : QueueRecord) : Body Unit :=
  .write fun s => match s.queue.insert? record with
    | some t => { s with queue := t }
    | none => { s with queue := s.queue.update record }

/-- The queue entry that a request leaves. A task keeps its place. -/
def QueueRequest.record (request : QueueRequest) (id : TaskId) (previous : Option QueueRecord)
    (now : Int) (head : Nat) : QueueRecord where
  task := id
  priority := request.priority
  enqueuedUnixMs := (previous.map (·.enqueuedUnixMs)).getD now
  enqueueSequence := (previous.map (·.enqueueSequence)).getD (head + 1)
  dependencies := request.dependencies.insertionSort fun a b =>
    a.predecessor.val ≤ b.predecessor.val

/-- The writes of `queue_task`. -/
def enqueue (task : Task) (record : QueueRecord) : Body Nat := do
  let revision ← next task.revision (invalid "task revision exhausted")
  let task := { task with revision := revision, state := .queued }
  updateTask task
  logEvent task.id.val task.revision (.taskChanged task)
  upsertQueue record
  .outside env.subsidiary
  logEvent task.id.val task.revision (.schedulerTaskQueued record)
  .outside env.fault
  head

/-- `queue_task`. Queueing a queued task again with the same request is a read. -/
def queueTask (id : TaskId) (revision expectedHead : Nat) (request : QueueRequest) (now : Int) :
    Body Nat := do
  nowCheck now
  .require (-20 ≤ request.priority ∧ request.priority ≤ 20 ∧ request.dependencies.length ≤ 256)
    (invalid "queue priority/dependency limits exceeded")
  expectHead expectedHead
  let task ← readTask id
  .require (task.revision = revision) .conflict
  let retained ← .ask fun s => s.attempts.rows.any fun a => a.task = id && !a.terminationObserved
  .require (task.activeAttempt = none ∧ task.state ≠ .running ∧ task.state ≠ .succeeded ∧
      task.state ≠ .cancelled ∧ retained = false)
    (invalid "task execution or terminal disposition must be reconciled before queueing")
  let graph ← queueGraph
  let previous ← .ask (·.queue.find id)
  let record := request.record id previous now expectedHead
  if previous.any (fun p => p.priority = request.priority && p.dependencies = record.dependencies) ∧
      task.state = .queued then pure expectedHead
  else
    let known ← .ask fun s => (record.dependencies.map (·.predecessor)).filter fun p =>
      (s.tasks.find p).isSome
    Tx.forEach (fun d : Dependency => .outside (env.replayPredecessor d.predecessor))
      record.dependencies
    .check (graphIds (id :: known ++ graph.1)
      (graph.2.filter (fun q => q.task ≠ id) ++ [record]))
    enqueue env task record

/-! ## Policy -/

/-- `set_scheduler_policy`. -/
def setSchedulerPolicy (expectedHead revision maxActiveWorkers maxAttemptsPerTask : Nat) :
    Body Nat := do
  .require (maxActiveWorkers ≤ 1024 ∧ 1 ≤ maxAttemptsPerTask ∧ maxAttemptsPerTask ≤ 32)
    (invalid "invalid scheduler limits")
  expectHead expectedHead
  let old ← readPolicy
  .require (old.revision = revision) .conflict
  if old.maxActiveWorkers = maxActiveWorkers ∧ old.maxAttemptsPerTask = maxAttemptsPerTask then
    pure expectedHead
  else
    let revision ← next revision (invalid "policy revision exhausted")
    let policy : SchedulerPolicy := ⟨revision, maxActiveWorkers, maxAttemptsPerTask⟩
    integer policy.revision
    .write fun s => { s with policy := policy }
    logEvent "scheduler" policy.revision (.schedulerPolicyChanged policy)
    .outside env.fault
    head

end Herdr
