import Herdr.Lib.GraphSearch
import Herdr.Store.Contracts
import Mathlib.Data.List.Sort

/-!
# Validating contract dependencies

`validate_dependency_graph` of `src/store/contract_binding.rs`. An installation collects the graph
that is reachable from the proposed contract and refuses a cycle: the proposed edges count at its
task, those of the latest installed contract at a contracted task, and those of the queue
elsewhere. The deadline of two seconds is left out.
-/

namespace Herdr

/-- The prerequisites of a contract, in its order. -/
def PreparedContract.predecessors (contract : PreparedContract) : List TaskId :=
  contract.dependencies.map (·.predecessor)

/-- What the validation reads of the store. -/
structure GraphReads where
  /-- `raw_bytes` and `raw_digest` of the task's contract with the greatest revision. -/
  contractRow : TaskId → Option (List UInt8 × String)
  /-- `SELECT predecessor_id FROM task_dependencies`, ordered by the predecessor. -/
  queueRows : TaskId → List TaskId

/-- The graph collected so far, with the bytes and edges that were read for it. -/
structure CollectedGraph where
  graph : Table (TaskId × List TaskId) Prod.fst := .empty
  bytes : Nat := 0
  edges : Nat := 0

namespace GraphReads

variable [Documents] (r : GraphReads) (proposed : PreparedContract)

def maxTasks : Nat := 10000

def maxBytes : Nat := 32 * 1024 * 1024

def maxEdges : Nat := 100000

/-- The prerequisites of one task, and the bytes read so far. -/
def dependencies (bytes : Nat) (task : TaskId) : Except StoreError (List TaskId × Nat) :=
  if task = proposed.taskId then .ok (proposed.predecessors, bytes)
  else match r.contractRow task with
    | some (raw, digest) =>
      if 65536 < raw.length then .error (.limit "contract exceeds 64 KiB")
      else if maxBytes < bytes + raw.length then
        .error (.limit "contract dependency graph exceeds 32 MiB")
      else match PreparedContract.parseVerified raw with
        | .error e => .error (.corrupt e)
        | .ok contract =>
          if contract.digest ≠ digest ∨ contract.taskId ≠ task ∨
              contract.projectStore ≠ proposed.projectStore then
            .error (.corrupt "dependency contract binding mismatch")
          else .ok (contract.predecessors, bytes + raw.length)
    | none =>
      let rows := (r.queueRows task).take 257
      if 256 < rows.length then .error (.limit "contract dependency task exceeds 256 edges")
      else .ok (rows, bytes)

/-- The turn of the collecting loop for a task that is not in the graph. -/
def collectTask (task : TaskId) (collected : CollectedGraph) :
    Except StoreError (List TaskId × CollectedGraph) :=
  match r.dependencies proposed collected.bytes task with
  | .error e => .error e
  | .ok (dependencies, bytes) =>
    if maxEdges < collected.edges + dependencies.length then
      .error (.limit "contract dependency graph exceeds 100000 edges")
    else .ok (dependencies, {
      graph := collected.graph.upsert (task, dependencies)
      bytes := bytes
      edges := collected.edges + dependencies.length })

/-- The collecting loop takes the pending tasks from the front and adds prerequisites at the
back. -/
def collect : Except StoreError CollectedGraph :=
  GraphSearch.explore id maxTasks (.limit "contract dependency graph exceeds 10000 tasks")
    (fun pending dependencies => pending ++ dependencies) (r.collectTask proposed) [] {}
    [proposed.taskId]

/-- The answer of the validation. There is none when `graph[&task]` panics. -/
def validateDependencyGraph : Option (Except StoreError Unit) :=
  match r.collect proposed with
  | .error e => some (.error e)
  | .ok collected =>
    match GraphSearch.depthFirst collected.graph ∅ ∅ [(proposed.taskId, false)] with
    | .acyclic => some (.ok ())
    | .cycle => some (.error (invalid "contract dependency cycle"))
    | .missing => none

/-- What an installation makes of the answer; a panic rolls it back like an error. -/
def refusal : Option StoreError :=
  match r.validateDependencyGraph proposed with
  | some (.ok ()) => none
  | some (.error e) => some e
  | none => some .cancelled

end GraphReads

namespace ContractStore

variable [Documents] (s : ContractStore)

/-- The prerequisites of a task in the queue, in the order of their identifiers. -/
def queuePredecessors (task : TaskId) : List TaskId :=
  (((s.queue.find task).map fun record => record.dependencies.map (·.predecessor)).getD
    []).insertionSort fun a b => a.val ≤ b.val

def graphReads : GraphReads where
  contractRow task := (s.latestContract task).map fun contract => (contract.raw, contract.digest)
  queueRows := s.queuePredecessors

/-- An installation validates against the tables at the start of the call, which it has not changed
when it asks. -/
def validating (env : InstallOutside) : InstallOutside :=
  { env with dependencyGraph := s.graphReads.refusal }

end ContractStore

end Herdr
