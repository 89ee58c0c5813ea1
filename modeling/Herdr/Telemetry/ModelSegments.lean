import Mathlib.Algebra.Order.Ring.Int
import Herdr.Domain.Text
import Herdr.Telemetry.Ledger

/-!
# Model segments

`src/telemetry/accounting/graph.rs`: the buckets of the counted entries of a session. An entry of a
mixed turn and one without a model have a bucket of their own; the others form segments, a new one
whenever the model changes. The nodes of the session graph are not modelled.
-/

namespace Herdr.Accounting

/-- `+` on `i64`. -/
def add64 (a b : Int) : Int := (a + b).bmod (2 ^ 64)

/-- `[input, output, reasoning, total]`. -/
structure Counters where
  input : Int := 0
  output : Int := 0
  reasoning : Int := 0
  total : Int := 0
deriving DecidableEq, Repr

namespace Counters

def add (a b : Counters) : Counters :=
  ⟨add64 a.input b.input, add64 a.output b.output, add64 a.reasoning b.reasoning,
    add64 a.total b.total⟩

def fields : List (Counters → Int) := [input, output, reasoning, total]

end Counters

/-- The counters of a counted, normalized entry. -/
def counters (entry : Entry) : Option Counters :=
  (entry.normalized.filter fun _ => entry.counted).map fun n =>
    ⟨n.input, n.output, n.reasoning, n.total⟩

inductive BucketKind where
  | mixed | model | unallocated
deriving DecidableEq, Repr

@[ext] structure BucketKey where
  session : String
  kind : BucketKind
  segment : Nat
deriving DecidableEq, Repr

/-- A row of `model_segments`. -/
structure Bucket where
  key : BucketKey
  model : Option String
  first : Int
  last : Int
  entries : Int
  counters : Counters
deriving DecidableEq, Repr

/-- The state of the loop: the buckets and the key of the last segment. -/
structure Segments where
  buckets : Table Bucket Bucket.key := .empty
  last : Option BucketKey := none

namespace Segments

variable (mixed : List (String × Int)) (g : Segments) (entry : Entry)

/-- The key of an entry's bucket: the last segment of its session while the model stays. -/
def keyOf : BucketKey :=
  if (entry.session, entry.position) ∈ mixed then ⟨entry.session, .mixed, 0⟩
  else match entry.model with
    | some model =>
      match g.last.filter fun l =>
        l.session = entry.session && (g.buckets.find l).bind (·.model) = some model with
      | some l => l
      | none => ⟨entry.session, .model,
        ((g.last.filter fun l => l.session = entry.session).map (·.segment + 1)).getD 1⟩
    | none => ⟨entry.session, .unallocated, 0⟩

/-- The bucket that an entry opens. -/
def fresh (key : BucketKey) : Bucket where
  key
  model := if key.kind = .model then entry.model else none
  first := entry.position
  last := entry.position
  entries := 0
  counters := {}

/-- One entry of the loop. -/
def add : Segments :=
  match counters entry with
  | none => g
  | some c =>
    let key := g.keyOf mixed entry
    let bucket := (g.buckets.find key).getD (fresh entry key)
    { buckets := g.buckets.upsert { bucket with
        last := entry.position
        entries := add64 bucket.entries 1
        counters := bucket.counters.add c }
      last := if key.kind = .model then some key else g.last }

end Segments

end Herdr.Accounting
