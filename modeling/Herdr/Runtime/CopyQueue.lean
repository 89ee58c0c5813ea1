import Mathlib.Data.List.Sort
import Herdr.Lib.Extremes
import Herdr.Runtime.Executor

/-!
# The background copy queue

`src/copy_jobs/queue.rs`: offers of background work wait in a bounded inventory until the executor
admits them, either as the single ticket or, with declared resources, as one of several tickets.
Every clock reading and every answer of the executor is an argument; an `unwrap` that fails is
`none`.
-/

namespace Herdr.CopyQueue

open Executor (Identity Instant Request ensure)
open FairAdmission (Cursor Key)

/-- `LIMIT`. -/
def limit : Nat := 128

/-- `REPORT_RESERVE`. -/
def reportReserve : Nat := 16

/-- Instants are counted in nanoseconds. -/
def seconds (n : Nat) : Nat := n * 10 ^ 9

/-- `RETENTION`. -/
def retention : Nat := seconds 180

def starts (start operation : String) : Bool := start.toList.isPrefixOf operation.toList

/-- `failure_delay`. -/
def failureDelay (identity : Identity) : Nat :=
  if starts "canonical-launch:" identity.operation then seconds 1
  else if starts "canonical-worker:" identity.operation then seconds 2
  else seconds 30

def exclusiveRoot (identity : Identity) : Bool :=
  starts "canonical-launch:" identity.operation || starts "canonical-worker:" identity.operation

/-- Advisory tokens of an attempt. -/
def attemptToken (key : Key) : Bool := starts "tokens:attempt:" key.2

/-! ## State -/

/-- A declared footprint. -/
structure Resource where
  resourceClass : String
  identity : String
deriving DecidableEq, Repr

/-- `Resource::new`. -/
def Resource.check (r : Resource) : Except String Unit := do
  ensure (r.resourceClass ∈ ["git", "artifact", "scratch"]) "unknown effect resource"
  ensure (r.identity ≠ "" ∧ r.identity.utf8ByteSize ≤ 4096 ∧ hasControl r.identity = false ∧
    starts "/" r.identity = true) "invalid effect resource"

structure Entry where
  key : Key
  work : Option Request
  resources : List Resource
  notBefore : Instant
  touched : Instant
  last : Nat
  needed : Bool
deriving DecidableEq, Repr

structure Pending where
  key : Key
  identity : Identity
  ticket : Nat
  resources : List Resource
deriving DecidableEq, Repr

structure Queue where
  entries : Table Entry Entry.key
  pending : Option Pending
  pendingSets : Table Pending Pending.key
  sequence : Nat
  cursor : Cursor

def Queue.new : Queue := ⟨.empty, none, .empty, 0, {}⟩

/-- What a ticket's channel holds. -/
inductive Received where
  | empty
  /-- A completion, and whether its output was a success. -/
  | completion (identity : Identity) (result : Except String Bool)
  | disconnected

/-- What the executor answers to a submission. -/
inductive Answer where
  | accepted (ticket : Nat)
  | full
  | refused (error : String)

/-- `completion_of`. -/
def completionOf (receive : Nat → Received) (p : Pending) : Option (Except String Unit) :=
  match receive p.ticket with
  | .empty => none
  | .completion identity result => some do
    ensure (identity = p.identity) "background completion identity mismatch"
    let success ← result
    ensure (success = true) "background worker failed"
  | .disconnected => some (.error "executor completion channel disconnected")

namespace Queue

variable (q : Queue)

def held (key : Key) : Bool :=
  q.pending.any (fun p => p.key = key) || (q.pendingSets.find key).isSome

/-- All tickets. -/
def tickets : List Pending := q.pending.toList ++ q.pendingSets.rows

def setEntry (e : Entry) : Queue := { q with entries := q.entries.upsert e }

end Queue

/-! ## Offers -/

/-- Work that is past its deadline is dropped. -/
def Entry.expire (now : Instant) (e : Entry) : Entry :=
  if e.work.any fun r => r.deadline ≤ now then { e with work := none } else e

theorem Entry.expire_key (now : Instant) (e : Entry) : (e.expire now).key = e.key := by
  unfold Entry.expire
  split <;> rfl

/-- `clear`: a live copy is no longer wanted. -/
def Queue.clear (q : Queue) (project id : String) : Queue :=
  let key : Key := (project, "live-copy:" ++ id)
  if q.held key then q
  else match q.entries.find key with
    | some e => q.setEntry { e with work := none, needed := false }
    | none => q

/-- `prune`. -/
def Queue.prune (q : Queue) (now : Instant) : Queue :=
  { q with
    entries := (q.entries.modify (Entry.expire now) (Entry.expire_key now)).retain fun e =>
      q.held e.key || now < e.touched + retention }

/-- The priority of an eviction. -/
def Entry.priority (now : Instant) (e : Entry) : Bool ×ₗ Bool :=
  toLex (e.work.isNone, decide (now < e.notBefore))

/-- The entry to evict first is the greatest. -/
def evictionOrder (cursor : Cursor) (now : Instant) (a b : Entry) : Ordering :=
  (cmp (attemptToken a.key) (attemptToken b.key)).then
    ((cmp (a.priority now) (b.priority now)).then (cursor.compare a.key b.key))

/-- The clock readings of an offer. -/
structure OfferTimes where
  prune : Instant
  priority : Instant
  entry : Instant

/-- Make room for a new key: `none` when the offer is dropped. -/
def Queue.evict (q : Queue) (key : Key) (now : Instant) : Except String (Option Queue) :=
  if attemptToken key then .ok none
  else match maxBy (evictionOrder q.cursor now) (q.entries.rows.filter fun e => !q.held e.key) with
    | none => .error "copy inventory has no evictable offer"
    | some victim =>
      if attemptToken victim.key = false ∧ victim.priority now = toLex (false, false) ∧
          q.cursor.compare key victim.key ≠ .lt then .ok none
      else .ok (some { q with entries := q.entries.retain fun e => e.key ≠ victim.key })

/-- The entry of a key takes the work. -/
def Queue.refresh (q : Queue) (work : Request) (resources : List Resource) (now : Instant) : Queue :=
  let key := work.identity.key
  let e := (q.entries.find key).getD ⟨key, none, [], now, now, 0, true⟩
  q.setEntry { e with
    work := some work
    resources := resources
    touched := now
    needed := true }

/-- `offer_scoped`. -/
def Queue.offerScoped (q : Queue) (work : Request) (resources : List Resource) (times : OfferTimes) :
    Except String Unit × Queue :=
  match resources.forM Resource.check with
  | .error e => (.error e, q)
  | .ok () =>
    let q := q.prune times.prune
    let key := work.identity.key
    if q.held key then (.ok (), q)
    else if (q.entries.find key).isNone ∧ limit ≤ q.entries.rows.length then
      match q.evict key times.priority with
      | .error e => (.error e, q)
      | .ok none => (.ok (), q)
      | .ok (some q) => (.ok (), q.refresh work resources times.entry)
    else (.ok (), q.refresh work resources times.entry)

/-! ## Completions -/

/-- How long a key waits after a completion. -/
def settleDelay (identity : Identity) (failed : Bool) : Nat :=
  if failed || identity.operation = "notification" ||
      (starts "tokens:" identity.operation && !starts "tokens:attempt:" identity.operation) then
    failureDelay identity
  else if starts "canonical-worker:terminate-" identity.operation ||
      starts "canonical-worker:recover:" identity.operation then seconds 15
  else 0

def failed {α : Type} : Except String α → Bool
  | .ok _ => false
  | .error _ => true

/-- `settle`. -/
def Queue.settle (q : Queue) (p : Pending) (result : Except String Unit) (now : Instant) :
    Queue × List String :=
  let q := match q.entries.find p.key with
    | some e => q.setEntry { e with
        notBefore := now + settleDelay p.identity (failed result)
        touched := now
        needed := failed result }
    | none => q
  (q, match result with
    | .ok _ => []
    | .error e => [p.key.1 ++ " " ++ p.key.2 ++ ": background queue: " ++ e])

/-- A ticket is taken out and settled. -/
def Queue.finish (q : Queue) (key : Key) (result : Except String Unit) (now : Instant) :
    Option (Queue × List String) :=
  if q.pending.any fun p => p.key = key then do
    let p ← q.pending
    some ({ q with pending := none }.settle p result now)
  else do
    let p ← q.pendingSets.find key
    some ({ q with pendingSets := q.pendingSets.retain fun p => p.key ≠ key }.settle p result now)

/-- The tickets that completed, the single one first and the declared ones by key. -/
def Queue.finished (q : Queue) (receive : Nat → Received) : List (Key × Except String Unit) :=
  (q.pending.toList ++ q.pendingSets.rows.insertionSort fun a b => toLex a.key ≤ toLex b.key).filterMap
    fun p => (completionOf receive p).map fun result => (p.key, result)

/-- The loop of `drain`; the clock is read for each key. -/
def Queue.finishAll (q : Queue) (now : Key → Instant) :
    List (Key × Except String Unit) → Option (Queue × List String)
  | [] => some (q, [])
  | (key, result) :: rest => do
    let (q, errors) ← q.finish key result (now key)
    let (q, more) ← q.finishAll now rest
    some (q, errors ++ more)

/-- `drain`. -/
def Queue.drain (q : Queue) (receive : Nat → Received) (prune : Instant) (now : Key → Instant) :
    Option (Queue × List String) :=
  let q := q.prune prune
  q.finishAll now (q.finished receive)

/-! ## Admission -/

/-- One turn of the admission loop: its clock reading, the executor's answer and the clock reading
after a refusal. -/
structure Attempt where
  now : Instant
  answer : Answer
  refusedAt : Instant

/-- What an admission leaves, whether it may go on, and its errors. -/
structure Admission where
  more : Bool
  queue : Queue
  errors : List String

/-- `admit_one`. -/
def Queue.admitOne (q : Queue) (key : Key) (a : Attempt) (declared : Bool) : Option Admission :=
  if 2 ^ 64 ≤ q.sequence + 1 then some ⟨false, q, ["copy admission sequence exhausted"]⟩
  else match q.entries.find key with
    | none => some ⟨false, q, []⟩
    | some entry => match entry.work with
      | none => some ⟨false, q, []⟩
      | some work => match a.answer with
        | .accepted ticket => do
          let next := q.sequence + 1
          let e ← q.entries.find key
          let p : Pending := ⟨key, work.identity, ticket, entry.resources⟩
          let q := { q.setEntry { e with work := none, last := next } with
            sequence := next
            cursor := q.cursor.accepted key }
          some ⟨true, if declared then { q with pendingSets := q.pendingSets.upsert p }
            else { q with pending := some p }, []⟩
        | .full => some ⟨false, q, []⟩
        | .refused error => do
          let e ← q.entries.find key
          some ⟨true, q.setEntry { e with
              work := none
              notBefore := a.refusedAt + failureDelay work.identity },
            [key.1 ++ " " ++ key.2 ++ ": background admission: " ++ error]⟩

/-- The resources of the declared tickets. -/
def Queue.heldResources (q : Queue) : List Resource := q.pendingSets.rows.flatMap (·.resources)

/-- `next_declared`. -/
def Queue.nextDeclared (q : Queue) (allowed : Identity → Bool) (now : Instant) : Option Key :=
  (minBy (fun a b => q.cursor.compare a.key b.key) (q.entries.rows.filter fun e =>
    e.work.any (fun r => e.notBefore ≤ now && allowed r.identity && !exclusiveRoot r.identity) &&
      !e.resources.isEmpty && e.resources.all fun r => !q.heldResources.contains r)).map (·.key)

/-- `next_where`. -/
def Queue.nextWhere (q : Queue) (allowed : Identity → Bool) (now : Instant) : Option Key :=
  (minBy (fun a b => q.cursor.compare a.key b.key) (q.entries.rows.filter fun e =>
    e.work.any (fun r => allowed r.identity) && e.notBefore ≤ now)).map (·.key)

/-- `declared_limit`, from the executor's `outstanding` bound of the transfer lane. -/
def declaredLimit (outstanding : Nat) : Nat := outstanding - reportReserve

/-- `admit_declared`: at most `fuel` turns of its loop. -/
def Queue.admitDeclared (q : Queue) (outstanding : Nat) (allowed : Identity → Bool)
    (attempts : Nat → Attempt) (turn : Nat) : Nat → Option (Queue × List String)
  | 0 => some (q, [])
  | fuel + 1 =>
    if q.pendingSets.rows.length < declaredLimit outstanding then
      match q.nextDeclared allowed (attempts turn).now with
      | none => some (q, [])
      | some key => do
        let a ← q.admitOne key (attempts turn) true
        if a.more then do
          let (q, errors) ← a.queue.admitDeclared outstanding allowed attempts (turn + 1) fuel
          some (q, a.errors ++ errors)
        else some (a.queue, a.errors)
    else some (q, [])

/-- The offers that wait. -/
def Queue.offers (q : Queue) : Nat := q.entries.rows.countP fun e => e.work.isSome

/-- The head of the order has declared resources. -/
def Queue.declaredHead (q : Queue) (key : Key) : Bool :=
  (q.entries.find key).any fun e =>
    !e.resources.isEmpty && e.work.any fun work => !exclusiveRoot work.identity

/-- `admit_matching`. -/
def Queue.admitMatching (q : Queue) (outstanding : Nat) (allowed : Identity → Bool)
    (prune head : Instant) (attempts : Nat → Attempt) : Option (Queue × List String) :=
  let q := q.prune prune
  if q.pending.isSome then some (q, [])
  else if !q.pendingSets.rows.isEmpty then
    q.admitDeclared outstanding allowed attempts 0 (q.offers + 1)
  else match q.nextWhere allowed head with
    | none => some (q, [])
    | some key =>
      if q.declaredHead key then q.admitDeclared outstanding allowed attempts 0 (q.offers + 1)
      else (q.admitOne key (attempts 0) false).map fun a => (a.queue, a.errors)

/-! ## Steps -/

inductive Action where
  | offer (work : Request) (resources : List Resource) (times : OfferTimes)
  | prune (now : Instant)
  | admitMatching (allowed : Identity → Bool) (prune head : Instant) (attempts : Nat → Attempt)
  | drain (receive : Nat → Received) (prune : Instant) (now : Key → Instant)
  | clear (project id : String)

/-- One call; `none` is a panic. -/
def step (outstanding : Nat) (q : Queue) : Action → Option Queue
  | .offer work resources times => some (q.offerScoped work resources times).2
  | .prune now => some (q.prune now)
  | .admitMatching allowed prune head attempts =>
    (q.admitMatching outstanding allowed prune head attempts).map Prod.fst
  | .drain receive prune now => (q.drain receive prune now).map Prod.fst
  | .clear project id => some (q.clear project id)

/-- A list of calls, in order. -/
def run (outstanding : Nat) : Queue → List Action → Option Queue
  | q, [] => some q
  | q, action :: actions => do
    let q ← step outstanding q action
    run outstanding q actions

end Herdr.CopyQueue
