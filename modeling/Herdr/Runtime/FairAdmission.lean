import Mathlib.Data.List.MinMax
import Mathlib.Data.String.Basic
import Mathlib.Order.Compare
import Herdr.Lib.Rotation
import Herdr.Lib.Table

/-!
# The admission cursor

`src/fair_admission.rs`: the bounded history that orders waiting work. The cursor resumes after
the last project it served and, within a project, after the last thread; with too many projects it
drops that history and resumes after the last pair alone.
-/

namespace Herdr.FairAdmission

/-- A project and one of its threads. -/
abbrev Key := String × String

/-- `LIMIT`. -/
def limit : Nat := 128

structure Cursor where
  lastProject : Option String := none
  threads : Table Key Prod.fst := .empty
  lastPair : Option Key := none
  overflow : Bool := false

/-- The last thread that was served of a project. -/
def Cursor.thread (c : Cursor) (project : String) : Option String :=
  (c.threads.find project).map Prod.snd

/-- The order of `compare` while the history is kept. -/
def Cursor.rank (c : Cursor) (key : Key) : (Bool ×ₗ String) ×ₗ (Bool ×ₗ String) :=
  toLex (Rotation.rank c.lastProject key.1, Rotation.rank (c.thread key.1) key.2)

/-- The order of `compare` after an overflow: over pairs. -/
def Cursor.pairRank (c : Cursor) (key : Key) : Bool ×ₗ (String ×ₗ String) :=
  Rotation.rank (c.lastPair.map toLex) (toLex key)

def Cursor.compare (c : Cursor) (a b : Key) : Ordering :=
  if c.overflow then cmp (c.pairRank a) (c.pairRank b) else cmp (c.rank a) (c.rank b)

/-- `accepted`: a project too many drops the history for good. -/
def Cursor.accepted (c : Cursor) (key : Key) : Cursor :=
  let c :=
    if c.overflow = false ∧ c.threads.find key.1 = none ∧ limit ≤ c.threads.rows.length then
      { c with overflow := true, threads := .empty }
    else c
  { c with
    threads := if c.overflow then c.threads else c.threads.upsert key
    lastProject := some key.1
    lastPair := some key }

/-- Work that the control lane keeps a worker for. -/
def reservedControl (operation : String) : Bool :=
  ["canonical-cancel:", "reconcile:", "canonical-observation", "local-observation"].any
    fun start => start.toList.isPrefixOf operation.toList

/-- `ProjectRound::select`: the oldest of the projects that this round has not served, with the
projects served since; a round that has served them all starts again. -/
def ProjectRound.select (served : List String) (eligible : List (Nat × String)) :
    Option (Nat × List String) :=
  if eligible.isEmpty then none
  else
    let served := if eligible.all (fun e => served.contains e.2) then [] else served
    ((eligible.filter fun e => !served.contains e.2).argmin Prod.fst).map
      fun e => (e.1, served ++ [e.2])

end Herdr.FairAdmission
