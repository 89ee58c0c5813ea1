import Herdr.Store.Basic

/-!
# Due windows of a schedule

`src/schedule.rs`: the slots of an interval or daily schedule between a cursor and a clock reading.
The timezone library is a parameter: its civil dates are day numbers.
-/

namespace Herdr.Routine

inductive Schedule where
  /-- In seconds. -/
  | every (seconds : Int)
  | daily (hour minute : Int)
deriving DecidableEq, Repr

structure DueWindow where
  firstUnixMs : Int
  lastUnixMs : Int
  slots : Nat
deriving DecidableEq, Repr

inductive ScheduleError where
  | invalid (message : String)
  /-- An instant, a civil date or an integer outside its type. -/
  | range
deriving DecidableEq, Repr

/-- What the timezone library answers. -/
structure Zone where
  /-- `jiff::Timestamp::from_millisecond` accepts the instant. -/
  timestamp : Int → Bool
  minDate : Int
  maxDate : Int
  /-- The civil date of an instant. -/
  dateOf : Int → Int
  dateOf_mem : ∀ t, minDate ≤ dateOf t ∧ dateOf t ≤ maxDate
  /-- The instant of a civil time on a date: gaps shift forward, and a repeated time is the first
  of the two. -/
  instant : Int → Int → Int → Int
  instant_mono : ∀ hour minute, ∀ ⦃d e⦄, d ≤ e → instant hour minute d ≤ instant hour minute e

namespace Zone

variable (zone : Zone)

def yesterday (date : Int) : Except ScheduleError Int :=
  if zone.minDate < date then .ok (date - 1) else .error .range

def tomorrow (date : Int) : Except ScheduleError Int :=
  if date < zone.maxDate then .ok (date + 1) else .error .range

end Zone

/-- Conversion to `i64`. -/
def toI64 (n : Int) : Except ScheduleError Int :=
  if -i64Max - 1 ≤ n ∧ n ≤ i64Max then .ok n else .error .range

/-- Conversion to `u64`. -/
def toU64 (n : Int) : Except ScheduleError Nat :=
  if 0 ≤ n ∧ n < 2 ^ 64 then .ok n.toNat else .error .range

def check (p : Prop) [Decidable p] (e : ScheduleError) : Except ScheduleError Unit :=
  if p then .ok () else .error e

/-- The interval arm of `due_window`, over `i128`. -/
def everyWindow (seconds start after now : Int) : Except ScheduleError (Option DueWindow) := do
  check (0 < seconds) (.invalid "interval must be positive")
  let step := seconds * 1000
  let lower := max after (start - 1) + 1
  let first := start + (lower - start + step - 1).tdiv step * step
  let last := start + (now - start).tdiv step * step
  if last < first then pure none
  else do
    let firstUnixMs ← toI64 first
    let lastUnixMs ← toI64 last
    let slots ← toU64 ((last - first).tdiv step + 1)
    pure (some ⟨firstUnixMs, lastUnixMs, slots⟩)

section Daily

variable (zone : Zone) (at_ : Int → Int)

/-- The first loop: dates before that are still due. -/
def searchBack (lower : Int) : Nat → Int → Except ScheduleError Int
  | 0, date => .ok date
  | n + 1, date => do
    let previous ← zone.yesterday date
    if at_ previous < lower then pure date else searchBack lower n previous

/-- The second loop: dates after, until one is due. -/
def searchForward (lower : Int) : Nat → Int → Except ScheduleError Int
  | 0, date => .ok date
  | n + 1, date =>
    if lower ≤ at_ date then .ok date
    else do
      let next ← zone.tomorrow date
      searchForward lower n next

/-- The third loop: dates before, until one is not in the future. -/
def searchLast (now : Int) : Nat → Int → Except ScheduleError Int
  | 0, date => .ok date
  | n + 1, date =>
    if at_ date ≤ now then .ok date
    else do
      let previous ← zone.yesterday date
      searchLast now n previous

end Daily

/-- The daily arm of `due_window`. -/
def dailyWindow (zone : Zone) (hour minute start after now : Int) :
    Except ScheduleError (Option DueWindow) := do
  check (0 ≤ hour ∧ hour < 24 ∧ 0 ≤ minute ∧ minute < 60) (.invalid "invalid daily time")
  let at_ := zone.instant hour minute
  check (after < i64Max) (.invalid "routine cursor exhausted")
  let lower := max start (after + 1)
  check (zone.timestamp lower = true) .range
  let back ← searchBack zone at_ lower 8 (zone.dateOf lower)
  let firstDate ← searchForward zone at_ lower 8 back
  let lastDate ← searchLast zone at_ now 8 (zone.dateOf now)
  let previous ← zone.yesterday firstDate
  check (lower ≤ at_ firstDate ∧ at_ previous < lower ∧ at_ lastDate ≤ now)
    (.invalid "timezone discontinuity exceeds bounded search")
  if lastDate < firstDate then pure none
  else
    let first := at_ firstDate
    let last := at_ lastDate
    if now < first ∨ last < start ∨ last < first then pure none
    else do
      let days ← toU64 (lastDate - firstDate)
      pure (some ⟨first, last, days + 1⟩)

/-- `due_window`. -/
def dueWindow (zone : Zone) (schedule : Schedule) (start after now : Int) :
    Except ScheduleError (Option DueWindow) := do
  check (0 ≤ start ∧ -1 ≤ after ∧ 0 ≤ now) (.invalid "invalid routine clock")
  check (zone.timestamp start = true) .range
  check (zone.timestamp now = true) .range
  if now < start ∨ now ≤ after then pure none
  else match schedule with
    | .every seconds => everyWindow seconds start after now
    | .daily hour minute => dailyWindow zone hour minute start after now

/-- The windows of a cursor that moves to the last instant of each. -/
def dueWindows (zone : Zone) (schedule : Schedule) (start : Int) :
    Int → List Int → Except ScheduleError (List DueWindow)
  | _, [] => .ok []
  | after, now :: nows => do
    let window ← dueWindow zone schedule start after now
    match window with
    | none => dueWindows zone schedule start after nows
    | some w => do
      let more ← dueWindows zone schedule start w.lastUnixMs nows
      pure (w :: more)

end Herdr.Routine
