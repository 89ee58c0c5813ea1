import Herdr.Lib.Run
import Herdr.Store.Waits

/-!
# Waits consume the log once

What each body does to the waits, the replayed events and the log, and from it what holds over a
whole run: a wait reads the log once, in order and without a gap, and wakes once.
-/

namespace Herdr.Waits

variable {ω : Type} {db db' : WaitStore ω}

/-! ## The event log -/

/-- The notifications of a wait. -/
def notifications (wait : String) (events : List Event) : Nat :=
  events.countP fun e => e.body.kind = "wait.notified" && e.entity = wait

/-- The log grew by events that notify nobody. -/
structure Quiet (events events' : List Event) : Prop where
  grows : Cursor.Grows Event.sequence events events'
  same : ∀ wait, notifications wait events' = notifications wait events

namespace Quiet

variable {events events' events'' : List Event}

theorem refl (events : List Event) : Quiet events events := ⟨.refl events, fun _ => rfl⟩

theorem trans (h : Quiet events events') (h' : Quiet events' events'') : Quiet events events'' :=
  ⟨h.grows.trans h'.grows, fun wait => (h'.same wait).trans (h.same wait)⟩

theorem one {entity : String} {revision : Nat} {body : EventBody}
    (hbody : body.kind ≠ "wait.notified") :
    Quiet events (events ++ [⟨Cursor.head Event.sequence events + 1, entity, revision, body⟩]) where
  grows := .one (Nat.lt_succ_self _)
  same wait := by simp [notifications, List.countP_append, hbody]

end Quiet

theorem appendOther_quiet (events : List Event) (e : OtherEvent) :
    Quiet events (appendOther events e) := by
  unfold appendOther
  split
  · exact .refl events
  · exact .one ‹_›

theorem foldl_appendOther_quiet (events : List Event) (more : List OtherEvent) :
    Quiet events (more.foldl appendOther events) := by
  induction more generalizing events with
  | nil => exact .refl events
  | cons e more ih => exact (appendOther_quiet events e).trans (ih _)

@[simp] theorem notifications_concat {wait entity : String} {events : List Event}
    {sequence revision : Nat} {body : EventBody} (h : body.kind = "wait.notified") :
    notifications wait (events ++ [⟨sequence, entity, revision, body⟩]) =
      notifications wait events + if entity = wait then 1 else 0 := by
  simp [notifications, List.countP_append, List.countP_cons, h]

/-! ## Registration -/

section Bodies

variable [Plans.Documents] [World ω]

omit [Plans.Documents] [World ω] in
theorem logEvent_ok {entity : String} {body : EventBody} {u : Unit}
    (h : logEvent entity body db = .ok (u, db')) :
    { db with events := db.events ++ [⟨db.head + 1, entity, 1, body⟩] } = db' :=
  Tx.write_ok.mp h

omit [Plans.Documents] [World ω] in
theorem head_logged {entity : String} {body : EventBody} :
    WaitStore.head { db with events := db.events ++ [⟨db.head + 1, entity, 1, body⟩] } =
      db.head + 1 :=
  Cursor.head_concat

omit [Plans.Documents] in
theorem wakeOnEvidence_ok {wait : String} {subject : Subject} {u : Unit}
    (h : wakeOnEvidence wait subject db = .ok (u, db')) :
    ∃ events, Quiet db.events events ∧ { db with events := events } = db' ∧
      ∀ seen, World.currentWaitEvidence db.world db.events subject = .ok (some seen) →
        World.relevantWaitEvent db.world db.events subject seen = .ok true →
        ∃ e ∈ events, e.body.kind = "wait.wake" ∧ e.entity = wait ∧ db.head < e.sequence := by
  simp only [wakeOnEvidence, Tx.bind_ok, Tx.query_ok] at h
  obtain ⟨evidence, _, ⟨hevidence, rfl⟩, h⟩ := h
  cases evidence with
  | none =>
    obtain ⟨-, rfl⟩ := Tx.pure_ok.mp h
    refine ⟨db.events, .refl _, rfl, fun seen hseen => ?_⟩
    rw [hevidence] at hseen
    cases hseen
  | some seen =>
    simp only [Tx.bind_ok, Tx.query_ok] at h
    obtain ⟨relevant, _, ⟨hrelevant, rfl⟩, h⟩ := h
    cases relevant with
    | true =>
      refine ⟨_, .one (by simp [EventBody.kind]), logEvent_ok h, fun _ _ _ => ?_⟩
      exact ⟨_, List.mem_append_right _ (List.mem_singleton.mpr rfl), rfl, rfl, Nat.lt_succ_self _⟩
    | false =>
      obtain ⟨-, rfl⟩ := Tx.pure_ok.mp h
      refine ⟨db.events, .refl _, rfl, fun seen' hseen hrel => ?_⟩
      rw [hevidence] at hseen
      cases hseen
      rw [hrelevant] at hrel
      cases hrel

omit [Plans.Documents] in
theorem insertTrigger_ok {wait : String} {trigger : Option WaitTrigger} {u : Unit}
    (h : insertTrigger wait trigger db = .ok (u, db')) :
    ∃ triggers, { db with triggers := triggers } = db' ∧
      (trigger = none → triggers = db.triggers) ∧
      ∀ x, trigger = some x → db.triggers.insert? ⟨wait, x⟩ = some triggers := by
  cases trigger with
  | none =>
    obtain ⟨-, rfl⟩ := Tx.pure_ok.mp h
    exact ⟨db.triggers, rfl, fun _ => rfl, by simp⟩
  | some trigger =>
    simp only [insertTrigger, Tx.bind_ok, Tx.query_ok, Tx.insert_ok, Option.map_eq_some_iff] at h
    obtain ⟨_, _, ⟨-, rfl⟩, triggers, htriggers, rfl⟩ := h
    exact ⟨triggers, rfl, by simp, fun x hx => by cases hx; exact htriggers⟩

omit [Plans.Documents] [World ω] in
theorem linkRearm_ok {successor : String} {predecessor : Option String} {u : Unit}
    (h : linkRearm successor predecessor db = .ok (u, db')) :
    ∃ rearms, { db with rearms := rearms } = db' ∧
      (∀ p, predecessor = some p → db.rearms.insert? ⟨p, successor⟩ = some rearms) ∧
      (predecessor = none → rearms = db.rearms) := by
  cases predecessor with
  | none =>
    obtain ⟨-, rfl⟩ := Tx.pure_ok.mp h
    exact ⟨db.rearms, rfl, by simp, fun _ => rfl⟩
  | some p =>
    simp only [linkRearm, insertRearm, Tx.insert_ok] at h
    split at h
    · cases h
    · obtain ⟨rearms, hinsert, rfl⟩ := Option.map_eq_some_iff.mp h
      exact ⟨rearms, rfl, fun q hq => by cases hq; exact hinsert, by simp⟩

/-- A wait was added, with its cursor at the event that registered it. -/
structure Subscribed (db db' : WaitStore ω) (row : WaitRow) (predecessor : Option String)
    (trigger : Option WaitTrigger) : Prop where
  fresh : row.replayedThrough = none ∧ row.wakeRequested = false
  waits : db.waits.insert? row = some db'.waits
  rearms : (∀ p, predecessor = some p → db.rearms.insert? ⟨p, row.waitId⟩ = some db'.rearms) ∧
    (predecessor = none → db'.rearms = db.rearms)
  events : Quiet db.events db'.events
  cursor : row.cursorSequence = db.head + 1 ∧ db.head + 1 ≤ db'.head
  replays : db'.replays = db.replays
  inbox : db'.inbox = db.inbox
  world : db'.world = db.world
  triggers : (trigger = none → db'.triggers = db.triggers) ∧
    ∀ x, trigger = some x → db.triggers.insert? ⟨row.waitId, x⟩ = some db'.triggers
  /-- Evidence that is relevant now becomes a wake. -/
  wakes : ∃ events, Quiet db.events events ∧
    ∀ seen, World.currentWaitEvidence db.world events (row.subject trigger) = .ok (some seen) →
      World.relevantWaitEvent db.world events (row.subject trigger) seen = .ok true →
      ∃ e ∈ db'.events, e.body.kind = "wait.wake" ∧ e.entity = row.waitId ∧
        row.cursorSequence < e.sequence

omit [Plans.Documents] in
theorem subscribe_ok {wait : String} {subject : Subject} {planRevision : Nat}
    {deadline : Option Int} {predecessor : Option String} {now : Int} {r : WaitRegistration}
    (h : subscribe wait subject planRevision deadline predecessor now db = .ok (r, db')) :
    ∃ row, Subscribed db db' row predecessor subject.trigger ∧ row.waitId = r.waitId ∧
      row.cursorSequence = r.cursorSequence ∧ row.condition = subject.condition := by
  simp only [subscribe, Tx.bind_ok, Tx.ask_ok, Tx.require_ok, Tx.pure_ok, insertWait,
    Tx.insert_ok, Option.map_eq_some_iff] at h
  obtain ⟨_, _, hlog, cursor, _, ⟨rfl, rfl⟩, _, _, ⟨-, rfl⟩, _, _, ⟨-, rfl⟩, _, _,
    ⟨waits, hwaits, rfl⟩, _, _, hlink, _, _, htrigger, _, _, hwake, rfl, rfl⟩ := h
  obtain rfl := logEvent_ok hlog
  obtain ⟨rearms, rfl, hrearm, hnone⟩ := linkRearm_ok hlink
  obtain ⟨triggers, rfl, htriggers⟩ := insertTrigger_ok htrigger
  obtain ⟨events, hquiet, rfl, hwakes⟩ := wakeOnEvidence_ok hwake
  -- the cursor is the head right after the registration event
  refine ⟨_, ⟨⟨rfl, rfl⟩, hwaits, ⟨hrearm, hnone⟩, .trans (.one ?_) hquiet,
    ⟨head_logged, ?_⟩, rfl, rfl, rfl, htriggers, ⟨_, .one ?_, hwakes⟩⟩, rfl, rfl, rfl⟩
  · cases predecessor <;> simp [EventBody.kind]
  · have hle := hquiet.grows.head_le
    rw [Cursor.head_concat] at hle
    exact hle
  · cases predecessor <;> simp [EventBody.kind]

omit [Plans.Documents] [World ω] in
theorem loadTrigger_ok {wait : String} {trigger : Option WaitTrigger}
    (h : loadTrigger wait db = .ok (trigger, db')) :
    trigger = (db.triggers.find wait).map (·.trigger) ∧ db = db' := by
  obtain ⟨hload, rfl⟩ := Tx.query_ok.mp h
  refine ⟨?_, rfl⟩
  split at hload
  · next hnone =>
    cases hload
    rw [hnone]
    rfl
  · next row hrow =>
    rw [hrow]
    cases hv : row.trigger.validate row.trigger.condition.text with
    | error e =>
      rw [hv] at hload
      cases hload
    | ok u =>
      rw [hv] at hload
      cases hload
      rfl

omit [Plans.Documents] [World ω] in
/-- A trigger that a condition accepts is for that condition. -/
theorem validateTrigger_condition {x : WaitTrigger} {text : String} {condition : WaitCondition}
    {u : Unit} (h : validateTrigger text (some x) = .ok u)
    (hcond : waitCondition text = some condition) : condition = x.condition := by
  have htext : text = x.condition.text := by
    by_contra hne
    cases x with
    | approvalDecision approvalId taskRevision =>
      have hne : text ≠ "user_decision" := hne
      simp [validateTrigger, WaitTrigger.validate, hne, Except.mapError] at h
    | attemptCapacityReleased attemptId afterRevision =>
      have hne : text ≠ "resource_availability" := hne
      simp [validateTrigger, WaitTrigger.validate, hne, Except.mapError] at h
    | ownedRuntimeRecovered bindingId bindingRevision ownershipRevision =>
      have hne : text ≠ "adapter_recovery" := hne
      simp [validateTrigger, WaitTrigger.validate, hne, Except.mapError] at h
  subst htext
  cases x <;> exact (Option.some.inj hcond).symm

/-- A registration names a wait of the store and its cursor. -/
def Names (db : WaitStore ω) (r : WaitRegistration) : Prop :=
  ∃ row, db.waits.find r.waitId = some row ∧ row.cursorSequence = r.cursorSequence

omit [Plans.Documents] in
theorem Subscribed.names {row : WaitRow} {predecessor : Option String}
    {trigger : Option WaitTrigger} {r : WaitRegistration}
    (h : Subscribed db db' row predecessor trigger) (hid : row.waitId = r.waitId)
    (hcursor : row.cursorSequence = r.cursorSequence) : Names db' r :=
  ⟨row, by rw [Table.find_insert? h.waits, if_pos hid], hcursor⟩

theorem registerWait_ok {task : TaskId} {attempt : Option AttemptId} {condition : String}
    {deadline : Option Int} {trigger : Option WaitTrigger} {now : Int} {fault : Option StoreError}
    {r : WaitRegistration}
    (h : registerWait task attempt condition deadline trigger now fault db = .ok (r, db')) :
    Names db' r ∧ (db = db' ∨ ∃ row, Subscribed db db' row none trigger ∧
      ∀ x, trigger = some x → row.condition = x.condition) := by
  simp only [registerWait, Tx.bind_ok, Tx.outside_ok, Tx.check_ok, Tx.require_ok, Tx.find_ok,
    Tx.ask_ok] at h
  obtain ⟨_, _, ⟨-, rfl⟩, _, _, ⟨hvalid, rfl⟩, _, _, ⟨-, rfl⟩, _, _, ⟨-, rfl⟩, cond, _,
    ⟨hcond, rfl⟩, _, _, ⟨-, rfl⟩, _, _, ⟨rfl, rfl⟩, _, _, ⟨-, rfl⟩, _, _, ⟨-, rfl⟩, existing, _,
    ⟨hrow, rfl⟩, h⟩ := h
  cases existing with
  | some row =>
    obtain ⟨rfl, rfl⟩ := Tx.pure_ok.mp h
    exact ⟨⟨row, hrow, rfl⟩, .inl rfl⟩
  | none =>
    obtain ⟨row, hsub, hid, hcursor, hcondition⟩ := subscribe_ok h
    refine ⟨hsub.names hid hcursor, .inr ⟨row, hsub, fun x hx => ?_⟩⟩
    subst hx
    rw [hcondition]
    exact validateTrigger_condition hvalid hcond

/-- A wait that is rearmed has the successor that the registration names. -/
theorem rearmWait_ok {previous : String} {deadline : Option Int} {now : Int}
    {fault : Option StoreError} {r : WaitRegistration}
    (h : rearmWait previous deadline now fault db = .ok (r, db')) :
    Names db' r ∧ db'.rearms.find previous = some ⟨previous, r.waitId⟩ ∧
      (db = db' ∨ ∃ parent row, db.waits.find previous = some parent ∧
        row.condition = parent.condition ∧ Subscribed db db' row (some previous)
          ((db.triggers.find previous).map (·.trigger))) := by
  simp only [rearmWait, Tx.bind_ok, Tx.outside_ok, Tx.require_ok, Tx.find_ok, Tx.ask_ok] at h
  obtain ⟨_, _, ⟨-, rfl⟩, _, _, ⟨-, rfl⟩, parent, _, ⟨hparent, rfl⟩, _, _, ⟨rfl, rfl⟩, _, _,
    ⟨-, rfl⟩, _, _, ⟨-, rfl⟩, trigger, _, hload, existing, _, ⟨hexisting, rfl⟩, h⟩ := h
  obtain ⟨rfl, rfl⟩ := loadTrigger_ok hload
  cases existing with
  | some successor =>
    simp only [Tx.bind_ok, Tx.require_ok, Tx.pure_ok] at h
    obtain ⟨_, _, ⟨hid, rfl⟩, rfl, rfl⟩ := h
    obtain ⟨link, hlink, hfind⟩ := Option.bind_eq_some_iff.mp hexisting
    have hsucc : link.successor = rearmId previous deadline := by
      rw [← hid, Table.find_key hfind]
    have hprev : link.predecessor = previous := Table.find_key hlink
    refine ⟨⟨successor, ?_, rfl⟩, ?_, .inl rfl⟩
    · rw [← hsucc]
      exact hfind
    · rw [hlink, ← hsucc, ← hprev]
  | none =>
    obtain ⟨row, hsub, hid, hcursor, hcondition⟩ := subscribe_ok h
    refine ⟨hsub.names hid hcursor, ?_, .inr ⟨parent, row, hparent, hcondition, hsub⟩⟩
    rw [Table.find_insert? (hsub.rearms.1 previous rfl), if_pos rfl, hid]

/-! ## Replay -/

omit [Plans.Documents] in
/-- The loop records every event it is given, and without a wake each of them was irrelevant. -/
theorem applyEvents_ok {wait : String} {subject : Subject} {events : List Seen}
    {wake wake' : Option Nat} (h : applyEvents wait subject events wake db = .ok (wake', db')) :
    ∃ replays rows, { db with replays := replays } = db' ∧
      replays.rows = db.replays.rows ++ rows ∧ (∀ r ∈ rows, r.waitId = wait) ∧
      rows.map (·.eventSequence) = events.map (·.sequence) ∧
      (wake' = none → wake = none ∧ ∀ e ∈ events, ¬(e.kind = "wait.wake" ∧ e.entity = wait) ∧
        World.relevantWaitEvent db.world db.events subject e = .ok false) := by
  induction events generalizing db wake with
  | nil =>
    obtain ⟨rfl, rfl⟩ := Tx.pure_ok.mp h
    exact ⟨db.replays, [], rfl, by simp, by simp, rfl, fun hw => ⟨hw, by simp⟩⟩
  | cons e events ih =>
    simp only [applyEvents, insertReplay, Tx.bind_ok, Tx.insert_ok, Option.map_eq_some_iff] at h
    obtain ⟨woke, t, hwoke, _, _, ⟨replays, hreplays, rfl⟩, h⟩ := h
    have hdb : db = t ∧ (woke = false → ¬(e.kind = "wait.wake" ∧ e.entity = wait) ∧
        (wake.isSome = false →
          World.relevantWaitEvent db.world db.events subject e = .ok false)) := by
      unfold isWake at hwoke
      split at hwoke
      · obtain ⟨rfl, rfl⟩ := Tx.pure_ok.mp hwoke
        exact ⟨rfl, by simp⟩
      · split at hwoke
        · obtain ⟨rfl, rfl⟩ := Tx.pure_ok.mp hwoke
          exact ⟨rfl, fun _ => ⟨‹_›, by simp [*]⟩⟩
        · obtain ⟨hrel, rfl⟩ := Tx.query_ok.mp hwoke
          exact ⟨rfl, fun hfalse => ⟨‹_›, fun _ => by rw [hrel, hfalse]⟩⟩
    obtain ⟨rfl, hirrelevant⟩ := hdb
    obtain ⟨replays', rows, rfl, hrows, hids, hseqs, hnone⟩ := ih h
    refine ⟨replays', ⟨wait, e.sequence, e.kind, woke⟩ :: rows, rfl, ?_, ?_, by simp [hseqs], ?_⟩
    · rw [hrows, (Table.insert?_eq_some hreplays).2, List.append_assoc]
      rfl
    · intro r hr
      rcases List.mem_cons.mp hr with rfl | hr
      · rfl
      · exact hids r hr
    · intro hw
      obtain ⟨hor, hrest⟩ := hnone hw
      obtain ⟨hwake, hwoke⟩ := Option.or_eq_none_iff.mp hor
      have hfalse : woke = false := by
        cases woke with
        | false => rfl
        | true => cases hwoke
      obtain ⟨haddr, hrel⟩ := hirrelevant hfalse
      refine ⟨hwake, fun e' he' => ?_⟩
      rcases List.mem_cons.mp he' with rfl | he'
      · exact ⟨haddr, hrel (by simp [hwake])⟩
      · exact hrest e' he'

omit [World ω] in
theorem insertWaitNotice_ok {row : WaitRow} {through : Nat} {now : Int} {wake : Option Nat}
    {u : Unit} (h : insertWaitNotice row through now wake db = .ok (u, db')) :
    ∃ events inbox, { db with events := events, inbox := inbox } = db' ∧
      Cursor.Grows Event.sequence db.events events ∧
      ∀ wait, notifications wait events = notifications wait db.events +
        if wake.isSome ∧ row.waitId = wait then 1 else 0 := by
  cases wake with
  | none =>
    obtain ⟨-, rfl⟩ := Tx.pure_ok.mp h
    exact ⟨db.events, db.inbox, rfl, .refl _, by simp⟩
  | some sequence =>
    simp only [insertWaitNotice, insertInbox, Tx.bind_ok, Tx.find_ok, Tx.check_ok, Tx.insert_ok,
      Option.map_eq_some_iff] at h
    obtain ⟨_, _, ⟨-, rfl⟩, _, _, ⟨-, rfl⟩, _, _, ⟨inbox, -, rfl⟩, h⟩ := h
    refine ⟨_, inbox, logEvent_ok h, .one (Nat.lt_succ_self _), fun wait => ?_⟩
    rw [notifications_concat rfl]
    simp

omit [Plans.Documents] [World ω] in
theorem setReplayed_ok {row current : WaitRow} {through : Nat} {wake : Bool} {u : Unit}
    (h : setReplayed row through wake db = .ok (u, db'))
    (hrow : db.waits.find row.waitId = some current) :
    current.wakeRequested = false ∧ current.after ≤ through ∧
      { db with waits := db.waits.update { current with
          state := .replayed, replayedThrough := some through, wakeRequested := wake } } = db' := by
  simp only [setReplayed, Tx.bind_ok, Tx.find_ok, Tx.require_ok, Tx.write_ok] at h
  obtain ⟨current', _, ⟨hcurrent, rfl⟩, _, _, ⟨hwake, rfl⟩, _, _, ⟨hafter, rfl⟩, rfl⟩ := h
  obtain rfl : current = current' := Option.some.inj (hrow.symm.trans hcurrent)
  exact ⟨hwake, hafter, rfl⟩

/-- The next page of a wait. -/
def WaitStore.nextPage (db : WaitStore ω) (row : WaitRow) : List Event :=
  Cursor.page Event.sequence replayPage row.after db.events

/-- A pending wait was replayed up to `through`. -/
structure Replayed (db db' : WaitStore ω) (row : WaitRow) (now : Int) (through : Nat)
    (wake : Bool) : Prop where
  found : db.waits.find row.waitId = some row
  pending : row.wakeRequested = false
  waits : db'.waits = db.waits.update { row with
    state := .replayed, replayedThrough := some through, wakeRequested := wake }
  advances : row.after ≤ through
  expired : row.expired now = true → wake = true ∧ through ≤ db'.head
  page : row.expired now = false → through = Cursor.advance Event.sequence row.after (db.nextPage row)
  records : ∃ rows, db'.replays.rows = db.replays.rows ++ rows ∧
    (∀ r ∈ rows, r.waitId = row.waitId) ∧
    (row.expired now = false → rows.map (·.eventSequence) = (db.nextPage row).map (·.sequence))
  grows : Cursor.Grows Event.sequence db.events db'.events
  notified : ∀ wait, notifications wait db'.events = notifications wait db.events +
    if wake = true ∧ row.waitId = wait then 1 else 0
  silent : wake = false → ∀ e ∈ db.nextPage row,
    ¬(e.body.kind = "wait.wake" ∧ e.entity = row.waitId) ∧
    World.relevantWaitEvent db.world db.events
      (row.subject ((db.triggers.find row.waitId).map (·.trigger))) e.seen = .ok false
  rearms : db'.rearms = db.rearms
  triggers : db'.triggers = db.triggers
  world : db'.world = db.world

omit [Plans.Documents] [World ω] in
theorem advance_seen {lo : Nat} {events : List Event} :
    Cursor.advance Seen.sequence lo (events.map Event.seen) =
      Cursor.advance Event.sequence lo events := by
  simp [Cursor.advance, List.getLast?_map, Option.map_map, Function.comp_def, Event.seen]

/-- The page of a wait whose deadline has not come. -/
theorem replayPending_ok {row : WaitRow} {now : Int} {fault : Option StoreError} {r : WaitReplay}
    (h : replayPending row now fault db = .ok (r, db'))
    (hrow : db.waits.find row.waitId = some row) :
    Replayed db db' row now r.replayedThrough r.wakeRequested ∧ r.waitId = row.waitId := by
  simp only [replayPending, Tx.bind_ok, Tx.outside_ok, Tx.pure_ok] at h
  obtain ⟨_, _, ⟨-, rfl⟩, trigger, t, htrigger, events, t₁, hevents, wake, t₂, hwake, _, t₃,
    hnotice, _, t₄, hset, rfl, rfl⟩ := h
  obtain ⟨rfl, rfl⟩ := loadTrigger_ok htrigger
  obtain ⟨replays, rows, rfl, hrows, hids, hseqs, hnone⟩ := applyEvents_ok hwake
  obtain ⟨evs, inbox, rfl, hgrows, hcount⟩ := insertWaitNotice_ok hnotice
  unfold replayEvents at hevents
  split at hevents
  · next hexp =>
    simp only [Tx.bind_ok, Tx.ask_ok, Tx.require_ok, Tx.pure_ok] at hevents
    obtain ⟨_, _, hlog, _, _, ⟨rfl, rfl⟩, _, _, ⟨-, rfl⟩, rfl, rfl⟩ := hevents
    obtain rfl := logEvent_ok hlog
    obtain ⟨hpending, hadv, rfl⟩ := setReplayed_ok hset hrow
    have hquiet : Quiet db.events (db.events ++ [⟨db.head + 1, row.waitId, 1,
        .wake (.deadlineExpired row.deadlineUnixMs)⟩]) := .one (by simp [EventBody.kind])
    -- the wake that the deadline wrote addresses this wait
    have hwoke : wake.isSome = true := by
      cases wake with
      | some sequence => rfl
      | none => exact absurd ⟨rfl, rfl⟩ ((hnone rfl).2 _ (List.mem_singleton.mpr rfl)).1
    refine ⟨⟨hrow, hpending, rfl, hadv, fun _ => ⟨hwoke, hgrows.head_le⟩, ?_,
      ⟨rows, hrows, hids, ?_⟩, hquiet.grows.trans hgrows, fun wait => ?_, ?_, rfl, rfl, rfl⟩, rfl⟩
    · simp [hexp]
    · simp [hexp]
    · rw [hcount, hquiet.same]
    · intro hsilent
      rw [hwoke] at hsilent
      cases hsilent
  · next hexp =>
    obtain ⟨rfl, rfl⟩ := Tx.ask_ok.mp hevents
    obtain ⟨hpending, hadv, rfl⟩ := setReplayed_ok hset hrow
    refine ⟨⟨hrow, hpending, rfl, hadv, fun hexp' => absurd hexp' hexp, fun _ => advance_seen,
      ⟨rows, hrows, hids, fun _ => ?_⟩, hgrows, hcount, fun hsilent e he => ?_, rfl, rfl, rfl⟩, rfl⟩
    · rw [hseqs, List.map_map]
      rfl
    · have hwake : wake = none := by simpa using hsilent
      exact (hnone hwake).2 e.seen (List.mem_map_of_mem he)

theorem replayWait_ok {wait : String} {now : Int} {fault : Option StoreError} {r : WaitReplay}
    (h : replayWait wait now fault db = .ok (r, db')) :
    ∃ row, db.waits.find wait = some row ∧ row.waitId = wait ∧
      ((db = db' ∧ row.wakeRequested = true ∧ row.replayedThrough = some r.replayedThrough ∧
          r.wakeRequested = true) ∨
        Replayed db db' row now r.replayedThrough r.wakeRequested) := by
  simp only [replayWait, Tx.bind_ok, Tx.require_ok, Tx.find_ok, Tx.ite_ok] at h
  obtain ⟨_, _, ⟨-, rfl⟩, row, _, ⟨hrow, rfl⟩, ⟨hwoken, h⟩ | ⟨-, h⟩⟩ := h
  · simp only [replayWoken, Tx.bind_ok, Tx.ask_ok, Tx.find_ok, Tx.pure_ok] at h
    obtain ⟨_, _, ⟨-, rfl⟩, through, _, ⟨hthrough, rfl⟩, rfl, rfl⟩ := h
    exact ⟨row, hrow, Table.find_key hrow, .inl ⟨rfl, hwoken, hthrough, rfl⟩⟩
  · have hid := Table.find_key hrow
    rw [← hid] at hrow
    exact ⟨row, hid ▸ hrow, hid, .inr (replayPending_ok h hrow).1⟩

/-! ## Calls -/

/-- What a call does to the store. -/
inductive Effect (db db' : WaitStore ω) : Call ω → Prop where
  | unchanged (c : Call ω) (h : db = db') : Effect db db' c
  | subscribed {c : Call ω} {row : WaitRow} {predecessor : Option String}
      {trigger : Option WaitTrigger} (hc : ∀ wait now fault, c ≠ .replay wait now fault)
      (h : Subscribed db db' row predecessor trigger)
      (htrigger : ∀ x, trigger = some x → row.condition = x.condition ∨
        ∃ tr parent, tr ∈ db.triggers.rows ∧ tr.trigger = x ∧
          db.waits.find tr.waitId = some parent ∧ row.condition = parent.condition) :
      Effect db db' c
  | replayed {row : WaitRow} {now : Int} {fault : Option StoreError} {through : Nat} {wake : Bool}
      (h : Replayed db db' row now through wake) : Effect db db' (.replay row.waitId now fault)
  | elsewhere (change : Elsewhere ω) (h : change.apply db = db') :
      Effect db db' (.elsewhere change)

omit [Plans.Documents] in
theorem answer_effect {α : Type} {wrap : α → Answer} {body : WaitTx ω α} {c : Call ω}
    (h : ∀ {a db'}, body db = .ok (a, db') → Effect db db' c) :
    Effect db (answer wrap body db).2 c :=
  Tx.commit_preserves (R := fun s t => Effect s t c) (.unchanged c rfl) h

omit [Plans.Documents] [World ω] in
theorem answer_ok {α : Type} {wrap : α → Answer} {body : WaitTx ω α} {a : Answer}
    (h : (answer wrap body db).1 = .ok a) :
    ∃ x, body db = .ok (x, (answer wrap body db).2) ∧ wrap x = a := by
  cases hcommit : (Tx.commit body db).1 with
  | error e => simp [answer, hcommit, Except.map] at h
  | ok x => exact ⟨x, Tx.commit_ok hcommit, by simpa [answer, hcommit, Except.map] using h⟩

theorem exec_effect (c : Call ω) (db : WaitStore ω) : Effect db (exec c db).2 c := by
  cases c with
  | register task attempt condition deadline trigger now fault =>
    refine answer_effect fun h => ?_
    obtain ⟨-, rfl | ⟨row, hsub, hcond⟩⟩ := registerWait_ok h
    · exact .unchanged _ rfl
    · exact .subscribed (by simp) hsub fun x hx => .inl (hcond x hx)
  | replay wait now fault =>
    refine answer_effect fun h => ?_
    obtain ⟨row, -, rfl, ⟨rfl, -⟩ | hreplayed⟩ := replayWait_ok h
    · exact .unchanged _ rfl
    · exact .replayed hreplayed
  | rearm previous deadline now fault =>
    refine answer_effect fun h => ?_
    obtain ⟨-, -, rfl | ⟨parent, row, hparent, hcond, hsub⟩⟩ := rearmWait_ok h
    · exact .unchanged _ rfl
    · refine .subscribed (by simp) hsub fun x hx => .inr ?_
      obtain ⟨tr, htr, rfl⟩ := Option.map_eq_some_iff.mp hx
      refine ⟨tr, parent, Table.mem_of_find htr, rfl, ?_, hcond⟩
      rw [Table.find_key htr]
      exact hparent
  | elsewhere change => exact .elsewhere change rfl

/-- A call that answers with a registration names a wait, and a rearm its successor. -/
theorem exec_registration {c : Call ω} {r : WaitRegistration}
    (h : (exec c db).1 = .ok (.registration r)) :
    Names (exec c db).2 r ∧ ∀ previous deadline now fault, c = .rearm previous deadline now fault →
      (exec c db).2.rearms.find previous = some ⟨previous, r.waitId⟩ := by
  cases c with
  | register task attempt condition deadline trigger now fault =>
    obtain ⟨r', hbody, hr⟩ := answer_ok h
    cases hr
    exact ⟨(registerWait_ok hbody).1, by simp⟩
  | replay wait now fault =>
    obtain ⟨r', -, hr⟩ := answer_ok h
    cases hr
  | rearm previous deadline now fault =>
    obtain ⟨r', hbody, hr⟩ := answer_ok h
    cases hr
    obtain ⟨hnames, hlink, -⟩ := rearmWait_ok hbody
    refine ⟨hnames, ?_⟩
    rintro _ _ _ _ ⟨⟩
    exact hlink
  | elsewhere change => cases h

end Bodies

/-! ## What a call keeps -/

/-- A wait keeps its cursor, never goes back and never loses its wake. -/
structure WaitRow.Continues (row row' : WaitRow) : Prop where
  cursor : row'.cursorSequence = row.cursorSequence
  through : ∀ n, row.replayedThrough = some n → ∃ m, row'.replayedThrough = some m ∧ n ≤ m
  wake : row.wakeRequested = true → row'.wakeRequested = true

namespace WaitRow.Continues

variable {row row' row'' : WaitRow}

theorem refl (row : WaitRow) : row.Continues row :=
  ⟨rfl, fun n h => ⟨n, h, Nat.le_refl n⟩, id⟩

theorem trans (h : row.Continues row') (h' : row'.Continues row'') : row.Continues row'' := by
  refine ⟨h'.cursor.trans h.cursor, fun n hn => ?_, fun hw => h'.wake (h.wake hw)⟩
  obtain ⟨m, hm, hle⟩ := h.through n hn
  obtain ⟨k, hk, hle'⟩ := h'.through m hm
  exact ⟨k, hk, hle.trans hle'⟩

end WaitRow.Continues

/-- Waits and their successors stay. -/
structure Keeps (db db' : WaitStore ω) : Prop where
  waits : ∀ wait row, db.waits.find wait = some row →
    ∃ row', db'.waits.find wait = some row' ∧ row.Continues row'
  rearms : db.rearms.Extends db'.rearms

namespace Keeps

variable {db'' : WaitStore ω}

theorem refl (db : WaitStore ω) : Keeps db db :=
  ⟨fun _ row h => ⟨row, h, .refl row⟩, .refl _⟩

theorem trans (h : Keeps db db') (h' : Keeps db' db'') : Keeps db db'' := by
  refine ⟨fun wait row hrow => ?_, h.rearms.trans h'.rearms⟩
  obtain ⟨row', hrow', hcont⟩ := h.waits wait row hrow
  obtain ⟨row'', hrow'', hcont'⟩ := h'.waits wait row' hrow'
  exact ⟨row'', hrow'', hcont.trans hcont'⟩

end Keeps

section Calls

variable [Plans.Documents] [World ω]

omit [Plans.Documents] in
theorem Subscribed.keeps {row : WaitRow} {predecessor : Option String}
    {trigger : Option WaitTrigger} (h : Subscribed db db' row predecessor trigger) : Keeps db db' where
  waits _ row' hrow := ⟨row', Table.find_insert?_of_some h.waits hrow, .refl row'⟩
  rearms := by
    cases predecessor with
    | none =>
      rw [h.rearms.2 rfl]
      exact .refl _
    | some p => exact .insert? (h.rearms.1 p rfl)

omit [Plans.Documents] in
theorem Replayed.keeps {row : WaitRow} {now : Int} {through : Nat} {wake : Bool}
    (h : Replayed db db' row now through wake) : Keeps db db' where
  waits wait row' hrow := by
    rw [h.waits, Table.find_update]
    by_cases hid : row.waitId = wait
    · subst hid
      obtain rfl : row = row' := Option.some.inj (h.found.symm.trans hrow)
      rw [if_pos rfl, hrow]
      refine ⟨_, rfl, rfl, fun n hn => ⟨through, rfl, ?_⟩, fun hw => ?_⟩
      · have hadv := h.advances
        rw [WaitRow.after, hn] at hadv
        exact hadv
      · rw [h.pending] at hw
        cases hw
    · rw [if_neg hid]
      exact ⟨row', hrow, .refl row'⟩
  rearms := by
    rw [h.rearms]
    exact .refl _

theorem exec_keeps (c : Call ω) (db : WaitStore ω) : Keeps db (exec c db).2 := by
  cases exec_effect c db with
  | unchanged _ h => rw [← h]; exact .refl db
  | subscribed _ h _ => exact h.keeps
  | replayed h => exact h.keeps
  | elsewhere change h => rw [← h]; exact ⟨fun _ row hrow => ⟨row, hrow, .refl row⟩, .refl _⟩

end Calls

/-! ## What holds of every store -/

def WaitStore.woken (db : WaitStore ω) (wait : String) : Bool :=
  (db.waits.find wait).any (·.wakeRequested)

/-- The log is ordered, every wait stands inside it, and exactly the woken waits were notified. -/
structure Sound (db : WaitStore ω) : Prop where
  ordered : Cursor.Ordered Event.sequence db.events
  inside : ∀ wait row, db.waits.find wait = some row →
    row.cursorSequence ≤ row.after ∧ row.after ≤ db.head
  through : ∀ wait row, db.waits.find wait = some row → row.wakeRequested = true →
    row.replayedThrough.isSome
  notified : ∀ wait, notifications wait db.events = if db.woken wait then 1 else 0

theorem Sound.created (world : ω) : Sound (.created world) where
  ordered := .nil
  inside _ _ h := by simp [WaitStore.created] at h
  through _ _ h := by simp [WaitStore.created] at h
  notified wait := by simp [notifications, WaitStore.woken, WaitStore.created]

/-- A log that grew quietly under waits that did not change. -/
theorem Sound.quiet (h : Sound db) (hquiet : Quiet db.events db'.events)
    (hwaits : db'.waits = db.waits) : Sound db' where
  ordered := hquiet.grows.ordered h.ordered
  inside wait row hrow := by
    rw [hwaits] at hrow
    have hin := h.inside wait row hrow
    exact ⟨hin.1, hin.2.trans hquiet.grows.head_le⟩
  through wait row hrow := h.through wait row (hwaits ▸ hrow)
  notified wait := by
    rw [hquiet.same, h.notified, WaitStore.woken, WaitStore.woken, hwaits]

section Steps

variable [Plans.Documents] [World ω]

omit [Plans.Documents] in
theorem Subscribed.sound {row : WaitRow} {predecessor : Option String}
    {trigger : Option WaitTrigger} (h : Subscribed db db' row predecessor trigger) (hs : Sound db) : Sound db' := by
  have hafter : row.after = row.cursorSequence := by simp [WaitRow.after, h.fresh.1]
  have hfind (wait) := Table.find_insert? (k := wait) h.waits
  refine ⟨h.events.grows.ordered hs.ordered, fun wait r hr => ?_, fun wait r hr hw => ?_,
    fun wait => ?_⟩
  · rw [hfind] at hr
    split at hr
    · cases hr
      have := h.cursor
      omega
    · have hin := hs.inside wait r hr
      exact ⟨hin.1, hin.2.trans h.events.grows.head_le⟩
  · rw [hfind] at hr
    split at hr
    · cases hr
      rw [h.fresh.2] at hw
      cases hw
    · exact hs.through wait r hr hw
  · rw [h.events.same, hs.notified]
    have hwoken : db'.woken wait = db.woken wait := by
      unfold WaitStore.woken
      rw [hfind]
      split
      · next hid =>
        subst hid
        rw [(Table.insert?_eq_some h.waits).1]
        simpa using h.fresh.2
      · rfl
    rw [hwoken]

omit [Plans.Documents] in
/-- Where a replay stands is inside the log. -/
theorem Replayed.through_le_head {row : WaitRow} {now : Int} {through : Nat} {wake : Bool}
    (h : Replayed db db' row now through wake) (hs : Sound db) : through ≤ db'.head := by
  cases hexp : row.expired now with
  | true => exact (h.expired hexp).2
  | false =>
    rw [h.page hexp]
    have hle := Cursor.advance_le_head hs.ordered (hs.inside _ row h.found).2 (n := replayPage)
    exact hle.trans h.grows.head_le

omit [Plans.Documents] in
theorem Replayed.find {row : WaitRow} {now : Int} {through : Nat} {wake : Bool}
    (h : Replayed db db' row now through wake) (wait : String) :
    db'.waits.find wait = if row.waitId = wait then some { row with
      state := .replayed, replayedThrough := some through, wakeRequested := wake }
      else db.waits.find wait := by
  rw [h.waits, Table.find_update]
  by_cases hid : row.waitId = wait
  · rw [if_pos hid, if_pos hid, ← hid, h.found]
    rfl
  · rw [if_neg hid, if_neg hid]

omit [Plans.Documents] in
theorem Replayed.sound {row : WaitRow} {now : Int} {through : Nat} {wake : Bool}
    (h : Replayed db db' row now through wake) (hs : Sound db) : Sound db' := by
  refine ⟨h.grows.ordered hs.ordered, fun wait r hr => ?_, fun wait r hr hw => ?_, fun wait => ?_⟩
  · rw [h.find] at hr
    split at hr
    · cases hr
      have hin := hs.inside _ row h.found
      exact ⟨hin.1.trans h.advances, h.through_le_head hs⟩
    · have hin := hs.inside wait r hr
      exact ⟨hin.1, hin.2.trans h.grows.head_le⟩
  · rw [h.find] at hr
    split at hr
    · cases hr
      rfl
    · exact hs.through wait r hr hw
  · rw [h.notified, hs.notified, WaitStore.woken, WaitStore.woken, h.find]
    by_cases hid : row.waitId = wait
    · -- the wait had not been notified, since it was pending
      subst hid
      rw [h.found]
      simp [h.pending]
    · simp [hid]

theorem exec_sound (c : Call ω) (hs : Sound db) : Sound (exec c db).2 := by
  cases exec_effect c db with
  | unchanged _ h => rw [← h]; exact hs
  | subscribed _ h _ => exact h.sound hs
  | replayed h => exact h.sound hs
  | elsewhere change h =>
    rw [← h]
    exact hs.quiet (foldl_appendOther_quiet db.events change.events) rfl

/-! ## Consumption -/

/-- The events that a call records for a wait when it is a replay whose deadline has not come. -/
def recordedBy (wait : String) (c : Call ω) (db : WaitStore ω) : List Nat :=
  match c with
  | .replay id now _ =>
    if (db.waits.find id).any (·.expired now) then []
    else ((exec c db).2.recorded wait).drop (db.recorded wait).length
  | _ => []

/-- The events that such replays record for a wait in the course of a run. -/
def consumed (wait : String) : WaitStore ω → List (Call ω) → List Nat
  | _, [] => []
  | db, c :: cs => recordedBy wait c db ++ consumed wait (exec c db).2 cs

/-- A wait has read a stretch of the log that starts right after its cursor; as long as it is
pending, the stretch ends where the wait stands. -/
structure HasRead (db : WaitStore ω) (wait : String) (read : List Nat) : Prop where
  absent : db.waits.find wait = none → read = []
  stretch : ∀ row, db.waits.find wait = some row → ∃ through ≤ db.head,
    read = (Cursor.between Event.sequence row.cursorSequence through db.events).map
      Event.sequence ∧ (row.wakeRequested = false → through = row.after)

variable {wait : String} {read : List Nat}

omit [Plans.Documents] [World ω] in
/-- A log that grew under waits that did not change. -/
theorem HasRead.grows (h : HasRead db wait read)
    (hgrows : Cursor.Grows Event.sequence db.events db'.events)
    (hwaits : db'.waits.find wait = db.waits.find wait) : HasRead db' wait read := by
  refine ⟨fun hnone => h.absent (hwaits ▸ hnone), fun row hrow => ?_⟩
  obtain ⟨through, hle, hread, hpending⟩ := h.stretch row (hwaits ▸ hrow)
  refine ⟨through, hle.trans hgrows.head_le, ?_, hpending⟩
  rw [hread, hgrows.between_eq hle]

omit [Plans.Documents] in
theorem Subscribed.hasRead {row : WaitRow} {predecessor : Option String}
    {trigger : Option WaitTrigger} (h : Subscribed db db' row predecessor trigger) (hread : HasRead db wait read) :
    HasRead db' wait read := by
  have hfind := Table.find_insert? (k := wait) h.waits
  by_cases hid : row.waitId = wait
  · rw [if_pos hid] at hfind
    have hnone : db.waits.find wait = none := hid ▸ (Table.insert?_eq_some h.waits).1
    have hsome : db'.waits.find wait ≠ none := by simp [hfind]
    refine ⟨fun habsent => absurd habsent hsome, fun r hr => ?_⟩
    rw [hfind] at hr
    cases hr
    refine ⟨row.cursorSequence, ?_, ?_, fun _ => ?_⟩
    · have := h.cursor
      omega
    · rw [hread.absent hnone, Cursor.between_self]
      rfl
    · rw [WaitRow.after, h.fresh.1]
      rfl
  · rw [if_neg hid] at hfind
    exact hread.grows h.events.grows hfind

omit [Plans.Documents] in
/-- What a replay adds to the records of a wait. -/
theorem Replayed.recorded {row : WaitRow} {now : Int} {through : Nat} {wake : Bool}
    (h : Replayed db db' row now through wake) (hexp : row.expired now = false) :
    (db'.recorded wait).drop (db.recorded wait).length =
      if row.waitId = wait then (db.nextPage row).map (·.sequence) else [] := by
  obtain ⟨rows, hrows, hids, hpage⟩ := h.records
  have hsplit : db'.recorded wait =
      db.recorded wait ++ (rows.filter fun r => r.waitId = wait).map (·.eventSequence) := by
    simp only [WaitStore.recorded, hrows, List.filter_append, List.map_append]
  rw [hsplit, List.drop_left]
  split
  · next hid =>
    rw [List.filter_eq_self.mpr, hpage hexp]
    intro r hr
    simpa [hid] using hids r hr
  · next hid =>
    rw [List.filter_eq_nil_iff.mpr]
    · rfl
    · intro r hr
      simpa [hids r hr] using hid

omit [Plans.Documents] in
/-- Reading on: the page starts where the wait stood. -/
theorem Replayed.hasRead {row : WaitRow} {now : Int} {through : Nat} {wake : Bool}
    (h : Replayed db db' row now through wake) (hs : Sound db) (hread : HasRead db wait read) :
    HasRead db' wait (read ++ if row.expired now then [] else
      (db'.recorded wait).drop (db.recorded wait).length) := by
  by_cases hid : row.waitId = wait
  · subst hid
    have hfind := h.find row.waitId
    rw [if_pos rfl] at hfind
    obtain ⟨start, hle, hstretch, hstart⟩ := hread.stretch row h.found
    have hstart : start = row.after := hstart h.pending
    subst hstart
    have hsome : db'.waits.find row.waitId ≠ none := by simp [hfind]
    refine ⟨fun hnone => absurd hnone hsome, fun r hr => ?_⟩
    rw [hfind] at hr
    cases hr
    cases hexp : row.expired now with
    | true =>
      -- the deadline wakes the wait: what it had read is all that it reads
      refine ⟨row.after, hle.trans h.grows.head_le, ?_, fun hw => ?_⟩
      · rw [h.grows.between_eq hle, hstretch]
        simp
      · have hwake : wake = false := hw
        rw [(h.expired hexp).1] at hwake
        cases hwake
    | false =>
      have hpage : db.nextPage row = Cursor.between Event.sequence row.after through db.events := by
        rw [h.page hexp]
        exact Cursor.page_eq_between hs.ordered
      have hthrough : through ≤ db.head := by
        rw [h.page hexp]
        exact Cursor.advance_le_head hs.ordered hle
      refine ⟨through, hthrough.trans h.grows.head_le, ?_, fun _ => rfl⟩
      rw [if_neg (by simp), h.recorded hexp, if_pos rfl, hpage, hstretch, ← List.map_append,
        Cursor.between_append_between hs.ordered (hs.inside _ row h.found).1 h.advances,
        h.grows.between_eq hthrough]
  · have hfind := h.find wait
    rw [if_neg hid] at hfind
    have hnothing : (if row.expired now then [] else
        (db'.recorded wait).drop (db.recorded wait).length) = [] := by
      cases hexp : row.expired now with
      | true => rfl
      | false =>
        rw [if_neg (by simp), h.recorded hexp, if_neg hid]
    rw [hnothing, List.append_nil]
    exact hread.grows h.grows hfind

/-- One call. -/
theorem exec_hasRead (c : Call ω) (hs : Sound db) (hread : HasRead db wait read) :
    HasRead (exec c db).2 wait (read ++ recordedBy wait c db) := by
  generalize hdb' : (exec c db).2 = db'
  have heffect := exec_effect c db
  rw [hdb'] at heffect
  cases heffect with
  | unchanged _ h =>
    subst h
    have hnothing : recordedBy wait c db = [] := by
      unfold recordedBy
      split
      · rw [hdb', List.drop_length, ite_self]
      · rfl
    rw [hnothing, List.append_nil]
    exact hread
  | subscribed hc h _ =>
    have hnothing : recordedBy wait c db = [] := by
      unfold recordedBy
      split
      · exact absurd rfl (hc _ _ _)
      · rfl
    rw [hnothing, List.append_nil]
    exact h.hasRead hread
  | replayed h =>
    have hadds := h.hasRead hs hread
    rwa [recordedBy, h.found, hdb']
  | elsewhere change h =>
    subst h
    have hnothing : recordedBy wait (.elsewhere change) db = [] := rfl
    rw [hnothing, List.append_nil]
    exact hread.grows (foldl_appendOther_quiet db.events change.events).grows rfl

/-- A run. -/
theorem calls_hasRead (cs : List (Call ω)) {r : Run (WaitStore ω) (Call ω) (Except StoreError Answer)}
    (hs : Sound r.state) (hread : HasRead r.state wait read) :
    HasRead (r.calls exec cs).state wait (read ++ consumed wait r.state cs) := by
  induction cs generalizing r read with
  | nil => simpa [consumed] using hread
  | cons c cs ih =>
    have hnext := ih (r := r.call exec c) (exec_sound c hs) (exec_hasRead c hs hread)
    rwa [List.append_assoc] at hnext

/-! ## Runs -/

/-- A replay after the wake. -/
theorem replay_woken {row : WaitRow} (hs : Sound db) (hrow : db.waits.find wait = some row)
    (hwoken : row.wakeRequested = true) (now : Int) (fault : Option StoreError) :
    ∃ through, row.replayedThrough = some through ∧
      exec (.replay wait now fault) db = (if Plans.identifier wait then
          .ok (.replay ⟨wait, row.cursorSequence, through, (db.recorded wait).length, true, true⟩)
        else .error (.invalid "wait is invalid"), db) := by
  obtain ⟨through, hthrough⟩ := Option.isSome_iff_exists.mp (hs.through wait row hrow hwoken)
  refine ⟨through, hthrough, ?_⟩
  have hid : row.waitId = wait := Table.find_key hrow
  have hbody : replayWait wait now fault db = if Plans.identifier wait then
      .ok (⟨wait, row.cursorSequence, through, (db.recorded wait).length, true, true⟩, db)
      else .error (.invalid "wait is invalid") := by
    subst hid
    cases hident : Plans.identifier row.waitId with
    | false =>
      have hrefused : (Tx.require (Plans.identifier row.waitId = true)
          (Plans.invalid "wait is invalid") : WaitTx ω Unit) db = .error (.invalid "wait is invalid") := by
        rw [Tx.require, if_neg (by simp [hident])]
        rfl
      change ((Tx.require _ _ : WaitTx ω Unit) db >>= _) = _
      rw [hrefused]
      rfl
    | true =>
      have hfind : (Tx.find (·.waits.find row.waitId) (Plans.invalid "wait is not registered") :
          WaitTx ω WaitRow) db = .ok (row, db) := Tx.find_ok.mpr ⟨hrow, rfl⟩
      have hwoke : replayWoken row db = .ok
          (⟨row.waitId, row.cursorSequence, through, (db.recorded row.waitId).length, true, true⟩,
            db) := by
        simp only [replayWoken, Tx.bind_ok, Tx.ask_ok, Tx.find_ok, Tx.pure_ok]
        exact ⟨_, _, ⟨rfl, rfl⟩, through, _, ⟨hthrough, rfl⟩, rfl, rfl⟩
      simp only [replayWait, if_true, Tx.bind_ok, Tx.require_ok]
      exact ⟨(), db, ⟨hident, rfl⟩, row, db, hfind, by rw [if_pos hwoken]; exact hwoke⟩
  rw [exec, answer, Tx.commit, hbody]
  cases Plans.identifier wait <;> rfl

abbrev WaitRun (ω : Type) := Run (WaitStore ω) (Call ω) (Except StoreError Answer)

/-- The run of a new store. -/
def reached (world : ω) (calls : List (Call ω)) : WaitRun ω :=
  (Run.start (.created world)).calls exec calls

theorem reached_sound (world : ω) (calls : List (Call ω)) : Sound (reached world calls).state :=
  Run.invariant (I := fun r => Sound r.state) (Sound.created world) fun _ c _ h => exec_sound c h

theorem reached_keeps (world : ω) (calls more : List (Call ω)) :
    Keeps (reached world calls).state (reached world (calls ++ more)).state := by
  rw [reached, reached, Run.calls_append]
  exact Run.preserves Keeps.refl Keeps.trans fun s c _ => exec_keeps c s

/-- The registrations that a run has answered still name their waits and successors. -/
structure Answered (r : WaitRun ω) : Prop where
  names : ∀ c reg, (c, .ok (.registration reg)) ∈ r.log → Names r.state reg
  successor : ∀ previous deadline now fault reg,
    (.rearm previous deadline now fault, .ok (.registration reg)) ∈ r.log →
      r.state.rearms.find previous = some ⟨previous, reg.waitId⟩

omit [Plans.Documents] [World ω] in
theorem Names.keeps {reg : WaitRegistration} (h : Names db reg) (hkeeps : Keeps db db') :
    Names db' reg := by
  obtain ⟨row, hrow, hcursor⟩ := h
  obtain ⟨row', hrow', hcont⟩ := hkeeps.waits _ row hrow
  exact ⟨row', hrow', hcont.cursor.trans hcursor⟩

theorem Answered.call {r : WaitRun ω} (h : Answered r) (c : Call ω) :
    Answered (r.call exec c) := by
  have hkeeps := exec_keeps c r.state
  constructor
  · intro c' reg hmem
    rcases List.mem_append.mp hmem with hmem | hmem
    · exact (h.names c' reg hmem).keeps hkeeps
    · obtain ⟨rfl, hanswer⟩ := Prod.mk.inj (List.mem_singleton.mp hmem)
      exact (exec_registration hanswer.symm).1
  · intro previous deadline now fault reg hmem
    rcases List.mem_append.mp hmem with hmem | hmem
    · exact hkeeps.rearms.find (h.successor previous deadline now fault reg hmem)
    · obtain ⟨rfl, hanswer⟩ := Prod.mk.inj (List.mem_singleton.mp hmem)
      exact (exec_registration hanswer.symm).2 previous deadline now fault rfl

theorem reached_answered (world : ω) (calls : List (Call ω)) : Answered (reached world calls) :=
  Run.invariant ⟨fun _ _ h => by simp at h, fun _ _ _ _ _ h => by simp at h⟩
    fun _ c _ h => h.call c

/-- A wait of a run consumes the log once and wakes once. -/
structure ConsumesOnce (world : ω) (calls : List (Call ω)) (wait : String) : Prop where
  /-- Replays whose deadline has not come record distinct events. -/
  distinct : (consumed wait (.created world) calls).Nodup
  /-- They are the events of the log from right after the cursor up to some event. -/
  contiguous : ∀ row, (reached world calls).state.waits.find wait = some row → ∃ through,
    consumed wait (.created world) calls = (Cursor.between Event.sequence row.cursorSequence
      through (reached world calls).state.events).map Event.sequence
  /-- Before the wait is registered there are none. -/
  unregistered : (reached world calls).state.waits.find wait = none →
    consumed wait (.created world) calls = []
  /-- Whatever is called next, the wait keeps its cursor, its replay never goes back and its wake
  stays. -/
  continues : ∀ more row, (reached world calls).state.waits.find wait = some row →
    ∃ row', (reached world (calls ++ more)).state.waits.find wait = some row' ∧ row.Continues row'
  /-- Its wake wrote one event and one inbox item. -/
  notified : notifications wait (reached world calls).state.events ≤ 1
  notice : ∀ a ∈ (reached world calls).state.inbox.rows,
    ∀ b ∈ (reached world calls).state.inbox.rows, a.id = noticeId wait → b.id = noticeId wait → a = b
  /-- A replay after the wake changes nothing and repeats where the wait stopped. -/
  woken : ∀ row now fault, (reached world calls).state.waits.find wait = some row →
    row.wakeRequested = true → ∃ through, row.replayedThrough = some through ∧
      exec (.replay wait now fault) (reached world calls).state =
        (if Plans.identifier wait then .ok (.replay ⟨wait, row.cursorSequence, through,
            ((reached world calls).state.recorded wait).length, true, true⟩)
          else .error (.invalid "wait is invalid"), (reached world calls).state)
  /-- Every registration of the wait, the first one and its repetitions, answered its cursor. -/
  registered : ∀ c reg, (c, .ok (.registration reg)) ∈ (reached world calls).log →
    reg.waitId = wait → ∃ row, (reached world calls).state.waits.find wait = some row ∧
      row.cursorSequence = reg.cursorSequence
  /-- All rearms of the wait answered with one successor. -/
  successor : ∀ deadline now fault reg deadline' now' fault' reg',
    (.rearm wait deadline now fault, .ok (.registration reg)) ∈ (reached world calls).log →
    (.rearm wait deadline' now' fault', .ok (.registration reg')) ∈ (reached world calls).log →
      reg.waitId = reg'.waitId

/-- **A wait consumes the log once and wakes once**, whatever else is called, in whatever order,
and whatever evidence the rest of the store gives. -/
theorem wait_consumes_log_once (world : ω) (calls : List (Call ω)) (wait : String) :
    ConsumesOnce world calls wait := by
  have hsound := reached_sound world calls
  have hanswered := reached_answered world calls
  have hstart : HasRead (WaitStore.created world) wait [] :=
    ⟨fun _ => rfl, fun row hrow => by simp [WaitStore.created] at hrow⟩
  have hread : HasRead (reached world calls).state wait (consumed wait (.created world) calls) := by
    have h := calls_hasRead calls (r := .start (.created world)) (Sound.created world) hstart
    rwa [List.nil_append] at h
  refine ⟨?_, fun row hrow => ?_, hread.absent, fun more => ?_, ?_, ?_, ?_, ?_, ?_⟩
  · cases hrow : (reached world calls).state.waits.find wait with
    | none =>
      rw [hread.absent hrow]
      exact List.nodup_nil
    | some row =>
      obtain ⟨through, -, hstretch, -⟩ := hread.stretch row hrow
      rw [hstretch]
      exact hsound.ordered.between.nodup
  · obtain ⟨through, -, hstretch, -⟩ := hread.stretch row hrow
    exact ⟨through, hstretch⟩
  · exact (reached_keeps world calls more).waits wait
  · rw [hsound.notified]
    split <;> omega
  · exact fun a ha b hb hida hidb => Table.eq_of_mem ha hb (hida.trans hidb.symm)
  · exact fun row now fault hrow hwoken => replay_woken hsound hrow hwoken now fault
  · rintro c reg hmem rfl
    exact hanswered.names c reg hmem
  · intro deadline now fault reg deadline' now' fault' reg' hmem hmem'
    have h := hanswered.successor wait deadline now fault reg hmem
    rw [hanswered.successor wait deadline' now' fault' reg' hmem'] at h
    simpa using h.symm

end Steps

end Herdr.Waits
