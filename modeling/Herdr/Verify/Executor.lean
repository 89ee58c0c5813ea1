import Mathlib.Data.List.Perm.Basic
import Herdr.Runtime.Executor

/-!
# Safe admission

The running map is a view of the workers that hold a slot, and an admitted job is in one place: its
queue or its worker. A job that may be in its runner was selected within the limits, as long as no
job is looked at twice in the instant of its own deadline.
-/

namespace Herdr.Executor

variable {limits : Limits} {s s' : State}

/-! ## Views of the workers -/

/-- The worker has not released its slot. -/
def Worker.holds (w : Worker) : Bool :=
  match w.phase with
  | .released _ => false
  | _ => true

/-- The runner was entered and the slot is not released. -/
def Worker.inRunner (w : Worker) : Bool :=
  match w.phase with
  | .entered _ => true
  | .done _ outcome => outcome.entered
  | _ => false

/-- The runner was entered, or may still be. -/
def Worker.live (cancelled : List Token) (w : Worker) : Bool :=
  match w.phase with
  | .selected | .started _ =>
    !cancelled.contains w.job.token && w.testedAt < w.job.request.deadline
  | .entered _ => true
  | .done _ outcome => outcome.entered
  | .released _ => false

theorem Worker.live_of_inRunner {w : Worker} {cancelled : List Token} (h : w.inRunner = true) :
    w.live cancelled = true := by
  unfold Worker.inRunner at h
  unfold Worker.live
  split at h <;> simp_all

theorem Worker.holds_of_live {w : Worker} {cancelled : List Token} (h : w.live cancelled = true) :
    w.holds = true := by
  unfold Worker.live at h
  unfold Worker.holds
  split at h <;> simp_all

/-- Cancellation is for good. -/
theorem Worker.live_mono {w : Worker} {cancelled more : List Token}
    (h : w.live (cancelled ++ more) = true) : w.live cancelled = true := by
  unfold Worker.live at h ⊢
  split <;> simp_all

/-- A row and the rows of other keys. -/
theorem perm_cons_filter {α κ : Type} [DecidableEq κ] {key : α → κ} {l : List α} {a : α}
    (hnodup : (l.map key).Nodup) (ha : a ∈ l) : l.Perm (a :: l.filter fun b => key b ≠ key a) := by
  obtain ⟨l₁, l₂, rfl⟩ := List.append_of_mem ha
  rw [List.map_append, List.map_cons, List.nodup_middle, List.nodup_cons, ← List.map_append] at hnodup
  have hother : ∀ b ∈ l₁ ++ l₂, decide (key b ≠ key a) = true := by
    intro b hb
    exact decide_eq_true fun he => hnodup.1 (List.mem_map.mpr ⟨b, hb, he⟩)
  have hself : (a :: l₂).filter (fun b => key b ≠ key a) = l₂.filter fun b => key b ≠ key a :=
    List.filter_cons_of_neg (by simp)
  rw [List.filter_append, hself, ← List.filter_append, List.filter_eq_self.mpr hother]
  exact List.perm_middle

/-- Queues after one of them changed by one job. -/
theorem queued_perm {q : Fin 2 → List Job} {lane : Fin 2} {l : List Job} {job : Job}
    (h : l.Perm (job :: q lane)) :
    (Function.update q lane l 0 ++ Function.update q lane l 1).Perm (job :: (q 0 ++ q 1)) := by
  match lane with
  | 0 =>
    simp only [Function.update_self, Function.update_of_ne (show (1 : Fin 2) ≠ 0 by decide)]
    exact h.append_right _
  | 1 =>
    simp only [Function.update_self, Function.update_of_ne (show (0 : Fin 2) ≠ 1 by decide)]
    exact (h.append_left _).trans List.perm_middle

theorem queued_erase {q : Fin 2 → List Job} {lane : Fin 2} {index : Nat} {job : Job}
    (h : (q lane)[index]? = some job) : (q 0 ++ q 1).Perm
      (job :: (Function.update q lane ((q lane).eraseIdx index) 0 ++
        Function.update q lane ((q lane).eraseIdx index) 1)) := by
  obtain ⟨hi, rfl⟩ := List.getElem?_eq_some_iff.mp h
  have hperm := List.getElem_cons_eraseIdx_perm hi
  have hsame : q = Function.update (Function.update q lane ((q lane).eraseIdx index)) lane (q lane) := by
    simp
  conv_lhs => rw [hsame]
  refine queued_perm ?_
  rw [Function.update_self]
  exact hperm.symm

/-! ## What the steps do -/

theorem ensure_bind {p : Prop} [Decidable p] {message : String} {α : Type} {x : Except String α}
    {a : α} : (ensure p message >>= fun _ => x) = .ok a ↔ p ∧ x = .ok a := by
  unfold ensure
  split
  · next h => exact ⟨fun hx => ⟨h, hx⟩, And.right⟩
  · next h => exact ⟨nofun, fun hx => absurd hx.1 h⟩

theorem ensure_ok {p : Prop} [Decidable p] {message : String} {u : Unit} :
    ensure p message = .ok u ↔ p := by
  unfold ensure
  split
  · next h => exact ⟨fun _ => h, fun _ => rfl⟩
  · next h => exact ⟨nofun, fun hp => absurd hp h⟩

/-- What an admission found and wrote. -/
structure Admits (limits : Limits) (s s' : State) (job : Job) : Prop where
  room : s.admitted job.request.lane.index < limits.outstanding job.request.lane.index
  fresh : s.running.find job.key = none ∧ ∀ j ∈ s.queued, j.key ≠ job.key
  reply : job.reply = s.submitted.length
  frame : ∃ cancelled clock, s' = { s with
    cancelled := s.cancelled ++ cancelled
    queue := Function.update s.queue job.request.lane.index
      (s.queue job.request.lane.index ++ [job])
    admitted := Function.update s.admitted job.request.lane.index
      (s.admitted job.request.lane.index + 1)
    submitted := s.submitted ++ [job]
    clock := clock }

theorem admissible_ok {request : Request} {u : Unit}
    (h : s.admissible limits request = .ok u) :
    s.admitted request.lane.index < limits.outstanding request.lane.index ∧
      s.running.find request.identity.key = none ∧ ∀ j ∈ s.queued, j.key ≠ request.identity.key := by
  simp only [State.admissible, ensure_bind, ensure_ok] at h
  obtain ⟨-, hroom, -, hrunning, hqueued⟩ := h
  refine ⟨hroom, Option.isNone_iff_eq_none.mp hrunning, fun j hj he => hqueued ?_⟩
  exact List.any_eq_true.mpr ⟨j, hj, decide_eq_true he⟩

theorem submit_ok {request : Request} {reading queued : Instant}
    (h : submit s limits request reading queued = .ok s') :
    ∃ job, Admits limits s s' job ∧ s'.clock = queued := by
  simp only [submit, ensure_bind] at h
  obtain ⟨-, -, -, -, h⟩ := h
  cases hadmissible : s.admissible limits request.bounded with
  | error e =>
    rw [hadmissible] at h
    cases h
  | ok u =>
    rw [hadmissible] at h
    cases h
    obtain ⟨hroom, hrunning, hqueued⟩ := admissible_ok hadmissible
    exact ⟨⟨request.bounded, queued, _, _⟩, ⟨hroom, ⟨hrunning, hqueued⟩, rfl, _, _, rfl⟩, rfl⟩

/-- What a selection found and wrote. -/
structure Takes (limits : Limits) (s s' : State) (lane : Fin 2) (readings : Nat → Instant)
    (index : Nat) (job : Job) : Prop where
  found : (s.queue lane)[index]? = some job
  eligible : s.eligible limits lane job (readings index) = true
  canonical : job.request.lane = .advisory → s.canonicalPending = false
  frame : ∃ served, s' = { s with
    queue := Function.update s.queue lane ((s.queue lane).eraseIdx index)
    running := s.running.upsert job.entry
    rounds := Function.update s.rounds lane served
    busy := s.busy ++ [⟨lane, job, readings index, .selected⟩]
    clock := readings (s.queue lane).length }

theorem projectRound_mem {served served' : List String} {eligible : List (Nat × String)} {i : Nat}
    (h : FairAdmission.ProjectRound.select served eligible = some (i, served')) :
    ∃ project, (i, project) ∈ eligible := by
  unfold FairAdmission.ProjectRound.select at h
  split at h
  · cases h
  · obtain ⟨e, he, heq⟩ := Option.map_eq_some_iff.mp h
    cases heq
    exact ⟨e.2, (List.mem_filter.mp (List.argmin_mem he)).1⟩

theorem mem_eligibleIndexes {lane : Fin 2} {readings : Nat → Instant} {e : Nat × String}
    (h : e ∈ s.eligibleIndexes limits lane readings) : ∃ job, (s.queue lane)[e.1]? = some job ∧
      s.eligible limits lane job (readings e.1) = true := by
  obtain ⟨⟨job, i⟩, hmem, rfl⟩ := List.mem_map.mp h
  obtain ⟨hmem, heligible⟩ := List.mem_filter.mp hmem
  obtain ⟨-, hlt, hjob⟩ := List.mem_zipIdx hmem
  exact ⟨job, by rw [hjob]; simp, heligible⟩

theorem take_ok {lane : Fin 2} {readings : Nat → Instant} (h : take s limits lane readings = some s') :
    ∃ index job, Takes limits s s' lane readings index job := by
  simp only [take, Option.bind_eq_bind, Option.bind_eq_some_iff] at h
  obtain ⟨⟨index, served⟩, hselect, job, hjob, h⟩ := h
  cases h
  refine ⟨index, job, hjob, ?_, ?_, served, rfl⟩
  · obtain ⟨project, hmem⟩ := projectRound_mem hselect
    have hmem : (index, project) ∈ s.eligibleIndexes limits lane readings := by
      split at hmem
      · exact (List.mem_filter.mp hmem).1
      · exact hmem
    obtain ⟨job', hjob', heligible⟩ := mem_eligibleIndexes hmem
    rw [hjob] at hjob'
    cases hjob'
    exact heligible
  · intro hadvisory
    obtain ⟨project, hmem⟩ := projectRound_mem hselect
    rw [Bool.eq_false_iff]
    intro hpending
    rw [if_pos hpending] at hmem
    have hcanonical := (List.mem_filter.mp hmem).2
    rw [hjob] at hcanonical
    simp [hadvisory] at hcanonical

theorem worker_mem {reply : Nat} {w : Worker} (h : s.worker reply = some w) :
    w ∈ s.busy ∧ w.job.reply = reply :=
  ⟨List.mem_of_find?_eq_some h, by simpa using List.find?_some h⟩

/-- How a worker moves on while it holds its slot. -/
inductive Move (s : State) (w : Worker) : Phase → Prop
  | start (reading : Instant) (h : w.phase = .selected) (hclock : s.clock ≤ reading) :
    Move s w (.started reading)
  | enter (startedAt : Instant) (h : w.phase = .started startedAt)
    (hcancelled : s.isCancelled w.job.token = false)
    (hdeadline : startedAt ≤ w.job.request.deadline) : Move s w (.entered startedAt)
  | drop (startedAt : Instant) (outcome : Outcome) (h : w.phase = .started startedAt)
    (hout : outcome.entered = false) : Move s w (.done startedAt outcome)
  | answer (startedAt : Instant) (outcome : Outcome) (h : w.phase = .entered startedAt) :
    Move s w (.done startedAt outcome)

/-- A worker moves on; others may be cancelled, and the clock may run. -/
structure Moves (s s' : State) (reply : Nat) (w : Worker) (phase : Phase) : Prop where
  found : s.worker reply = some w
  move : Move s w phase
  frame : ∃ cancelled clock stopping uncertain, s.clock ≤ clock ∧
    (∀ reading, phase = .started reading → reading ≤ clock) ∧ s' = { s with
      cancelled := s.cancelled ++ cancelled
      busy := (s.setPhase reply phase).busy
      clock := clock
      stopping := stopping
      uncertain := uncertain }

theorem start_ok {reply : Nat} {reading : Instant} (hclock : s.clock ≤ reading)
    (h : start s reply reading = some s') : ∃ w, Moves s s' reply w (.started reading) := by
  simp only [start, Option.bind_eq_bind, Option.bind_eq_some_iff] at h
  obtain ⟨w, hw, h⟩ := h
  split at h
  · next hphase =>
    cases h
    refine ⟨w, hw, .start reading hphase hclock, [], reading, s.stopping, s.uncertain, hclock, ?_, ?_⟩
    · rintro _ ⟨⟩
      exact le_rfl
    · simp [State.setPhase]
  · cases h

theorem enter_ok {reply : Nat} (h : enter s reply = some s') :
    ∃ w phase, Moves s s' reply w phase := by
  simp only [enter, Option.bind_eq_bind, Option.bind_eq_some_iff] at h
  obtain ⟨w, hw, h⟩ := h
  have hframe : ∀ phase, (∀ t, phase ≠ .started t) → ∃ cancelled clock stopping uncertain,
      s.clock ≤ clock ∧ (∀ reading, phase = .started reading → reading ≤ clock) ∧
      s.setPhase reply phase = { s with
        cancelled := s.cancelled ++ cancelled
        busy := (s.setPhase reply phase).busy
        clock := clock
        stopping := stopping
        uncertain := uncertain } := by
    intro phase hne
    exact ⟨[], s.clock, s.stopping, s.uncertain, le_rfl, fun t ht => absurd ht (hne t),
      by simp [State.setPhase]⟩
  split at h
  · next startedAt hphase =>
    split at h
    · cases h
      exact ⟨w, _, hw, .drop startedAt .cancelled hphase rfl, hframe _ nofun⟩
    · next hcancelled =>
      split at h
      · next hdeadline =>
        cases h
        exact ⟨w, _, hw, .enter startedAt hphase (by simpa using hcancelled) hdeadline,
          hframe _ nofun⟩
      · cases h
        exact ⟨w, _, hw, .drop startedAt .timedOut hphase rfl, hframe _ nofun⟩
  · cases h

theorem answer_ok {reply : Nat} (h : answer s reply = some s') :
    ∃ w startedAt outcome, Moves s s' reply w (.done startedAt outcome) := by
  simp only [answer, Option.bind_eq_bind, Option.bind_eq_some_iff] at h
  obtain ⟨w, hw, h⟩ := h
  split at h
  · next startedAt hphase =>
    cases h
    refine ⟨w, _, _, hw, .answer startedAt .ran hphase, [], s.clock, s.stopping, s.uncertain, le_rfl,
      nofun, ?_⟩
    simp [State.setPhase]
  · cases h

theorem panic_ok {reply : Nat} (h : panic s reply = some s') :
    ∃ w startedAt outcome, Moves s s' reply w (.done startedAt outcome) := by
  simp only [panic, Option.bind_eq_bind, Option.bind_eq_some_iff] at h
  obtain ⟨w, hw, h⟩ := h
  split at h
  · next startedAt hphase =>
    cases h
    refine ⟨w, _, _, hw, .answer startedAt .panicked hphase,
      s.queued.map (·.token) ++ s.running.rows.map (·.token), s.clock, true, true, le_rfl, nofun, ?_⟩
    simp only [State.setPhase, State.cancelAll, List.append_assoc]
  · cases h

/-- A slot is released. -/
structure Releases (s s' : State) (reply : Nat) (w : Worker) : Prop where
  found : s.worker reply = some w
  holds : w.holds = true
  frame : ∃ completion, completion.identity = w.job.request.identity ∧
    s'.running.rows = s.running.rows.filter (fun r => r.key ≠ w.job.key) ∧ s' = { s with
      busy := (s.setPhase reply (.released completion)).busy
      running := s'.running
      admitted := Function.update s.admitted w.lane (s.admitted w.lane - 1) }

theorem release_ok {reply : Nat} (h : release s reply = some s') : ∃ w, Releases s s' reply w := by
  simp only [release, Option.bind_eq_bind, Option.bind_eq_some_iff] at h
  obtain ⟨w, hw, h⟩ := h
  split at h
  · next startedAt outcome hphase =>
    cases h
    exact ⟨w, hw, by simp [Worker.holds, hphase], _, rfl, rfl, rfl⟩
  · cases h

theorem send_ok {reply : Nat} (h : send s reply = some s') : ∃ w completion,
    s.worker reply = some w ∧ w.phase = .released completion ∧ s' = { s with
      busy := s.busy.filter fun w => w.job.reply ≠ reply
      sent := s.sent ++ [(reply, completion)] } := by
  simp only [send, Option.bind_eq_bind, Option.bind_eq_some_iff] at h
  obtain ⟨w, hw, h⟩ := h
  split at h
  · next completion hphase =>
    cases h
    exact ⟨w, completion, hw, hphase, rfl⟩
  · cases h

/-- All that a step on time can do. -/
inductive Change (limits : Limits) (s s' : State) : Action → Prop
  | submit {request : Request} {reading queued : Instant} (job : Job)
    (h : Admits limits s s' job) (hclock : s.clock ≤ s'.clock) :
    Change limits s s' (.submit request reading queued)
  | take {lane : Fin 2} {readings : Nat → Instant} (index : Nat) (job : Job)
    (h : Takes limits s s' lane readings index job)
    (hclock : s.clock ≤ readings index ∧ readings index ≤ s'.clock) :
    Change limits s s' (.take lane readings)
  | moves {action : Action} {reply : Nat} {w : Worker} {phase : Phase}
    (h : Moves s s' reply w phase)
    (hentry : (∀ t, phase ≠ .entered t) ∨ action = .enter reply) : Change limits s s' action
  | release {reply : Nat} (w : Worker) (h : Releases s s' reply w) :
    Change limits s s' (.release reply)
  | send {reply : Nat} (w : Worker) (completion : Completion) (hw : s.worker reply = some w)
    (hphase : w.phase = .released completion) (hframe : s' = { s with
      busy := s.busy.filter fun w => w.job.reply ≠ reply
      sent := s.sent ++ [(reply, completion)] }) : Change limits s s' (.send reply)
  | cancels {action : Action} (cancelled : List Token) (stopping : Bool)
    (hframe : s' = { s with
      cancelled := s.cancelled ++ cancelled
      stopping := stopping }) : Change limits s s' action

theorem Change.refl {action : Action} : Change limits s s action :=
  .cancels [] s.stopping (by simp)

theorem step_ok {action : Action} (htime : action.onTime s) (h : step limits s action = some s') :
    Change limits s s' action := by
  cases action with
  | submit request reading queued =>
    simp only [step] at h
    cases hsubmit : submit s limits request reading queued with
    | error e =>
      rw [hsubmit] at h
      cases h
      exact .refl
    | ok t =>
      rw [hsubmit] at h
      cases h
      obtain ⟨job, hadmits, hclock⟩ := submit_ok hsubmit
      exact .submit job hadmits (hclock ▸ htime.1.trans htime.2)
  | cancel token =>
    cases h
    exact .cancels [token] s.stopping rfl
  | take lane readings =>
    cases h
    cases htake : take s limits lane readings with
    | none => exact .refl
    | some t =>
      obtain ⟨index, job, htakes⟩ := take_ok htake
      obtain ⟨hmono, hclock⟩ := htime
      refine .take index job htakes ⟨hclock.trans (hmono (Nat.zero_le _)), ?_⟩
      obtain ⟨served, hframe⟩ := htakes.frame
      change _ ≤ t.clock
      rw [hframe]
      exact hmono (List.getElem?_eq_some_iff.mp htakes.found).1.le
  | start reply reading =>
    obtain ⟨w, hmoves⟩ := start_ok htime h
    exact .moves hmoves (.inl nofun)
  | enter reply =>
    obtain ⟨w, phase, hmoves⟩ := enter_ok h
    exact .moves hmoves (.inr rfl)
  | answer reply =>
    obtain ⟨w, startedAt, outcome, hmoves⟩ := answer_ok h
    exact .moves hmoves (.inl nofun)
  | panic reply =>
    obtain ⟨w, startedAt, outcome, hmoves⟩ := panic_ok h
    exact .moves hmoves (.inl nofun)
  | release reply =>
    obtain ⟨w, hreleases⟩ := release_ok h
    exact .release w hreleases
  | send reply =>
    obtain ⟨w, completion, hw, hphase, hframe⟩ := send_ok h
    exact .send w completion hw hphase hframe
  | stop =>
    cases h
    exact .cancels (s.queued.map (·.token) ++ s.running.rows.map (·.token)) true
      (by simp [stop, State.cancelAll])

/-! ## The invariant of admission -/

/-- An admitted job is in one place, and the counters and the running map say where. -/
structure Consistent (limits : Limits) (s : State) : Prop where
  lanes : ∀ lane, ∀ job ∈ s.queue lane, job.request.lane.index = lane
  workers : ∀ w ∈ s.busy, w.job.request.lane.index = w.lane
  running : s.running.rows = (s.busy.filter Worker.holds).map fun w => w.job.entry
  admitted : ∀ lane, s.admitted lane = (s.queue lane).length + (s.runningIn lane).length
  bounded : ∀ lane, s.admitted lane ≤ limits.outstanding lane
  distinct : (s.queued.map Job.key ++ s.running.rows.map Running.key).Nodup
  replies : (s.queued.map (·.reply) ++ s.busy.map (·.job.reply) ++ s.sent.map Prod.fst).Nodup
  known : ∀ job, job ∈ s.queued ∨ (∃ w ∈ s.busy, w.job = job) → job ∈ s.submitted
  numbered : s.submitted.map (·.reply) = List.range s.submitted.length
  identities : ∀ w ∈ s.busy, ∀ c, w.phase = .released c → c.identity = w.job.request.identity
  sent : ∀ e ∈ s.sent, ∃ job ∈ s.submitted, job.reply = e.1 ∧ e.2.identity = job.request.identity

/-- The workers of one reply are one worker. -/
theorem Consistent.worker_eq (h : Consistent limits s) {v w : Worker} (hv : v ∈ s.busy)
    (hw : w ∈ s.busy) (he : v.job.reply = w.job.reply) : v = w := by
  have hnodup := (List.nodup_append.mp (List.nodup_append.mp h.replies).1).2.1
  exact List.inj_on_of_nodup_map hnodup hv hw he

/-- So are the workers of one operation, while they hold their slots. -/
theorem Consistent.holder_eq (h : Consistent limits s) {v w : Worker} (hv : v ∈ s.busy)
    (hw : w ∈ s.busy) (hvh : v.holds = true) (hwh : w.holds = true) (he : v.job.key = w.job.key) :
    v = w := by
  have hnodup := (List.nodup_append.mp h.distinct).2.1
  rw [h.running, List.map_map] at hnodup
  exact List.inj_on_of_nodup_map hnodup (List.mem_filter.mpr ⟨hv, hvh⟩)
    (List.mem_filter.mpr ⟨hw, hwh⟩) he

theorem Consistent.mem_running (h : Consistent limits s) {w : Worker} (hw : w ∈ s.busy)
    (hholds : w.holds = true) : w.job.entry ∈ s.running.rows := by
  rw [h.running]
  exact List.mem_map.mpr ⟨w, List.mem_filter.mpr ⟨hw, hholds⟩, rfl⟩

theorem Consistent.reply_lt (h : Consistent limits s) {job : Job} (hjob : job ∈ s.submitted) :
    job.reply < s.submitted.length := by
  have hmem := List.mem_map_of_mem (f := fun j : Job => j.reply) hjob
  rw [h.numbered] at hmem
  exact List.mem_range.mp hmem

/-- A new reply has never been used. -/
theorem Consistent.fresh (h : Consistent limits s) :
    s.submitted.length ∉ s.queued.map (·.reply) ++ s.busy.map (·.job.reply) ++ s.sent.map Prod.fst := by
  simp only [List.mem_append, List.mem_map, not_or, not_exists, not_and]
  refine ⟨⟨fun job hjob => ?_, fun w hw => ?_⟩, fun e he => ?_⟩
  · exact (h.reply_lt (h.known job (.inl hjob))).ne
  · exact (h.reply_lt (h.known w.job (.inr ⟨w, hw, rfl⟩))).ne
  · obtain ⟨job, hjob, hreply, -⟩ := h.sent e he
    rw [← hreply]
    exact (h.reply_lt hjob).ne

theorem Consistent.cancels (h : Consistent limits s) {cancelled : List Token} {stopping : Bool}
    (hs : s' = { s with
      cancelled := cancelled
      stopping := stopping }) : Consistent limits s' := by
  subst hs
  exact ⟨h.lanes, h.workers, h.running, h.admitted, h.bounded, h.distinct, h.replies, h.known,
    h.numbered, h.identities, h.sent⟩

/-- **Submission.** -/
theorem Consistent.admits (h : Consistent limits s) {job : Job} (ha : Admits limits s s' job) :
    Consistent limits s' := by
  obtain ⟨hroom, ⟨hrunning, hqueued⟩, hreply, cancelled, clock, hs⟩ := ha
  have hperm : s'.queued.Perm (job :: s.queued) := by
    rw [hs]
    exact queued_perm List.perm_append_comm
  have hrows : s'.running = s.running := by rw [hs]
  have hbusy : s'.busy = s.busy := by rw [hs]
  have hsent : s'.sent = s.sent := by rw [hs]
  have hsubmitted : s'.submitted = s.submitted ++ [job] := by rw [hs]
  refine ⟨?_, hbusy ▸ h.workers, ?_, ?_, ?_, ?_, ?_, ?_, ?_, hbusy ▸ h.identities, ?_⟩
  · intro lane j hj
    rw [hs] at hj
    by_cases hl : lane = job.request.lane.index
    · subst hl
      simp only [Function.update_self, List.mem_append, List.mem_singleton] at hj
      rcases hj with hj | rfl
      · exact h.lanes _ j hj
      · rfl
    · simp only [Function.update_of_ne hl] at hj
      exact h.lanes lane j hj
  · rw [hrows, hbusy]
    exact h.running
  · intro lane
    have hin : s'.runningIn lane = s.runningIn lane := by simp only [State.runningIn, hrows]
    rw [hin, hs]
    by_cases hl : lane = job.request.lane.index
    · subst hl
      simp only [Function.update_self, List.length_append, List.length_singleton]
      have := h.admitted job.request.lane.index
      omega
    · simp only [Function.update_of_ne hl]
      exact h.admitted lane
  · intro lane
    rw [hs]
    by_cases hl : lane = job.request.lane.index
    · subst hl
      simp only [Function.update_self]
      omega
    · simp only [Function.update_of_ne hl]
      exact h.bounded lane
  · rw [hrows, ((hperm.map Job.key).append_right _).nodup_iff, List.map_cons, List.cons_append,
      List.nodup_cons]
    refine ⟨?_, h.distinct⟩
    simp only [List.mem_append, List.mem_map, not_or, not_exists, not_and]
    refine ⟨hqueued, fun r hr he => ?_⟩
    have hfound := Table.find_of_mem hr
    rw [he, hrunning] at hfound
    cases hfound
  · rw [hbusy, hsent, (((hperm.map (·.reply)).append_right _).append_right _).nodup_iff,
      List.map_cons, List.cons_append, List.cons_append, List.nodup_cons, hreply]
    exact ⟨h.fresh, h.replies⟩
  · rw [hbusy, hsubmitted]
    intro j hj
    rw [hperm.mem_iff, List.mem_cons] at hj
    rcases hj with (rfl | hj) | hj
    · simp
    · exact List.mem_append_left _ (h.known j (.inl hj))
    · exact List.mem_append_left _ (h.known j (.inr hj))
  · rw [hsubmitted, List.map_append, h.numbered, List.length_append, List.length_singleton,
      List.range_succ, List.map_singleton, hreply]
  · rw [hsent, hsubmitted]
    intro e he
    obtain ⟨j, hj, hrest⟩ := h.sent e he
    exact ⟨j, List.mem_append_left _ hj, hrest⟩

/-- A queued job is not running. -/
theorem Consistent.not_running (h : Consistent limits s) {job : Job} (hjob : job ∈ s.queued) :
    s.running.find job.key = none := by
  rw [Table.find_eq_none_iff]
  intro hmem
  exact (List.nodup_append.mp h.distinct).2.2 _ (List.mem_map_of_mem hjob) _ hmem rfl

theorem mem_queued {lane : Fin 2} {job : Job} (h : job ∈ s.queue lane) : job ∈ s.queued := by
  match lane with
  | 0 => exact List.mem_append_left _ h
  | 1 => exact List.mem_append_right _ h

/-- The map takes a new entry and overwrites none. -/
theorem Takes.running (h : Consistent limits s) {lane : Fin 2} {readings : Nat → Instant}
    {index : Nat} {job : Job} (ht : Takes limits s s' lane readings index job) :
    s'.running.rows = s.running.rows ++ [job.entry] := by
  have hnone : s.running.find (Running.key job.entry) = none :=
    h.not_running (mem_queued (List.mem_of_getElem? ht.found))
  obtain ⟨served, hs⟩ := ht.frame
  have hinsert : ∃ t, s.running.insert? job.entry = some t := by
    unfold Table.insert?
    rw [dif_pos hnone]
    exact ⟨_, rfl⟩
  obtain ⟨t, hinsert⟩ := hinsert
  rw [hs]
  simp only [Table.upsert, hinsert, Option.getD_some]
  exact (Table.insert?_eq_some hinsert).2

/-- **Selection.** -/
theorem Consistent.takes (h : Consistent limits s) {lane : Fin 2} {readings : Nat → Instant}
    {index : Nat} {job : Job} (ht : Takes limits s s' lane readings index job) :
    Consistent limits s' := by
  have hrows := Takes.running h ht
  have hmem := List.mem_of_getElem? ht.found
  have hlane := h.lanes lane job hmem
  obtain ⟨served, hs⟩ := ht.frame
  have hperm : s.queued.Perm (job :: s'.queued) := by
    rw [hs]
    exact queued_erase ht.found
  have hbusy : s'.busy = s.busy ++ [⟨lane, job, readings index, .selected⟩] := by rw [hs]
  have hsent : s'.sent = s.sent := by rw [hs]
  have hsubmitted : s'.submitted = s.submitted := by rw [hs]
  have hadmitted : s'.admitted = s.admitted := by rw [hs]
  refine ⟨?_, ?_, ?_, ?_, ?_, ?_, ?_, ?_, hsubmitted ▸ h.numbered, ?_, ?_⟩
  · intro l j hj
    rw [hs] at hj
    by_cases hl : l = lane
    · subst hl
      simp only [Function.update_self] at hj
      exact h.lanes _ j (List.mem_of_mem_eraseIdx hj)
    · simp only [Function.update_of_ne hl] at hj
      exact h.lanes l j hj
  · rw [hbusy]
    intro w hw
    rcases List.mem_append.mp hw with hw | hw
    · exact h.workers w hw
    · rw [List.mem_singleton.mp hw]
      exact hlane
  · have hholds : Worker.holds ⟨lane, job, readings index, .selected⟩ = true := rfl
    rw [hrows, hbusy, h.running, List.filter_append, List.map_append, List.filter_cons_of_pos hholds]
    rfl
  · intro l
    rw [hadmitted, h.admitted l]
    have hin : s'.runningIn l = s.runningIn l ++ [job.entry].filter fun r => r.lane.index = l := by
      simp only [State.runningIn, hrows, List.filter_append]
    rw [hin, List.length_append]
    have hentry : job.entry.lane.index = lane := hlane
    by_cases hl : l = lane
    · subst hl
      have hlt := (List.getElem?_eq_some_iff.mp ht.found).1
      have hqueue : s'.queue l = (s.queue l).eraseIdx index := by
        rw [hs]
        exact Function.update_self ..
      rw [hqueue, List.length_eraseIdx_of_lt hlt]
      simp only [hentry, decide_true, List.filter_cons_of_pos, List.filter_nil, List.length_singleton]
      omega
    · have hqueue : s'.queue l = s.queue l := by
        rw [hs]
        exact Function.update_of_ne hl ..
      have hne : ¬job.entry.lane.index = l := by
        rw [hentry]
        exact fun he => hl he.symm
      simp [hqueue, hne]
  · rw [hadmitted]
    exact h.bounded
  · have hdistinct := h.distinct
    rw [((hperm.map Job.key).append_right _).nodup_iff] at hdistinct
    rw [hrows, List.map_append, ← List.append_assoc, List.nodup_append_comm]
    exact hdistinct
  · have hreplies := h.replies
    rw [(((hperm.map (·.reply)).append_right _).append_right _).nodup_iff] at hreplies
    rw [hbusy, hsent, List.map_append, ← List.append_assoc]
    refine (List.Perm.nodup_iff ?_).mp hreplies
    refine List.Perm.append_right _ ?_
    exact (List.perm_append_singleton job.reply _).symm.trans (by simp)
  · rw [hbusy, hsubmitted]
    rintro j (hj | ⟨w, hw, rfl⟩)
    · exact h.known j (.inl (hperm.mem_iff.mpr (List.mem_cons_of_mem _ hj)))
    · rcases List.mem_append.mp hw with hw | hw
      · exact h.known w.job (.inr ⟨w, hw, rfl⟩)
      · rw [List.mem_singleton.mp hw]
        exact h.known job (.inl (mem_queued hmem))
  · rw [hbusy]
    intro w hw c hc
    rcases List.mem_append.mp hw with hw | hw
    · exact h.identities w hw c hc
    · rw [List.mem_singleton.mp hw] at hc
      cases hc
  · rw [hsent, hsubmitted]
    exact h.sent

theorem holds_setPhase {w : Worker} {phase : Phase} (hw : w.holds = true)
    (hphase : ∀ c, phase ≠ .released c) : Worker.holds { w with phase := phase } = w.holds := by
  rw [hw]
  unfold Worker.holds
  split
  · next c hc => exact absurd hc (hphase c)
  · rfl

theorem Move.holds {w : Worker} {phase : Phase} (h : Move s w phase) :
    w.holds = true ∧ ∀ c, phase ≠ .released c := by
  cases h <;> simp_all [Worker.holds]

/-- The workers after one of them moved. -/
theorem mem_setPhase {reply : Nat} {phase : Phase} {w : Worker}
    (h : w ∈ (s.setPhase reply phase).busy) : ∃ v ∈ s.busy, v.lane = w.lane ∧ v.job = w.job ∧
      v.testedAt = w.testedAt ∧
      (v.job.reply ≠ reply ∧ v.phase = w.phase ∨ v.job.reply = reply ∧ w.phase = phase) := by
  obtain ⟨v, hv, rfl⟩ := List.mem_map.mp h
  refine ⟨v, hv, ?_⟩
  split
  · next he => exact ⟨rfl, rfl, rfl, .inr ⟨he, rfl⟩⟩
  · next hne => exact ⟨rfl, rfl, rfl, .inl ⟨hne, rfl⟩⟩

theorem setPhase_jobs {reply : Nat} {phase : Phase} {α : Type} (f : Job → α) :
    (s.setPhase reply phase).busy.map (fun w => f w.job) = s.busy.map fun w => f w.job := by
  simp only [State.setPhase, List.map_map]
  refine List.map_congr_left fun w _ => ?_
  simp only [Function.comp_apply]
  split <;> rfl

/-- **A worker moves on.** -/
theorem Consistent.moves (h : Consistent limits s) {reply : Nat} {w : Worker} {phase : Phase}
    (hm : Moves s s' reply w phase) : Consistent limits s' := by
  obtain ⟨hfound, hmove, cancelled, clock, stopping, uncertain, -, -, hs⟩ := hm
  obtain ⟨hw, hreply⟩ := worker_mem hfound
  obtain ⟨hholds, hphase⟩ := hmove.holds
  have hbusy : s'.busy = (s.setPhase reply phase).busy := by rw [hs]
  have hqueue : s'.queued = s.queued := by rw [hs]; rfl
  have hrows : s'.running = s.running := by rw [hs]
  have hjobs : s'.busy.map (·.job.reply) = s.busy.map (·.job.reply) := by
    rw [hbusy]
    exact setPhase_jobs (·.reply)
  refine ⟨?_, ?_, ?_, ?_, ?_, ?_, ?_, ?_, ?_, ?_, ?_⟩
  · rw [hs]
    exact h.lanes
  · rw [hbusy]
    intro u hu
    obtain ⟨v, hv, hlane, hjob, -⟩ := mem_setPhase hu
    rw [← hlane, ← hjob]
    exact h.workers v hv
  · rw [hrows, hbusy, h.running]
    simp only [State.setPhase, List.filter_map, List.map_map]
    have hsame : ∀ v ∈ s.busy, (Worker.holds ∘ fun v : Worker =>
        if v.job.reply = reply then { v with phase := phase } else v) v = v.holds := by
      intro v hv
      simp only [Function.comp_apply]
      split
      · next he =>
        obtain rfl := h.worker_eq hv hw (he.trans hreply.symm)
        exact holds_setPhase hholds hphase
      · rfl
    rw [List.filter_congr hsame]
    refine List.map_congr_left fun v _ => ?_
    simp only [Function.comp_apply]
    split <;> rfl
  · rw [hs]
    exact h.admitted
  · rw [hs]
    exact h.bounded
  · rw [hqueue, hrows]
    exact h.distinct
  · rw [hqueue, hjobs, hs]
    exact h.replies
  · rw [hqueue, hbusy]
    rintro j (hj | ⟨u, hu, rfl⟩)
    · rw [hs]
      exact h.known j (.inl hj)
    · obtain ⟨v, hv, -, hjob, -⟩ := mem_setPhase hu
      rw [hs]
      exact h.known _ (.inr ⟨v, hv, hjob⟩)
  · rw [hs]
    exact h.numbered
  · rw [hbusy]
    intro u hu c hc
    obtain ⟨v, hv, -, hjob, -, ⟨-, hsame⟩ | ⟨-, hnew⟩⟩ := mem_setPhase hu
    · rw [← hjob]
      exact h.identities v hv c (hsame.trans hc)
    · exact absurd (hnew.symm.trans hc) (hphase c)
  · rw [hs]
    exact h.sent

/-- The slot of a worker that holds one is counted. -/
theorem Consistent.counted (h : Consistent limits s) {w : Worker} (hw : w ∈ s.busy)
    (hholds : w.holds = true) : 0 < s.admitted w.lane := by
  have hmem : w.job.entry ∈ s.runningIn w.lane := by
    refine List.mem_filter.mpr ⟨h.mem_running hw hholds, ?_⟩
    exact decide_eq_true (h.workers w hw)
  have hpos := List.length_pos_of_mem hmem
  have hadmitted := h.admitted w.lane
  omega

/-- Without the row of a worker, its lane runs one job less. -/
theorem Consistent.removed (h : Consistent limits s) {w : Worker} (hw : w ∈ s.busy)
    (hholds : w.holds = true) :
    s.running.rows.Perm (w.job.entry :: s.running.rows.filter fun r => r.key ≠ w.job.key) := by
  have hnodup := (List.nodup_append.mp h.distinct).2.1
  exact perm_cons_filter hnodup (h.mem_running hw hholds)

/-- **The slot is released.** -/
theorem Consistent.releases (h : Consistent limits s) {reply : Nat} {w : Worker}
    (hr : Releases s s' reply w) : Consistent limits s' := by
  obtain ⟨hfound, hholds, completion, hidentity, hrows, hs⟩ := hr
  obtain ⟨hw, hreply⟩ := worker_mem hfound
  have hperm := h.removed hw hholds
  rw [← hrows] at hperm
  have hbusy : s'.busy = (s.setPhase reply (.released completion)).busy := by rw [hs]
  have hqueue : s'.queued = s.queued := by rw [hs]; rfl
  have hjobs : s'.busy.map (·.job.reply) = s.busy.map (·.job.reply) := by
    rw [hbusy]
    exact setPhase_jobs (·.reply)
  refine ⟨?_, ?_, ?_, ?_, ?_, ?_, ?_, ?_, ?_, ?_, ?_⟩
  · rw [hs]
    exact h.lanes
  · rw [hbusy]
    intro u hu
    obtain ⟨v, hv, hlane, hjob, -⟩ := mem_setPhase hu
    rw [← hlane, ← hjob]
    exact h.workers v hv
  · rw [hrows, hbusy, h.running]
    simp only [State.setPhase, List.filter_map, List.map_map, List.filter_filter]
    have hsame : ∀ v ∈ s.busy, (decide (Running.key v.job.entry ≠ w.job.key) && v.holds) =
        (Worker.holds ∘ fun v : Worker =>
          if v.job.reply = reply then { v with phase := .released completion } else v) v := by
      intro v hv
      simp only [Function.comp_apply]
      by_cases he : v.job.reply = reply
      · obtain rfl := h.worker_eq hv hw (he.trans hreply.symm)
        simp [he, Worker.holds, Job.entry, Running.key, Job.key]
      · rw [if_neg he]
        cases hvh : v.holds
        · exact Bool.and_false _
        · rw [Bool.and_true]
          refine decide_eq_true fun hkey => he ?_
          obtain rfl := h.holder_eq hv hw hvh hholds hkey
          exact hreply
    simp only [Function.comp_def] at hsame ⊢
    rw [List.filter_congr hsame]
    refine List.map_congr_left fun v _ => ?_
    split <;> rfl
  · intro l
    have hcount : (s.runningIn l).length =
        (s'.runningIn l).length + if w.lane = l then 1 else 0 := by
      have hlen := (hperm.filter fun r => r.lane.index = l).length_eq
      have hlane : w.job.entry.lane.index = w.lane := h.workers w hw
      simp only [State.runningIn]
      by_cases hl : w.lane = l
      · rw [List.filter_cons_of_pos (by simpa [hlane] using hl), List.length_cons] at hlen
        rw [hlen, if_pos hl]
      · rw [List.filter_cons_of_neg (by simpa [hlane] using hl)] at hlen
        rw [hlen, if_neg hl]
        rfl
    have hadmitted := h.admitted l
    have hold : s'.admitted = Function.update s.admitted w.lane (s.admitted w.lane - 1) := by rw [hs]
    have hq : s'.queue = s.queue := by rw [hs]
    rw [hold, hq]
    by_cases hl : w.lane = l
    · subst hl
      rw [if_pos rfl] at hcount
      rw [Function.update_self]
      omega
    · rw [if_neg hl] at hcount
      rw [Function.update_of_ne (Ne.symm hl)]
      omega
  · intro l
    have hold : s'.admitted = Function.update s.admitted w.lane (s.admitted w.lane - 1) := by rw [hs]
    rw [hold]
    by_cases hl : l = w.lane
    · subst hl
      rw [Function.update_self]
      exact (Nat.sub_le _ _).trans (h.bounded _)
    · rw [Function.update_of_ne hl]
      exact h.bounded l
  · have hdistinct := h.distinct
    rw [((hperm.map Running.key).append_left _).nodup_iff, List.map_cons, List.nodup_middle,
      List.nodup_cons] at hdistinct
    rw [hqueue]
    exact hdistinct.2
  · rw [hqueue, hjobs, hs]
    exact h.replies
  · rw [hqueue, hbusy]
    rintro j (hj | ⟨u, hu, rfl⟩)
    · rw [hs]
      exact h.known j (.inl hj)
    · obtain ⟨v, hv, -, hjob, -⟩ := mem_setPhase hu
      rw [hs]
      exact h.known _ (.inr ⟨v, hv, hjob⟩)
  · rw [hs]
    exact h.numbered
  · rw [hbusy]
    intro u hu c hc
    obtain ⟨v, hv, -, hjob, -, ⟨-, hsame⟩ | ⟨he, hnew⟩⟩ := mem_setPhase hu
    · rw [← hjob]
      exact h.identities v hv c (hsame.trans hc)
    · obtain rfl := h.worker_eq hv hw (he.trans hreply.symm)
      rw [hnew] at hc
      cases hc
      rw [← hjob]
      exact hidentity
  · rw [hs]
    exact h.sent

/-- **The completion is sent.** -/
theorem Consistent.sends (h : Consistent limits s) {reply : Nat} {w : Worker}
    {completion : Completion} (hfound : s.worker reply = some w)
    (hphase : w.phase = .released completion) (hs : s' = { s with
      busy := s.busy.filter fun w => w.job.reply ≠ reply
      sent := s.sent ++ [(reply, completion)] }) : Consistent limits s' := by
  obtain ⟨hw, hreply⟩ := worker_mem hfound
  have hsub : ∀ u ∈ s'.busy, u ∈ s.busy := by
    rw [hs]
    exact fun u hu => (List.mem_filter.mp hu).1
  have hqueue : s'.queued = s.queued := by rw [hs]; rfl
  have hsubmitted : s'.submitted = s.submitted := by rw [hs]
  have hperm : s.busy.Perm (w :: s'.busy) := by
    have hnodup := (List.nodup_append.mp (List.nodup_append.mp h.replies).1).2.1
    rw [hs]
    subst hreply
    exact perm_cons_filter hnodup hw
  refine ⟨?_, fun u hu => h.workers u (hsub u hu), ?_, ?_, ?_, ?_, ?_, ?_, ?_,
    fun u hu => h.identities u (hsub u hu), ?_⟩
  · rw [hs]
    exact h.lanes
  · have hrows : s'.running = s.running := by rw [hs]
    rw [hrows, h.running, hs]
    simp only [List.filter_filter]
    congr 1
    refine List.filter_congr fun v hv => ?_
    cases hvh : v.holds
    · rfl
    · symm
      rw [Bool.true_and]
      refine decide_eq_true fun he => ?_
      obtain rfl := h.worker_eq hv hw (he.trans hreply.symm)
      simp [Worker.holds, hphase] at hvh
  · rw [hs]
    exact h.admitted
  · rw [hs]
    exact h.bounded
  · rw [hqueue, hs]
    exact h.distinct
  · have hreplies := h.replies
    rw [(((hperm.map (·.job.reply)).append_left _).append_right _).nodup_iff] at hreplies
    have hsent : s'.sent = s.sent ++ [(reply, completion)] := by rw [hs]
    rw [hqueue, hsent, List.map_append]
    refine (List.Perm.nodup_iff ?_).mp hreplies
    rw [List.map_cons, hreply, ← List.append_assoc]
    refine ((List.perm_middle (a := reply)).append_right _).trans ?_
    rw [List.cons_append]
    exact (List.perm_append_singleton reply _).symm.trans (by simp)
  · rw [hqueue, hsubmitted]
    rintro j (hj | ⟨u, hu, rfl⟩)
    · exact h.known j (.inl hj)
    · exact h.known _ (.inr ⟨u, hsub u hu, rfl⟩)
  · rw [hsubmitted]
    exact h.numbered
  · have hsent : s'.sent = s.sent ++ [(reply, completion)] := by rw [hs]
    rw [hsent, hsubmitted]
    intro e he
    rcases List.mem_append.mp he with he | he
    · exact h.sent e he
    · rw [List.mem_singleton.mp he]
      exact ⟨w.job, h.known _ (.inr ⟨w, hw, rfl⟩), hreply, h.identities w hw completion hphase⟩

theorem Consistent.change (h : Consistent limits s) {action : Action}
    (hc : Change limits s s' action) : Consistent limits s' := by
  cases hc with
  | submit job ha _ => exact h.admits ha
  | take index job ht _ => exact h.takes ht
  | moves hm _ => exact h.moves hm
  | release w hr => exact h.releases hr
  | send w completion hw hphase hs => exact h.sends hw hphase hs
  | cancels cancelled stopping hs => exact h.cancels hs

/-! ## The invariant of the runners -/

/-- What a worker saw of the clock. -/
structure Timed (s : State) : Prop where
  selected : ∀ w ∈ s.busy, w.phase = .selected → w.testedAt ≤ s.clock
  started : ∀ w ∈ s.busy, ∀ t, w.phase = .started t → w.testedAt ≤ t

theorem Timed.of_subset (h : Timed s) (hbusy : ∀ w ∈ s'.busy, w ∈ s.busy)
    (hclock : s.clock ≤ s'.clock) : Timed s' :=
  ⟨fun w hw hp => (h.selected w (hbusy w hw) hp).trans hclock,
    fun w hw => h.started w (hbusy w hw)⟩

/-- A worker takes its reading after it was selected. -/
theorem Timed.moves (h : Timed s) (hk : Consistent limits s) {reply : Nat} {w : Worker}
    {phase : Phase} (hm : Moves s s' reply w phase) : Timed s' := by
  obtain ⟨hfound, hmove, cancelled, clock, stopping, uncertain, hclock, -, rfl⟩ := hm
  obtain ⟨hw, hreply⟩ := worker_mem hfound
  refine ⟨fun u hu hp => ?_, fun u hu t hp => ?_⟩
  · obtain ⟨v, hv, -, -, htested, ⟨-, hsame⟩ | ⟨-, hnew⟩⟩ := mem_setPhase hu
    · rw [← htested]
      exact (h.selected v hv (hsame.trans hp)).trans hclock
    · rw [hp] at hnew
      subst hnew
      cases hmove
  · obtain ⟨v, hv, -, -, htested, ⟨-, hsame⟩ | ⟨he, hnew⟩⟩ := mem_setPhase hu
    · rw [← htested]
      exact h.started v hv t (hsame.trans hp)
    · obtain rfl := hk.worker_eq hv hw (he.trans hreply.symm)
      rw [hp] at hnew
      subst hnew
      cases hmove with
      | start _ hselected hreading =>
        rw [← htested]
        exact (h.selected v hv hselected).trans hreading

theorem Timed.change (h : Timed s) (hk : Consistent limits s) {action : Action} (hc : Change limits s s' action) : Timed s' := by
  cases hc with
  | submit job ha hclock =>
    obtain ⟨-, -, -, cancelled, clock, rfl⟩ := ha
    exact h.of_subset (fun _ => id) hclock
  | take index job ht hclock =>
    obtain ⟨-, -, -, served, rfl⟩ := ht
    refine ⟨fun w hw hp => ?_, fun w hw t hp => ?_⟩
    · rcases List.mem_append.mp hw with hw | hw
      · exact (h.selected w hw hp).trans (hclock.1.trans hclock.2)
      · rw [List.mem_singleton.mp hw]
        exact hclock.2
    · rcases List.mem_append.mp hw with hw | hw
      · exact h.started w hw t hp
      · rw [List.mem_singleton.mp hw] at hp
        cases hp
  | moves hm _ => exact h.moves hk hm
  | release w hr =>
    obtain ⟨-, -, completion, -, -, hs⟩ := hr
    rw [hs]
    refine ⟨fun u hu hp => ?_, fun u hu t hp => ?_⟩
    · obtain ⟨v, hv, -, -, htested, ⟨-, hsame⟩ | ⟨-, hnew⟩⟩ := mem_setPhase hu
      · rw [← htested]
        exact h.selected v hv (hsame.trans hp)
      · cases hnew.symm.trans hp
    · obtain ⟨v, hv, -, -, htested, ⟨-, hsame⟩ | ⟨-, hnew⟩⟩ := mem_setPhase hu
      · rw [← htested]
        exact h.started v hv t (hsame.trans hp)
      · cases hnew.symm.trans hp
  | send w completion hw hphase hs =>
    rw [hs]
    exact h.of_subset (fun w hw => (List.mem_filter.mp hw).1) le_rfl
  | cancels cancelled stopping hs =>
    rw [hs]
    exact h.of_subset (fun _ => id) le_rfl

/-- The live workers of a lane whose identity satisfies `p`. -/
def State.inside (s : State) (lane : Fin 2) (p : Identity → Bool) : Nat :=
  s.busy.countP fun w => w.live s.cancelled && w.lane = lane && p w.job.request.identity

/-- Live workers are apart from each other. -/
structure Separate (limits : Limits) (s : State) : Prop where
  terminals : s.busy.Pairwise fun v w => v.live s.cancelled = true → w.live s.cancelled = true →
    ∀ t, v.job.request.identity.terminal = some t → w.job.request.identity.terminal ≠ some t
  projects : ∀ lane project, s.inside lane (·.project = project) ≤ limits.perProject
  machines : ∀ lane machine, s.inside lane (·.machine = machine) ≤ limits.perMachine

/-- Every live worker is counted by its entry in the running map. -/
theorem Consistent.inside_le (h : Consistent limits s) (lane : Fin 2) (p : Identity → Bool) :
    s.inside lane p ≤ (s.runningIn lane).countP fun r => p r.identity := by
  rw [State.runningIn, h.running, List.countP_filter, List.countP_map, List.countP_filter]
  refine List.countP_mono_left fun w hw hp => ?_
  simp only [Bool.and_eq_true, decide_eq_true_eq] at hp
  obtain ⟨⟨hlive, hlane⟩, hp⟩ := hp
  have hentry : w.job.entry.lane.index = lane := (h.workers w hw).trans hlane
  simp only [Function.comp_apply, Bool.and_eq_true, decide_eq_true_eq]
  exact ⟨⟨hp, hentry⟩, Worker.holds_of_live hlive⟩

/-- Workers that leave, or stop being live, keep the others apart. -/
theorem Separate.shrinks (h : Separate limits s) (f : Worker → Worker)
    (hbusy : s'.busy.Sublist (s.busy.map f))
    (hf : ∀ w ∈ s.busy, (f w).lane = w.lane ∧ (f w).job = w.job ∧
      ((f w).live s'.cancelled = true → w.live s.cancelled = true)) : Separate limits s' := by
  have hinside : ∀ lane p, s'.inside lane p ≤ s.inside lane p := by
    intro lane p
    unfold State.inside
    refine hbusy.countP_le.trans ?_
    rw [List.countP_map]
    refine List.countP_mono_left fun w hw hp => ?_
    obtain ⟨hlane, hjob, hlive⟩ := hf w hw
    simp only [Function.comp_apply, Bool.and_eq_true, decide_eq_true_eq, hlane, hjob] at hp ⊢
    exact ⟨⟨hlive hp.1.1, hp.1.2⟩, hp.2⟩
  refine ⟨?_, fun lane project => (hinside ..).trans (h.projects lane project),
    fun lane machine => (hinside ..).trans (h.machines lane machine)⟩
  refine List.Pairwise.sublist hbusy (List.pairwise_map.mpr (h.terminals.imp_of_mem ?_))
  intro v w hv hw hapart hvlive hwlive
  obtain ⟨-, hvjob, hv⟩ := hf v hv
  obtain ⟨-, hwjob, hw⟩ := hf w hw
  rw [hvjob, hwjob]
  exact hapart (hv hvlive) (hw hwlive)

theorem inside_append {w : Worker} (hbusy : s'.busy = s.busy ++ [w])
    (hcancelled : s'.cancelled = s.cancelled) (lane : Fin 2) (p : Identity → Bool) :
    s'.inside lane p = s.inside lane p + if w.live s.cancelled = true ∧ w.lane = lane ∧
      p w.job.request.identity = true then 1 else 0 := by
  simp only [State.inside, hbusy, hcancelled, List.countP_append, List.countP_singleton,
    Bool.and_eq_true, decide_eq_true_eq, and_assoc]

/-- A job that is live when it is taken was selected within the limits. -/
theorem Takes.room {lane : Fin 2} {readings : Nat → Instant} {index : Nat} {job : Job}
    (ht : Takes limits s s' lane readings index job)
    (hlive : Worker.live s.cancelled ⟨lane, job, readings index, .selected⟩ = true) :
    s.room limits lane job.request.identity = true := by
  have heligible := ht.eligible
  simp only [Worker.live, Bool.and_eq_true, Bool.not_eq_true', decide_eq_true_eq] at hlive
  have hexpired : ¬job.request.deadline ≤ readings index := not_le.mpr hlive.2
  simp only [State.eligible, State.isCancelled, hlive.1, hexpired, decide_false, Bool.or_self,
    Bool.false_or, Bool.and_eq_true] at heligible
  exact heligible.1

theorem Separate.takes (h : Separate limits s) (hk : Consistent limits s) {lane : Fin 2}
    {readings : Nat → Instant} {index : Nat} {job : Job}
    (ht : Takes limits s s' lane readings index job) : Separate limits s' := by
  have hroom : Worker.live s.cancelled ⟨lane, job, readings index, .selected⟩ = true →
      ((s.runningIn lane).countP (fun r => r.identity.project = job.request.identity.project) <
        limits.perProject ∧
      (s.runningIn lane).countP (fun r => r.identity.machine = job.request.identity.machine) <
        limits.perMachine) ∧
      (job.request.identity.terminal.all fun t =>
        !s.running.rows.any fun r => r.identity.terminal = some t) = true := by
    intro hlive
    simpa only [State.room, Bool.and_eq_true, decide_eq_true_eq] using ht.room hlive
  obtain ⟨served, hs⟩ := ht.frame
  have hbusy : s'.busy = s.busy ++ [⟨lane, job, readings index, .selected⟩] := by rw [hs]
  have hcancelled : s'.cancelled = s.cancelled := by rw [hs]
  refine ⟨?_, fun l project => ?_, fun l machine => ?_⟩
  · rw [hbusy, hcancelled]
    refine List.pairwise_append.mpr ⟨h.terminals, List.pairwise_singleton _ _, ?_⟩
    intro v hv w hw hvlive hwlive t hvt hwt
    obtain rfl := List.mem_singleton.mp hw
    have hwt : job.request.identity.terminal = some t := hwt
    have hterminal := (hroom hwlive).2
    rw [hwt, Option.all_some, Bool.not_eq_true', List.any_eq_false] at hterminal
    exact hterminal _ (hk.mem_running hv (Worker.holds_of_live hvlive)) (decide_eq_true hvt)
  · rw [inside_append hbusy hcancelled]
    split
    · next hcase =>
      obtain ⟨hlive, rfl, hp⟩ := hcase
      obtain rfl := of_decide_eq_true hp
      exact Nat.lt_of_le_of_lt (hk.inside_le ..) (hroom hlive).1.1
    · exact h.projects l project
  · rw [inside_append hbusy hcancelled]
    split
    · next hcase =>
      obtain ⟨hlive, rfl, hp⟩ := hcase
      obtain rfl := of_decide_eq_true hp
      exact Nat.lt_of_le_of_lt (hk.inside_le ..) (hroom hlive).1.2
    · exact h.machines l machine

/-- The runner is not entered in the instant of both the deadline and the selection's look. -/
def Action.apart (s : State) : Action → Prop
  | .enter reply => ∀ w, s.worker reply = some w → ∀ t, w.phase = .started t →
    ¬(w.testedAt = w.job.request.deadline ∧ t = w.job.request.deadline)
  | _ => True

/-- A worker that may enter its runner was selected as a job that may. -/
theorem Moves.live (ht : Timed s) {reply : Nat} {w : Worker} {phase : Phase}
    (hm : Moves s s' reply w phase)
    (hentry : ∀ t, phase = .entered t → w.phase = .started t →
      ¬(w.testedAt = w.job.request.deadline ∧ t = w.job.request.deadline))
    (hlive : Worker.live s'.cancelled { w with phase := phase } = true) :
    w.live s.cancelled = true := by
  obtain ⟨hfound, hmove, cancelled, clock, stopping, uncertain, -, -, rfl⟩ := hm
  have hlive := Worker.live_mono hlive
  cases hmove with
  | start reading hselected _ =>
    unfold Worker.live
    rw [hselected]
    exact hlive
  | enter startedAt hstarted hcancelled hdeadline =>
    have hbefore := ht.started w (worker_mem hfound).1 startedAt hstarted
    have hapart := hentry startedAt rfl hstarted
    have hcancelled : s.cancelled.contains w.job.token = false := hcancelled
    simp only [Worker.live, hstarted, hcancelled, Bool.not_false, Bool.true_and, decide_eq_true_eq]
    refine lt_of_le_of_ne (hbefore.trans hdeadline) fun he => hapart ⟨he, ?_⟩
    exact le_antisymm hdeadline (he ▸ hbefore)
  | drop startedAt outcome _ hout =>
    simp only [Worker.live, hout] at hlive
    cases hlive
  | answer startedAt outcome hentered =>
    simp only [Worker.live, hentered]

theorem Separate.change (h : Separate limits s) (hk : Consistent limits s) (ht : Timed s)
    {action : Action} (hapart : action.apart s) (hc : Change limits s s' action) :
    Separate limits s' := by
  cases hc with
  | submit job ha _ =>
    obtain ⟨-, -, -, cancelled, clock, rfl⟩ := ha
    exact h.shrinks id (by simp) fun w _ => ⟨rfl, rfl, Worker.live_mono⟩
  | take index job ht _ => exact h.takes hk ht
  | @moves _ reply w phase hm hentry =>
    obtain ⟨hw, hreply⟩ := worker_mem hm.found
    have hlive := Moves.live ht hm (by
      rintro t rfl hstarted
      rcases hentry with hentry | rfl
      · exact absurd rfl (hentry t)
      · exact hapart w hm.found t hstarted)
    obtain ⟨-, -, cancelled, clock, stopping, uncertain, -, -, hs⟩ := hm
    have hbusy : s'.busy = (s.setPhase reply phase).busy := by rw [hs]
    refine h.shrinks _ (by rw [hbusy, State.setPhase]) fun v hv => ?_
    split
    · next he =>
      obtain rfl := hk.worker_eq hv hw (he.trans hreply.symm)
      exact ⟨rfl, rfl, hlive⟩
    · refine ⟨rfl, rfl, fun hl => ?_⟩
      rw [hs] at hl
      exact Worker.live_mono hl
  | release w hr =>
    obtain ⟨-, -, completion, -, -, hs⟩ := hr
    rw [hs]
    refine h.shrinks _ (List.Sublist.refl _) fun v _ => ?_
    split
    · exact ⟨rfl, rfl, nofun⟩
    · exact ⟨rfl, rfl, id⟩
  | send w completion hw hphase hs =>
    rw [hs]
    exact h.shrinks id (by simp) fun v _ => ⟨rfl, rfl, id⟩
  | cancels cancelled stopping hs =>
    rw [hs]
    exact h.shrinks id (by simp) fun w _ => ⟨rfl, rfl, Worker.live_mono⟩

/-! ## Runs -/

/-- A step of a run, and the states around it. -/
structure Step where
  before : State
  action : Action
  after : State

/-- The steps that a run takes from a state, on a clock that never runs backwards. -/
inductive Trace (limits : Limits) : State → List Step → Prop
  | nil (s : State) : Trace limits s []
  | cons {s s' : State} {action : Action} {steps : List Step} (htime : action.onTime s)
    (h : step limits s action = some s') (rest : Trace limits s' steps) :
    Trace limits s (⟨s, action, s'⟩ :: steps)

/-- What the counters, the queues, the running map and the completions say in every state. -/
structure Admitted (limits : Limits) (s : State) : Prop where
  counted : ∀ lane, s.admitted lane = (s.queue lane).length + (s.runningIn lane).length
  bounded : ∀ lane, s.admitted lane ≤ limits.outstanding lane
  /-- No two admitted jobs have the same project and operation. -/
  distinct : (s.queued.map Job.key ++ s.running.rows.map Running.key).Nodup
  /-- The running map holds the jobs of the workers that have a slot. -/
  slots : s.running.rows = (s.busy.filter Worker.holds).map fun w => w.job.entry
  /-- The channel of a job is its own. -/
  channels : s.submitted.map (·.reply) = List.range s.submitted.length
  once : (s.sent.map Prod.fst).Nodup
  /-- A completion carries the identity of a job that is no longer queued or running. -/
  completions : ∀ e ∈ s.sent, ∃ job ∈ s.submitted, job.reply = e.1 ∧
    e.2.identity = job.request.identity ∧ job ∉ s.queued ∧ ∀ w ∈ s.busy, w.job ≠ job

/-- What one step keeps to. -/
structure Orderly (e : Step) : Prop where
  /-- The running map overwrites no entry. -/
  inserts : ∀ lane readings, e.action = .take lane readings →
    ∃ added, e.after.running.rows = e.before.running.rows ++ added
  underflow : ∀ reply w, e.action = .release reply → e.before.worker reply = some w →
    0 < e.before.admitted w.lane
  /-- A completion is sent after the slot was released. -/
  released : ∀ c ∈ e.after.sent, c ∈ e.before.sent ∨ ∃ w ∈ e.before.busy,
    w.job.reply = c.1 ∧ w.phase = .released c.2 ∧ w.holds = false
  /-- Advisory work is selected when no canonical job is queued or running. -/
  advisory : ∀ w ∈ e.after.busy, w.job.request.lane = .advisory →
    (∃ v ∈ e.before.busy, v.job = w.job) ∨
      w.job ∈ e.before.queued ∧ e.before.canonicalPending = false

/-- The jobs whose runner was entered and that have not released their slots. -/
structure Exclusive (limits : Limits) (s : State) : Prop where
  terminals : s.busy.Pairwise fun v w => v.inRunner = true → w.inRunner = true →
    ∀ t, v.job.request.identity.terminal = some t → w.job.request.identity.terminal ≠ some t
  projects : ∀ lane project, (s.busy.countP fun w => w.inRunner && w.lane = lane &&
    w.job.request.identity.project = project) ≤ limits.perProject
  machines : ∀ lane machine, (s.busy.countP fun w => w.inRunner && w.lane = lane &&
    w.job.request.identity.machine = machine) ≤ limits.perMachine

theorem Separate.exclusive (h : Separate limits s) : Exclusive limits s := by
  have hle : ∀ lane p, (s.busy.countP fun w => w.inRunner && w.lane = lane &&
      p w.job.request.identity) ≤ s.inside lane p := by
    intro lane p
    refine List.countP_mono_left fun w _ hw => ?_
    simp only [Bool.and_eq_true] at hw ⊢
    exact ⟨⟨Worker.live_of_inRunner hw.1.1, hw.1.2⟩, hw.2⟩
  refine ⟨?_, fun lane project => ?_, fun lane machine => ?_⟩
  · refine h.terminals.imp ?_
    intro v w hapart hv hw
    exact hapart (Worker.live_of_inRunner hv) (Worker.live_of_inRunner hw)
  · exact (hle lane (·.project = project)).trans (h.projects lane project)
  · exact (hle lane (·.machine = machine)).trans (h.machines lane machine)

theorem Consistent.admittedJobs (h : Consistent limits s) : Admitted limits s := by
  refine ⟨h.admitted, h.bounded, h.distinct, h.running, h.numbered,
    (List.nodup_append.mp h.replies).2.1, fun e he => ?_⟩
  obtain ⟨job, hjob, hreply, hidentity⟩ := h.sent e he
  have hapart := (List.nodup_append.mp h.replies).2.2
  have hsent : job.reply ∈ s.sent.map Prod.fst := hreply ▸ List.mem_map_of_mem he
  refine ⟨job, hjob, hreply, hidentity, fun hmem => ?_, fun w hw heq => ?_⟩
  · exact hapart _ (List.mem_append_left _ (List.mem_map_of_mem hmem)) _ hsent rfl
  · refine hapart _ (List.mem_append_right _ (List.mem_map_of_mem hw)) _ ?_ rfl
    rw [heq]
    exact hsent

theorem Change.inserts {action : Action} (h : Consistent limits s)
    (hc : Change limits s s' action) {lane : Fin 2} {readings : Nat → Instant}
    (hact : action = .take lane readings) :
    ∃ added, s'.running.rows = s.running.rows ++ added := by
  cases hc with
  | submit job ha _ => cases hact
  | take index job ht _ => exact ⟨_, Takes.running h ht⟩
  | moves hm _ =>
    obtain ⟨-, -, cancelled, clock, stopping, uncertain, -, -, rfl⟩ := hm
    exact ⟨[], (List.append_nil _).symm⟩
  | release w hr => cases hact
  | send w completion hw hphase hs => cases hact
  | cancels cancelled stopping hs => exact ⟨[], by rw [hs, List.append_nil]⟩

theorem Change.released {action : Action} (hc : Change limits s s' action) {c : Nat × Completion}
    (hmem : c ∈ s'.sent) : c ∈ s.sent ∨ ∃ w ∈ s.busy,
      w.job.reply = c.1 ∧ w.phase = .released c.2 ∧ w.holds = false := by
  cases hc with
  | submit job ha _ =>
    obtain ⟨-, -, -, cancelled, clock, rfl⟩ := ha
    exact .inl hmem
  | take index job ht _ =>
    obtain ⟨-, -, -, served, rfl⟩ := ht
    exact .inl hmem
  | moves hm _ =>
    obtain ⟨-, -, cancelled, clock, stopping, uncertain, -, -, rfl⟩ := hm
    exact .inl hmem
  | release w hr =>
    obtain ⟨-, -, completion, -, -, hs⟩ := hr
    rw [hs] at hmem
    exact .inl hmem
  | send w completion hw hphase hs =>
    rw [hs] at hmem
    rcases List.mem_append.mp hmem with hmem | hmem
    · exact .inl hmem
    · obtain rfl := List.mem_singleton.mp hmem
      obtain ⟨hw, hreply⟩ := worker_mem hw
      exact .inr ⟨w, hw, hreply, hphase, by simp [Worker.holds, hphase]⟩
  | cancels cancelled stopping hs =>
    rw [hs] at hmem
    exact .inl hmem

theorem Change.advisory {action : Action} (hc : Change limits s s' action) {w : Worker}
    (hw : w ∈ s'.busy) (hadvisory : w.job.request.lane = .advisory) :
    (∃ v ∈ s.busy, v.job = w.job) ∨ w.job ∈ s.queued ∧ s.canonicalPending = false := by
  cases hc with
  | submit job ha _ =>
    obtain ⟨-, -, -, cancelled, clock, rfl⟩ := ha
    exact .inl ⟨w, hw, rfl⟩
  | take index job ht _ =>
    have hqueued := mem_queued (List.mem_of_getElem? ht.found)
    have hcanonical := ht.canonical
    obtain ⟨served, rfl⟩ := ht.frame
    rcases List.mem_append.mp hw with hw | hw
    · exact .inl ⟨w, hw, rfl⟩
    · obtain rfl := List.mem_singleton.mp hw
      exact .inr ⟨hqueued, hcanonical hadvisory⟩
  | moves hm _ =>
    obtain ⟨-, -, cancelled, clock, stopping, uncertain, -, -, rfl⟩ := hm
    obtain ⟨v, hv, -, hjob, -⟩ := mem_setPhase hw
    exact .inl ⟨v, hv, hjob⟩
  | release u hr =>
    obtain ⟨-, -, completion, -, -, hs⟩ := hr
    rw [hs] at hw
    obtain ⟨v, hv, -, hjob, -⟩ := mem_setPhase hw
    exact .inl ⟨v, hv, hjob⟩
  | send u completion hu hphase hs =>
    rw [hs] at hw
    exact .inl ⟨w, (List.mem_filter.mp hw).1, rfl⟩
  | cancels cancelled stopping hs =>
    rw [hs] at hw
    exact .inl ⟨w, hw, rfl⟩

theorem Consistent.orderly (h : Consistent limits s) {action : Action} (htime : action.onTime s)
    (hstep : step limits s action = some s') : Orderly ⟨s, action, s'⟩ := by
  have hc := step_ok htime hstep
  refine ⟨fun lane readings hact => hc.inserts h hact, ?_, fun c hmem => hc.released hmem,
    fun w hw hadvisory => hc.advisory hw hadvisory⟩
  rintro reply w rfl hfound
  obtain ⟨v, hr⟩ := release_ok hstep
  rw [hr.found] at hfound
  cases hfound
  exact h.counted (worker_mem hr.found).1 hr.holds

/-- What holds of every step of a run, and what holds as long as no runner is entered in the
instant of its deadline in which the job was also selected. -/
theorem Trace.safe {steps : List Step} (htrace : Trace limits s steps) (h : Consistent limits s)
    (ht : Timed s) :
    (∀ e ∈ steps, Admitted limits e.after ∧ Orderly e) ∧
      (Separate limits s → (∀ e ∈ steps, e.action.apart e.before) →
        ∀ e ∈ steps, Exclusive limits e.after) := by
  induction htrace with
  | nil s => simp
  | @cons s s' action steps htime hstep _ ih =>
    have hc := step_ok htime hstep
    obtain ⟨hsafe, hexclusive⟩ := ih (h.change hc) (ht.change h hc)
    refine ⟨?_, fun hseparate hapart => ?_⟩
    · rintro e (_ | ⟨_, he⟩)
      · exact ⟨(h.change hc).admittedJobs, h.orderly htime hstep⟩
      · exact hsafe e he
    · have hnext := hseparate.change h ht (hapart _ List.mem_cons_self) hc
      rintro e (_ | ⟨_, he⟩)
      · exact hnext.exclusive
      · exact hexclusive hnext (fun d hd => hapart d (List.mem_cons_of_mem _ hd)) e he

def next (limits : Limits) (s : State) (action : Action) : State := (step limits s action).getD s

/-- The run of a list of actions. -/
def play (limits : Limits) : State → List Action → List Step
  | _, [] => []
  | s, action :: actions =>
    ⟨s, action, next limits s action⟩ :: play limits (next limits s action) actions

theorem Trace.play {actions : List Action} (h : ∀ e ∈ play limits s actions,
    e.action.onTime e.before ∧ (step limits e.before e.action).isSome = true) :
    Trace limits s (play limits s actions) := by
  induction actions generalizing s with
  | nil => exact .nil s
  | cons action actions ih =>
    obtain ⟨⟨htime, hsome⟩, hrest⟩ := List.forall_mem_cons.mp h
    exact .cons htime (Option.eq_some_of_isSome hsome |>.trans
      (congrArg some (Option.get_eq_getD ..))) (ih hrest)

/-- A transfer of a project in the terminal `t`. -/
def transfer (operation : String) (deadline : Instant) : Request where
  identity := ⟨operation, 1, "project", "machine", some "t"⟩
  lane := .transfer
  deadline := deadline
  command := { program := "run", timeout := 1 }

end Herdr.Executor
