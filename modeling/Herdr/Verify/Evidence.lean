import Herdr.Lib.Log
import Herdr.Verify.Ownership

/-!
# The order of launch evidence

Each event of a launch is guarded when it is recorded. `Guard` states what the guards see in the
log before the event; the log of every run is guarded, and the order of the evidence follows from
the guards alone. A start and a stop exclude each other through the state of their attempt.
-/

namespace Herdr

/-- No event of these kinds is recorded for the entity. -/
def Unrecorded (log : List Event) (entity : String) (kinds : List EventKind) : Prop :=
  ∀ e ∈ log, e.entity = entity → e.kind ∉ kinds

/-- The body is recorded for the entity. -/
def Recorded (log : List Event) (entity : String) (body : EventBody) : Prop :=
  ∃ e ∈ log, e.entity = entity ∧ e.body = body

/-- What the log before a piece of launch evidence looks like, for one kind at a time. -/
def Guard (entity : String) (log : List Event) (e : Event) : Prop :=
  e.entity = entity →
    match e.body with
    | .launchCreation _ => Unrecorded log entity [.launchCreation, .launchTarget]
    | .launchWorkspace _ => Unrecorded log entity [.launchWorkspace]
    | .launchLayout _ => Unrecorded log entity [.launchLayout]
    | .launchTarget _ => Unrecorded log entity [.launchTarget]
    | .launchRelease intent => Unrecorded log entity [.launchRelease] ∧
        Recorded log entity (.launchTarget intent.target) ∧
        ∃ creation, Recorded log entity (.launchCreation creation)
    | .launchName _ => Unrecorded log entity [.launchName]
    | .launchStarted _ => Unrecorded log entity [.launchStarted, .launchStopped] ∧
        ∃ target, Recorded log entity (.launchTarget target) ∧ (target.version = 2 →
          ∃ intent, Recorded log entity (.launchRelease intent) ∧ intent.target = target)
    | .launchStopped _ => Unrecorded log entity [.launchStarted, .launchStopped]
    | _ => True

section Log

variable {s s' : Store} {entity : String} {log log' : List Event}

theorem unrecorded_of_hasEvent {kinds : List EventKind} (h : s.hasEvent entity kinds = false) :
    Unrecorded s.events entity kinds := by
  intro e he hentity hkind
  rw [Store.hasEvent, List.any_eq_false] at h
  exact h e he (by simp [Event.isAbout, hentity, hkind])

theorem Unrecorded.mono {kinds kinds' : List EventKind} (h : Unrecorded log entity kinds)
    (hsub : kinds' ⊆ kinds) : Unrecorded log entity kinds' :=
  fun e he hentity hkind => h e he hentity (hsub hkind)

theorem Unrecorded.quiet {kinds : List EventKind} (h : Unrecorded log entity kinds)
    (hquiet : QuietLog log log') (hkinds : ∀ k ∈ kinds, k.evidence = true) :
    Unrecorded log' entity kinds := by
  obtain ⟨es, rfl, hes⟩ := hquiet
  intro e he hentity hkind
  rcases List.mem_append.mp he with he | he
  · exact h e he hentity hkind
  · have hevidence := hkinds _ hkind
    rw [EventKind.evidence_eq_false (hes e he)] at hevidence
    cases hevidence

theorem Recorded.quiet {body : EventBody} (h : Recorded log entity body)
    (hquiet : QuietLog log log') : Recorded log' entity body := by
  obtain ⟨es, rfl, -⟩ := hquiet
  obtain ⟨e, he, hrest⟩ := h
  exact ⟨e, List.mem_append_left _ he, hrest⟩

/-- An event that a reader found is recorded. -/
theorem event?_some {α : Type} {select : EventBody → Option α} {a : α}
    (h : s.event? entity select = some a) :
    ∃ e ∈ s.events, e.entity = entity ∧ select e.body = some a := by
  obtain ⟨e, he, hselect⟩ := List.exists_of_findSome?_eq_some h
  split at hselect
  · next hentity => exact ⟨e, he, hentity, hselect⟩
  · cases hselect

theorem recorded_creation {intent : LaunchCreationIntent}
    (h : s.event? entity EventBody.creation? = some intent) :
    Recorded s.events entity (.launchCreation intent) := by
  obtain ⟨e, he, hentity, hselect⟩ := event?_some h
  refine ⟨e, he, hentity, ?_⟩
  cases hbody : e.body <;> simp_all [EventBody.creation?]

theorem recorded_target {target : LaunchTarget}
    (h : s.event? entity EventBody.target? = some target) :
    Recorded s.events entity (.launchTarget target) := by
  obtain ⟨e, he, hentity, hselect⟩ := event?_some h
  refine ⟨e, he, hentity, ?_⟩
  cases hbody : e.body <;> simp_all [EventBody.target?]

theorem recorded_release {intent : LaunchReleaseIntent}
    (h : s.event? entity EventBody.release? = some intent) :
    Recorded s.events entity (.launchRelease intent) := by
  obtain ⟨e, he, hentity, hselect⟩ := event?_some h
  refine ⟨e, he, hentity, ?_⟩
  cases hbody : e.body <;> simp_all [EventBody.release?]

theorem unrecorded_target (h : s.event? entity EventBody.target? = none) :
    Unrecorded s.events entity [.launchTarget] := by
  intro e he hentity hkind
  have hnone := List.findSome?_eq_none_iff.mp h e he
  rw [if_pos hentity] at hnone
  cases hbody : e.body <;> simp_all [Event.kind, EventBody.kind, EventBody.target?]

/-- Events that are no evidence are not guarded. -/
theorem guard_of_quiet {e : Event} (h : e.kind.evidence = false) (log : List Event) :
    Guard entity log e := by
  intro _
  cases hbody : e.body <;> simp_all [Event.kind, EventBody.kind, EventKind.evidence]

theorem guarded_quiet (h : Log.Guarded (Guard entity) log) (hquiet : QuietLog log log') :
    Log.Guarded (Guard entity) log' := by
  obtain ⟨es, rfl, hes⟩ := hquiet
  exact h.append fun e he log => guard_of_quiet (EventKind.evidence_eq_false (hes e he)) log

end Log

/-! ## What the guards say about the whole log -/

section Linear

variable {entity : String} {log : List Event}

/-- The evidence that may be recorded once. -/
def linearKinds : List EventKind :=
  [.launchCreation, .launchWorkspace, .launchLayout, .launchTarget, .launchRelease, .launchName,
    .launchStarted]

/-- Evidence excludes its own kind. -/
theorem Guard.once {e : Event} {kind : EventKind} (h : Guard entity log e)
    (hentity : e.entity = entity) (hkind : e.kind = kind) (hlinear : kind ∈ linearKinds) :
    Unrecorded log entity [kind] := by
  have hguard := h hentity
  subst hkind
  cases hbody : e.body <;>
    simp only [Event.kind, hbody, EventBody.kind, linearKinds, List.mem_cons, reduceCtorEq,
      List.not_mem_nil, or_self, or_false, or_true] at hlinear hguard ⊢
  case launchCreation => exact hguard.mono (by simp)
  case launchWorkspace => exact hguard
  case launchLayout => exact hguard
  case launchTarget => exact hguard
  case launchRelease => exact hguard.1
  case launchName => exact hguard
  case launchStarted => exact hguard.1.mono (by simp)

/-- The order of the evidence about one launch. -/
structure LinearEvidence (entity : String) (log : List Event) : Prop where
  /-- Each kind is recorded at most once. -/
  once : ∀ kind ∈ linearKinds, (log.countP fun e => e.isAbout entity [kind]) ≤ 1
  /-- A gated start comes after the release of its target, the target after which that came, and
  the creation after which that came. -/
  ordered : ∀ (before after : List Event) (start : Event) (receipt : LaunchStartedReceipt)
    (target : LaunchTarget), log = before ++ start :: after → start.entity = entity →
    start.body = .launchStarted receipt → Recorded log entity (.launchTarget target) →
    target.version = 2 →
    ∃ created selected released, [created, selected, released].Sublist before ∧
      (created.entity = entity ∧ ∃ intent, created.body = .launchCreation intent) ∧
      (selected.entity = entity ∧ selected.body = .launchTarget target) ∧
      (released.entity = entity ∧ ∃ intent, released.body = .launchRelease intent ∧
        intent.target = target)
  /-- A start and a stop are never both recorded. -/
  exclusive : Unrecorded log entity [.launchStarted] ∨ Unrecorded log entity [.launchStopped]

theorem guarded_once (h : Log.Guarded (Guard entity) log) {kind : EventKind}
    (hlinear : kind ∈ linearKinds) : (log.countP fun e => e.isAbout entity [kind]) ≤ 1 := by
  refine h.countP_le_one fun pre e hguard he e' he' => ?_
  simp only [Event.isAbout, List.contains_cons, List.contains_nil, Bool.or_false, Bool.and_eq_true,
    decide_eq_true_eq, beq_iff_eq] at he
  have hunrecorded := hguard.once he.1 he.2 hlinear e' he'
  simp only [Event.isAbout, Bool.and_eq_false_imp, decide_eq_true_eq]
  intro hentity
  simpa using hunrecorded hentity

/-- Two selected targets are one. -/
theorem guarded_target (h : Log.Guarded (Guard entity) log) {t u : LaunchTarget}
    (ht : Recorded log entity (.launchTarget t)) (hu : Recorded log entity (.launchTarget u)) :
    t = u := by
  obtain ⟨e, he, hentity, hbody⟩ := ht
  obtain ⟨e', he', hentity', hbody'⟩ := hu
  have hee : e = e' := h.eq_of_mem (p := fun e => e.entity = entity ∧ e.kind = .launchTarget)
    (fun pre e hguard hp e' he' hp' =>
      hguard.once hp.1 hp.2 (by simp [linearKinds]) e' he' hp'.1 (by simp [hp'.2]))
    he he' ⟨hentity, by rw [Event.kind, hbody]; rfl⟩ ⟨hentity', by rw [Event.kind, hbody']; rfl⟩
  rw [hee, hbody'] at hbody
  cases hbody
  rfl

/-- The creation comes before the target: none is recorded after it. -/
theorem creation_first (h : Log.Guarded (Guard entity) log) {before after : List Event}
    (hlog : log = before ++ after) {created selected : Event} {intent : LaunchCreationIntent}
    {target : LaunchTarget} (hcreated : created ∈ before) (hselected : selected ∈ before)
    (hce : created.entity = entity) (hcb : created.body = .launchCreation intent)
    (hse : selected.entity = entity) (hsb : selected.body = .launchTarget target) :
    [created, selected].Sublist before := by
  refine h.pair_sublist (p := fun e => e.entity = entity ∧ ∃ i, e.body = .launchCreation i)
    (q := fun e => e.entity = entity ∧ e.kind = .launchTarget) ?_ hlog hcreated hselected
    ⟨hce, intent, hcb⟩ ⟨hse, by rw [Event.kind, hsb]; rfl⟩ ?_
  · rintro pre e hguard ⟨he, i, hi⟩ e' he' ⟨hentity, hkind⟩
    have hunrecorded := hguard he
    rw [hi] at hunrecorded
    exact hunrecorded e' he' hentity (by simp [hkind])
  · rintro rfl
    rw [hcb] at hsb
    cases hsb

/-- **The order of the evidence** follows from the guards. -/
theorem guarded_linear (h : Log.Guarded (Guard entity) log) : LinearEvidence entity log := by
  refine ⟨fun kind hkind => guarded_once h hkind, ?_, ?_⟩
  · intro before after start receipt target hlog hentity hbody htarget hversion
    have hguard := h before start after hlog hentity
    rw [hbody] at hguard
    obtain ⟨-, target', htarget', hrelease⟩ := hguard
    have hmono : ∀ {body}, Recorded before entity body → Recorded log entity body := by
      rintro body ⟨e, he, hrest⟩
      exact ⟨e, hlog ▸ List.mem_append_left _ he, hrest⟩
    obtain rfl := guarded_target h (hmono htarget') htarget
    obtain ⟨intent, ⟨released, hreleased, hre, hrb⟩, hintent⟩ := hrelease hversion
    -- the release was guarded too, over the log before it
    obtain ⟨before', between, rfl⟩ := List.append_of_mem hreleased
    have hsplit : log = before' ++ released :: (between ++ start :: after) := by simp [hlog]
    have hguard := h before' released _ hsplit hre
    rw [hrb] at hguard
    obtain ⟨-, ⟨selected, hselected, hse, hsb⟩, creation, created, hcreated, hce, hcb⟩ := hguard
    rw [hintent] at hsb
    have hfirst := creation_first h hsplit hcreated hselected hce hcb hse hsb
    refine ⟨created, selected, released, ?_, ⟨hce, creation, hcb⟩, ⟨hse, hsb⟩,
      ⟨hre, intent, hrb, hintent⟩⟩
    exact hfirst.append (List.singleton_sublist.mpr (List.mem_cons_self ..))
  · by_contra hboth
    rw [not_or] at hboth
    have hexists : ∀ {kind}, ¬Unrecorded log entity [kind] →
        ∃ e ∈ log, e.entity = entity ∧ e.kind = kind := by
      intro kind hnot
      by_contra hnone
      exact hnot fun e he hentity hkind => hnone ⟨e, he, hentity, by simpa using hkind⟩
    obtain ⟨e, he, hentity, hkind⟩ := hexists hboth.1
    obtain ⟨e', he', hentity', hkind'⟩ := hexists hboth.2
    have hee : e = e' := h.eq_of_mem
      (p := fun e => e.entity = entity ∧ (e.kind = .launchStarted ∨ e.kind = .launchStopped)) ?_
      he he' ⟨hentity, .inl hkind⟩ ⟨hentity', .inr hkind'⟩
    · rw [hee, hkind'] at hkind
      cases hkind
    · rintro pre e hguard ⟨hentity, hkind⟩ e' he' ⟨hentity', hkind'⟩
      have hunrecorded : Unrecorded pre entity [.launchStarted, .launchStopped] := by
        have hguard := hguard hentity
        cases hbody : e.body <;> simp_all [Event.kind, EventBody.kind]
      exact hunrecorded e' he' hentity' (by rcases hkind' with hk | hk <;> simp [hk])

end Linear

/-! ## Calls keep the log guarded -/

section Calls

variable {s s' : Store} {entity : String}

/-- With no target on record, its exact copies are among the workspaces, of which there is at most
one. -/
theorem exactTargets_le_one {target : LaunchTarget}
    (h : Log.Guarded (Guard target.operation.val) s.events)
    (hnone : Unrecorded s.events target.operation.val [.launchTarget]) :
    s.exactTargets target ≤ 1 := by
  have hone : (s.events.countP fun e => e.isAbout target.operation.val [.launchWorkspace]) ≤ 1 :=
    guarded_once h (by simp [linearKinds])
  refine le_trans ?_ hone
  refine List.countP_mono_left fun e he hexact => ?_
  simp only [Bool.and_eq_true, Bool.or_eq_true, decide_eq_true_eq] at hexact
  obtain ⟨hentity, hbody | hbody⟩ := hexact
  · simp [Event.isAbout, hentity, Event.kind, hbody, EventBody.kind]
  · exact absurd (by simp [Event.kind, hbody, EventBody.kind]) (hnone e he hentity)

theorem Prepares.guarded {c : Claim} {es log : List Event} (h : Prepares s c es)
    (hlog : Log.Guarded (Guard entity) log) (hquiet : QuietLog s.events log) :
    Log.Guarded (Guard entity) (log ++ es) := by
  cases h with
  | none => simpa using hlog
  | worktrees intent => exact hlog.snoc (guard_of_quiet rfl _)
  | native intent fresh =>
    refine hlog.snoc ?_
    rintro rfl
    exact ((unrecorded_of_hasEvent fresh).quiet hquiet (by decide)).mono (by simp)

/-- A direct root records its workspace first; there is none yet. -/
theorem targetEvents_guarded {target : LaunchTarget} {revision : Nat} {direct : Bool}
    (hlog : Log.Guarded (Guard entity) s.events)
    (fresh : s.event? target.operation.val EventBody.target? = none)
    (root : direct = true →
      s.hasEvent target.operation.val [.launchLayout, .launchWorkspace] = true →
      s.exactTargets target = 2) :
    Log.Guarded (Guard entity) (s.events ++ targetEvents target revision direct) := by
  have hnone := unrecorded_target fresh
  cases direct with
  | false =>
    refine hlog.snoc ?_
    rintro rfl
    exact hnone
  | true =>
    have hworkspace : Guard entity s.events
        ⟨target.operation.val, revision, .launchWorkspace target⟩ := by
      rintro rfl
      cases hlegacy : s.hasEvent target.operation.val [.launchLayout, .launchWorkspace] with
      | false => exact (unrecorded_of_hasEvent hlegacy).mono (by simp)
      | true =>
        have hexact := root rfl hlegacy
        have hle := exactTargets_le_one hlog hnone
        omega
    have htarget : Guard entity
        (s.events ++ [⟨target.operation.val, revision, .launchWorkspace target⟩])
        ⟨target.operation.val, revision, .launchTarget target⟩ := by
      rintro rfl e he hentity hkind
      rcases List.mem_append.mp he with he | he
      · exact hnone e he hentity hkind
      · rw [List.mem_singleton.mp he] at hkind
        simp [Event.kind, EventBody.kind] at hkind
    have h := (hlog.snoc hworkspace).snoc htarget
    rw [List.append_assoc] at h
    exact h

theorem Records.guarded {es : List Event} (h : Records s es)
    (hlog : Log.Guarded (Guard entity) s.events) : Log.Guarded (Guard entity) (s.events ++ es) := by
  cases h with
  | prepares hp => exact hp.guarded hlog (.refl _)
  | workspace layout revision fresh =>
    refine hlog.snoc ?_
    rintro rfl
    have hunrecorded := unrecorded_of_hasEvent fresh
    cases layout with
    | false => exact hunrecorded.mono (by simp [workspaceKind])
    | true => exact hunrecorded.mono (by simp [workspaceKind])
  | target revision direct fresh root => exact targetEvents_guarded hlog fresh root
  | @gate operation intent revision naming target creation fresh =>
    refine hlog.snoc ?_
    rintro rfl
    have hunrecorded := unrecorded_of_hasEvent fresh
    cases naming with
    | true => exact hunrecorded.mono (by simp [gateKind])
    | false =>
      obtain ⟨created, hcreated⟩ := creation
      exact ⟨hunrecorded.mono (by simp [gateKind]), recorded_target target,
        created, recorded_creation hcreated⟩

/-! ### Starts and stops -/

/-- The kinds that end the staging of a launch. -/
def endKinds : List EventKind := [.launchStarted, .launchStopped]

theorem evidence_of_end {kind : EventKind} (h : kind ∈ endKinds) : kind.evidence = true := by
  simp only [endKinds, List.mem_cons, List.not_mem_nil, or_false] at h
  rcases h with rfl | rfl <;> rfl

/-- Once a start or a stop is on record, the attempt of the launch is not reserved any more. -/
def LaunchOver (operation : OperationId) (s : Store) : Prop :=
  Unrecorded s.events operation.val endKinds ∨
    ∃ record a, s.inputs.find operation = some record ∧
      s.attempts.find record.attempt = some a ∧ a.state ≠ .reserved

/-- So nothing of the kind is on record while the attempt is reserved. -/
theorem LaunchOver.unrecorded {operation : OperationId} (h : LaunchOver operation s)
    {record : AttemptInputRecord} {a : Attempt} (hinput : s.inputs.find operation = some record)
    (ha : s.attempts.find record.attempt = some a) (hreserved : a.state = .reserved) :
    Unrecorded s.events operation.val endKinds := by
  rcases h with h | ⟨record', a', hinput', ha', hstate⟩
  · exact h
  · rw [hinput] at hinput'
    cases hinput'
    rw [ha] at ha'
    cases ha'
    exact absurd hreserved hstate

theorem Records.not_end {es : List Event} (h : Records s es) : ∀ e ∈ es, e.kind ∉ endKinds := by
  intro e he hend
  have hkind := h.kind_mem e he
  simp only [endKinds, List.mem_cons, List.not_mem_nil, or_false] at hend
  rcases hend with hend | hend <;> simp [hend, recordKinds] at hkind

theorem unrecorded_append {log es : List Event} {kinds : List EventKind}
    (h : Unrecorded log entity kinds) (hes : ∀ e ∈ es, e.entity = entity → e.kind ∉ kinds) :
    Unrecorded (log ++ es) entity kinds := by
  intro e he hentity
  rcases List.mem_append.mp he with he | he
  · exact h e he hentity
  · exact hes e he hentity

variable [Digests] {env : Outside} {o : Option Claim}

/-- The evidence that one call adds. -/
inductive EvidenceMove (s s' : Store) : Prop
  | quiet (h : QuietLog s.events s'.events)
  | records {es log : List Event} (quiet : QuietLog s.events log) (h : s'.events = log ++ es)
    (guarded : ∀ {entity}, Log.Guarded (Guard entity) log → Log.Guarded (Guard entity) s.events →
      Log.Guarded (Guard entity) s'.events)
    (not_end : ∀ e ∈ es, e.kind ∉ endKinds)
  | starts {claim : Option Claim} {receipt : LaunchStartedReceipt} {record : AttemptInputRecord}
    {attempt : Attempt} {task : Task} {target : LaunchTarget} {old : Delivery} {now : Int}
    (acknowledged : Acknowledges s claim receipt record attempt task target)
    (published : PublishesStart s s' receipt old attempt now)
  | stops {operation : OperationId} {attempt : Attempt} {task : Task}
    (ended : Ends s s' attempt task) (stopped : Stops s s' operation attempt)

/-- A reservation records no evidence. -/
theorem Reserves.no_evidence {record : AttemptInputRecord} {task : Task} {now : Int}
    (h : Reserves s s' record task now) :
    ∃ es, s'.events = s.events ++ es ∧ ∀ e ∈ es, e.kind.evidence = false := by
  obtain ⟨es, he, hes⟩ := h.log
  refine ⟨[_] ++ es, by rw [he, List.append_assoc], fun e hmem => ?_⟩
  rcases List.mem_append.mp hmem with hmem | hmem
  · rw [List.mem_singleton.mp hmem]
    rfl
  · exact EventKind.evidence_eq_false (hes e hmem)

theorem Effect.evidence (h : Effect env s o s') : EvidenceMove s s' := by
  cases h with
  | reads => exact .quiet (.refl _)
  | claims claimed =>
    obtain ⟨log, es, hquiet, he, hp⟩ := claimed.log
    refine .records hquiet he (fun hlog _ => he ▸ hp.guarded hlog hquiet) ?_
    exact (Records.prepares hp).not_end
  | settles _ settled => exact .quiet settled.log
  | expires _ only => exact .quiet only.log
  | records recorded =>
    exact .records (.refl _) rfl (fun _ hlog => recorded.guarded hlog) recorded.not_end
  | starts _ acknowledged published => exact .starts acknowledged published
  | reserves _ _ _ reserved =>
    obtain ⟨es, he, hes⟩ := reserved.no_evidence
    refine .records (.refl _) he (fun _ hlog => ?_) fun e hmem hend => ?_
    · rw [he]
      exact hlog.append fun e hmem log => guard_of_quiet (hes e hmem) log
    · have hevidence := evidence_of_end hend
      rw [hes e hmem] at hevidence
      cases hevidence
  | cancels cancelled => exact .quiet cancelled.log
  | ends _ quiet => exact .quiet quiet
  | stops ended stopped => exact .stops ended stopped
  | completes _ _ quiet => exact .quiet quiet
  | queues queued => exact .quiet queued.log
  | adopts _ quiet => exact .quiet quiet

omit [Digests] in
theorem OperationId.eq_of_val {a b : OperationId} (h : a.val = b.val) : a = b :=
  congrArg OperationId.mk h

omit [Digests] in
/-- The attempt that a start launches is not reserved any more. -/
theorem PublishesStart.left {receipt : LaunchStartedReceipt} {old : Delivery} {attempt : Attempt}
    {now : Int} {record : AttemptInputRecord} (h : PublishesStart s s' receipt old attempt now)
    (hinput : s.inputs.find receipt.operation = some record)
    (ha : s.attempts.find record.attempt = some attempt) :
    ∃ record a, s'.inputs.find receipt.operation = some record ∧
      s'.attempts.find record.attempt = some a ∧ a.state ≠ .reserved := by
  have hid : attempt.id = record.attempt := Table.find_key ha
  refine ⟨record, attempt.launched, ?_, ?_, by simp [Attempt.launched]⟩
  · rw [h.frame]
    exact hinput
  · rw [h.frame, ← hid]
    exact Table.find_update_self (a := attempt.launched) (hid ▸ ha)

/-- Neither is the attempt whose staged launch was stopped. -/
theorem Stops.left {operation : OperationId} {attempt : Attempt} {task : Task}
    (h : Stops s s' operation attempt) (hends : Ends s s' attempt task) :
    ∃ record a, s'.inputs.find operation = some record ∧
      s'.attempts.find record.attempt = some a ∧ a.state ≠ .reserved := by
  obtain ⟨record, hsealed, hattempt⟩ := h.sealed
  obtain ⟨state, hstate, hattempts⟩ := hends.attempts
  refine ⟨record, attempt.ended state, ?_, ?_, hstate⟩
  · rw [hends.frame]
    exact hsealed.input
  · rw [hattempts, hattempt]
    exact Table.find_update_self (a := attempt.ended state) hends.attemptRow

/-- What is over stays over. -/
theorem LaunchOver.step {operation : OperationId} (h : LaunchOver operation s)
    (he : Effect env s o s') : LaunchOver operation s' := by
  rcases h with hnone | ⟨record, a, hinput, ha, hstate⟩
  · cases he.evidence with
    | quiet hquiet => exact .inl (hnone.quiet hquiet (by decide))
    | records hquiet hevents _ hnot =>
      rw [LaunchOver, hevents]
      exact .inl (unrecorded_append (hnone.quiet hquiet (by decide)) fun e he _ => hnot e he)
    | @starts _ receipt record attempt _ _ _ _ acknowledged published =>
      by_cases hop : receipt.operation = operation
      · subst hop
        exact .inr (published.left acknowledged.sealed.input acknowledged.attemptRow)
      · obtain ⟨log, hquiet, hquiet'⟩ := published.log
        refine .inl (Unrecorded.quiet (unrecorded_append (hnone.quiet hquiet (by decide)) ?_)
          hquiet' (by decide))
        intro e he hentity
        rw [List.mem_singleton.mp he] at hentity
        exact absurd (OperationId.eq_of_val hentity) hop
    | @stops op attempt task ended stopped =>
      by_cases hop : op = operation
      · subst hop
        exact .inr (stopped.left ended)
      · obtain ⟨log, receipt, revision, hquiet, hevents⟩ := stopped.log
        rw [LaunchOver, hevents]
        refine .inl (unrecorded_append (hnone.quiet hquiet (by decide)) ?_)
        intro e he hentity
        rw [List.mem_singleton.mp he] at hentity
        exact absurd (OperationId.eq_of_val hentity) hop
  · obtain ⟨a', ha', hmove⟩ := he.attempt ha
    exact .inr ⟨record, a', he.grows.inputs.find hinput, ha', hmove.left_reserved hstate⟩

theorem guarded_step {operation : OperationId}
    (hlog : Log.Guarded (Guard operation.val) s.events) (hover : LaunchOver operation s)
    (he : Effect env s o s') : Log.Guarded (Guard operation.val) s'.events := by
  cases he.evidence with
  | quiet hquiet => exact guarded_quiet hlog hquiet
  | records hquiet _ hguarded _ => exact hguarded (guarded_quiet hlog hquiet) hlog
  | @starts _ receipt record attempt _ target _ _ acknowledged published =>
    obtain ⟨log, hquiet, hquiet'⟩ := published.log
    refine guarded_quiet ((guarded_quiet hlog hquiet).snoc ?_) hquiet'
    intro hentity
    obtain rfl := OperationId.eq_of_val hentity
    refine ⟨?_, target, (recorded_target acknowledged.selected).quiet hquiet, fun hversion => ?_⟩
    · exact (hover.unrecorded acknowledged.sealed.input acknowledged.attemptRow
        acknowledged.reserved).quiet hquiet (by decide)
    · obtain ⟨intent, hrelease, hintent⟩ := acknowledged.release hversion
      exact ⟨intent, (recorded_release hrelease).quiet hquiet, hintent⟩
  | @stops op attempt task ended stopped =>
    obtain ⟨log, receipt, revision, hquiet, hevents⟩ := stopped.log
    rw [hevents]
    refine (guarded_quiet hlog hquiet).snoc ?_
    intro hentity
    obtain rfl := OperationId.eq_of_val hentity
    obtain ⟨record, hsealed, hattempt⟩ := stopped.sealed
    exact (hover.unrecorded hsealed.input (hattempt ▸ ended.attemptRow) stopped.reserved).quiet
      hquiet (by decide)

/-- **Launch evidence is linear.** From a store with no evidence about the operation, over any
interleaving of calls. -/
theorem launch_evidence_linear {s : Store} {operation : OperationId}
    (hfresh : ∀ e ∈ s.events, e.entity = operation.val → e.kind.evidence = false)
    (calls : List Call) : LinearEvidence operation.val (runFrom s calls).state.events := by
  have hguarded : Log.Guarded (Guard operation.val) s.events := by
    refine .of_forall fun e he log hentity => ?_
    exact guard_of_quiet (hfresh e he hentity) log hentity
  have hover : LaunchOver operation s := by
    refine .inl fun e he hentity hkind => ?_
    have hquiet := hfresh e he hentity
    simp only [endKinds, List.mem_cons, List.not_mem_nil, or_false] at hkind
    rcases hkind with hkind | hkind <;> simp [hkind, EventKind.evidence] at hquiet
  have hinv : Log.Guarded (Guard operation.val) (runFrom s calls).state.events ∧
      LaunchOver operation (runFrom s calls).state := by
    unfold runFrom
    apply Run.invariant (I := fun run : StoreRun =>
      Log.Guarded (Guard operation.val) run.state.events ∧ LaunchOver operation run.state)
    · exact ⟨hguarded, hover⟩
    rintro run call - ⟨hlog, hrun⟩
    have heffect := exec_effect call run.state
    exact ⟨guarded_step hlog hrun heffect, hrun.step heffect⟩
  exact guarded_linear hinv.1

end Calls

/-- The evidence of the sample launch. -/
theorem launch_evidence_linear_sample :
    LinearEvidence Sample.record.operation.val
      (@runFrom Sample.digests Sample.store (Sample.admission :: Sample.launch)).state.events :=
  @launch_evidence_linear Sample.digests Sample.store Sample.record.operation
    (fun e he => absurd he (by simp [Sample.store, Store.created]))
    (Sample.admission :: Sample.launch)

end Herdr
