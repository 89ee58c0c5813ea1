import Herdr.Verify.Attempts
import Herdr.Verify.SingleUse

/-!
# Cancellation fences the launch

A cancellation request moves the revision of its attempt, and every step of a launch that needs
authority requires the attempt as the reservation left it. So after a committed cancellation no
claim, validation, release or naming of the launch succeeds, whether or not capacity was released;
only the exact replay of a start that was confirmed before still answers, and it writes nothing.
-/

namespace Herdr

section Fence

variable [Digests] {env : Outside} {s s' : Store} {o : Option Claim} {record : AttemptInputRecord}

/-! ## Admission of the attempt -/

/-- The call created the attempt of this record. -/
structure Admitted (s : Store) (call : Call) (record : AttemptInputRecord) : Prop where
  new : s.attempts.find record.attempt = none
  answer : ∃ reservation : Reservation, reservation.record = record ∧
    (exec call s).1 = .ok (.reservation (some reservation))

/-- Only an admission answers with a reservation. -/
theorem admission_of_answer {method : Method} {result : Option Reservation}
    (h : method.body env s = .ok (.reservation result, s')) :
    ∃ prepared head now draft delegated,
      admitPrepared env prepared head now draft delegated s = .ok (result, s') := by
  cases method <;> simp only [Method.body, Tx.map_ok, Response.reservation.injEq, reduceCtorEq,
    and_false, exists_false] at h
  obtain ⟨_, h, rfl⟩ := h
  exact ⟨_, _, _, _, _, h⟩

theorem Admitted.reserves {call : Call} (h : Admitted s call record) :
    ∃ task now, Admissible s task ∧ record.inputs.task = task.id ∧
      call.outside.overlap task.id = none ∧ Reserves s (exec call s).2 record task now := by
  obtain ⟨hnew, reservation, rfl, hanswer⟩ := h
  obtain ⟨_, _, now, _, _, hbody⟩ := admission_of_answer (Tx.commit_ok hanswer)
  rcases admitPrepared_ok hbody with ⟨-, hreplayed⟩ | ⟨r, task, hr, hadmissible, htask, hclear, hreserves⟩
  · obtain ⟨a, ha⟩ := hreplayed _ rfl
    rw [hnew] at ha
    cases ha
  · cases hr
    exact ⟨task, now, hadmissible, htask, hclear, hreserves⟩

/-! ## Cancelled launches -/

/-- Every cancellation request is about an attempt that is there: the table's foreign key. -/
def CancellationsReferenced (s : Store) : Prop :=
  ∀ request ∈ s.cancellations.rows, ∃ a, s.attempts.find request.attempt = some a

/-- Requests are added by cancellations only. -/
theorem Effect.cancellation (h : Effect env s o s') {request : CancellationRequest}
    (hr : request ∈ s'.cancellations.rows) :
    request ∈ s.cancellations.rows ∨
      ∃ attempt task released, Cancels s s' attempt task request released := by
  cases h.sealedMove with
  | same _ _ cancellations =>
    rw [cancellations] at hr
    exact .inl hr
  | reserves _ reserved =>
    rw [reserved.frame] at hr
    exact .inl hr
  | cancels cancelled =>
    rcases (Table.mem_insert? cancelled.cancellations).mp hr with hr | rfl
    · exact .inl hr
    · exact .inr ⟨_, _, _, cancelled⟩

theorem CancellationsReferenced.step (h : CancellationsReferenced s) (he : Effect env s o s') :
    CancellationsReferenced s' := by
  intro request hr
  have hbefore : ∃ a, s.attempts.find request.attempt = some a := by
    rcases he.cancellation hr with hr | ⟨attempt, task, released, hc⟩
    · exact h request hr
    · exact ⟨attempt, hc.request_attempt ▸ hc.attemptRow⟩
  obtain ⟨a, ha⟩ := hbefore
  obtain ⟨a', ha', -⟩ := he.attempt ha
  exact ⟨a', ha'⟩

/-- The attempt of the record was touched after its reservation. -/
def Touched (record : AttemptInputRecord) (s : Store) : Prop :=
  ∃ a, s.attempts.find record.attempt = some a ∧ 2 ≤ a.revision

theorem Touched.step (h : Touched record s) (he : Effect env s o s') : Touched record s' := by
  obtain ⟨a, ha, hrevision⟩ := h
  obtain ⟨a', ha', hmove⟩ := he.attempt ha
  exact ⟨a', ha', hrevision.trans hmove.revision_le⟩

/-- A touched attempt has no launch that is still eligible. -/
theorem Touched.ineligible (h : Touched record s) (hl : LaunchOf record s) :
    ¬∃ r attempt task, LaunchEligible s record.operation r attempt task := by
  rintro ⟨r, attempt, task, he⟩
  obtain ⟨a, ha, hrevision⟩ := h
  obtain rfl := hl.sealed he.sealed
  rw [he.attemptRow] at ha
  cases ha
  have huntouched := he.untouched
  omega

/-- The launch of an admitted attempt; a request for its cancellation has touched it. -/
structure Cancellable (record : AttemptInputRecord) (s : Store) : Prop where
  launch : LaunchOf record s
  touched : ∀ request ∈ s.cancellations.rows, request.attempt = record.attempt → Touched record s

/-- The first request moves the revision of its attempt. -/
theorem Cancels.touched {attempt : Attempt} {task : Task} {request : CancellationRequest}
    {released : Bool} (h : Cancels s s' attempt task request released) (hl : LaunchOf record s)
    (hid : attempt.id = record.attempt) : Touched record s' := by
  obtain ⟨a, ha, hrevision⟩ := hl.attempt
  have hattempt := h.attemptRow
  rw [hid, ha] at hattempt
  cases hattempt
  refine ⟨attempt.cancel released, ?_, Nat.succ_le_succ hrevision⟩
  rw [h.attempts, ← hid]
  exact Table.find_update_self (a := attempt.cancel released) h.attemptRow

theorem Cancellable.step (h : Cancellable record s) (he : Effect env s o s') : Cancellable record s' := by
  refine ⟨h.launch.step he, fun request hr hid => ?_⟩
  rcases he.cancellation hr with hr | ⟨attempt, task, released, hc⟩
  · exact (h.touched request hr hid).step he
  · exact hc.touched h.launch (hc.request_attempt ▸ hid)

theorem Admitted.cancellable {call : Call} (h : Admitted s call record)
    (hreferenced : CancellationsReferenced s) : Cancellable record (exec call s).2 := by
  obtain ⟨task, now, -, -, -, hreserves⟩ := h.reserves
  refine ⟨hreserves.launchOf, fun request hr hid => ?_⟩
  rw [hreserves.frame] at hr
  obtain ⟨a, ha⟩ := hreferenced request hr
  rw [hid, h.new] at ha
  cases ha

/-- A cancellation of the launch has been committed, for this reason. -/
structure Cancelled (record : AttemptInputRecord) (reason : String) (s : Store) : Prop where
  launch : LaunchOf record s
  touched : Touched record s
  request : ∃ request, s.cancellations.find record.attempt = some request ∧
    request.reason = reason

theorem Cancelled.step {reason : String} (h : Cancelled record reason s) (he : Effect env s o s') :
    Cancelled record reason s' := by
  obtain ⟨request, hrequest, hreason⟩ := h.request
  exact ⟨h.launch.step he, h.touched.step he,
    request, he.grows.cancellations.find hrequest, hreason⟩

theorem Cancelled.calls {reason : String} (run : StoreRun)
    (h : Cancelled record reason run.state) (calls : List Call) : Cancelled record reason (run.calls exec calls).state :=
  Run.invariant (I := fun q => Cancelled record reason q.state) h
    fun q call _ hq => hq.step (exec_effect call q.state)

/-- The call asks to cancel this attempt for this reason. -/
def Method.cancels (id : AttemptId) (reason : String) : Method → Prop
  | .cancelAttempt id' _ _ reason' _ => id' = id ∧ reason' = reason
  | _ => False

/-- A request that answered found the same request on record, or is the first. -/
theorem exec_cancel {cancel : Call} {id : AttemptId} {reason : String} {response : Response}
    (hcancel : cancel.method.cancels id reason) (hok : (exec cancel s).1 = .ok response) :
    (∃ request, s.cancellations.find id = some request ∧ request.reason = reason ∧
        (exec cancel s).2 = s) ∨
      (s.cancellations.find id = none ∧ ∃ attempt task now released, attempt.id = id ∧
        Cancels s (exec cancel s).2 attempt task ⟨id, now, reason⟩ released) := by
  have hbody := Tx.commit_ok hok
  obtain ⟨method, env⟩ := cancel
  cases method <;> simp only [Method.cancels] at hcancel
  obtain ⟨rfl, rfl⟩ := hcancel
  obtain ⟨change, hcancel, -⟩ := Tx.map_ok.mp hbody
  rcases cancelAttempt_ok hcancel with h | ⟨hnone, attempt, task, hid, hc⟩
  · exact .inl h
  · exact .inr ⟨hnone, attempt, task, _, _, hid, hc⟩

/-- A request hands out no claim. -/
theorem cancel_handedOut {cancel : Call} {id : AttemptId} {reason : String}
    (hcancel : cancel.method.cancels id reason) : handedOut (exec cancel s).1 = none := by
  cases hanswer : (exec cancel s).1 with
  | error e => rfl
  | ok response =>
    have hbody := Tx.commit_ok hanswer
    obtain ⟨method, env⟩ := cancel
    cases method <;> simp only [Method.cancels] at hcancel
    obtain ⟨change, -, rfl⟩ := Tx.map_ok.mp hbody
    rfl

/-- A cancellation that answered is committed. -/
theorem Cancellable.cancelled (h : Cancellable record s) {cancel : Call} {reason : String}
    {response : Response} (hcancel : cancel.method.cancels record.attempt reason)
    (hok : (exec cancel s).1 = .ok response) : Cancelled record reason (exec cancel s).2 := by
  rcases exec_cancel hcancel hok with ⟨request, hrequest, hreason, hs⟩ |
    ⟨-, attempt, task, now, released, hid, hc⟩
  · rw [hs]
    exact ⟨h.launch, h.touched request (Table.mem_of_find hrequest) (Table.find_key hrequest),
      request, hrequest, hreason⟩
  · have he : Effect cancel.outside s none (exec cancel s).2 := .cancels hc
    refine ⟨h.launch.step he, hc.touched h.launch hid, ⟨record.attempt, now, reason⟩,
      ?_, rfl⟩
    rw [Table.find_insert? hc.cancellations]
    exact if_pos rfl

/-! ## What a cancelled launch refuses -/

/-- The call needs the authority of a live launch of this operation. -/
def Method.advances (operation : OperationId) : Method → Prop
  | .claimOperation id .. => id = operation
  | .validateClaim c _ | .recordLaunchRelease c .. | .recordLaunchName c .. =>
    c.operation = operation
  | _ => False

theorem Cancelled.refused {reason : String} (h : Cancelled record reason s) {call : Call}
    (hadvances : call.method.advances record.operation) (response : Response) :
    (exec call s).1 ≠ .ok response := by
  intro hok
  obtain ⟨op, hop, hkind⟩ := h.launch.operation
  apply h.touched.ineligible h.launch
  have hbody := Tx.commit_ok hok
  obtain ⟨method, env⟩ := call
  cases method <;> simp only [Method.advances] at hadvances
  case claimOperation =>
    obtain ⟨_, hclaim, -⟩ := Tx.map_ok.mp hbody
    obtain ⟨hid, old, op', hclaimed⟩ := claimWithCreation_ok hclaim
    rw [← hadvances, ← hid] at hop ⊢
    have hop' := hclaimed.operation
    rw [hop] at hop'
    cases hop'
    obtain ⟨use, hconsumes⟩ := hclaimed.launch hkind
    obtain ⟨r, attempt, task, heligible, -⟩ := hconsumes.eligible
    exact ⟨r, attempt, task, heligible⟩
  case validateClaim =>
    obtain ⟨_, hvalidate, -⟩ := Tx.map_ok.mp hbody
    obtain ⟨-, old, op', -, -, hop', heligible⟩ := validateClaim_ok hvalidate
    rw [← hadvances] at hop ⊢
    rw [hop] at hop'
    cases hop'
    exact heligible hkind
  case recordLaunchRelease =>
    obtain ⟨_, hrecord, -⟩ := Tx.map_ok.mp hbody
    rw [← hadvances]
    exact (recordLaunchBoundary_ok hrecord).eligible
  case recordLaunchName =>
    obtain ⟨_, hrecord, -⟩ := Tx.map_ok.mp hbody
    rw [← hadvances]
    exact (recordLaunchBoundary_ok hrecord).eligible

/-- A start that still answers is the exact replay of the confirmed receipt. -/
theorem Cancelled.start {reason : String} (h : Cancelled record reason s) {c : Claim}
    {receipt : LaunchStartedReceipt} {now : Int} {env : Outside} {response : Response}
    (hc : c.operation = record.operation)
    (hok : (exec ⟨.recordLaunchStarted c receipt now, env⟩ s).1 = .ok response) :
    (exec ⟨.recordLaunchStarted c receipt now, env⟩ s).2 = s ∧
      ∃ row, s.deliveries.find receipt.operation = some row ∧ response = .delivery row ∧
        s.startReplayed row receipt = true := by
  obtain ⟨d, hstart, hd⟩ := Tx.map_ok.mp (Tx.commit_ok hok)
  obtain ⟨old, hold, ⟨hreplayed, hs, rfl⟩ | ⟨r, attempt, task, target, hack, -⟩⟩ :=
    applyLaunchStarted_ok hstart
  · exact ⟨hs, d, hold, hd.symm, hreplayed⟩
  · have heligible := hack.eligible c rfl
    rw [hc] at heligible
    exact absurd heligible (h.touched.ineligible h.launch)

/-- A repeated request changes nothing, and must give the reason of the first. -/
theorem Cancelled.repeated {reason reason' : String} (h : Cancelled record reason s)
    {again : Call} (hagain : again.method.cancels record.attempt reason') :
    (exec again s).2 = s ∧
      (reason' ≠ reason → ∀ response, (exec again s).1 ≠ .ok response) := by
  have hread : ∀ response, (exec again s).1 = .ok response →
      reason' = reason ∧ (exec again s).2 = s := by
    intro response hok
    obtain ⟨request, hrequest, rfl⟩ := h.request
    rcases exec_cancel hagain hok with ⟨prior, hprior, hreason, hs⟩ | ⟨hnone, -⟩
    · rw [hrequest] at hprior
      cases hprior
      exact ⟨hreason.symm, hs⟩
    · rw [hrequest] at hnone
      cases hnone
  refine ⟨?_, fun hne response hok => hne (hread response hok).1⟩
  cases hanswer : (exec again s).1 with
  | ok response => exact (hread response hanswer).2
  | error e => exact Tx.commit_error hanswer

/-- No call hands out a claim of a cancelled launch. -/
theorem Cancelled.unclaimed {reason : String} (h : Cancelled record reason s) (call : Call) :
    (handedOut (exec call s).1).filter (forOperation record.operation) = none := by
  cases hhanded : handedOut (exec call s).1 with
  | none => rfl
  | some c =>
    rw [Option.filter_eq_none_iff]
    rintro c' hc' hfor
    cases hc'
    have hop : c.operation = record.operation := by simpa [forOperation] using hfor
    have heffect := exec_effect call s
    rw [hhanded] at heffect
    obtain ⟨old, op', hclaimed⟩ := heffect.claimed
    obtain ⟨op, hfind, hkind⟩ := h.launch.operation
    have hop' := hclaimed.operation
    rw [hop, hfind] at hop'
    cases hop'
    obtain ⟨use, hconsumes⟩ := hclaimed.launch hkind
    obtain ⟨r, attempt, task, heligible, -⟩ := hconsumes.eligible
    rw [hop] at heligible
    exact h.touched.ineligible h.launch ⟨r, attempt, task, heligible⟩

/-- So none of them is ever returned. -/
theorem Cancelled.returned {reason : String} (run : StoreRun)
    (h : Cancelled record reason run.state) (hnone : returned record.operation run.log = [])
    (calls : List Call) : returned record.operation (run.calls exec calls).log = [] := by
  have hinv : Cancelled record reason (run.calls exec calls).state ∧
      Herdr.returned record.operation (run.calls exec calls).log = [] := by
    refine Run.invariant (I := fun q => Cancelled record reason q.state ∧
      Herdr.returned record.operation q.log = []) ⟨h, hnone⟩ ?_
    rintro q call - ⟨hq, hempty⟩
    refine ⟨hq.step (exec_effect call q.state), ?_⟩
    rw [Run.call_log, returned_snoc, hq.unclaimed, hempty]
    rfl
  exact hinv.2

/-! ## Released capacity -/

theorem Store.releasable_attempts {attempt : Attempt} {task : Task} {delivery : Delivery}
    (h : s.releasable attempt task record delivery = true) : delivery.attempts = 0 := by
  simp only [Store.releasable, Store.neverClaimed, Bool.and_eq_true, decide_eq_true_eq] at h
  exact h.1.1.2.1.1.1.1.2

/-- A cancellation that ends the attempt answered, and found a launch that was never claimed. -/
theorem Cancellable.released (h : Cancellable record s) {cancel : Call} {reason : String}
    {a a' : Attempt} (hcancel : cancel.method.cancels record.attempt reason)
    (ha : s.attempts.find record.attempt = some a) (hretained : a.terminationObserved = false)
    (ha' : (exec cancel s).2.attempts.find record.attempt = some a')
    (hended : a'.terminationObserved = true) :
    (∃ response, (exec cancel s).1 = .ok response) ∧
      ∃ row, s.deliveries.find record.operation = some row ∧ row.attempts = 0 := by
  have hmoved : (exec cancel s).2 ≠ s := by
    intro hs
    rw [hs, ha] at ha'
    cases ha'
    rw [hretained] at hended
    cases hended
  cases hanswer : (exec cancel s).1 with
  | error e => exact absurd (Tx.commit_error hanswer) hmoved
  | ok response =>
    refine ⟨⟨response, rfl⟩, ?_⟩
    rcases exec_cancel hcancel hanswer with ⟨_, -, -, hs⟩ |
      ⟨-, attempt, task, now, released, hid, hc⟩
    · exact absurd hs hmoved
    have hrow := hc.attemptRow
    rw [hid, ha] at hrow
    cases hrow
    have hnew : (s.attempts.update (a.cancel released)).find a.id = some (a.cancel released) :=
      Table.find_update_self (a := a.cancel released) hc.attemptRow
    rw [hc.attempts, ← hid, hnew] at ha'
    cases ha'
    have hreleased : released = true := by simpa [Attempt.cancel, hretained] using hended
    rcases hc.launch with ⟨hnot, -⟩ | ⟨-, r, delivery, hr⟩
    · rw [hreleased] at hnot
      cases hnot
    · have hr' := h.launch.only r (Table.mem_of_find hr.sealed.input) (hr.attempt_eq.trans hid)
      subst hr'
      exact ⟨delivery, hr.row, Store.releasable_attempts hr.releasable⟩

/-! ## Over a run -/

/-- What cancellation guarantees at a point of a run after the admission of the record. -/
structure CancelFence (run : StoreRun) (record : AttemptInputRecord) : Prop where
  /-- After a committed cancellation nothing that advances the launch succeeds. -/
  fenced : ∀ (cancel : Call) (reason : String) (response : Response),
    cancel.method.cancels record.attempt reason → (exec cancel run.state).1 = .ok response →
    ∀ (later : List Call) (call : Call) (answer : Response),
      call.method.advances record.operation →
      (exec call ((run.call exec cancel).calls exec later).state).1 ≠ .ok answer
  /-- A claim-carrying start that still answers replays the confirmed receipt and writes nothing. -/
  replayed : ∀ (cancel : Call) (reason : String) (response : Response),
    cancel.method.cancels record.attempt reason → (exec cancel run.state).1 = .ok response →
    ∀ (later : List Call) (c : Claim) (receipt : LaunchStartedReceipt) (now : Int) (env : Outside)
      (answer : Response) (t : Store), t = ((run.call exec cancel).calls exec later).state →
      c.operation = record.operation →
      (exec ⟨.recordLaunchStarted c receipt now, env⟩ t).1 = .ok answer →
      (exec ⟨.recordLaunchStarted c receipt now, env⟩ t).2 = t ∧
        ∃ row, t.deliveries.find receipt.operation = some row ∧ answer = .delivery row ∧
          t.startReplayed row receipt = true
  /-- A cancellation that ends the attempt found no claim of its launch, and none follows. -/
  released : ∀ (cancel : Call) (reason : String) (a a' : Attempt),
    cancel.method.cancels record.attempt reason →
    run.state.attempts.find record.attempt = some a → a.terminationObserved = false →
    (exec cancel run.state).2.attempts.find record.attempt = some a' →
    a'.terminationObserved = true →
    returned record.operation run.log = [] ∧ ∀ later : List Call,
      returned record.operation ((run.call exec cancel).calls exec later).log = []
  /-- A repeated request changes nothing; with another reason it is refused. -/
  repeated : ∀ (cancel : Call) (reason : String) (response : Response),
    cancel.method.cancels record.attempt reason → (exec cancel run.state).1 = .ok response →
    ∀ (later : List Call) (again : Call) (reason' : String) (t : Store),
      t = ((run.call exec cancel).calls exec later).state →
      again.method.cancels record.attempt reason' →
      (exec again t).2 = t ∧ (reason' ≠ reason → ∀ answer, (exec again t).1 ≠ .ok answer)

theorem Cancellable.fence {run : StoreRun} (h : Cancellable record run.state)
    (hspent : SpentOnce record.operation run) : CancelFence run record := by
  refine ⟨?_, ?_, ?_, ?_⟩
  · intro cancel reason response hcancel hok later call answer hadvances
    exact (Cancelled.calls (run.call exec cancel) (h.cancelled hcancel hok) later).refused hadvances
      answer
  · rintro cancel reason response hcancel hok later c receipt now env answer t rfl hc hstart
    exact (Cancelled.calls (run.call exec cancel) (h.cancelled hcancel hok) later).start hc hstart
  · intro cancel reason a a' hcancel ha hretained ha' hended
    obtain ⟨⟨response, hok⟩, row, hrow, hattempts⟩ := h.released hcancel ha hretained ha' hended
    obtain ⟨op, hop, hkind⟩ := h.launch.operation
    have hnone : returned record.operation run.log = [] := by
      rcases hspent.spent op hop (.inl hkind) with hnone | ⟨c, row', -, hrow', hclaimed⟩
      · exact hnone
      · rw [hrow] at hrow'
        cases hrow'
        omega
    refine ⟨hnone, fun later => ?_⟩
    refine Cancelled.returned (run.call exec cancel) (h.cancelled hcancel hok) ?_ later
    rw [Run.call_log, returned_snoc, cancel_handedOut hcancel, hnone]
    rfl
  · rintro cancel reason response hcancel hok later again reason' t rfl hagain
    exact (Cancelled.calls (run.call exec cancel) (h.cancelled hcancel hok) later).repeated hagain

/-- **Cancellation fences the launch.** At every point of every run after an admission. -/
theorem cancellation_fences_launch {s : Store} (hreferenced : CancellationsReferenced s)
    (before : List Call) {admission : Call} {record : AttemptInputRecord}
    (hadmitted : Admitted (runFrom s before).state admission record) (calls : List Call) :
    CancelFence (runFrom s (before ++ admission :: calls)) record := by
  have hbefore : CancellationsReferenced (runFrom s before).state :=
    Run.invariant (I := fun q => CancellationsReferenced q.state) hreferenced
      fun q call _ hq => hq.step (exec_effect call q.state)
  have hafter : Cancellable record (runFrom s (before ++ admission :: calls)).state := by
    unfold runFrom
    rw [Run.calls_append, Run.calls_cons]
    exact Run.invariant (I := fun q => Cancellable record q.state) (hadmitted.cancellable hbefore)
      fun q call _ hq => hq.step (exec_effect call q.state)
  have hspent : SpentOnce record.operation (runFrom s (before ++ admission :: calls)) :=
    Run.invariant (I := SpentOnce record.operation) (.start _ s) fun q call _ hq => hq.call call
  exact hafter.fence hspent

end Fence

/-! ## A run

One task is admitted, launched in an existing workspace, started and then cancelled. -/

namespace Sample

/-- Stand-in digests: the records that the run digests have different ones. -/
@[reducible] def digests : Digests where
  inputs _ := "1111111111111111111111111111111111111111111111111111111111111111"
  identity i :=
    if i.paneId.isEmpty then "2222222222222222222222222222222222222222222222222222222222222222"
    else "aaaaaaaaaaaaaaaaaaaaaaaaaaaaaaaaaaaaaaaaaaaaaaaaaaaaaaaaaaaaaaaa"
  grant _ := "3333333333333333333333333333333333333333333333333333333333333333"
  action _ := "4444444444444444444444444444444444444444444444444444444444444444"
  finalization _ _ := "5555555555555555555555555555555555555555555555555555555555555555"
  text _ := "6666666666666666666666666666666666666666666666666666666666666666"

def permissionPolicy : VersionedReference :=
  ⟨"permission", 1, "7777777777777777777777777777777777777777777777777777777777777777"⟩

def inputs : LaunchInputs where
  version := 2
  projectStore := "/state.db"
  task := ⟨"task"⟩
  taskRevision := 3
  taskContract := none
  schedulerRevision := 2
  controlEpoch := 1
  binding := "binding"
  bindingRevision := 1
  bindingDigest := "2222222222222222222222222222222222222222222222222222222222222222"
  profile := ⟨"profile", 1, "8888888888888888888888888888888888888888888888888888888888888888"⟩
  effectiveProfile := some ⟨"codex", permissionPolicy⟩
  approval := ⟨"approval-3333333333333333333333333333333333333333333333333333333333333333", 1,
    "3333333333333333333333333333333333333333333333333333333333333333"⟩
  config := ⟨"/config.toml", none⟩
  repositories := []
  dependencies := []
  memory := none
  budget := none

def record : AttemptInputRecord :=
  ⟨⟨"attempt-1111111111111111111111111111111111111111111111111111111111111111"⟩,
    ⟨"launch-1111111111111111111111111111111111111111111111111111111111111111"⟩, inputs⟩

def grant : ApprovalGrant where
  version := 1
  scope := ⟨1, "/state.db", ⟨"task"⟩, 4, "binding",
    "4444444444444444444444444444444444444444444444444444444444444444"⟩
  policy := permissionPolicy
  issuedUnixMs := 0
  expiresUnixMs := 1000000

/-- One queued task, its runtime binding and its approval, in an active project. -/
def store : Store := { Store.created "/state.db" with
  tasks := ⟨[⟨⟨"task"⟩, 3, .queued, "Task", none⟩], by simp⟩
  grants := ⟨[⟨"approval-3333333333333333333333333333333333333333333333333333333333333333",
    grant⟩], by simp⟩
  bindings := ⟨[⟨"binding", some ⟨"task"⟩, 1,
    ⟨"", "/s", "w", "", "", "/w", "", "", "", "", "", "", "", none⟩⟩], by simp⟩
  queue := ⟨[⟨⟨"task"⟩, 0, 0, 1, []⟩], by simp⟩
  control := ⟨1, 1, .active, false, none⟩
  policy := ⟨2, 1, 3⟩ }

/-- The configuration is unchanged, and the worker runs where its binding says. -/
def outside : Outside where
  configReference path := some ⟨path, none⟩
  executionRoute _ binding := .ok (.fromIdentity binding.identity, none)
  workerOutputPath _ := .ok "/outputs"
  acceptedSubmission _ _ := .error .conflict

def route : RuntimeRoute := ⟨"", "/s", "w", "t", "p", "/w"⟩

def claim : Claim := ⟨record.operation, 2, "worker", 1, 10200⟩

def receipt : LaunchStartedReceipt :=
  ⟨1, record.attempt, record.operation, route, "term", ⟨1, 2, 3, 4⟩,
    ⟨"codex", "hp-66666666666666666666666666666"⟩, none, 400⟩

def admission : Call := ⟨.admitPrepared [inputs] 0 100 false none, outside⟩

/-- Claim, select the target and start. -/
def launch : List Call :=
  [⟨.claimOperation record.operation 1 "worker" 200 10000 none, outside⟩,
   ⟨.recordLaunchTarget claim ⟨1, record.attempt, record.operation, route, "term", ⟨1, 2, 3, 4⟩,
      none, 300⟩ 300, outside⟩,
   ⟨.recordLaunchStarted claim receipt 400, outside⟩]

def cancel : Call := ⟨.cancelAttempt record.attempt 2 10 "stop" 500, outside⟩

/-- The start that was acknowledged before the cancellation, once more. -/
def startAgain : Call := ⟨.recordLaunchStarted claim receipt 600, outside⟩

end Sample

/-- The answer is not an error. -/
def answered : Except StoreError Response → Bool
  | .ok _ => true
  | .error _ => false

/-- The text of a start receipt opens with a brace. -/
theorem LaunchStartedReceipt.toJson_not_blank (r : LaunchStartedReceipt) :
    trimEmpty r.toJson = false := by
  unfold trimEmpty toJson Json.object
  rw [String.toList_append, String.toList_append, List.all_append, List.all_append]
  have hbrace : ("\x7b".toList.all isWhitespace) = false := by decide
  rw [hbrace]
  rfl

/-- The text of a start receipt is evidence when it is short enough. -/
theorem text_toJson (r : LaunchStartedReceipt) :
    text r.toJson = .require (r.toJson.utf8ByteSize ≤ 8192)
      (invalid "nonempty evidence/owner of at most 8192 bytes required") := by
  unfold text Tx.require
  simp only [r.toJson_not_blank, Bool.false_eq_true, not_false_eq_true, true_and]

theorem Sample.admitted : @Admitted Sample.digests Sample.store Sample.admission Sample.record := by
  refine @Admitted.mk Sample.digests _ _ _ rfl ⟨⟨3, Sample.record, 4⟩, rfl, ?_⟩
  decide +kernel

/-- A start that was acknowledged before the cancellation still answers after it: all six calls of
the run do. -/
theorem cancelled_start_answers :
    @Admitted Sample.digests Sample.store Sample.admission Sample.record ∧
      ((@runFrom Sample.digests Sample.store
        (Sample.admission :: Sample.launch ++ [Sample.cancel, Sample.startAgain])).log.map
          fun entry => answered entry.2) = [true, true, true, true, true, true] := by
  refine ⟨Sample.admitted, ?_⟩
  simp only [Sample.launch, Sample.cancel, Sample.startAgain, List.cons_append, List.nil_append,
    runFrom, Run.calls, Run.call, List.foldl_cons, List.foldl_nil, exec, Method.body,
    recordLaunchStarted, applyLaunchStarted, acknowledgeStart, publishStart, updateOutcome,
    Outcome.evidence, text_toJson]
  decide +kernel

theorem cancellation_fences_launch_sample :
    @CancelFence Sample.digests
      (@runFrom Sample.digests Sample.store (Sample.admission :: Sample.launch)) Sample.record :=
  @cancellation_fences_launch Sample.digests Sample.store
    (fun request hr => absurd hr (by simp [Sample.store, Store.created, Table.empty])) []
    Sample.admission Sample.record Sample.admitted Sample.launch

end Herdr
