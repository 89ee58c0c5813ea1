import Herdr.Store.Delegation
import Herdr.Verify.Attempts

/-!
# Delegated reservations stay within their grant

Rows of `delegated_reservations` are added by `reserve_delegated` only, one for each derived launch,
after the limits of the grant were counted over the rows that are there. Every other call keeps the
table, the sealed launches and the identities of the attempts, and a derived launch carries its
approval, by which a claim finds the row and with it the grant.
-/

namespace Herdr.Delegation

open Plans (Bytes)

variable [Digests]

/-! ## Methods that do not reserve -/

section Methods

variable {env : Outside} {s s' : Store}

/-- Delegated rows and approvals stay. -/
def Undelegated (s s' : Store) : Prop := s'.delegated = s.delegated ∧ s'.grants = s.grants

omit [Digests] in
theorem Undelegated.of_frame (h : s' = { s' with delegated := s.delegated, grants := s.grants }) :
    Undelegated s s' :=
  ⟨by rw [h], by rw [h]⟩

omit [Digests] in
theorem Undelegated.of_settles {row : Delivery} (h : Settles s s' row) : Undelegated s s' :=
  .of_frame (by rw [h.frame])

omit [Digests] in
theorem Undelegated.of_ends {attempt : Attempt} {task : Task} (h : Ends s s' attempt task) :
    Undelegated s s' :=
  .of_frame (by rw [h.frame])

theorem undelegated_of_started {claim : Option Claim} {expectedHead : Option Nat}
    {revision : Nat} {receipt : LaunchStartedReceipt} {now : Int} {d : Delivery}
    (h : applyLaunchStarted env claim expectedHead revision receipt now s = .ok (d, s')) :
    Undelegated s s' := by
  obtain ⟨old, -, ⟨-, rfl, -⟩ | ⟨record, attempt, task, target, -, hp⟩⟩ := applyLaunchStarted_ok h
  · exact ⟨rfl, rfl⟩
  · exact .of_frame (by rw [hp.frame])

omit [Digests] in
theorem undelegated_of_target {target : LaunchTarget} (h : SelectsTarget s target s') :
    Undelegated s s' := by
  cases h with
  | again => exact ⟨rfl, rfl⟩
  | first => exact ⟨rfl, rfl⟩

/-- The delegated row that a reservation adds. -/
def RecordsDelegated (delegated : Option PreparedDelegatedReservation) (result : Reservation)
    (s s' : Store) : Prop :=
  match delegated with
  | none => s'.delegated = s.delegated
  | some d => s.delegated.insert? {
      grantId := d.grantId
      idempotencyKey := d.idempotencyKey
      requestDigest := d.digest
      approval := result.record.inputs.approval.id
      attempt := result.record.attempt
      response := result } = some s'.delegated

theorem reserve_records {p : Preparation} {delegated : Option PreparedDelegatedReservation}
    {now : Int} {result : Reservation} (h : reserve env p delegated now s = .ok (result, s')) :
    s'.grants = s.grants ∧ RecordsDelegated delegated result s s' := by
  simp only [reserve, next_bind, Tx.insert_bind, Tx.outside_bind, updateTask_bind, insertOperation,
    insertInputs, bind_assoc, logEvent_bind, head, Tx.ask_bind] at h
  obtain ⟨-, t₁, h₁, -, -, t₂, h₂, t₃, h₃, t₄, h₄, -, -, -, h⟩ := h
  obtain ⟨_, t₅, hdelegated, h⟩ := Tx.bind_ok.mp h
  simp only [Tx.outside_bind, Tx.pure_ok] at h
  obtain ⟨-, rfl, rfl⟩ := h
  obtain ⟨attempts, ha, rfl⟩ := Option.map_eq_some_iff.mp h₁
  obtain ⟨operations, ho, rfl⟩ := Option.map_eq_some_iff.mp h₂
  obtain ⟨deliveries, hd, rfl⟩ := Option.map_eq_some_iff.mp h₃
  split at h₄
  · cases h₄
  next hunsealed =>
  obtain ⟨inputs, hi, rfl⟩ := Option.map_eq_some_iff.mp h₄
  cases delegated with
  | none =>
    obtain ⟨-, rfl⟩ := Tx.pure_ok.mp hdelegated
    exact ⟨rfl, rfl⟩
  | some d =>
    simp only [recordDelegated, Tx.insert_ok] at hdelegated
    obtain ⟨rows, hrows, rfl⟩ := Option.map_eq_some_iff.mp hdelegated
    exact ⟨rfl, hrows⟩

theorem admitPrepared_undelegated {prepared : List LaunchInputs} {expectedHead : Nat} {now : Int}
    {draft : Bool} {result : Option Reservation}
    (h : admitPrepared env prepared expectedHead now draft none s = .ok (result, s')) :
    Undelegated s s' := by
  simp only [admitPrepared, nowCheck_bind, Tx.require_bind, checkPrepared_reads.peel, admitFresh,
    expectHead_bind, readPolicy_reads.peel, Tx.ask_bind, readPreparations_reads.peel,
    installDerived, pure_bind] at h
  obtain ⟨-, -, -, -, -, policy, -, -, -, -, ps, -, h⟩ := h
  simp only [(Tx.Reads.forEach admissible_reads ps).peel, Tx.find_bind, Tx.outside_bind] at h
  obtain ⟨-, -, best, -, -, h⟩ := h
  cases draft with
  | true =>
    obtain ⟨-, rfl⟩ := Tx.pure_ok.mp h
    exact ⟨rfl, rfl⟩
  | false =>
    obtain ⟨reservation, hreserve, -⟩ := Tx.map_ok.mp h
    obtain ⟨hgrants, hdelegated⟩ := reserve_records hreserve
    exact ⟨hdelegated, hgrants⟩

/-- **Every method but a delegated admission keeps the delegated rows.** -/
theorem Method.body_undelegated {method : Method} {response : Response}
    (hmethod : undelegated method = true) (h : method.body env s = .ok (response, s')) :
    Undelegated s s' := by
  cases method <;> simp only [Method.body, Tx.map_ok] at h <;> obtain ⟨answer, h, rfl⟩ := h
  case claimOperation =>
    obtain ⟨-, old, op, hc⟩ := claimWithCreation_ok h
    exact .of_frame (by rw [hc.frame])
  case validateClaim =>
    obtain ⟨rfl, -⟩ := validateClaim_ok h
    exact ⟨rfl, rfl⟩
  case finishOperation =>
    obtain ⟨old, -, -, hs⟩ := finishOperation_ok h
    exact .of_settles hs
  case expireClaims now =>
    obtain ⟨only, -⟩ := expireClaims_ok h
    exact .of_frame (by rw [only.frame])
  case observeOperation =>
    obtain ⟨old, -, -, hs⟩ := observeOperation_ok h
    exact .of_settles hs
  case retireOperation =>
    obtain ⟨old, outcome, -, -, hs⟩ := retireOperation_ok h
    exact .of_settles hs
  case continueWorktreeLaunchCreation =>
    obtain ⟨es, -, rfl⟩ := continueWorktreeLaunchCreation_ok h
    exact ⟨rfl, rfl⟩
  case recordLaunchWorkspace => exact .of_frame (by rw [(recordWorkspaceBoundary_ok h).frame]; rfl)
  case recordLaunchLayout => exact .of_frame (by rw [(recordWorkspaceBoundary_ok h).frame]; rfl)
  case observeLaunchWorkspace => exact .of_frame (by rw [(recordWorkspaceBoundary_ok h).frame]; rfl)
  case recordLaunchTarget => exact undelegated_of_target (applyLaunchTarget_ok h)
  case observeLaunchTarget => exact undelegated_of_target (applyLaunchTarget_ok h)
  case recordLaunchRelease => exact .of_frame (by rw [(recordLaunchBoundary_ok h).frame]; rfl)
  case recordLaunchName => exact .of_frame (by rw [(recordLaunchBoundary_ok h).frame]; rfl)
  case recordLaunchStarted => exact undelegated_of_started h
  case observeLaunchStarted => exact undelegated_of_started h
  case recordLaunchStopped =>
    obtain ⟨attempt, task, he, -⟩ := recordLaunchStopped_ok h
    exact .of_ends he
  case recordWorkerTermination =>
    rcases recordWorkerTermination_ok h with rfl | ⟨attempt, task, he, -⟩
    · exact ⟨rfl, rfl⟩
    · exact .of_ends he
  case requestCompletion =>
    rcases requestCompletion_ok h with rfl | ⟨attempt, -, hframe, -⟩
    · exact ⟨rfl, rfl⟩
    · exact .of_frame (by rw [hframe])
  case admitPrepared prepared head now draft delegated =>
    cases delegated with
    | none => exact admitPrepared_undelegated h
    | some request => cases hmethod
  case cancelAttempt =>
    rcases cancelAttempt_ok h with ⟨_, -, -, rfl⟩ | ⟨-, attempt, task, -, hc⟩
    · exact ⟨rfl, rfl⟩
    · exact .of_frame (by rw [hc.frame])
  case queueTask =>
    rcases queueTask_ok h with rfl | ⟨task, new, queue, hq⟩
    · exact ⟨rfl, rfl⟩
    · exact .of_frame (by rw [hq.frame])
  case setSchedulerPolicy =>
    rcases setSchedulerPolicy_ok h with rfl | ⟨policy, hframe, -⟩
    · exact ⟨rfl, rfl⟩
    · exact .of_frame (by rw [hframe])

end Methods

/-! ## A delegated admission -/

omit [Digests] in
theorem mapError_ok {ε ε' α : Type} {x : Except ε α} {f : ε → ε'} {a : α} :
    x.mapError f = .ok a ↔ x = .ok a := by
  cases x with
  | error e => simp [Except.mapError]
  | ok b => simp [Except.mapError]

/-- The approval, the launch and the delegated row of an admission. -/
structure Derives (env : Outside) (s s' : Store) (d : PreparedDelegatedReservation)
    (inputs : LaunchInputs) (result : Reservation) (now : Int) : Prop where
  passes : env.delegation d = none
  approval : ∃ own, d.approval.reference = .ok own ∧
    s.grants.insert? ⟨own.id, d.approval⟩ = some s'.grants
  record : result.record = inputs.reserved
  reserves : ∃ task, Admissible s task ∧ inputs.task = task.id ∧ env.overlap task.id = none ∧
    Reserves s s' result.record task now
  row : RecordsDelegated (some d) result s s'

theorem admitFresh_derives {env : Outside} {s s' : Store} {d : PreparedDelegatedReservation}
    {inputs : LaunchInputs} {head : Nat} {now : Int} {result : Option Reservation}
    (h : admitFresh env [inputs] head now false (some d) s = .ok (result, s')) :
    ∃ reservation, result = some reservation ∧ Derives env s s' d inputs reservation now := by
  have hreserves := admitFresh_ok (by simp) h
  simp only [admitFresh, expectHead_bind, readPolicy_reads.peel, Tx.ask_bind, Tx.require_bind,
    readPreparations_reads.peel] at h
  obtain ⟨-, policy, -, -, -, -, ps, hps, h⟩ := h
  obtain ⟨_, t, hderived, h⟩ := Tx.bind_ok.mp h
  simp only [(Tx.Reads.forEach admissible_reads ps).peel, Tx.find_bind, Tx.outside_bind] at h
  obtain ⟨_, -, best, hbest, -, h⟩ := h
  obtain ⟨reservation, hreserve, rfl⟩ := Tx.map_ok.mp h
  have hmem : best ∈ ps := (List.perm_insertionSort _ ps).mem_iff.mp (List.mem_of_head? hbest)
  have hinputs : best.inputs = inputs :=
    List.mem_singleton.mp ((readPreparations_ok hps).2 best hmem).1
  simp only [installDerived, Tx.outside_bind, Tx.check_bind, Tx.insert_ok] at hderived
  obtain ⟨hpasses, own, hown, hinsert⟩ := hderived
  obtain ⟨grants, hgrants, rfl⟩ := Option.map_eq_some_iff.mp hinsert
  obtain ⟨hsame, hrow⟩ := reserve_records hreserve
  have hrecord := (reserve_ok hreserve).1
  rw [hinputs] at hrecord
  have hown : d.approval.reference = .ok own := mapError_ok.mp hown
  refine ⟨reservation, rfl, hpasses, ⟨own, hown, ?_⟩, hrecord, ?_, hrow⟩
  · rw [hsame]
    exact hgrants
  · rcases hreserves with ⟨hnone, -⟩ | ⟨reservation', task, hsome, hadmissible, htask, hclear, hres⟩
    · cases hnone
    · cases hsome
      rw [hrecord] at htask
      exact ⟨task, hadmissible, htask, hclear, hres⟩

section Reserve

variable [Signed] {db db' : DelegationStore} {prepared : SignedRequest} {reads : Reads}

omit [Digests] [Signed] in
theorem inStore_ok {α : Type} {body : Body α} {a : α} :
    inStore body db = .ok (a, db') ↔ ∃ s, body db.store = .ok (a, s) ∧
      { db with store := s } = db' :=
  Tx.within_ok

/-- The key of a request. -/
def SignedRequest.key (prepared : SignedRequest) : String × String :=
  (prepared.request.grantId, prepared.request.idempotencyKey)

/-- The bytes that a key is bound to. -/
def DelegationStore.rawOf (db : DelegationStore) (key : String × String) : Bytes :=
  ((db.requests.find key).map (·.raw)).getD []

/-- A replay reads: it answers the row of its key, if the bytes are the same. -/
theorem replay_ok {result : Option Reservation} (h : replay prepared reads db = .ok (result, db')) :
    db = db' ∧ db.incarnation = prepared.request.storeIncarnation ∧
      (result = none ∧ db.store.delegated.find prepared.key = none ∨
        ∃ row, db.store.delegated.find prepared.key = some row ∧ result = some row.response ∧
          row.requestDigest = prepared.digest ∧ db.rawOf row.key = prepared.raw) := by
  simp only [replay, Tx.bind_ok, Tx.query_ok, Tx.ask_ok] at h
  obtain ⟨_, _, ⟨hincarnation, rfl⟩, stored, _, ⟨rfl, rfl⟩, h⟩ := h
  have hinc : db.incarnation = prepared.request.storeIncarnation := by
    by_contra hne
    simp [DelegationStore.checkIncarnation, hne] at hincarnation
  cases hrow : db.store.delegated.find (prepared.request.grantId, prepared.request.idempotencyKey) with
  | none =>
    rw [hrow] at h
    obtain ⟨rfl, rfl⟩ := Tx.pure_ok.mp h
    exact ⟨rfl, hinc, .inl ⟨rfl, hrow⟩⟩
  | some row =>
    simp only [hrow, Tx.bind_ok, Tx.ask_ok, Tx.require_ok, Tx.pure_ok] at h
    obtain ⟨raw, _, ⟨rfl, rfl⟩, _, _, ⟨⟨hdigest, hraw⟩, rfl⟩, env, _, ⟨rfl, rfl⟩, retained, _, hin,
      _, _, ⟨-, rfl⟩, rfl, rfl⟩ := h
    obtain ⟨s, hread, rfl⟩ := inStore_ok.mp hin
    obtain ⟨rfl, -⟩ := readInput_ok hread
    exact ⟨rfl, hinc, .inr ⟨row, hrow, rfl, hdigest, hraw⟩⟩

omit [Digests] [Signed] in
theorem load_ok {id : String} {grant : PreparedDelegation} (h : db.load id = .ok grant) :
    db.grants.find id = some grant := by
  unfold DelegationStore.load at h
  split at h
  · cases h
  · cases hg : db.grants.find id with
    | none => simp [hg] at h
    | some g =>
      rw [hg] at h
      cases h
      rfl

omit [Digests] [Signed] in
/-- A launch in scope is under a grant that is neither revoked nor expired. -/
theorem scope_ok {grant : PreparedDelegation} {inputs : LaunchInputs} {now : Int} {u : Unit}
    (h : db.scope reads grant inputs now = .ok u) :
    grant.reservationScope.isSome = true ∧ now < grant.expiresUnixMs ∧ grant.digest ∉ db.revoked := by
  unfold DelegationStore.scope at h
  split at h
  · cases h
  · next bounds hbounds =>
    split at h
    · cases h
    · next hexpired =>
      split at h
      · cases h
      · next hrevoked =>
        refine ⟨by rw [hbounds]; rfl, ?_, hrevoked⟩
        by_contra hle
        exact hexpired (.inr (.inl (by omega)))

omit [Signed] in
/-- What `install_derived` has checked. -/
theorem checkDerived_ok {inputs : LaunchInputs} {now : Int} {u : Unit}
    (h : db.checkDerived reads prepared inputs now = .ok u) :
    ∃ grant bounds, db.grants.find prepared.request.grantId = some grant ∧
      grant.reservationScope = some bounds ∧ now < grant.expiresUnixMs ∧
      grant.digest ∉ db.revoked ∧
      (db.reservations grant.digest).length < bounds.maxTotalAttempts ∧
      (db.unterminated grant.digest).length < grant.maxConcurrentAttempts := by
  unfold DelegationStore.checkDerived at h
  simp only [Except.bind_ok] at h
  obtain ⟨_, -, grant, hload, _, hscope, approval, -, _, -, h⟩ := h
  obtain ⟨hbounds, hexpires, hrevoked⟩ := scope_ok hscope
  obtain ⟨bounds, hb⟩ := Option.isSome_iff_exists.mp hbounds
  refine ⟨grant, bounds, load_ok hload, hb, hexpires, hrevoked, ?_⟩
  simp only [hb] at h
  split at h
  · cases h
  · next htotal =>
    split at h
    · cases h
    · next hconcurrent => exact ⟨Nat.lt_of_not_le htotal, Nat.lt_of_not_le hconcurrent⟩

omit [Digests] in
theorem parseVerified_raw {raw : Bytes} {parsed : SignedRequest}
    (h : parseVerified raw = .ok parsed) : parsed.raw = raw := by
  unfold parseVerified at h
  split at h
  · cases h
  · split at h
    · cases h
    · split at h
      · cases h
      · cases h
        rfl

/-- Launch inputs that every validation of this store accepts. -/
def ValidInputs (i : LaunchInputs) : Prop :=
  ∀ (env : Outside) (s : Store), env.profile = Signed.profile → validateInputs env i s = .ok ((), s)

omit [Digests] in
theorem validInputs_of_ok {env : Outside} {s s' : Store} {i : LaunchInputs} {u : Unit}
    (henv : env.profile = Signed.profile) (h : validateInputs env i s = .ok (u, s')) :
    ValidInputs i := by
  intro env' t henv'
  simp only [validateInputs, Tx.require_bind, Tx.outside_bind, Tx.require_ok, henv] at h
  simp only [validateInputs, Tx.require_bind, Tx.outside_bind, Tx.require_ok, henv']
  obtain ⟨h₁, h₂, h₃, h₄, h₅, h₆, h₇, -⟩ := h
  exact ⟨h₁, h₂, h₃, h₄, h₅, h₆, h₇, trivial⟩

/-- What a reservation that was not a replay found and wrote. -/
structure Reserved (db db' : DelegationStore) (prepared : SignedRequest) (now : Int)
    (result : Reservation) : Prop where
  free : db.store.delegated.find prepared.key = none
  incarnation : db.incarnation = prepared.request.storeIncarnation
  within : ∃ grant bounds, db.grants.find prepared.request.grantId = some grant ∧
    grant.reservationScope = some bounds ∧ now < grant.expiresUnixMs ∧ grant.digest ∉ db.revoked ∧
    (db.reservations grant.digest).length < bounds.maxTotalAttempts ∧
    (db.unterminated grant.digest).length < grant.maxConcurrentAttempts
  valid : ValidInputs result.record.inputs
  approval : ∃ approval, db.store.grants.insert? ⟨result.record.inputs.approval.id, approval⟩ =
    some db'.store.grants
  reserves : ∃ env task, Effect env db.store none db'.store ∧
    Reserves db.store db'.store result.record task now
  row : db.store.delegated.insert? ⟨prepared.request.grantId, prepared.request.idempotencyKey,
    prepared.digest, result.record.inputs.approval.id, result.record.attempt, result⟩ =
      some db'.store.delegated
  request : db.requests.insert?
    ⟨prepared.request.grantId, prepared.request.idempotencyKey, prepared.raw⟩ = some db'.requests
  frame : db' = { db with store := db'.store, requests := db'.requests }

/-- The row of a key, answered again. -/
def Replayed (db : DelegationStore) (prepared : SignedRequest) (result : Reservation) : Prop :=
  ∃ row, db.store.delegated.find prepared.key = some row ∧ result = row.response ∧
    row.requestDigest = prepared.digest ∧ db.rawOf row.key = prepared.raw

omit [Digests] [Signed] in
theorem inStore_reads {α : Type} {body : Body α} (h : body.Reads) : (inStore body).Reads := by
  constructor
  intro db a db' hbody
  obtain ⟨s, hs, rfl⟩ := inStore_ok.mp hbody
  rw [h.keeps hs]

theorem replay_reads : (replay prepared reads).Reads := ⟨fun h => (replay_ok h).1.symm⟩

omit [Digests] [Signed] in
theorem verdict_eq_none {x : Except StoreError Unit} :
    DelegationStore.verdict x = none ↔ x = .ok () := by
  cases x with
  | ok u => simp [DelegationStore.verdict]
  | error e => simp [DelegationStore.verdict]

theorem admitDelegated_ok {approval : ApprovalGrant} {inputs : LaunchInputs} {now : Int}
    {result : Reservation} (hown : approval.reference = .ok inputs.approval)
    (h : admitDelegated prepared approval inputs now reads db = .ok (result, db')) :
    (db = db' ∧ Replayed db prepared result) ∨ Reserved db db' prepared now result := by
  simp only [admitDelegated, Tx.ask_bind, (inStore_reads nowCheck_reads).peel,
    (inStore_reads checkPrepared_reads).peel, replay_reads.peel] at h
  obtain ⟨_, -, _, hprepared, replayed, hreplay, h⟩ := h
  obtain ⟨-, hincarnation, ⟨rfl, hfree⟩ | ⟨row, hrow, rfl, hdigest, hraw⟩⟩ := replay_ok hreplay
  · right
    obtain ⟨fresh, _, hfresh, h⟩ := Tx.bind_ok.mp h
    obtain ⟨s, hadmit, rfl⟩ := inStore_ok.mp hfresh
    obtain ⟨reservation, rfl, hd⟩ := admitFresh_derives hadmit
    simp only [Tx.find_bind, recordRequest, Tx.insert_bind, Tx.pure_ok] at h
    obtain ⟨r, hr, t, ht, rfl, rfl⟩ := h
    cases hr
    obtain ⟨requests, hrequests, rfl⟩ := Option.map_eq_some_iff.mp ht
    obtain ⟨_, hs, -⟩ := inStore_ok.mp hprepared
    simp only [checkPrepared, validateInputs_reads.peel] at hs
    obtain ⟨_, hvalid, -⟩ := hs
    obtain ⟨own, hown', hgrants⟩ := hd.approval
    cases hown.symm.trans hown'
    have hinputs : reservation.record.inputs = inputs := by
      rw [hd.record]
      rfl
    obtain ⟨task, hadmissible, htask, hclear, hreserves⟩ := hd.reserves
    refine ⟨hfree, hincarnation, checkDerived_ok (verdict_eq_none.mp hd.passes), ?_, ?_, ?_, hd.row,
      hrequests, rfl⟩
    · rw [hinputs]
      exact validInputs_of_ok rfl hvalid
    · rw [hinputs]
      exact ⟨approval, hgrants⟩
    · exact ⟨_, task, .reserves hadmissible (hinputs ▸ htask) hclear hreserves, hreserves⟩
  · obtain ⟨rfl, rfl⟩ := Tx.pure_ok.mp h
    exact .inl ⟨rfl, row, hrow, rfl, hdigest, hraw⟩

/-- **A request that succeeds is a replay, which reads, or a reservation within its grant.** -/
theorem reserveDelegated_ok {now : Int} {result : Reservation}
    (h : reserveDelegated prepared now reads db = .ok (result, db')) :
    parseVerified prepared.raw = .ok prepared ∧
      ((db = db' ∧ Replayed db prepared result) ∨ Reserved db db' prepared now result) := by
  simp only [reserveDelegated, Tx.check_bind, Tx.require_bind, replay_reads.peel] at h
  obtain ⟨reparsed, hparse, ⟨hrequest, hdigest⟩, replayed, hreplay, h⟩ := h
  have hsame : parseVerified prepared.raw = .ok prepared := by
    have hok := mapError_ok.mp hparse
    have hraw := parseVerified_raw hok
    obtain ⟨request, raw, digest⟩ := prepared
    obtain ⟨request', raw', digest'⟩ := reparsed
    subst hrequest hdigest hraw
    exact hok
  refine ⟨hsame, ?_⟩
  obtain ⟨-, hincarnation, ⟨rfl, hfree⟩ | ⟨row, hrow, rfl, hdigest, hraw⟩⟩ := replay_ok hreplay
  · simp only [Tx.query_bind, Tx.check_bind] at h
    obtain ⟨grant, -, approval, -, own, hown, h⟩ := h
    exact admitDelegated_ok (mapError_ok.mp hown) h
  · obtain ⟨rfl, rfl⟩ := Tx.pure_ok.mp h
    exact .inl ⟨rfl, row, hrow, rfl, hdigest, hraw⟩

end Reserve

/-! ## What later calls keep -/

section Runs

variable {db db' : DelegationStore}

/-- Grants, requests, rows, approvals and sealed launches stay; an attempt keeps its task and its
observed end. -/
structure Later (db db' : DelegationStore) : Prop where
  incarnation : db'.incarnation = db.incarnation
  grants : db.grants.Extends db'.grants
  revoked : ∀ id ∈ db.revoked, id ∈ db'.revoked
  requests : db.requests.Extends db'.requests
  delegated : db.store.delegated.Extends db'.store.delegated
  approvals : db.store.grants.Extends db'.store.grants
  inputs : db.store.inputs.Extends db'.store.inputs
  operations : db.store.operations.Extends db'.store.operations
  attempts : ∀ {id a}, db.store.attempts.find id = some a → ∃ a', db'.store.attempts.find id = some a' ∧
    a'.task = a.task ∧ (a.terminationObserved = true → a'.terminationObserved = true)

omit [Digests] in
theorem Later.refl (db : DelegationStore) : Later db db :=
  ⟨rfl, .refl _, fun _ h => h, .refl _, .refl _, .refl _, .refl _, .refl _,
    fun h => ⟨_, h, rfl, fun h => h⟩⟩

omit [Digests] in
theorem Later.trans {db'' : DelegationStore} (h : Later db db') (h' : Later db' db'') :
    Later db db'' where
  incarnation := h'.incarnation.trans h.incarnation
  grants := h.grants.trans h'.grants
  revoked := fun id hid => h'.revoked id (h.revoked id hid)
  requests := h.requests.trans h'.requests
  delegated := h.delegated.trans h'.delegated
  approvals := h.approvals.trans h'.approvals
  inputs := h.inputs.trans h'.inputs
  operations := h.operations.trans h'.operations
  attempts := fun ha => by
    obtain ⟨a', ha', htask', hterm'⟩ := h.attempts ha
    obtain ⟨a'', ha'', htask'', hterm''⟩ := h'.attempts ha'
    exact ⟨a'', ha'', htask''.trans htask', fun ht => hterm'' (hterm' ht)⟩

theorem effect_keeps_attempts {env : Outside} {s s' : Store} {o : Option Claim}
    (h : Effect env s o s') {id : AttemptId} {a : Attempt} (ha : s.attempts.find id = some a) :
    ∃ a', s'.attempts.find id = some a' ∧ a'.task = a.task ∧
      (a.terminationObserved = true → a'.terminationObserved = true) := by
  obtain ⟨a', ha', hmove⟩ := h.attempt ha
  exact ⟨a', ha', hmove.task_eq, hmove.terminated⟩

variable [Signed]

theorem Reserved.later {prepared : SignedRequest} {now : Int} {result : Reservation}
    (h : Reserved db db' prepared now result) : Later db db' := by
  obtain ⟨env, task, heffect, -⟩ := h.reserves
  obtain ⟨approval, happroval⟩ := h.approval
  have hframe := h.frame
  refine ⟨?_, ?_, ?_, .insert? h.request, .insert? h.row, .insert? happroval, heffect.grows.inputs,
    heffect.grows.operations, fun ha => effect_keeps_attempts heffect ha⟩
  · rw [hframe]
  · rw [hframe]
    exact .refl _
  · rw [hframe]
    exact fun _ hid => hid

theorem execMethod_ok {method : Method} {reads : Reads} {response : Response}
    (hmethod : undelegated method = true)
    (h : execMethod method reads db = .ok (response, db')) :
    Later db db' ∧ db'.store.delegated = db.store.delegated := by
  simp only [execMethod, Tx.ask_bind] at h
  obtain ⟨s, hbody, rfl⟩ := inStore_ok.mp h
  have heffect := Method.body_effect hbody
  obtain ⟨hdelegated, hgrants⟩ := Method.body_undelegated hmethod hbody
  refine ⟨⟨rfl, .refl _, fun _ hid => hid, .refl _, ?_, ?_, heffect.grows.inputs,
    heffect.grows.operations, fun ha => effect_keeps_attempts heffect ha⟩, hdelegated⟩
  · rw [hdelegated]
    exact .refl _
  · rw [hgrants]
    exact .refl _

omit [Digests] [Signed] in
theorem installDelegation_ok {grant : PreparedDelegation} {now : Int} {id : String}
    (h : installDelegation grant now db = .ok (id, db')) :
    db.grants.Extends db'.grants ∧ db' = { db with grants := db'.grants } := by
  simp only [installDelegation, Tx.require_bind, Tx.ask_bind] at h
  obtain ⟨-, -, h⟩ := h
  cases hstored : db.grants.find grant.digest with
  | some stored =>
    simp only [hstored, Tx.require_bind, Tx.pure_ok] at h
    obtain ⟨-, -, rfl⟩ := h
    exact ⟨.refl _, rfl⟩
  | none =>
    simp only [hstored, Tx.insert_bind, Tx.pure_ok] at h
    obtain ⟨t, ht, -, rfl⟩ := h
    obtain ⟨grants, hgrants, rfl⟩ := Option.map_eq_some_iff.mp ht
    exact ⟨.insert? hgrants, rfl⟩

omit [Digests] [Signed] in
theorem revokeDelegation_ok {id : String} {head : Nat} {now : Int} {reason : String} {u : Unit}
    (h : revokeDelegation id head now reason db = .ok (u, db')) :
    db' = { db with revoked := db.revoked ++ [id] } := by
  have hhead : (expectHead head).Reads := .bind (.ask _) fun _ => .require ..
  simp only [revokeDelegation, (inStore_reads nowCheck_reads).peel, Tx.require_bind,
    (inStore_reads hhead).peel, Tx.ask_bind, Tx.write_ok] at h
  obtain ⟨_, -, -, _, -, -, -, h⟩ := h
  exact h.symm

omit [Digests] [Signed] in
theorem installApprovals_extends (grants : Table GrantRow GrantRow.id) (rows : List GrantRow) :
    grants.Extends (installApprovals grants rows) := by
  unfold installApprovals
  induction rows generalizing grants with
  | nil => exact .refl _
  | cons row rest ih =>
    refine .trans ?_ (ih _)
    show grants.Extends ((grants.insert? row).getD grants)
    cases hrow : grants.insert? row with
    | none => exact .refl _
    | some t => exact .insert? hrow

/-- **Every call keeps what is stored, and only a reservation adds a row.** -/
theorem exec_later (call : Call) (db : DelegationStore) :
    Later db (exec call db).2 ∧ ((exec call db).2.store.delegated = db.store.delegated ∨
      ∃ prepared now reads result, call = .reserve prepared now reads ∧
        parseVerified prepared.raw = .ok prepared ∧
        Reserved db (exec call db).2 prepared now result) := by
  cases call with
  | reserve prepared now reads =>
    simp only [exec, answer]
    obtain ⟨result, db', hbody, hcommit⟩ | ⟨e, -, hcommit⟩ :=
      Tx.commit_eq (reserveDelegated prepared now reads) db
    · rw [hcommit]
      obtain ⟨hparse, ⟨rfl, -⟩ | hreserved⟩ := reserveDelegated_ok hbody
      · exact ⟨.refl _, .inl rfl⟩
      · exact ⟨hreserved.later, .inr ⟨prepared, now, reads, result, rfl, hparse, hreserved⟩⟩
    · rw [hcommit]
      exact ⟨.refl _, .inl rfl⟩
  | method method reads =>
    simp only [exec, answer]
    obtain ⟨response, db', hbody, hcommit⟩ | ⟨e, -, hcommit⟩ :=
      Tx.commit_eq (execMethod method.val reads) db
    · rw [hcommit]
      obtain ⟨hlater, hsame⟩ := execMethod_ok method.property hbody
      exact ⟨hlater, .inl hsame⟩
    · rw [hcommit]
      exact ⟨.refl _, .inl rfl⟩
  | install grant now =>
    simp only [exec, answer]
    obtain ⟨id, db', hbody, hcommit⟩ | ⟨e, -, hcommit⟩ :=
      Tx.commit_eq (installDelegation grant now) db
    · rw [hcommit]
      obtain ⟨hgrants, hframe⟩ := installDelegation_ok hbody
      rw [hframe]
      exact ⟨{ Later.refl db with grants := hgrants }, .inl rfl⟩
    · rw [hcommit]
      exact ⟨.refl _, .inl rfl⟩
  | revoke id head now reason =>
    simp only [exec, answer]
    obtain ⟨u, db', hbody, hcommit⟩ | ⟨e, -, hcommit⟩ :=
      Tx.commit_eq (revokeDelegation id head now reason) db
    · rw [hcommit, revokeDelegation_ok hbody]
      exact ⟨{ Later.refl db with revoked := fun _ hid => List.mem_append_left _ hid }, .inl rfl⟩
    · rw [hcommit]
      exact ⟨.refl _, .inl rfl⟩
  | elsewhere change =>
    exact ⟨{ Later.refl db with approvals := installApprovals_extends _ _ }, .inl rfl⟩

/-! ## The rows -/

/-- What a row of `delegated_reservations` is bound to. -/
structure RowSound (db : DelegationStore) (d : DelegatedReservation) : Prop where
  request : ∃ p, db.requests.find d.key = some ⟨d.grantId, d.idempotencyKey, p.raw⟩ ∧
    parseVerified p.raw = .ok p ∧ p.key = d.key ∧ p.digest = d.requestDigest ∧
    db.incarnation = p.request.storeIncarnation
  approval : d.approval = d.response.record.inputs.approval.id
  approved : ∃ g, db.store.grants.find d.approval = some g
  attempt : d.attempt = d.response.record.attempt
  reserved : ∃ a, db.store.attempts.find d.attempt = some a ∧
    a.task = d.response.record.inputs.task
  record : d.response.record = d.response.record.inputs.reserved
  input : db.store.inputs.find d.response.record.operation = some d.response.record
  operation : ∃ at_, db.store.operations.find d.response.record.operation =
    some (d.response.record.operationRow at_)
  valid : ValidInputs d.response.record.inputs

theorem RowSound.later {d : DelegatedReservation} (h : RowSound db d) (hlater : Later db db') :
    RowSound db' d := by
  obtain ⟨p, hrequest, hp⟩ := h.request
  obtain ⟨g, hg⟩ := h.approved
  obtain ⟨a, ha, htask⟩ := h.reserved
  obtain ⟨at_, hop⟩ := h.operation
  obtain ⟨a', ha', htask', -⟩ := hlater.attempts ha
  refine { h with
    request := ⟨p, hlater.requests.find hrequest, ?_⟩
    approved := ⟨g, hlater.approvals.find hg⟩
    reserved := ⟨a', ha', htask'.trans htask⟩
    input := hlater.inputs.find h.input
    operation := ⟨at_, hlater.operations.find hop⟩ }
  rw [hlater.incarnation]
  exact hp

/-- The bytes of a row stay. -/
theorem RowSound.rawOf_later {d : DelegatedReservation} (h : RowSound db d) (hlater : Later db db') :
    db'.rawOf d.key = db.rawOf d.key := by
  obtain ⟨p, hrequest, -⟩ := h.request
  unfold DelegationStore.rawOf
  rw [hrequest, hlater.requests.find hrequest]

/-- The rows of a grant. -/
def DelegationStore.rowsOf (db : DelegationStore) (grant : String) : List DelegatedReservation :=
  db.store.delegated.rows.filter fun d => d.grantId = grant

/-- A grant's rows and its unterminated attempts are within its limits. -/
def WithinLimits (db : DelegationStore) (id : String) : Prop :=
  ∃ grant bounds, db.grants.find id = some grant ∧ grant.reservationScope = some bounds ∧
    (db.rowsOf id).length ≤ bounds.maxTotalAttempts ∧
    (db.unterminated id).length ≤ grant.maxConcurrentAttempts

/-- The invariant of delegated reservations. -/
structure Sound (db : DelegationStore) : Prop where
  rows : ∀ d ∈ db.store.delegated.rows, RowSound db d
  approvals : (db.store.delegated.rows.map (·.approval)).Nodup
  attempts : (db.store.delegated.rows.map (·.attempt)).Nodup
  limits : ∀ d ∈ db.store.delegated.rows, WithinLimits db d.grantId

omit [Digests] [Signed] in
/-- An attempt that had ended before the call has ended after it. -/
theorem unterminated_of_later (id : String) {rows : List DelegatedReservation}
    (hrows : ∀ d ∈ rows, ∃ a, db.store.attempts.find d.attempt = some a) (hlater : Later db db') :
    (rows.filter fun d => d.grantId = id &&
      (db'.store.attempts.find d.attempt).any fun a => !a.terminationObserved).length ≤
    (rows.filter fun d => d.grantId = id &&
      (db.store.attempts.find d.attempt).any fun a => !a.terminationObserved).length := by
  rw [← List.countP_eq_length_filter, ← List.countP_eq_length_filter]
  apply List.countP_mono_left
  intro d hd hd'
  obtain ⟨a, ha⟩ := hrows d hd
  obtain ⟨a', ha', -, hterm⟩ := hlater.attempts ha
  simp only [ha', Option.any_some, Bool.and_eq_true, Bool.not_eq_true'] at hd'
  simp only [ha, Option.any_some, Bool.and_eq_true, Bool.not_eq_true']
  refine ⟨hd'.1, ?_⟩
  cases hended : a.terminationObserved with
  | false => rfl
  | true =>
    rw [hterm hended] at hd'
    cases hd'.2

theorem Sound.attempt_stored (h : Sound db) {d : DelegatedReservation}
    (hd : d ∈ db.store.delegated.rows) : ∃ a, db.store.attempts.find d.attempt = some a := by
  obtain ⟨a, ha, -⟩ := (h.rows d hd).reserved
  exact ⟨a, ha⟩

/-- Every grant's counts are within its limits: a grant without rows has no attempts. -/
theorem Sound.grant_within (h : Sound db) {grant : PreparedDelegation}
    (hgrant : grant ∈ db.grants.rows) {bounds : ReservationScope}
    (hbounds : grant.reservationScope = some bounds) :
    (db.rowsOf grant.digest).length ≤ bounds.maxTotalAttempts ∧
      (db.unterminated grant.digest).length ≤ grant.maxConcurrentAttempts := by
  cases hrows : db.rowsOf grant.digest with
  | nil =>
    have hle : (db.unterminated grant.digest).length ≤ (db.rowsOf grant.digest).length := by
      unfold DelegationStore.unterminated DelegationStore.rowsOf
      rw [← List.countP_eq_length_filter, ← List.countP_eq_length_filter]
      apply List.countP_mono_left
      intro d _ hd
      exact (Bool.and_eq_true _ _ ▸ hd).1
    rw [hrows] at hle
    simp only [List.length_nil] at hle ⊢
    omega
  | cons d rest =>
    have hd : d ∈ db.rowsOf grant.digest := by simp [hrows]
    obtain ⟨hmem, hid⟩ := List.mem_filter.mp hd
    have hid : d.grantId = grant.digest := by simpa using hid
    obtain ⟨grant', bounds', hgrant', hbounds', hlimits⟩ := h.limits d hmem
    rw [hid] at hgrant' hlimits
    cases (Table.find_of_mem hgrant).symm.trans hgrant'
    cases hbounds.symm.trans hbounds'
    rw [← hrows]
    exact hlimits

/-- Calls that add no row keep the invariant. -/
theorem Sound.of_same (h : Sound db) (hlater : Later db db')
    (hsame : db'.store.delegated = db.store.delegated) : Sound db' := by
  refine ⟨?_, hsame ▸ h.approvals, hsame ▸ h.attempts, ?_⟩
  · rw [hsame]
    exact fun d hd => (h.rows d hd).later hlater
  · rw [hsame]
    intro d hd
    obtain ⟨grant, bounds, hgrant, hbounds, htotal, hconcurrent⟩ := h.limits d hd
    refine ⟨grant, bounds, hlater.grants.find hgrant, hbounds, ?_, ?_⟩
    · unfold DelegationStore.rowsOf
      rw [hsame]
      exact htotal
    · unfold DelegationStore.unterminated
      rw [hsame]
      exact (unterminated_of_later d.grantId (fun d hd => h.attempt_stored hd) hlater).trans hconcurrent

/-- The row that a reservation adds. -/
def SignedRequest.row (prepared : SignedRequest) (result : Reservation) : DelegatedReservation :=
  ⟨prepared.request.grantId, prepared.request.idempotencyKey, prepared.digest,
    result.record.inputs.approval.id, result.record.attempt, result⟩

section Fresh

variable {prepared : SignedRequest} {now : Int} {result : Reservation}

theorem Reserved.rowSound (h : Reserved db db' prepared now result)
    (hparse : parseVerified prepared.raw = .ok prepared) : RowSound db' (prepared.row result) := by
  obtain ⟨env, task, -, hreserves⟩ := h.reserves
  obtain ⟨approval, happroval⟩ := h.approval
  refine ⟨⟨prepared, ?_, hparse, rfl, rfl, ?_⟩, rfl,
    ⟨⟨result.record.inputs.approval.id, approval⟩, ?_⟩, rfl,
    ⟨result.record.attemptRow, ?_, rfl⟩, hreserves.record_eq, ?_, ⟨now, ?_⟩, h.valid⟩
  · rw [Table.find_insert? h.request]
    exact if_pos rfl
  · rw [h.later.incarnation]
    exact h.incarnation
  · rw [Table.find_insert? happroval]
    exact if_pos rfl
  · rw [Table.find_insert? hreserves.attempts]
    exact if_pos rfl
  · rw [Table.find_insert? hreserves.inputs]
    exact if_pos rfl
  · rw [Table.find_insert? hreserves.operations]
    exact if_pos rfl

theorem Reserved.rows_eq (h : Reserved db db' prepared now result) :
    db'.store.delegated.rows = db.store.delegated.rows ++ [prepared.row result] :=
  (Table.insert?_eq_some h.row).2

/-- The rows of a grant are its reservations, since their attempts are stored. -/
theorem Sound.reservations_eq (h : Sound db) (id : String) : db.reservations id = db.rowsOf id := by
  apply List.filter_congr
  intro d hd
  obtain ⟨a, ha⟩ := h.attempt_stored hd
  simp [ha]

/-- The limits were counted before the row was added. -/
theorem Reserved.withinLimits (h : Reserved db db' prepared now result) (hsound : Sound db) :
    WithinLimits db' prepared.request.grantId := by
  obtain ⟨grant, bounds, hgrant, hbounds, -, -, htotal, hconcurrent⟩ := h.within
  have hid : grant.digest = prepared.request.grantId := Table.find_key hgrant
  rw [hid, hsound.reservations_eq] at htotal
  rw [hid] at hconcurrent
  refine ⟨grant, bounds, h.later.grants.find hgrant, hbounds, ?_, ?_⟩
  · unfold DelegationStore.rowsOf at htotal ⊢
    rw [h.rows_eq, List.filter_append, List.length_append]
    have hone := List.length_filter_le (fun d : DelegatedReservation =>
      d.grantId = prepared.request.grantId) [prepared.row result]
    simp only [List.length_singleton] at hone
    omega
  · unfold DelegationStore.unterminated at hconcurrent ⊢
    rw [h.rows_eq, List.filter_append, List.length_append]
    have hold := unterminated_of_later prepared.request.grantId
      (fun d hd => hsound.attempt_stored hd) h.later
    have hone := List.length_filter_le (fun d : DelegatedReservation =>
      d.grantId = prepared.request.grantId && (db'.store.attempts.find d.attempt).any fun a =>
        !a.terminationObserved) [prepared.row result]
    simp only [List.length_singleton] at hone
    omega

/-- The other grants see no new row. -/
theorem Reserved.others_within (h : Reserved db db' prepared now result) (hsound : Sound db)
    {id : String} (hid : id ≠ prepared.request.grantId) (hwithin : WithinLimits db id) :
    WithinLimits db' id := by
  obtain ⟨grant, bounds, hgrant, hbounds, htotal, hconcurrent⟩ := hwithin
  have hother : ¬(prepared.row result).grantId = id := fun he => hid he.symm
  refine ⟨grant, bounds, h.later.grants.find hgrant, hbounds, ?_, ?_⟩
  · unfold DelegationStore.rowsOf at htotal ⊢
    rw [h.rows_eq, List.filter_append]
    simpa [hother] using htotal
  · unfold DelegationStore.unterminated at hconcurrent ⊢
    have hold := unterminated_of_later id (fun d hd => hsound.attempt_stored hd) h.later
    rw [h.rows_eq, List.filter_append]
    have hnone : [prepared.row result].filter (fun d => d.grantId = id &&
        (db'.store.attempts.find d.attempt).any fun a => !a.terminationObserved) = [] := by
      simp [hother]
    rw [hnone, List.append_nil]
    exact hold.trans hconcurrent

theorem Sound.of_reserved (h : Sound db) (hr : Reserved db db' prepared now result)
    (hparse : parseVerified prepared.raw = .ok prepared) : Sound db' := by
  obtain ⟨env, task, -, hreserves⟩ := hr.reserves
  obtain ⟨approval, happroval⟩ := hr.approval
  have hmem : ∀ d ∈ db'.store.delegated.rows, d ∈ db.store.delegated.rows ∨
      d = prepared.row result := by
    intro d hd
    simpa [hr.rows_eq] using hd
  refine ⟨?_, ?_, ?_, ?_⟩
  · intro d hd
    rcases hmem d hd with hd | rfl
    · exact (h.rows d hd).later hr.later
    · exact hr.rowSound hparse
  · -- the approval was inserted, so no row had it
    rw [hr.rows_eq, List.map_append, List.map_singleton]
    refine List.nodup_append.mpr ⟨h.approvals, by simp, ?_⟩
    intro x hx y hy hxy
    obtain ⟨d, hd, rfl⟩ := List.mem_map.mp hx
    obtain rfl := List.mem_singleton.mp hy
    obtain ⟨g, hg⟩ := (h.rows d hd).approved
    rw [hxy] at hg
    cases hg.symm.trans (Table.insert?_eq_some happroval).1
  · rw [hr.rows_eq, List.map_append, List.map_singleton]
    refine List.nodup_append.mpr ⟨h.attempts, by simp, ?_⟩
    intro x hx y hy hxy
    obtain ⟨d, hd, rfl⟩ := List.mem_map.mp hx
    obtain rfl := List.mem_singleton.mp hy
    obtain ⟨a, ha⟩ := h.attempt_stored hd
    rw [hxy] at ha
    cases ha.symm.trans (Table.insert?_eq_some hreserves.attempts).1
  · intro d hd
    by_cases hid : d.grantId = prepared.request.grantId
    · rw [hid]
      exact hr.withinLimits h
    · rcases hmem d hd with hd | rfl
      · exact hr.others_within h hid (h.limits d hd)
      · exact absurd rfl hid

end Fresh

theorem Sound.step (h : Sound db) (call : Call) : Sound (exec call db).2 := by
  obtain ⟨hlater, hsame | ⟨prepared, now, reads, result, -, hparse, hr⟩⟩ := exec_later call db
  · exact h.of_same hlater hsame
  · exact h.of_reserved hr hparse

/-! ## Requests answered again -/

section Again

variable {prepared : SignedRequest} {reads : Reads} {d : DelegatedReservation}

/-- A row reads its own launch back. -/
theorem RowSound.readInput_eq (h : RowSound db d) (env : Outside)
    (henv : env.profile = Signed.profile) :
    readInput env d.response.record.operation db.store = .ok (d.response.record, db.store) := by
  obtain ⟨a, ha, htask⟩ := h.reserved
  obtain ⟨at_, hop⟩ := h.operation
  rw [h.attempt] at ha
  have hids : (d.response.record.attempt, d.response.record.operation) =
      recordIds d.response.record.inputs := by
    rw [h.record]
    rfl
  simp only [readInput, Tx.find_bind, Tx.require_bind, validateInputs_reads.peel, Tx.pure_ok]
  refine ⟨_, h.input, a, ha, _, hop, (), h.valid env _ henv, ⟨rfl, rfl⟩, ⟨hids, htask.symm, ?_, rfl,
    rfl, rfl, rfl⟩, rfl, trivial⟩
  rw [htask]
  rfl

theorem RowSound.replay_eq (h : RowSound db d) (hd : db.store.delegated.find prepared.key = some d)
    (hparse : parseVerified prepared.raw = .ok prepared)
    (hraw : db.rawOf d.key = prepared.raw) :
    replay prepared reads db = .ok (some d.response, db) := by
  obtain ⟨p, hrequest, hp, hkey, hdigest, hincarnation⟩ := h.request
  have hsame : p = prepared := by
    have hraw' : p.raw = prepared.raw := by
      rw [← hraw]
      simp [DelegationStore.rawOf, hrequest]
    rw [hraw', hparse] at hp
    exact (Except.ok.inj hp).symm
  subst hsame
  have hcheck : db.checkIncarnation p.request = .ok () := by
    simp [DelegationStore.checkIncarnation, hincarnation]
  have hread := h.readInput_eq (db.outside reads 0) rfl
  have hd' : db.store.delegated.find (p.request.grantId, p.request.idempotencyKey) = some d := hd
  simp only [replay, Tx.query_bind, Tx.ask_bind, hd', Tx.require_bind,
    (inStore_reads readInput_reads).peel, Tx.pure_ok]
  exact ⟨(), hcheck, ⟨hdigest.symm, hraw⟩, _, inStore_ok.mpr ⟨_, hread, rfl⟩, rfl, trivial, trivial⟩

omit [Digests] [Signed] in
/-- A commit that cannot succeed leaves the store and answers an error. -/
theorem answer_error {α : Type} {wrap : α → Answer} {body : DelegationTx α}
    (h : ∀ a db', body db ≠ .ok (a, db')) : ∃ e, answer wrap body db = (.error e, db) := by
  obtain ⟨a, db', hbody, -⟩ | ⟨e, -, hcommit⟩ := Tx.commit_eq body db
  · exact absurd hbody (h a db')
  · exact ⟨e, by simp [answer, hcommit, Except.map]⟩

theorem RowSound.reserve_eq (h : RowSound db d) (hd : db.store.delegated.find prepared.key = some d)
    (hparse : parseVerified prepared.raw = .ok prepared) (hraw : db.rawOf d.key = prepared.raw)
    (now : Int) : exec (.reserve prepared now reads) db = (.ok (.reserved d.response), db) := by
  have hbody : reserveDelegated prepared now reads db = .ok (d.response, db) := by
    simp only [reserveDelegated, Tx.check_bind, Tx.require_bind, replay_reads.peel]
    exact ⟨prepared, mapError_ok.mpr hparse, ⟨rfl, rfl⟩, _, h.replay_eq hd hparse hraw,
      Tx.pure_ok.mpr ⟨rfl, rfl⟩⟩
  simp [exec, answer, Tx.commit, hbody, Except.map]

end Again

/-! ## Claims of derived launches -/

section Claims

variable {env : Outside} {s s' : Store}

omit [Signed] in
theorem checkInputs_derived {i : LaunchInputs} {now : Int} {u : Unit}
    (h : checkInputs env i now s = .ok (u, s')) : env.derived i = none := by
  simp only [checkInputs, Tx.outside_bind, Tx.find_bind, Tx.require_bind, readGrant_reads.peel,
    Tx.ask_bind, Tx.check_bind, Tx.outside_ok] at h
  obtain ⟨-, _, -, -, _, -, _, -, _, -, -, -, hderived, -⟩ := h
  exact hderived

omit [Signed] in
/-- A launch that may be claimed has passed the check of derived approvals. -/
theorem checkLaunch_derived {operation : OperationId} {now : Int} {approval : String}
    (h : checkLaunch env operation now s = .ok (approval, s')) :
    ∃ record, s.inputs.find operation = some record ∧ env.derived record.inputs = none := by
  simp only [checkLaunch, readAttempt, readTask, readInput_reads.peel, Tx.find_bind, Tx.require_bind,
    Tx.outside_bind, checkInputs_reads.peel] at h
  obtain ⟨record, hrecord, -, -, _, -, _, -, -, -, _, hinputs, -⟩ := h
  exact ⟨record, (readInput_ok hrecord).2.input, checkInputs_derived hinputs⟩

omit [Signed] in
theorem claimWithCreation_derived {id : OperationId} {expected : Nat} {owner : String}
    {now leaseMs : Int} {creation : Option LaunchPreparation} {c : Claim}
    (h : claimWithCreation env id expected owner now leaseMs creation s = .ok (c, s'))
    {op : Operation} (hop : s.operations.find id = some op) (hkind : op.kind = .runtimeLaunch) :
    ∃ record, s.inputs.find id = some record ∧ env.derived record.inputs = none := by
  simp only [claimWithCreation, text, readDelivery, readOperation, Tx.require_bind, Tx.find_bind,
    nowCheck_bind, bindingCurrent_reads.peel, increment_bind] at h
  obtain ⟨-, -, -, old, hold, -, op', hop', _, -, -, -, -, h⟩ := h
  obtain ⟨_, t, hadmitted, -⟩ := Tx.bind_ok.mp h
  cases hop.symm.trans hop'
  have hid : old.operation = id := Table.find_key hold
  simp only [admitKind, hkind, Tx.require_bind, consume, checkLaunch_reads.peel] at hadmitted
  obtain ⟨-, approval, hcheck, -⟩ := hadmitted
  rw [hid] at hcheck
  exact checkLaunch_derived hcheck

omit [Signed] in
theorem validateClaim_derived {claim : Claim} {now : Int} {u : Unit}
    (h : validateClaim env claim now s = .ok (u, s'))
    {op : Operation} (hop : s.operations.find claim.operation = some op)
    (hkind : op.kind = .runtimeLaunch) :
    ∃ record, s.inputs.find claim.operation = some record ∧ env.derived record.inputs = none := by
  simp only [validateClaim, readDelivery, readOperation, Tx.require_bind, Tx.find_bind,
    nowCheck_bind, bindingCurrent_reads.peel] at h
  obtain ⟨-, old, -, -, op', hop', _, -, -, h⟩ := h
  obtain ⟨_, t, hvalid, -⟩ := Tx.bind_ok.mp h
  cases hop.symm.trans hop'
  simp only [revalidateKind, hkind, validateUse, checkLaunch_reads.peel] at hvalid
  obtain ⟨approval, hcheck, -⟩ := hvalid
  exact checkLaunch_derived hcheck

variable {reads : Reads} {d : DelegatedReservation}

/-- A derived launch passes its check only under a grant that is neither revoked nor expired. -/
theorem Sound.derived_fenced (h : Sound db) (hd : d ∈ db.store.delegated.rows)
    {grant : PreparedDelegation} (hgrant : db.grants.find d.grantId = some grant) {now : Int}
    (hpass : (db.outside reads now).derived d.response.record.inputs = none) :
    grant.digest ∉ db.revoked ∧ now < grant.expiresUnixMs := by
  have hrow := h.rows d hd
  have hfind : db.store.delegated.rows.find? (fun r =>
      r.approval = d.response.record.inputs.approval.id) = some d := by
    cases hf : db.store.delegated.rows.find? (fun r =>
        r.approval = d.response.record.inputs.approval.id) with
    | none =>
      have hnone := List.find?_eq_none.mp hf d hd
      simp [hrow.approval] at hnone
    | some r =>
      have hr := List.find?_some hf
      have hsame : r.approval = d.approval := by
        rw [hrow.approval]
        simpa using hr
      rw [List.inj_on_of_nodup_map h.approvals (List.mem_of_find?_eq_some hf) hd hsame]
  obtain ⟨p, hrequest, hparse, hkey, -, -⟩ := hrow.request
  have hraw : ((db.requests.find d.key).map (·.raw)).getD [] = p.raw := by simp [hrequest]
  have hpass := verdict_eq_none.mp hpass
  simp only [DelegationStore.validateDerived, hfind, hraw, hparse, Except.mapError] at hpass
  simp only [Except.bind_ok] at hpass
  obtain ⟨p', hp, hpass⟩ := hpass
  cases hp
  split at hpass
  · cases hpass
  · simp only [Except.bind_ok] at hpass
    obtain ⟨_, -, grant', hload, _, hscope, -⟩ := hpass
    have hid : p.request.grantId = d.grantId := congrArg Prod.fst hkey
    have hsame := load_ok hload
    rw [hid, hgrant] at hsame
    cases hsame
    obtain ⟨-, hexpires, hrevoked⟩ := scope_ok hscope
    exact ⟨hrevoked, hexpires⟩

/-- The claims of a launch that a method makes or relies on. -/
def claims (operation : OperationId) (now : Int) : Method → Prop
  | .claimOperation id _ _ at_ _ _ => id = operation ∧ at_ = now
  | .validateClaim claim at_ => claim.operation = operation ∧ at_ = now
  | _ => False

/-- **No claim of a launch succeeds after its grant has been revoked or has expired.** -/
theorem Sound.claim_fenced (h : Sound db) (hd : d ∈ db.store.delegated.rows)
    {grant : PreparedDelegation} (hgrant : db.grants.find d.grantId = some grant) {now : Int}
    (hended : grant.digest ∈ db.revoked ∨ grant.expiresUnixMs ≤ now)
    {method : { m : Method // undelegated m = true }}
    (hclaims : claims d.response.record.operation now method.val) :
    ∃ e, exec (.method method reads) db = (.error e, db) := by
  have hrow := h.rows d hd
  obtain ⟨at_, hop⟩ := hrow.operation
  have hrefused : (db.outside reads now).derived d.response.record.inputs ≠ none := by
    intro hpass
    obtain ⟨hrevoked, hexpires⟩ := h.derived_fenced hd hgrant hpass
    rcases hended with hended | hended
    · exact hrevoked hended
    · omega
  apply answer_error
  intro response db' hbody
  simp only [execMethod, Tx.ask_bind] at hbody
  obtain ⟨s, hbody, -⟩ := inStore_ok.mp hbody
  obtain ⟨method, hmethod⟩ := method
  cases method
  case claimOperation id expected owner at' lease creation =>
    obtain ⟨rfl, rfl⟩ := hclaims
    simp only [Method.body, Tx.map_ok] at hbody
    obtain ⟨c, hclaim, -⟩ := hbody
    obtain ⟨record, hrecord, hderived⟩ := claimWithCreation_derived hclaim hop rfl
    cases hrow.input.symm.trans hrecord
    exact hrefused hderived
  case validateClaim claim at' =>
    obtain ⟨hclaim, rfl⟩ := hclaims
    simp only [Method.body, Tx.map_ok] at hbody
    obtain ⟨c, hvalid, -⟩ := hbody
    rw [← hclaim] at hop
    obtain ⟨record, hrecord, hderived⟩ := validateClaim_derived hvalid hop rfl
    rw [hclaim] at hrecord
    cases hrow.input.symm.trans hrecord
    exact hrefused hderived
  all_goals exact hclaims.elim

end Claims

/-! ## Whole runs -/

/-- The store of a new project. -/
def DelegationStore.created (path incarnation : String) : DelegationStore :=
  ⟨.created path, .empty, [], .empty, incarnation⟩

abbrev DelegationRun := Run DelegationStore Call (Except StoreError Answer)

theorem sound_created {path incarnation : String} :
    Sound (DelegationStore.created path incarnation) := by
  refine ⟨?_, .nil, .nil, ?_⟩
  · intro d hd
    cases hd
  · intro d hd
    cases hd

theorem Sound.calls {run : DelegationRun} (h : Sound run.state) (calls : List Call) :
    Sound (run.calls exec calls).state :=
  Run.invariant (I := fun r => Sound r.state) h fun _ call _ h => h.step call

theorem Later.calls (run : DelegationRun) (calls : List Call) :
    Later run.state (run.calls exec calls).state :=
  Run.preserves .refl .trans fun db call _ => (exec_later call db).1

/-- A request that was answered is bound to its answer: its row has its digest, the same request
again reads the answer, other bytes are refused, and the launch is fenced by its grant. -/
structure Bound (db : DelegationStore) (prepared : SignedRequest) (result : Reservation) : Prop where
  row : ∃ row, db.store.delegated.find prepared.key = some row ∧
    row.requestDigest = prepared.digest ∧ row.response = result
  again : ∀ now reads, exec (.reserve prepared now reads) db = (.ok (.reserved result), db)
  other : ∀ other : SignedRequest, other.key = prepared.key → other.raw ≠ prepared.raw →
    ∀ now reads, ∃ e, exec (.reserve other now reads) db = (.error e, db)
  fenced : ∃ grant, db.grants.find prepared.request.grantId = some grant ∧
    ∀ now, grant.digest ∈ db.revoked ∨ grant.expiresUnixMs ≤ now →
      ∀ (method : { m : Method // undelegated m = true }) reads,
        claims result.record.operation now method.val →
        ∃ e, exec (.method method reads) db = (.error e, db)


theorem Bound.of_row (h : Sound db) {prepared : SignedRequest} {result : Reservation}
    (hparse : parseVerified prepared.raw = .ok prepared) {d : DelegatedReservation}
    (hd : db.store.delegated.find prepared.key = some d) (hresponse : d.response = result)
    (hdigest : d.requestDigest = prepared.digest) (hraw : db.rawOf d.key = prepared.raw) :
    Bound db prepared result := by
  subst hresponse
  have hmem := Table.mem_of_find hd
  have hkey : d.key = prepared.key := Table.find_key hd
  have hid : d.grantId = prepared.request.grantId := congrArg Prod.fst hkey
  refine ⟨⟨d, hd, hdigest, rfl⟩, ?_, ?_, ?_⟩
  · intro now reads
    exact (h.rows d hmem).reserve_eq hd hparse hraw now
  · intro other hother hdiffers now reads
    apply answer_error
    intro result db' hbody
    obtain ⟨-, ⟨-, row, hrow, -, -, hbytes⟩ | hreserved⟩ := reserveDelegated_ok hbody
    · rw [hother, hd] at hrow
      cases hrow
      exact hdiffers (hbytes.symm.trans hraw)
    · have hfree := hreserved.free
      rw [hother, hd] at hfree
      cases hfree
  · obtain ⟨grant, bounds, hgrant, -⟩ := h.limits d hmem
    rw [hid] at hgrant
    refine ⟨grant, hgrant, fun now hended method reads hclaims => ?_⟩
    exact h.claim_fenced hmem (hid ▸ hgrant) hended hclaims

/-- An answered request has its row, with its own bytes. -/
theorem exec_reserve_row {prepared : SignedRequest} {now : Int} {reads : Reads}
    {result : Reservation}
    (h : (exec (.reserve prepared now reads) db).1 = .ok (.reserved result)) :
    parseVerified prepared.raw = .ok prepared ∧
      ∃ row, (exec (.reserve prepared now reads) db).2.store.delegated.find prepared.key = some row ∧
        row.response = result ∧ row.requestDigest = prepared.digest ∧
        (exec (.reserve prepared now reads) db).2.rawOf row.key = prepared.raw := by
  simp only [exec, answer] at h ⊢
  obtain ⟨r, db', hbody, hcommit⟩ | ⟨e, -, hcommit⟩ :=
    Tx.commit_eq (reserveDelegated prepared now reads) db
  · rw [hcommit] at h ⊢
    cases h
    obtain ⟨hparse, ⟨rfl, row, hrow, rfl, hdigest, hraw⟩ | hr⟩ := reserveDelegated_ok hbody
    · exact ⟨hparse, row, hrow, rfl, hdigest, hraw⟩
    · refine ⟨hparse, prepared.row result, ?_, rfl, rfl, ?_⟩
      · rw [Table.find_insert? hr.row]
        exact if_pos rfl
      · have hrequest := (Table.find_insert? (k := prepared.key) hr.request).trans (if_pos rfl)
        simp [DelegationStore.rawOf, show (prepared.row result).key = prepared.key from rfl, hrequest]
  · rw [hcommit] at h
    cases h

/-- **Delegated reservations stay within their grant.** In every run: a grant's rows and its
unterminated attempts are within its limits; every row has its own approval and its own attempt;
an answered request stays bound to its answer, whatever calls follow; and under a grant that is
revoked, which it stays, or expired at the caller's clock, no new request is answered. -/
theorem delegated_reservations_within_grant (path incarnation : String) (calls : List Call) :
    let run := (Run.start (.created path incarnation) : DelegationRun).calls exec calls
    (∀ grant ∈ run.state.grants.rows, ∀ bounds, grant.reservationScope = some bounds →
      (run.state.rowsOf grant.digest).length ≤ bounds.maxTotalAttempts ∧
      (run.state.unterminated grant.digest).length ≤ grant.maxConcurrentAttempts) ∧
    (∀ d ∈ run.state.store.delegated.rows, ∃ grant bounds,
      run.state.grants.find d.grantId = some grant ∧ grant.reservationScope = some bounds) ∧
    (run.state.store.delegated.rows.map (·.approval)).Nodup ∧
    (run.state.store.delegated.rows.map (·.attempt)).Nodup ∧
    (∀ prepared now reads result,
      (exec (.reserve prepared now reads) run.state).1 = .ok (.reserved result) →
      ∀ more, Bound ((run.call exec (.reserve prepared now reads)).calls exec more).state
        prepared result) ∧
    (∀ id ∈ run.state.revoked, ∀ more, id ∈ (run.calls exec more).state.revoked) ∧
    (∀ prepared now reads grant, run.state.store.delegated.find prepared.key = none →
      run.state.grants.find prepared.request.grantId = some grant →
      grant.digest ∈ run.state.revoked ∨ grant.expiresUnixMs ≤ now →
      ∃ e, exec (.reserve prepared now reads) run.state = (.error e, run.state)) := by
  intro run
  have hsound : Sound run.state := Sound.calls sound_created calls
  refine ⟨?_, ?_, hsound.approvals, hsound.attempts, ?_, ?_, ?_⟩
  · intro grant hgrant bounds hbounds
    exact hsound.grant_within hgrant hbounds
  · intro d hd
    obtain ⟨grant, bounds, hgrant, hbounds, -⟩ := hsound.limits d hd
    exact ⟨grant, bounds, hgrant, hbounds⟩
  · intro prepared now reads result hanswer more
    obtain ⟨hparse, row, hrow, hresponse, hdigest, hraw⟩ := exec_reserve_row hanswer
    have hnext : Sound (run.call exec (.reserve prepared now reads)).state := hsound.step _
    have hlater := Later.calls (run.call exec (.reserve prepared now reads)) more
    have hkept := (hnext.rows row (Table.mem_of_find hrow)).rawOf_later hlater
    exact .of_row (hnext.calls more) hparse (hlater.delegated.find hrow) hresponse hdigest
      (hkept.trans hraw)
  · intro id hid more
    exact (Later.calls run more).revoked id hid
  · intro prepared now reads grant hfree hgrant hended
    apply answer_error
    intro result db' hbody
    obtain ⟨-, ⟨-, row, hrow, -⟩ | hreserved⟩ := reserveDelegated_ok hbody
    · rw [hfree] at hrow
      cases hrow
    · obtain ⟨grant', bounds, hgrant', -, hexpires, hrevoked, -⟩ := hreserved.within
      cases hgrant.symm.trans hgrant'
      rcases hended with hended | hended
      · exact hrevoked hended
      · omega

end Runs

end Herdr.Delegation
