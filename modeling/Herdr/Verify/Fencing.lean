import Herdr.Lib.Fencing
import Herdr.Verify.Effects

/-!
# The fence of an operation

A delivery row is a fenced resource: its epoch is the stamp and the claim that it records is the
holder. Every call moves each row as the library's `Fence.Move` allows, so over any run at most
the claim that was returned last is accepted, and a claim that lost its row is refused for good.
-/

namespace Herdr

/-! ## Rows -/

/-- The row records this claim. -/
def Delivery.records (d : Delivery) (c : Claim) : Prop :=
  d.state = .claimed ∧ d.revision = c.revision ∧ d.epoch = c.epoch ∧ d.owner = some c.owner ∧
    d.leaseUntilMs = some c.leaseUntilMs

theorem Delivery.heldBy_iff {d : Delivery} {c : Claim} {now : Int} :
    d.heldBy c now ↔ d.records c ∧ now < c.leaseUntilMs := by
  simp [Delivery.heldBy, Delivery.records, and_assoc]

/-- The table's check: an owner and a lease are present exactly in the claimed state. -/
def Delivery.Checked (d : Delivery) : Prop :=
  (d.owner.isSome ↔ d.state = .claimed) ∧ (d.leaseUntilMs.isSome ↔ d.state = .claimed)

/-- The row as a fenced resource. -/
def Delivery.fence (d : Delivery) : Fence Claim where
  stamp := d.epoch
  holder :=
    match d.state, d.owner, d.leaseUntilMs with
    | .claimed, some owner, some lease => some ⟨d.operation, d.revision, owner, d.epoch, lease⟩
    | _, _, _ => none

theorem Delivery.fence_holder {d : Delivery} {c : Claim} :
    d.fence.holder = some c ↔ d.records c ∧ c.operation = d.operation := by
  obtain ⟨operation, revision, state, epoch, attempts, owner, lease, due, last⟩ := d
  obtain ⟨operation', revision', owner', epoch', lease'⟩ := c
  unfold Delivery.fence Delivery.records
  cases state <;> cases owner <;> cases lease <;> simp [eq_comm]
  tauto

/-- One call's effect on one row; the index is the claim that the call handed out for it. -/
inductive Moves (d : Delivery) : Option Claim → Delivery → Prop
  | same : Moves d none d
  | settles (outcome : Outcome) (now : Int) : Moves d none (d.settle outcome now)
  | expires (now : Int) : Moves d none (d.expire now)
  | claims {c : Claim} (operation : c.operation = d.operation) (revision : c.revision = d.revision + 1)
    (epoch : c.epoch = d.epoch + 1) : Moves d (some c) (d.claim c.owner c.leaseUntilMs)

theorem Outcome.budgeted_state (outcome : Outcome) (attempts : Nat) :
    (outcome.budgeted attempts).state ≠ .claimed := by
  unfold Outcome.budgeted
  split
  · simp [Outcome.state]
  · cases outcome <;> simp [Outcome.state]

namespace Moves

variable {d d' : Delivery} {o : Option Claim}

theorem operation_eq (h : Moves d o d') : d'.operation = d.operation := by
  cases h <;> rfl

/-- The row is unchanged, or its revision moves by one. -/
theorem revision_eq (h : Moves d o d') : d' = d ∨ d'.revision = d.revision + 1 := by
  cases h with
  | same => exact .inl rfl
  | settles | expires | claims => exact .inr rfl

theorem epoch_le (h : Moves d o d') : d.epoch ≤ d'.epoch := by
  cases h with
  | same | settles => exact Nat.le_refl _
  | expires | claims => exact Nat.le_succ _

theorem attempts_le (h : Moves d o d') : d.attempts ≤ d'.attempts := by
  cases h with
  | same | settles | expires => exact Nat.le_refl _
  | claims => exact Nat.le_succ _

theorem checked (h : Moves d o d') (hd : d.Checked) : d'.Checked := by
  cases h with
  | same => exact hd
  | settles outcome now =>
    simp [Delivery.Checked, Delivery.settle, Outcome.budgeted_state]
  | expires now =>
    simp [Delivery.Checked, Delivery.expire, Delivery.settle, Outcome.budgeted_state]
  | claims => simp [Delivery.Checked, Delivery.claim]

/-- A row that is not claimed has no holder. -/
theorem holder_settle (d : Delivery) (outcome : Outcome) (now : Int) :
    (d.settle outcome now).fence.holder = none := by
  unfold Delivery.fence Delivery.settle
  simp

/-- Every move of a row is a move of its fence. -/
theorem fence (h : Moves d o d') : Fence.Move Claim.epoch d.fence o d'.fence := by
  cases h with
  | same => exact .keep
  | settles outcome now => exact .release (Nat.le_refl _) (holder_settle ..)
  | expires now => exact .release (Nat.le_succ _) (holder_settle ..)
  | claims operation revision epoch =>
    refine .issue ?_ epoch.symm ?_
    · rw [epoch]
      exact Nat.lt_succ_self _
    · exact Delivery.fence_holder.mpr
        ⟨⟨rfl, revision.symm, epoch.symm, rfl, rfl⟩, operation⟩

end Moves

/-! ## Calls -/

variable [Digests] {env : Outside} {s s' : Store} {o : Option Claim}

/-- The claims for this operation. -/
def forOperation (id : OperationId) (c : Claim) : Bool := c.operation = id

omit [Digests] in
/-- Updating one row moves that row and no other. -/
theorem moves_update {table : Table Delivery Delivery.operation} (old : Delivery) {new : Delivery}
    (hold : table.find old.operation = some old)
    (hc : ∀ c, o = some c → c.operation = old.operation) (hmove : Moves old o new)
    {id : OperationId} {d : Delivery} (hd : table.find id = some d) :
    ∃ d', (table.update new).find id = some d' ∧ Moves d (o.filter (forOperation id)) d' := by
  have hnew : new.operation = old.operation := hmove.operation_eq
  by_cases hid : old.operation = id
  · subst hid
    rw [hold] at hd
    cases hd
    refine ⟨new, ?_, ?_⟩
    · rw [← hnew] at hold ⊢
      exact Table.find_update_self hold
    · cases o with
      | none => exact hmove
      | some c =>
        have heq : forOperation old.operation c = true := by simp [forOperation, hc c rfl]
        rw [Option.filter_some, heq]
        exact hmove
  · refine ⟨d, ?_, ?_⟩
    · rw [Table.find_update_ne (by rwa [hnew]), hd]
    · cases o with
      | none => exact .same
      | some c =>
        have hne : forOperation id c = false := by simp [forOperation, hc c rfl, hid]
        rw [Option.filter_some, hne]
        exact .same

/-- **Every call moves every row as the fence allows.** -/
theorem Effect.row (h : Effect env s o s') {id : OperationId} {d : Delivery}
    (hd : s.deliveries.find id = some d) :
    ∃ d', s'.deliveries.find id = some d' ∧ Moves d (o.filter (forOperation id)) d' := by
  have hsame : s'.deliveries = s.deliveries → o = none →
      ∃ d', s'.deliveries.find id = some d' ∧ Moves d (o.filter (forOperation id)) d' := by
    rintro he rfl
    exact ⟨d, he ▸ hd, .same⟩
  have hsettled : ∀ {d'}, (d' = d ∨ ∃ outcome now, d' = d.settle outcome now) →
      Moves d ((none : Option Claim).filter (forOperation id)) d' := by
    rintro d' (rfl | ⟨outcome, now, rfl⟩)
    · exact .same
    · exact .settles outcome now
  cases h with
  | reads => exact hsame rfl rfl
  | @claims _ c old op claimed =>
    have hop : old.operation = c.operation := Table.find_key claimed.row
    rw [claimed.frame]
    exact moves_update old (hop ▸ claimed.row) (fun _ he => by cases he; exact hop.symm)
      (.claims hop.symm claimed.revision claimed.epoch) hd
  | settles row settled =>
    rw [settled.frame]
    exact moves_update _ row (fun _ he => by cases he) (.settles _ _) hd
  | expires now only rows =>
    obtain ⟨d', hd', ⟨-, rfl⟩ | ⟨-, rfl⟩⟩ := rows hd
    · exact ⟨_, hd', .expires now⟩
    · exact ⟨_, hd', .same⟩
  | records => exact hsame rfl rfl
  | @starts _ _ receipt _ _ _ _ old _ row acknowledged published =>
    have hop : old.operation = receipt.operation := Table.find_key row
    rw [published.frame]
    exact moves_update old (hop ▸ row) (fun _ he => by cases he) (.settles _ _) hd
  | reserves _ _ _ reserved =>
    exact ⟨d, Table.find_insert?_of_some reserved.deliveries hd, .same⟩
  | cancels cancelled =>
    rcases cancelled.launch with ⟨-, he⟩ | ⟨-, record, delivery, released⟩
    · exact hsame he rfl
    · obtain ⟨outcome, now, he⟩ := released.settled
      have hop : delivery.operation = record.operation := Table.find_key released.row
      rw [he]
      exact moves_update delivery (hop ▸ released.row) (fun _ he => by cases he)
        (.settles outcome now) hd
  | ends ended =>
    obtain ⟨d', hd', hmove⟩ := ended.deliveries hd
    exact ⟨d', hd', hsettled hmove⟩
  | stops ended =>
    obtain ⟨d', hd', hmove⟩ := ended.deliveries hd
    exact ⟨d', hd', hsettled hmove⟩
  | completes _ frame => exact hsame (by rw [frame]) rfl
  | queues queued => exact hsame (by rw [queued.frame]) rfl
  | adopts frame => exact hsame (by rw [frame]) rfl

/-! ## Runs -/

/-- The claims for an operation that the calls of a log returned, oldest first. -/
def returned (id : OperationId) (log : List (Call × Except StoreError Response)) : List Claim :=
  (log.filterMap fun entry => handedOut entry.2).filter (forOperation id)

omit [Digests] in
theorem returned_snoc {id : OperationId} {log : List (Call × Except StoreError Response)}
    {call : Call} {answer : Except StoreError Response} :
    returned id (log ++ [(call, answer)]) =
      returned id log ++ ((handedOut answer).filter (forOperation id)).toList := by
  unfold returned
  rw [List.filterMap_append, List.filter_append]
  congr 1
  cases h : handedOut answer with
  | none => simp [h]
  | some c =>
    cases hc : forOperation id c with
    | true => simp [h, hc, Option.filter_some]
    | false => simp [h, hc, Option.filter_some]

/-- The row of an operation is there and agrees with the claims returned for it. -/
def RowFenced (id : OperationId) (run : StoreRun) : Prop :=
  ∃ row, run.state.deliveries.find id = some row ∧ row.Checked ∧
    Fence.Inv Claim.epoch (returned id run.log) row.fence

theorem RowFenced.call {id : OperationId} {run : StoreRun} (h : RowFenced id run) (call : Call) :
    RowFenced id (run.call exec call) := by
  obtain ⟨row, hrow, hchecked, hinv⟩ := h
  obtain ⟨row', hrow', hmove⟩ := (exec_effect call run.state).row hrow
  refine ⟨row', hrow', hmove.checked hchecked, ?_⟩
  rw [Run.call_log, returned_snoc]
  exact hinv.move hmove.fence

theorem RowFenced.calls {id : OperationId} {run : StoreRun} (h : RowFenced id run)
    (calls : List Call) : RowFenced id (run.calls exec calls) :=
  Run.invariant h fun _ call _ h => h.call call

/-- A claim that lost its row never gets it back. -/
theorem RowFenced.lost {id : OperationId} {run : StoreRun} (h : RowFenced id run) {c : Claim}
    (hc : c ∈ returned id run.log)
    (hlost : ∀ row, run.state.deliveries.find id = some row → row.fence.holder ≠ some c)
    (calls : List Call) :
    ∀ row, (run.calls exec calls).state.deliveries.find id = some row →
      row.fence.holder ≠ some c := by
  -- along the run the claim stays among those returned, and its row has another holder or none
  have hinv : RowFenced id (run.calls exec calls) ∧ c ∈ returned id (run.calls exec calls).log ∧
      ∀ row, (run.calls exec calls).state.deliveries.find id = some row →
        row.fence.holder ≠ some c := by
    refine Run.invariant (I := fun q => RowFenced id q ∧ c ∈ returned id q.log ∧
      ∀ row, q.state.deliveries.find id = some row → row.fence.holder ≠ some c) ⟨h, hc, hlost⟩ ?_
    rintro q call - ⟨hfenced, hmem, hfree⟩
    refine ⟨hfenced.call call, ?_, fun row' hrow' => ?_⟩
    · rw [Run.call_log, returned_snoc]
      exact List.mem_append_left _ hmem
    · obtain ⟨row, hrow, -, hrowInv⟩ := hfenced
      obtain ⟨row'', hrow'', hmove⟩ := (exec_effect call q.state).row hrow
      rw [Run.call_state, hrow''] at hrow'
      cases hrow'
      exact hrowInv.stale hmem (hfree row hrow) hmove.fence
  exact hinv.2.2

/-! ### Calls that present a claim, and calls that write the row -/

/-- The claim and the clock that a fenced call presents. -/
def Method.presents : Method → Option (Claim × Int)
  | .validateClaim c now | .finishOperation c _ now => some (c, now)
  | _ => none

/-- The call, when it succeeds, writes the row of this operation. -/
def Method.writes (s : Store) (id : OperationId) : Method → Prop
  | .claimOperation operation .. | .observeOperation operation .. | .retireOperation operation .. =>
    operation = id
  | .finishOperation c .. => c.operation = id
  | .expireClaims now => id ∈ s.expired now
  | _ => False

/-- A claim that is accepted is recorded by its row. -/
theorem accepted_held {call : Call} {c : Claim} {now : Int} {response : Response}
    (hpresents : call.method.presents = some (c, now))
    (hok : (exec call s).1 = .ok response) :
    ∃ row, s.deliveries.find c.operation = some row ∧ row.heldBy c now := by
  have hbody := Tx.commit_ok hok
  obtain ⟨method, env⟩ := call
  cases method <;> simp only [Method.presents, Option.some.injEq, Prod.mk.injEq, reduceCtorEq]
    at hpresents
  case validateClaim =>
    obtain ⟨rfl, rfl⟩ := hpresents
    obtain ⟨_, h, -⟩ := Tx.map_ok.mp hbody
    obtain ⟨-, row, -, hrow, hheld, -⟩ := validateClaim_ok h
    exact ⟨row, hrow, hheld⟩
  case finishOperation =>
    obtain ⟨rfl, rfl⟩ := hpresents
    obtain ⟨_, h, -⟩ := Tx.map_ok.mp hbody
    obtain ⟨row, hrow, hheld, -⟩ := finishOperation_ok h
    exact ⟨row, hrow, hheld⟩

omit [Digests] in
theorem settles_revision {id : OperationId} {row : Delivery} {outcome : Outcome} {now : Int}
    (hrow : s.deliveries.find id = some row) (h : Settles s s' (row.settle outcome now)) :
    ∃ row', s'.deliveries.find id = some row' ∧ row'.revision = row.revision + 1 := by
  have hid : row.operation = id := Table.find_key hrow
  subst hid
  rw [h.frame]
  exact ⟨_, Table.find_update_self (a := row.settle outcome now) hrow, rfl⟩

/-- A successful write moves the revision by exactly one. -/
theorem written_revision {call : Call} {id : OperationId} {row : Delivery} {response : Response}
    (hrow : s.deliveries.find id = some row) (hwrites : call.method.writes s id)
    (hok : (exec call s).1 = .ok response) :
    ∃ row', (exec call s).2.deliveries.find id = some row' ∧
      row'.revision = row.revision + 1 := by
  have hbody := Tx.commit_ok hok
  change call.method.body call.outside s = .ok (response, (exec call s).2) at hbody
  generalize (exec call s).2 = s' at hbody ⊢
  obtain ⟨method, env⟩ := call
  cases method <;> simp only [Method.writes] at hwrites
  case claimOperation =>
    subst hwrites
    obtain ⟨_, h, -⟩ := Tx.map_ok.mp hbody
    obtain ⟨rfl, old, op, hc⟩ := claimWithCreation_ok h
    have hold : old = row := Option.some.inj (hc.row.symm.trans hrow)
    subst hold
    rw [hc.frame, ← Table.find_key hrow] at *
    exact ⟨_, Table.find_update_self (a := old.claim _ _) hrow, rfl⟩
  case finishOperation =>
    subst hwrites
    obtain ⟨_, h, -⟩ := Tx.map_ok.mp hbody
    obtain ⟨old, hold, -, hs⟩ := finishOperation_ok h
    rw [hrow] at hold
    cases hold
    exact settles_revision hrow hs
  case expireClaims now =>
    obtain ⟨_, h, -⟩ := Tx.map_ok.mp hbody
    obtain ⟨row', hrow', ⟨-, rfl⟩ | ⟨hnot, -⟩⟩ := (expireClaims_ok h).2 hrow
    · exact ⟨_, hrow', rfl⟩
    · exact absurd hwrites hnot
  case observeOperation =>
    subst hwrites
    obtain ⟨_, h, -⟩ := Tx.map_ok.mp hbody
    obtain ⟨old, hold, -, hs⟩ := observeOperation_ok h
    rw [hrow] at hold
    cases hold
    exact settles_revision hrow hs
  case retireOperation =>
    subst hwrites
    obtain ⟨_, h, -⟩ := Tx.map_ok.mp hbody
    obtain ⟨old, outcome, hold, -, hs⟩ := retireOperation_ok h
    rw [hrow] at hold
    cases hold
    exact settles_revision hrow hs

/-! ### Fencing over a run -/

/-- What the fence of an operation guarantees after a run of any calls. -/
structure Fencing (run : StoreRun) (id : OperationId) : Prop where
  /-- A claim is accepted only if it was returned last, while its row records it. -/
  accepted : ∀ (call : Call) (c : Claim) (now : Int) (response : Response),
    call.method.presents = some (c, now) → c.operation = id →
    (exec call run.state).1 = .ok response →
    (returned id run.log).getLast? = some c ∧
      ∃ row, run.state.deliveries.find id = some row ∧ row.heldBy c now
  /-- An older claim is refused, now and after any further calls. -/
  older : ∀ c ∈ returned id run.log, (returned id run.log).getLast? ≠ some c →
    ∀ (later : List Call) (call : Call) (now : Int) (response : Response),
      call.method.presents = some (c, now) →
      (exec call (run.calls exec later).state).1 ≠ .ok response
  /-- So is a claim that its row does not record any more. -/
  lost : ∀ c ∈ returned id run.log,
    (∀ row, run.state.deliveries.find id = some row → ¬row.records c) →
    ∀ (later : List Call) (call : Call) (now : Int) (response : Response),
      call.method.presents = some (c, now) →
      (exec call (run.calls exec later).state).1 ≠ .ok response
  /-- One more call leaves the row alone or moves its revision by one; the epoch never goes back,
  and a claim takes a larger one. -/
  step : ∀ call : Call, ∃ row row', run.state.deliveries.find id = some row ∧
    (exec call run.state).2.deliveries.find id = some row' ∧
    (row' = row ∨ row'.revision = row.revision + 1) ∧ row.epoch ≤ row'.epoch ∧
    ((∃ response, (exec call run.state).1 = .ok response) → call.method.writes run.state id →
      row'.revision = row.revision + 1) ∧
    ∀ c, handedOut (exec call run.state).1 = some c → c.operation = id → row.epoch < c.epoch
  /-- The epochs of the claims returned so far increase. -/
  increasing : (returned id run.log).Pairwise fun c c' => c.epoch < c'.epoch
  /-- Owner and lease are present exactly in the claimed state. -/
  checked : ∀ row, run.state.deliveries.find id = some row → row.Checked

omit [Digests] in
theorem returned_operation {id : OperationId} {log : List (Call × Except StoreError Response)}
    {c : Claim} (h : c ∈ returned id log) : c.operation = id := by
  have := (List.mem_filter.mp h).2
  simpa [forOperation] using this

/-- A claim whose row has another holder or none is refused. -/
theorem refused_of_holder {id : OperationId} {c : Claim} {call : Call} {now : Int}
    (hop : c.operation = id)
    (hfree : ∀ row, s.deliveries.find id = some row → row.fence.holder ≠ some c)
    (hpresents : call.method.presents = some (c, now)) (response : Response) :
    (exec call s).1 ≠ .ok response := by
  intro hok
  obtain ⟨row, hrow, hheld⟩ := accepted_held hpresents hok
  rw [hop] at hrow
  refine hfree row hrow (Delivery.fence_holder.mpr ⟨(Delivery.heldBy_iff.mp hheld).1, ?_⟩)
  rw [hop, Table.find_key hrow]

theorem RowFenced.fencing {id : OperationId} {run : StoreRun} (h : RowFenced id run) :
    Fencing run id := by
  have hfenced := h
  obtain ⟨row, hrow, hchecked, hinv⟩ := hfenced
  have hunique : ∀ row', run.state.deliveries.find id = some row' → row' = row := by
    intro row' hrow'
    rw [hrow] at hrow'
    exact (Option.some.inj hrow').symm
  have hrefused : ∀ c ∈ returned id run.log, row.fence.holder ≠ some c →
      ∀ (later : List Call) (call : Call) (now : Int) (response : Response),
        call.method.presents = some (c, now) →
        (exec call (run.calls exec later).state).1 ≠ .ok response := by
    intro c hc hlost later call now response hpresents
    have hfree := h.lost hc (fun row' hrow' => hunique row' hrow' ▸ hlost) later
    exact refused_of_holder (returned_operation hc) hfree hpresents response
  refine ⟨?_, ?_, ?_, ?_, hinv.increasing, ?_⟩
  · intro call c now response hpresents hop hok
    obtain ⟨row', hrow', hheld⟩ := accepted_held hpresents hok
    rw [hop] at hrow'
    refine ⟨?_, row', hrow', hheld⟩
    obtain rfl := hunique row' hrow'
    refine hinv.holder c (Delivery.fence_holder.mpr ⟨(Delivery.heldBy_iff.mp hheld).1, ?_⟩)
    rw [hop, Table.find_key hrow]
  · intro c hc hold
    exact hrefused c hc fun hholder => hold (hinv.holder c hholder)
  · intro c hc hlost
    exact hrefused c hc fun hholder => hlost row hrow (Delivery.fence_holder.mp hholder).1
  · intro call
    obtain ⟨row', hrow', hmove⟩ := (exec_effect call run.state).row hrow
    refine ⟨row, row', hrow, hrow', hmove.revision_eq, hmove.epoch_le, ?_, ?_⟩
    · rintro ⟨response, hok⟩ hwrites
      obtain ⟨row'', hrow'', hrevision⟩ := written_revision hrow hwrites hok
      rw [hrow'] at hrow''
      cases hrow''
      exact hrevision
    · intro c hc hop
      have hfor : forOperation id c = true := by simpa [forOperation] using hop
      rw [hc, Option.filter_some, hfor] at hmove
      cases hmove with
      | claims _ _ epoch => omega
  · intro row' hrow'
    exact hunique row' hrow' ▸ hchecked

/-- **Claim fencing.** From a pending row, over any interleaving of calls: at most one claim is
accepted, the one returned last, and no older one is ever accepted again. -/
theorem claim_fencing {s : Store} {id : OperationId} {row : Delivery}
    (hrow : s.deliveries.find id = some row) (hpending : row.state = .pending)
    (hchecked : row.Checked) (calls : List Call) : Fencing (runFrom s calls) id := by
  refine RowFenced.fencing (RowFenced.calls ⟨row, hrow, hchecked, .start ?_⟩ calls)
  simp [Delivery.fence, hpending]

omit [Digests] in
theorem one_task_nodup :
    ([(⟨⟨"task"⟩, 3, .queued, "Task", none⟩ : Task)].map Task.id).Nodup := by
  simp

/-- A store with one operation of another module's kind, as it is enqueued. -/
def enqueuedStore : Store := { Store.created "/project/state.db" with
  tasks := ⟨[⟨⟨"task"⟩, 3, .queued, "Task", none⟩], one_task_nodup⟩
  operations := ⟨[⟨⟨"op"⟩, some ⟨"task"⟩, .other "memory.publish", "binding", 1, .other "", 3, 0,
    "op"⟩], by simp⟩
  deliveries := ⟨[.enqueued ⟨"op"⟩ 0], by simp⟩ }

/-- Nothing outside the store refuses anything; operations of other kinds use nothing else of it. -/
def permissive : Outside where
  configReference _ := none
  executionRoute _ _ := .error .conflict
  workerOutputPath _ := .error .conflict
  acceptedSubmission _ _ := .error .conflict

/-- A claim expires, its effect is observed to be absent, and another owner claims again. -/
def reclaim : List Call :=
  [⟨.claimOperation ⟨"op"⟩ 1 "first" 5 10 none, permissive⟩, ⟨.expireClaims 20, permissive⟩,
   ⟨.observeOperation ⟨"op"⟩ 3 "operator" (.retryable "absent") 30, permissive⟩,
   ⟨.claimOperation ⟨"op"⟩ 4 "second" 5000 10 none, permissive⟩]

/-- No digest is taken along `reclaim`. -/
@[reducible] def noDigests : Digests := ⟨fun _ => "", fun _ => "", fun _ => "", fun _ => "",
  fun _ _ => "", fun _ => ""⟩

omit [Digests] in
theorem claim_fencing_reclaim :
    returned ⟨"op"⟩ (@runFrom noDigests enqueuedStore reclaim).log =
        [⟨⟨"op"⟩, 2, "first", 1, 15⟩, ⟨⟨"op"⟩, 5, "second", 3, 5010⟩] ∧
      @Fencing noDigests (@runFrom noDigests enqueuedStore reclaim) ⟨"op"⟩ :=
  ⟨by decide +kernel, @claim_fencing noDigests enqueuedStore ⟨"op"⟩ (.enqueued ⟨"op"⟩ 0)
    (by decide) rfl (by simp [Delivery.Checked, Delivery.enqueued]) reclaim⟩

end Herdr
