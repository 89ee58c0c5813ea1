import Herdr.Store.Replans
import Herdr.Verify.Proposals

/-!
# The replan budget

The claims of a feedback item have increasing epochs, and at most one of them is active. Requests
are counted for each plan revision and blocker; every automatic request acknowledged its feedback
and published its notice, and an acknowledged item never changes again, so a repeated request finds
its decision and writes nothing.
-/

namespace Herdr.Plans

variable [Documents] {db db' : PlanStore}

/-! ## Leases -/

section Leases

omit [Documents]

/-- At most one claim of an item is active, and its epochs increase. -/
structure Leases (claims : Table ClaimRow ClaimRow.key) : Prop where
  active : ∀ f, claims.rows.countP (fun c => c.feedbackId = f && c.state = .active) ≤ 1
  epochs : ∀ f, ((claims.rows.filter fun c => c.feedbackId = f).map (·.claimEpoch)).Pairwise (· < ·)

variable {claims claims' : Table ClaimRow ClaimRow.key} {row : ClaimRow}

theorem leases_empty : Leases .empty := ⟨by simp [Table.empty], by simp [Table.empty]⟩

/-- An update leaves the epochs alone: they are part of the key. -/
theorem epochs_update (claims : Table ClaimRow ClaimRow.key) (row : ClaimRow) (f : String) :
    ((claims.update row).rows.filter fun c => c.feedbackId = f).map (·.claimEpoch) =
      (claims.rows.filter fun c => c.feedbackId = f).map (·.claimEpoch) := by
  rw [Table.rows_update]
  induction claims.rows with
  | nil => rfl
  | cons c rows ih =>
    by_cases hkey : c.key = row.key
    · obtain ⟨hid, hepoch⟩ : c.feedbackId = row.feedbackId ∧ c.claimEpoch = row.claimEpoch := by
        simpa [ClaimRow.key] using hkey
      simp only [List.map_cons, if_pos hkey, List.filter_cons, hid]
      split
      · simp only [List.map_cons, ih, hepoch]
      · exact ih
    · simp only [List.map_cons, if_neg hkey, List.filter_cons]
      split
      · simp only [List.map_cons, ih]
      · exact ih

/-- Ending a claim. -/
theorem Leases.close (h : Leases claims) (hstate : row.state ≠ .active) :
    Leases (claims.update row) := by
  refine ⟨?_, fun f => by rw [epochs_update]; exact h.epochs f⟩
  intro f
  refine le_trans ?_ (h.active f)
  rw [Table.rows_update, List.countP_map]
  apply List.countP_mono_left
  intro c _ hc
  simp only [Function.comp] at hc
  split at hc
  · simp [hstate] at hc
  · exact hc

omit claims' in
theorem le_foldl_max {l : List Nat} {n m : Nat} (h : n ∈ l ∨ n ≤ m) : n ≤ l.foldl max m := by
  induction l generalizing m with
  | nil => simpa using h
  | cons a l ih =>
    apply ih
    rcases h with h | h
    · rcases List.mem_cons.mp h with rfl | h
      · exact .inr (le_max_right _ _)
      · exact .inl h
    · exact .inr (le_trans h (le_max_left _ _))

/-- Opening a claim at the next epoch of an item that has no active one. -/
theorem Leases.open (h : Leases db.claims) (hnone : db.activeClaim row.feedbackId = none)
    (hepoch : row.claimEpoch = db.latestEpoch row.feedbackId + 1)
    (hinsert : db.claims.insert? row = some claims') : Leases claims' := by
  obtain ⟨-, hrows⟩ := Table.insert?_eq_some hinsert
  refine ⟨?_, ?_⟩
  · intro f
    rw [hrows, List.countP_append]
    by_cases hf : row.feedbackId = f
    · have hzero : db.claims.rows.countP
          (fun c => c.feedbackId = f && c.state = .active) = 0 := by
        rw [List.countP_eq_zero]
        intro c hc
        rw [← hf]
        exact List.find?_eq_none.mp hnone c hc
      rw [hzero]
      exact le_trans (Nat.add_le_add_left List.countP_le_length 0) (by simp)
    · have hone : [row].countP (fun c => c.feedbackId = f && c.state = .active) = 0 := by
        simp [hf]
      rw [hone]
      exact h.active f
  · intro f
    rw [hrows, List.filter_append, List.map_append, List.pairwise_append]
    by_cases hf : row.feedbackId = f
    · refine ⟨h.epochs f, by simp [hf], ?_⟩
      intro n hn m hm
      have hm : m = row.claimEpoch := by simpa [hf] using hm
      rw [hm, hepoch, hf]
      exact Nat.lt_succ_of_le (le_foldl_max (.inl hn))
    · refine ⟨h.epochs f, by simp [hf], ?_⟩
      intro n _ m hm
      simp [hf] at hm

theorem insertClaim_ok {f owner : String} {leaseUntil now : Int}
    (h : insertClaim f owner leaseUntil now db = .ok (row, db')) :
    row.feedbackId = f ∧ row.state = .active ∧ ∃ claims, db.claims.insert? row = some claims ∧
      (Leases db.claims → Leases claims) ∧ { db with claims := claims } = db' := by
  simp only [insertClaim, Tx.ask_bind, Tx.insert_bind, Tx.pure_ok] at h
  obtain ⟨db₁, hwrite, rfl, rfl⟩ := h
  split at hwrite
  · cases hwrite
  next hactive =>
  obtain ⟨claims, hinsert, rfl⟩ := Option.map_eq_some_iff.mp hwrite
  refine ⟨rfl, rfl, claims, hinsert, fun hleases => hleases.open ?_ rfl hinsert, rfl⟩
  simpa using hactive

end Leases

/-! ## Steps that leave the requests alone -/

/-- No request and no link changed, an acknowledged item stays as it is, inbox items keep their
content and the leases stay in order. -/
structure Quiet (db db' : PlanStore) : Prop where
  replans : db'.replans = db.replans
  links : db'.links = db.links
  acked : ∀ id item, db.feedback.find id = some item → item.state = .acked →
    db'.feedback.find id = some item
  inbox : KeepsInbox db.inbox db'.inbox
  leases : Leases db.claims → Leases db'.claims

section Quiet

omit [Documents]

theorem Quiet.refl (db : PlanStore) : Quiet db db := ⟨rfl, rfl, fun _ _ h _ => h, .refl _, id⟩

theorem KeepsInbox.trans {a b c : Table InboxRow InboxRow.id} (h : KeepsInbox a b)
    (h' : KeepsInbox b c) : KeepsInbox a c := by
  intro id row hrow
  obtain ⟨row', hrow', hpayload, hhash⟩ := h id row hrow
  obtain ⟨row'', hrow'', hpayload', hhash'⟩ := h' id row' hrow'
  exact ⟨row'', hrow'', hpayload'.trans hpayload, hhash'.trans hhash⟩

theorem KeepsInbox.of_extends {a b : Table InboxRow InboxRow.id} (h : a.Extends b) :
    KeepsInbox a b := fun _ row hrow => ⟨row, h.find hrow, rfl, rfl⟩

theorem Quiet.trans {db₁ db₂ : PlanStore} (h : Quiet db db₁) (h' : Quiet db₁ db₂) :
    Quiet db db₂ where
  replans := h'.replans.trans h.replans
  links := h'.links.trans h.links
  acked id item hfind hacked := h'.acked id item (h.acked id item hfind hacked) hacked
  inbox := h.inbox.trans h'.inbox
  leases hleases := h'.leases (h.leases hleases)

theorem Quiet.log {entity : String} {revision : Nat} {body : PlanEventBody} {u : Unit}
    (h : logEvent entity revision body db = .ok (u, db')) : Quiet db db' := by
  obtain ⟨events, rfl⟩ := logEvent_ok h
  exact ⟨rfl, rfl, fun _ _ h _ => h, .refl _, id⟩

theorem Quiet.setClaim {row : ClaimRow} {state : ClaimState} {u : Unit} (hstate : state ≠ .active)
    (h : setClaim row state db = .ok (u, db')) : Quiet db db' ∧ db'.feedback = db.feedback := by
  obtain rfl := Tx.write_ok.mp h
  exact ⟨⟨rfl, rfl, fun _ _ h _ => h, .refl _, fun hleases => hleases.close hstate⟩, rfl⟩

theorem Quiet.insertClaim {f owner : String} {leaseUntil now : Int} {row : ClaimRow}
    (h : insertClaim f owner leaseUntil now db = .ok (row, db')) :
    Quiet db db' ∧ db'.feedback = db.feedback := by
  obtain ⟨-, -, claims, -, hleases, rfl⟩ := insertClaim_ok h
  exact ⟨⟨rfl, rfl, fun _ _ h _ => h, .refl _, hleases⟩, rfl⟩

/-- An item that is not acknowledged may change. -/
theorem Quiet.setFeedback {item next : FeedbackItem} {u : Unit}
    (hitem : db.feedback.find item.feedbackId = some item) (hopen : item.state ≠ .acked)
    (h : setFeedback next db = .ok (u, db')) (hid : next.feedbackId = item.feedbackId) :
    Quiet db db' ∧ db'.feedback.find item.feedbackId = some next := by
  obtain rfl := Tx.write_ok.mp h
  refine ⟨⟨rfl, rfl, ?_, .refl _, id⟩, ?_⟩
  · intro k old hold hacked
    rw [Table.find_update_ne, hold]
    rintro rfl
    rw [hid, hitem] at hold
    cases hold
    exact hopen hacked
  · have hself := Table.find_update_self (a := next) (hid ▸ hitem)
    rwa [hid] at hself

theorem insertFeedback_quiet [Documents] {item : LocalFeedback} {now : Int} {u : Unit}
    (h : insertFeedback item now db = .ok (u, db')) : Quiet db db' := by
  simp only [insertFeedback, Tx.bind_ok, Tx.require_ok, Tx.ask_ok] at h
  obtain ⟨_, _, ⟨-, rfl⟩, _, _, ⟨-, rfl⟩, existing, _, ⟨-, rfl⟩, h⟩ := h
  cases existing with
  | some f =>
    obtain ⟨-, rfl⟩ := Tx.require_ok.mp h
    exact .refl _
  | none =>
    simp only [Tx.insert_ok] at h
    obtain ⟨feedback, hinsert, rfl⟩ := Option.map_eq_some_iff.mp h
    exact ⟨rfl, rfl, fun _ _ hfind _ => Table.find_insert?_of_some hinsert hfind, .refl _, id⟩

theorem takeFeedback_quiet {item : FeedbackItem} {owner : String} {leaseUntil now : Int}
    {claim : FeedbackClaim} (hitem : db.feedback.find item.feedbackId = some item)
    (hopen : item.state ≠ .acked)
    (h : takeFeedback item owner leaseUntil now db = .ok (claim, db')) : Quiet db db' := by
  simp only [takeFeedback, Tx.bind_ok, Tx.pure_ok] at h
  obtain ⟨row, db₁, hclaim, _, db₂, hset, -, rfl⟩ := h
  obtain ⟨hquiet, hfeedback⟩ := Quiet.insertClaim hclaim
  rw [← hfeedback] at hitem
  exact hquiet.trans (Quiet.setFeedback hitem hopen hset rfl).1

theorem claimFeedbackItem_quiet {f owner : String} {now leaseMs : Int} {claim : FeedbackClaim}
    (h : claimFeedbackItem f owner now leaseMs db = .ok (claim, db')) : Quiet db db' := by
  simp only [claimFeedbackItem, Tx.bind_ok, Tx.require_ok, Tx.find_ok, Tx.ask_ok] at h
  obtain ⟨_, _, ⟨-, rfl⟩, _, _, ⟨-, rfl⟩, _, _, ⟨-, rfl⟩, item, _, ⟨hitem, rfl⟩, _, _, ⟨hopen, rfl⟩,
    active, _, ⟨-, rfl⟩, h⟩ := h
  rw [← Table.find_key hitem] at hitem
  cases active with
  | none => exact takeFeedback_quiet hitem hopen h
  | some held =>
    rcases Tx.ite_ok.mp h with ⟨-, h⟩ | ⟨-, h⟩
    · simp only [Tx.require_bind, Tx.pure_ok] at h
      obtain ⟨-, -, rfl⟩ := h
      exact .refl _
    · obtain ⟨_, db₁, hexpire, h⟩ := Tx.bind_ok.mp h
      obtain ⟨hquiet, hfeedback⟩ := Quiet.setClaim (by simp) hexpire
      rw [← hfeedback] at hitem
      exact hquiet.trans (takeFeedback_quiet hitem hopen h)

theorem ackFeedbackItem_quiet {f owner id : String} {epoch : Nat} {now : Int} {u : Unit}
    (h : ackFeedbackItem f epoch owner id now db = .ok (u, db')) : Quiet db db' := by
  simp only [ackFeedbackItem, Tx.bind_ok, Tx.require_ok, Tx.find_ok, Tx.ask_ok] at h
  obtain ⟨_, _, ⟨-, rfl⟩, _, _, ⟨-, rfl⟩, _, _, ⟨-, rfl⟩, item, _, ⟨hitem, rfl⟩, _, _,
    ⟨hclaimed, rfl⟩, claim, _, ⟨-, rfl⟩, _, _, ⟨-, rfl⟩, _, _, ⟨-, rfl⟩, _, db₁, hclose, _, _,
    ⟨-, rfl⟩, h⟩ := h
  rw [← Table.find_key hitem] at hitem
  obtain ⟨hquiet, hfeedback⟩ := Quiet.setClaim (by simp) hclose
  rw [← hfeedback] at hitem
  exact hquiet.trans (Quiet.setFeedback hitem (by simp [hclaimed]) h rfl).1

/-- A proposal answers at most the notice of a request. -/
theorem applyPlanProposal_quiet [Documents] {raw : Bytes} {expectedParent : Nat} {key : String}
    {now : Int} {fault : Option StoreError} {receipt : PlanProposalReceipt}
    (h : applyPlanProposal raw expectedParent key now fault db = .ok (receipt, db')) :
    Quiet db db' := by
  obtain ⟨-, ⟨p, -, -, -, rfl⟩ | ⟨-, row, hext, -⟩⟩ := applyPlanProposal_ok h
  · exact .refl _
  · obtain ⟨proposal, -, haccepts, -⟩ := hext.accepts
    obtain ⟨hfeedback, hclaims, hlinks⟩ := haccepts.feedback
    refine ⟨haccepts.replans, hlinks, ?_, haccepts.inbox, ?_⟩
    · intro id item hfind _
      rwa [hfeedback]
    · rw [hclaims]
      exact id

theorem keeps_addInbox (rows : List InboxRow) (inbox : Table InboxRow InboxRow.id) :
    KeepsInbox inbox (rows.foldl addInbox inbox) := by
  induction rows generalizing inbox with
  | nil => exact .refl _
  | cons row rows ih =>
    refine KeepsInbox.trans ?_ (ih _)
    unfold addInbox
    cases hinsert : inbox.insert? row with
    | none => exact .refl _
    | some added => exact .of_extends (.insert? hinsert)

theorem keeps_finishInbox (ids : List String) (inbox : Table InboxRow InboxRow.id) :
    KeepsInbox inbox (ids.foldl finishInbox inbox) := by
  induction ids generalizing inbox with
  | nil => exact .refl _
  | cons id ids ih =>
    refine KeepsInbox.trans ?_ (ih _)
    unfold finishInbox
    cases hfind : inbox.find id with
    | none => exact .refl _
    | some row => exact .finish hfind

theorem others_quiet (o : Others) (db : PlanStore) : Quiet db (o.apply db) :=
  ⟨rfl, rfl, fun _ _ h _ => h, (keeps_addInbox _ _).trans (keeps_finishInbox _ _), id⟩

end Quiet

/-! ## Notices and acknowledgements -/

/-- An automatic request acknowledged its feedback, and its notice is in the inbox. -/
structure Answered (r : ReplanRequest) (db : PlanStore) : Prop where
  item : ∃ item, db.feedback.find r.feedbackId = some item ∧ item.state = .acked ∧
    item.replanProposalId = some r.replanId ∧
    ∃ created row, timestamp r.createdUnixMs = .ok created ∧
      (noticeContent r item created).validate = .ok () ∧
      db.inbox.find (replanNotice r.replanId) = some row ∧
      row.payload = (noticeContent r item created).json ∧
      row.payloadHash = sha256Text (noticeContent r item created).json

theorem Answered.quiet {r : ReplanRequest} (h : Answered r db)
    (hacked : ∀ id item, db.feedback.find id = some item → item.state = .acked →
      db'.feedback.find id = some item) (hinbox : KeepsInbox db.inbox db'.inbox) :
    Answered r db' := by
  obtain ⟨item, hitem, hstate, hproposal, created, row, hcreated, hvalid, hrow, hpayload, hhash⟩ :=
    h.item
  obtain ⟨row', hrow', hpayload', hhash'⟩ := hinbox _ _ hrow
  exact ⟨item, hacked _ _ hitem hstate, hstate, hproposal, created, row', hcreated, hvalid, hrow',
    hpayload'.trans hpayload, hhash'.trans hhash⟩

theorem insertInbox_ok {c : InboxContent} {u : Unit} (h : insertInbox c db = .ok (u, db')) :
    ∃ inbox, db.inbox.insert? ⟨c.id, 1, c.json, sha256Text c.json, false, false⟩ = some inbox ∧
      { db with inbox := inbox } = db' := by
  simp only [insertInbox, Tx.insert_ok] at h
  exact Option.map_eq_some_iff.mp h

/-- After the notice was ensured it is there; where it was there already, nothing was written. -/
theorem ensureReplanNotice_ok {replanId proposalId : String} {count : Nat} {u : Unit}
    (h : ensureReplanNotice (.automatic replanId proposalId count) db = .ok (u, db')) :
    ∃ r item created row, db.automaticReplan replanId = some r ∧
      db.feedback.find r.feedbackId = some item ∧ timestamp r.createdUnixMs = .ok created ∧
      (noticeContent r item created).validate = .ok () ∧
      db'.inbox.find (replanNotice r.replanId) = some row ∧
      row.payload = (noticeContent r item created).json ∧
      row.payloadHash = sha256Text (noticeContent r item created).json ∧
      ∃ events inbox, KeepsInbox db.inbox inbox ∧
        { db with events := events, inbox := inbox } = db' := by
  simp only [ensureReplanNotice, Tx.bind_ok, Tx.find_ok, Tx.check_ok, Tx.ask_ok] at h
  obtain ⟨r, _, ⟨hr, rfl⟩, item, _, ⟨hitem, rfl⟩, created, _, ⟨hcreated, rfl⟩, _, _, ⟨hvalid, rfl⟩,
    existing, _, ⟨hexisting, rfl⟩, h⟩ := h
  cases existing with
  | some row =>
    obtain ⟨hmatch, rfl⟩ := Tx.require_ok.mp h
    exact ⟨r, item, created, row, hr, hitem, hcreated, hvalid, hexisting, hmatch.1, hmatch.2,
      db.events, db.inbox, .refl _, rfl⟩
  | none =>
    obtain ⟨_, db₁, hinsert, hlog⟩ := Tx.bind_ok.mp h
    obtain ⟨inbox, hinbox, rfl⟩ := insertInbox_ok hinsert
    obtain ⟨events, rfl⟩ := logEvent_ok hlog
    have hrow := Table.find_insert? (k := (noticeContent r item created).id) hinbox
    rw [if_pos rfl] at hrow
    exact ⟨r, item, created, _, hr, hitem, hcreated, hvalid, hrow, rfl, rfl, events, inbox,
      .of_extends (.insert? hinbox), rfl⟩

/-- A notice that is there is found again, and nothing is written. -/
theorem Answered.ensured {r : ReplanRequest} (h : Answered r db) (hoc : r.outcome = .automatic)
    (hr : db.replans.find r.replanId = some r) (proposalId : String) (count : Nat) :
    ensureReplanNotice (.automatic r.replanId proposalId count) db = .ok ((), db) := by
  obtain ⟨item, hitem, -, -, created, row, hcreated, hvalid, hrow, hpayload, hhash⟩ := h.item
  have hauto : db.automaticReplan r.replanId = some r := by
    unfold PlanStore.automaticReplan
    simp [hr, hoc]
  simp only [ensureReplanNotice, Tx.bind_ok, Tx.find_ok, Tx.check_ok, Tx.ask_ok]
  refine ⟨r, db, ⟨hauto, rfl⟩, item, db, ⟨hitem, rfl⟩, created, db, ⟨hcreated, rfl⟩, (), db,
    ⟨hvalid, rfl⟩, some row, db, ⟨hrow, rfl⟩, ?_⟩
  exact Tx.require_ok.mpr ⟨⟨hpayload, hhash⟩, rfl⟩

omit [Documents] in
theorem replanClaim_quiet {f : String} {now : Int} {row : ClaimRow}
    (h : replanClaim f now db = .ok (row, db')) : Quiet db db' ∧ db'.feedback = db.feedback := by
  have hnew : ∀ {db : PlanStore}, insertReplanClaim f now db = .ok (row, db') →
      Quiet db db' ∧ db'.feedback = db.feedback := by
    intro db h
    simp only [insertReplanClaim, Tx.require_bind] at h
    exact Quiet.insertClaim h.2
  simp only [replanClaim, Tx.bind_ok, Tx.ask_ok] at h
  obtain ⟨active, _, ⟨-, rfl⟩, h⟩ := h
  cases active with
  | none => exact hnew h
  | some held =>
    rcases Tx.ite_ok.mp h with ⟨-, h⟩ | ⟨-, h⟩
    · simp only [Tx.require_bind, Tx.pure_ok] at h
      obtain ⟨-, -, rfl⟩ := h
      exact ⟨.refl _, rfl⟩
    · obtain ⟨_, db₁, hexpire, h⟩ := Tx.bind_ok.mp h
      obtain ⟨hquiet, hfeedback⟩ := Quiet.setClaim (by simp) hexpire
      obtain ⟨hquiet', hfeedback'⟩ := hnew h
      exact ⟨hquiet.trans hquiet', hfeedback'.trans hfeedback⟩

omit [Documents] in
/-- Acknowledging an open item. -/
theorem ackReplanProposal_ok {f id : String} {now : Int} {item : FeedbackItem} {u : Unit}
    (h : ackReplanProposal f id now db = .ok (u, db'))
    (hitem : db.feedback.find f = some item) (hopen : item.state ≠ .acked) :
    Quiet db db' ∧ db'.feedback.find f =
      some { item with state := .acked, replanProposalId := some id } := by
  simp only [ackReplanProposal, Tx.find_bind] at h
  obtain ⟨found, hfound, h⟩ := h
  rw [hitem] at hfound
  cases hfound
  rw [if_neg hopen] at h
  simp only [Tx.bind_ok, Tx.require_ok] at h
  obtain ⟨claim, db₁, hclaim, _, _, ⟨-, rfl⟩, _, db₂, hclose, h⟩ := h
  obtain ⟨hquiet₁, hfeedback₁⟩ := replanClaim_quiet hclaim
  obtain ⟨hquiet₂, hfeedback₂⟩ := Quiet.setClaim (by simp) hclose
  have hid := Table.find_key hitem
  rw [← hid, ← hfeedback₁, ← hfeedback₂] at hitem
  obtain ⟨hquiet₃, hset⟩ := Quiet.setFeedback hitem hopen h rfl
  exact ⟨(hquiet₁.trans hquiet₂).trans hquiet₃, hid ▸ hset⟩

/-! ## The budget -/

/-- The requests of every blocker stay inside its budget, every request is linked from its
feedback, and every automatic one is answered. -/
structure Budgeted (db : PlanStore) : Prop where
  automatic : ∀ revision fingerprint,
    db.automaticCount revision fingerprint ≤ automaticReplans
  escalated : ∀ revision fingerprint, db.replans.rows.countP
    (ReplanRequest.charges revision fingerprint .escalated) ≤ 1
  both : ∀ r ∈ db.replans.rows, r.outcome = .escalated →
    db.automaticCount r.planRevision r.blockerFingerprint = automaticReplans
  shape : ∀ r ∈ db.replans.rows, (r.outcome = .automatic → r.proposalId = some r.replanId) ∧
    (r.outcome = .escalated → r.inboxId.isSome)
  links : ∀ l ∈ db.links.rows, identifier l.feedbackId = true ∧ (db.replans.find l.replanId).isSome
  own : ∀ r ∈ db.replans.rows, db.links.find r.feedbackId = some ⟨r.feedbackId, r.replanId⟩
  answered : ∀ r ∈ db.replans.rows, r.outcome = .automatic → Answered r db
  leases : Leases db.claims

theorem budgeted_created (path incarnation : String) : Budgeted (.created path incarnation) := by
  refine ⟨?_, ?_, ?_, ?_, ?_, ?_, ?_, leases_empty⟩ <;>
    simp [PlanStore.created, PlanStore.automaticCount, Table.empty]

theorem Budgeted.quiet (h : Budgeted db) (hq : Quiet db db') : Budgeted db' := by
  have hcount : ∀ revision fingerprint,
      db'.automaticCount revision fingerprint = db.automaticCount revision fingerprint := by
    intro revision fingerprint
    unfold PlanStore.automaticCount
    rw [hq.replans]
  refine ⟨?_, ?_, ?_, ?_, ?_, ?_, ?_, hq.leases h.leases⟩
  · intro revision fingerprint
    rw [hcount]
    exact h.automatic revision fingerprint
  · rw [hq.replans]
    exact h.escalated
  · intro r hr hescalated
    rw [hcount]
    exact h.both r (hq.replans ▸ hr) hescalated
  · rw [hq.replans]
    exact h.shape
  · rw [hq.links, hq.replans]
    exact h.links
  · rw [hq.links, hq.replans]
    exact h.own
  · intro r hr hautomatic
    exact (h.answered r (hq.replans ▸ hr) hautomatic).quiet hq.acked hq.inbox

/-- A new request with its link. -/
theorem Budgeted.request (h : Budgeted db) {r : ReplanRequest}
    {replans : Table ReplanRequest ReplanRequest.replanId}
    {links : Table FeedbackLink FeedbackLink.feedbackId}
    (hreplans : db.replans.insert? r = some replans)
    (hlinks : db.links.insert? ⟨r.feedbackId, r.replanId⟩ = some links)
    (hid : identifier r.feedbackId = true)
    (hshape : (r.outcome = .automatic → r.proposalId = some r.replanId) ∧
      (r.outcome = .escalated → r.inboxId.isSome))
    (hautomatic : r.outcome = .automatic →
      db.automaticCount r.planRevision r.blockerFingerprint < automaticReplans)
    (hescalated : r.outcome = .escalated →
      db.automaticCount r.planRevision r.blockerFingerprint = automaticReplans ∧
        db.existingEscalation r.planRevision r.blockerFingerprint = none)
    (hreplans' : db'.replans = replans) (hlinks' : db'.links = links)
    (hacked : ∀ id item, db.feedback.find id = some item → item.state = .acked →
      db'.feedback.find id = some item) (hinbox : KeepsInbox db.inbox db'.inbox)
    (hleases : Leases db.claims → Leases db'.claims)
    (hanswered : r.outcome = .automatic → Answered r db') : Budgeted db' := by
  obtain ⟨-, hrows⟩ := Table.insert?_eq_some hreplans
  have hmem : ∀ q, q ∈ db'.replans.rows ↔ q ∈ db.replans.rows ∨ q = r := by
    intro q
    rw [hreplans']
    exact Table.mem_insert? hreplans
  have hcount : ∀ revision fingerprint outcome,
      db'.replans.rows.countP (ReplanRequest.charges revision fingerprint outcome) =
        db.replans.rows.countP (ReplanRequest.charges revision fingerprint outcome) +
          if ReplanRequest.charges revision fingerprint outcome r then 1 else 0 := by
    intro revision fingerprint outcome
    rw [hreplans', hrows, List.countP_append, List.countP_singleton]
  refine ⟨?_, ?_, ?_, ?_, ?_, ?_, ?_, hleases h.leases⟩
  · intro revision fingerprint
    unfold PlanStore.automaticCount
    rw [hcount]
    split
    · next hcharges =>
      simp only [ReplanRequest.charges, Bool.and_eq_true, decide_eq_true_eq] at hcharges
      obtain ⟨⟨rfl, rfl⟩, ho⟩ := hcharges
      exact hautomatic ho
    · exact h.automatic revision fingerprint
  · intro revision fingerprint
    rw [hcount]
    split
    · next hcharges =>
      simp only [ReplanRequest.charges, Bool.and_eq_true, decide_eq_true_eq] at hcharges
      obtain ⟨⟨rfl, rfl⟩, ho⟩ := hcharges
      have hzero : db.replans.rows.countP (ReplanRequest.charges r.planRevision
          r.blockerFingerprint .escalated) = 0 :=
        List.countP_eq_zero.mpr (List.find?_eq_none.mp (hescalated ho).2)
      rw [hzero]
    · exact h.escalated revision fingerprint
  · intro q hq ho
    unfold PlanStore.automaticCount
    rw [hcount]
    rcases (hmem q).mp hq with hq | rfl
    · have hfull := h.both q hq ho
      rw [if_neg, Nat.add_zero]
      · exact hfull
      · -- the new request cannot be charged to a budget that is spent
        intro hcharges
        simp only [ReplanRequest.charges, Bool.and_eq_true, decide_eq_true_eq] at hcharges
        obtain ⟨⟨hrevision, hfingerprint⟩, hautomatic'⟩ := hcharges
        have hless := hautomatic hautomatic'
        rw [hrevision, hfingerprint, hfull] at hless
        exact lt_irrefl _ hless
    · rw [if_neg (by simp [ReplanRequest.charges, ho]), Nat.add_zero]
      exact (hescalated ho).1
  · intro q hq
    rcases (hmem q).mp hq with hq | rfl
    · exact h.shape q hq
    · exact hshape
  · intro l hl
    rw [hlinks', Table.mem_insert? hlinks] at hl
    rw [hreplans', Table.find_insert? hreplans]
    rcases hl with hl | rfl
    · refine ⟨(h.links l hl).1, ?_⟩
      split
      · rfl
      · exact (h.links l hl).2
    · exact ⟨hid, by simp⟩
  · intro q hq
    rw [hlinks']
    rcases (hmem q).mp hq with hq | rfl
    · exact Table.find_insert?_of_some hlinks (h.own q hq)
    · rw [Table.find_insert? hlinks, if_pos rfl]
  · intro q hq ho
    rcases (hmem q).mp hq with hq | rfl
    · exact (h.answered q hq ho).quiet hacked hinbox
    · exact hanswered ho

/-- Feedback that joins a request. -/
theorem Budgeted.join (h : Budgeted db) {f : String} {r : ReplanRequest} {events : List PlanEvent}
    {links : Table FeedbackLink FeedbackLink.feedbackId} (hid : identifier f = true)
    (hr : r ∈ db.replans.rows) (hlinks : db.links.insert? ⟨f, r.replanId⟩ = some links) :
    Budgeted { db with links := links, events := events } := by
  refine ⟨h.automatic, h.escalated, h.both, h.shape, ?_, ?_, fun q hq ho => ?_, h.leases⟩
  · intro l hl
    rcases (Table.mem_insert? hlinks).mp hl with hl | rfl
    · exact h.links l hl
    · refine ⟨hid, ?_⟩
      rw [Table.find_of_mem hr]
      rfl
  · intro q hq
    exact Table.find_insert?_of_some hlinks (h.own q hq)
  · exact (h.answered q hq ho).quiet (fun _ _ hfind _ => hfind) (.refl _)

/-! ## One request -/

/-- What a request that succeeds did: its feedback is linked to the decision it answers, no link
and no request was lost, and a feedback item that was linked before leaves the store alone. -/
structure Settles (f : String) (d : ReplanDecision) (db db' : PlanStore) : Prop where
  links : db.links.Extends db'.links
  replans : db.replans.Extends db'.replans
  linked : ∃ r, db'.linked f = some r ∧ r.replanId = d.replanId ∧ r.outcome = d.outcome
  again : (db.linked f).isSome → db' = db

section

omit [Documents]

theorem linked_of_extends {f : String} {r : ReplanRequest} (h : db.linked f = some r)
    (hlinks : db.links.Extends db'.links) (hreplans : db.replans.Extends db'.replans) :
    db'.linked f = some r := by
  obtain ⟨l, hl, hr⟩ := Option.bind_eq_some_iff.mp h
  exact Option.bind_eq_some_iff.mpr ⟨l, hlinks.find hl, hreplans.find hr⟩

theorem decisionFromRow_ok {r : ReplanRequest} {count : Nat} {d : ReplanDecision}
    (h : decisionFromRow r count = .ok d) : d.replanId = r.replanId ∧ d.outcome = r.outcome := by
  unfold decisionFromRow at h
  split at h
  · next ho _ => cases h; exact ⟨rfl, ho.symm⟩
  · cases h
  · next ho _ => cases h; exact ⟨rfl, ho.symm⟩
  · cases h

theorem insertReplan_ok {r : ReplanRequest} {u : Unit} (h : insertReplan r db = .ok (u, db')) :
    ∃ replans, db.replans.insert? r = some replans ∧ { db with replans := replans } = db' := by
  simp only [insertReplan, Tx.insert_ok] at h
  split at h
  · cases h
  · exact Option.map_eq_some_iff.mp h

theorem link_ok {f : String} {d : ReplanDecision} {u : Unit} (h : link f d db = .ok (u, db')) :
    ∃ links events, db.links.insert? ⟨f, d.replanId⟩ = some links ∧
      { db with links := links, events := events } = db' := by
  simp only [link, Tx.bind_ok, Tx.insert_ok] at h
  obtain ⟨_, db₁, hinsert, hlog⟩ := h
  obtain ⟨links, hlinks, rfl⟩ := Option.map_eq_some_iff.mp hinsert
  obtain ⟨events, rfl⟩ := logEvent_ok hlog
  exact ⟨links, events, hlinks, rfl⟩

end

/-- An automatic request stays inside its budget and is answered. -/
theorem automaticRequest_ok (h : Budgeted db) {item : FeedbackItem} {f fingerprint : String}
    {revision used : Nat} {now : Int} {d : ReplanDecision} (hid : identifier f = true)
    (hitem : db.feedback.find f = some item) (hopen : item.state ≠ .acked)
    (hused : db.automaticCount revision fingerprint < automaticReplans)
    (hnew : db.linked f = none)
    (hrun : automaticRequest f fingerprint revision used now db = .ok (d, db')) :
    Budgeted db' ∧ Settles f d db db' := by
  simp only [automaticRequest, Tx.bind_ok, Tx.pure_ok] at hrun
  obtain ⟨_, db₁, hinsert, _, db₂, hack, _, db₃, hnotice, _, db₄, hlink, rfl, rfl⟩ := hrun
  obtain ⟨replans, hreplans, rfl⟩ := insertReplan_ok hinsert
  obtain ⟨hquiet, hacked⟩ := ackReplanProposal_ok hack hitem hopen
  obtain ⟨r, item', created, row, hr, hitem', hcreated, hvalid, hrow, hpayload, hhash, events, inbox,
    hinbox, rfl⟩ := ensureReplanNotice_ok hnotice
  obtain ⟨links, events', hlinks, rfl⟩ := link_ok hlink
  have hfind := Table.find_insert? (k := replanIdOf f) hreplans
  rw [if_pos rfl] at hfind
  -- the notice is about the request that was just inserted
  have hself : (⟨replanIdOf f, f, revision, fingerprint, .automatic, some (replanIdOf f), none,
      now⟩ : ReplanRequest) = r := by
    unfold PlanStore.automaticReplan at hr
    rw [hquiet.replans, hfind] at hr
    exact (Option.filter_eq_some_iff.mp hr).1 |> Option.some.inj
  subst hself
  rw [hacked] at hitem'
  cases hitem'
  have hbudget : Budgeted { db₂ with events := events', inbox := inbox, links := links } := by
    refine h.request hreplans (hquiet.links ▸ hlinks) hid ⟨fun _ => rfl, fun ho => by cases ho⟩
      (fun _ => hused) (fun ho => by cases ho) hquiet.replans rfl hquiet.acked
      (hquiet.inbox.trans hinbox) hquiet.leases (fun _ => ⟨_, hacked, rfl, rfl, created, row,
        hcreated, hvalid, hrow, hpayload, hhash⟩)
  have hlinked : PlanStore.linked { db₂ with events := events', inbox := inbox, links := links } f =
      some ⟨replanIdOf f, f, revision, fingerprint, .automatic, some (replanIdOf f), none, now⟩ := by
    refine Option.bind_eq_some_iff.mpr ⟨⟨f, replanIdOf f⟩, ?_, ?_⟩
    · exact (Table.find_insert? hlinks).trans (if_pos rfl)
    · exact (congrArg (fun t : Table ReplanRequest ReplanRequest.replanId =>
        t.find (replanIdOf f)) hquiet.replans).trans hfind
  refine ⟨hbudget, ⟨?_, ?_, ⟨_, hlinked, rfl, rfl⟩, by simp [hnew]⟩⟩
  · exact .insert? (hquiet.links ▸ hlinks)
  · exact hquiet.replans ▸ .insert? hreplans

theorem insertEscalationInbox_ok {id : String} {item : FeedbackItem} {revision : Nat} {now : Int}
    {u : Unit} (h : insertEscalationInbox id item revision now db = .ok (u, db')) :
    ∃ events inbox, KeepsInbox db.inbox inbox ∧
      { db with events := events, inbox := inbox } = db' := by
  simp only [insertEscalationInbox, Tx.bind_ok, Tx.check_ok] at h
  obtain ⟨created, _, ⟨-, rfl⟩, _, _, ⟨-, rfl⟩, _, db₁, hinsert, hlog⟩ := h
  obtain ⟨inbox, hinbox, rfl⟩ := insertInbox_ok hinsert
  obtain ⟨events, rfl⟩ := logEvent_ok hlog
  exact ⟨events, inbox, .of_extends (.insert? hinbox), rfl⟩

/-- An escalation comes after both automatic requests, and once. -/
theorem escalate_ok (h : Budgeted db) {item : FeedbackItem} {fingerprint : String}
    {revision : Nat} {now : Int} {d : ReplanDecision} (hid : identifier item.feedbackId = true)
    (hused : db.automaticCount revision fingerprint = automaticReplans)
    (hnone : db.existingEscalation revision fingerprint = none)
    (hnew : db.linked item.feedbackId = none)
    (hrun : escalate item fingerprint revision now db = .ok (d, db')) :
    Budgeted db' ∧ Settles item.feedbackId d db db' := by
  simp only [escalate, Tx.bind_ok, Tx.pure_ok] at hrun
  obtain ⟨_, db₁, hescalation, _, db₂, hinsert, _, db₃, hlink, rfl, rfl⟩ := hrun
  obtain ⟨events, inbox, hinbox, rfl⟩ := insertEscalationInbox_ok hescalation
  obtain ⟨replans, hreplans, rfl⟩ := insertReplan_ok hinsert
  obtain ⟨links, events', hlinks, rfl⟩ := link_ok hlink
  refine ⟨?_, ⟨.insert? hlinks, .insert? hreplans, ?_, by simp [hnew]⟩⟩
  · exact h.request hreplans hlinks hid ⟨fun ho => (nomatch ho), fun _ => rfl⟩
      (fun ho => (nomatch ho)) (fun _ => ⟨hused, hnone⟩) rfl rfl (fun _ _ hfind _ => hfind) hinbox id
      (fun ho => (nomatch ho))
  · refine ⟨_, Option.bind_eq_some_iff.mpr ⟨⟨item.feedbackId, replanIdOf item.feedbackId⟩,
      (Table.find_insert? hlinks).trans (if_pos rfl),
      (Table.find_insert? hreplans).trans (if_pos rfl)⟩, rfl, rfl⟩

theorem joinEscalation_ok (h : Budgeted db) {f : String} {r : ReplanRequest} {d : ReplanDecision}
    (hid : identifier f = true) (hr : r ∈ db.replans.rows) (hnew : db.linked f = none)
    (hrun : joinEscalation f r db = .ok (d, db')) : Budgeted db' ∧ Settles f d db db' := by
  simp only [joinEscalation, Tx.bind_ok, Tx.check_ok, Tx.pure_ok] at hrun
  obtain ⟨d', _, ⟨hdecision, rfl⟩, _, db₁, hlink, rfl, rfl⟩ := hrun
  obtain ⟨links, events, hlinks, rfl⟩ := link_ok hlink
  obtain ⟨hreplan, houtcome⟩ := decisionFromRow_ok hdecision
  rw [hreplan] at hlinks
  refine ⟨h.join hid hr hlinks, ⟨.insert? hlinks, .refl _, ?_, by simp [hnew]⟩⟩
  exact ⟨r, Option.bind_eq_some_iff.mpr ⟨⟨f, r.replanId⟩,
    (Table.find_insert? hlinks).trans (if_pos rfl), Table.find_of_mem hr⟩, hreplan.symm,
    houtcome.symm⟩

theorem decide_ok (h : Budgeted db) {item : FeedbackItem} {now : Int} {d : ReplanDecision}
    (hid : identifier item.feedbackId = true)
    (hitem : db.feedback.find item.feedbackId = some item)
    (hnew : db.linked item.feedbackId = none) (hrun : Plans.decide item now db = .ok (d, db')) :
    Budgeted db' ∧ Settles item.feedbackId d db db' := by
  simp only [Plans.decide, Tx.bind_ok, Tx.ask_ok, Tx.require_ok] at hrun
  obtain ⟨_, _, ⟨rfl, rfl⟩, _, _, ⟨havailable, rfl⟩, _, _, ⟨rfl, rfl⟩, _, _, ⟨rfl, rfl⟩, escalation,
    _, ⟨hescalation, rfl⟩, hrun⟩ := hrun
  rcases Tx.ite_ok.mp hrun with ⟨hused, hrun⟩ | ⟨hspent, hrun⟩
  · have hopen : item.state ≠ .acked := by
      simp only [PlanStore.available, hitem, Option.any_some, Bool.and_eq_true,
        decide_eq_true_eq] at havailable
      exact havailable.1
    exact automaticRequest_ok h hid hitem hopen hused hnew hrun
  · cases escalation with
    | some r => exact joinEscalation_ok h hid (List.mem_of_find?_eq_some hescalation) hnew hrun
    | none =>
      refine escalate_ok h hid (le_antisymm (h.automatic _ _) (not_lt.mp hspent)) hescalation hnew
        hrun

/-- A linked feedback item is answered with its decision, and nothing is written. -/
theorem Budgeted.again (h : Budgeted db) {f : String} {r : ReplanRequest}
    (hlinked : db.linked f = some r) :
    ∃ d, decisionFromRow r (db.automaticCount r.planRevision r.blockerFingerprint) = .ok d ∧
      ensureReplanNotice d db = .ok ((), db) := by
  obtain ⟨l, hl, hr⟩ := Option.bind_eq_some_iff.mp hlinked
  have hmem := Table.mem_of_find hr
  obtain ⟨hproposal, hinbox⟩ := h.shape r hmem
  cases ho : r.outcome with
  | automatic =>
    refine ⟨.automatic r.replanId r.replanId _, by simp [decisionFromRow, ho, hproposal ho]; rfl, ?_⟩
    exact (h.answered r hmem ho).ensured ho (Table.find_of_mem hmem) _ _
  | escalated =>
    obtain ⟨inbox, hinbox⟩ := Option.isSome_iff_exists.mp (hinbox ho)
    exact ⟨.escalated r.replanId inbox, by simp [decisionFromRow, ho, hinbox], rfl⟩

omit [Documents] in
theorem existingReplan_ok {f : String} {found : Option ReplanDecision}
    (h : existingReplan f db = .ok (found, db')) :
    db = db' ∧ ((db.linked f = none ∧ found = none) ∨
      ∃ r d, db.linked f = some r ∧ found = some d ∧
        decisionFromRow r (db.automaticCount r.planRevision r.blockerFingerprint) = .ok d) := by
  simp only [existingReplan, Tx.bind_ok, Tx.ask_ok] at h
  obtain ⟨row, _, ⟨hrow, rfl⟩, h⟩ := h
  cases row with
  | none =>
    obtain ⟨rfl, rfl⟩ := Tx.pure_ok.mp h
    exact ⟨rfl, .inl ⟨hrow, rfl⟩⟩
  | some r =>
    simp only [Tx.bind_ok, Tx.ask_ok, Tx.check_ok, Tx.pure_ok] at h
    obtain ⟨_, _, ⟨rfl, rfl⟩, d, _, ⟨hd, rfl⟩, rfl, rfl⟩ := h
    exact ⟨rfl, .inr ⟨r, d, hrow, rfl, hd⟩⟩

theorem requestReplan_ok (h : Budgeted db) {f : String} {automatic : Bool} {now : Int}
    {fault : Option StoreError} {d : ReplanDecision}
    (hrun : requestReplan f automatic now fault db = .ok (d, db')) :
    Budgeted db' ∧ Settles f d db db' := by
  simp only [requestReplan, Tx.bind_ok, Tx.outside_ok, Tx.require_ok, Tx.ask_ok] at hrun
  obtain ⟨_, _, ⟨-, rfl⟩, _, _, ⟨hid, rfl⟩, _, _, ⟨-, rfl⟩, _, _, ⟨-, rfl⟩, found, _, hexisting,
    hrun⟩ := hrun
  obtain ⟨rfl, ⟨hnew, rfl⟩ | ⟨r, d', hlinked, rfl, hdecision⟩⟩ := existingReplan_ok hexisting
  · simp only [Tx.find_bind] at hrun
    obtain ⟨item, hitem, hrun⟩ := hrun
    obtain rfl := Table.find_key hitem
    exact decide_ok h hid hitem hnew hrun
  · simp only [Tx.bind_ok, Tx.pure_ok] at hrun
    obtain ⟨_, db₁, hensure, rfl, rfl⟩ := hrun
    obtain ⟨d, hd, hsame⟩ := h.again hlinked
    rw [hdecision] at hd
    cases hd
    rw [hsame] at hensure
    cases hensure
    obtain ⟨hreplan, houtcome⟩ := decisionFromRow_ok hdecision
    exact ⟨h, .refl _, .refl _, ⟨r, hlinked, hreplan.symm, houtcome.symm⟩, fun _ => rfl⟩

/-- A repeated request answers the same decision and writes nothing. -/
theorem requestReplan_again (h : Budgeted db) {f : String} {r : ReplanRequest}
    (hlinked : db.linked f = some r) (now : Int) :
    ∃ d, requestReplan f false now none db = .ok (d, db) ∧ d.replanId = r.replanId ∧
      d.outcome = r.outcome := by
  obtain ⟨d, hd, hsame⟩ := h.again hlinked
  have hid : identifier f = true := by
    obtain ⟨l, hl, -⟩ := Option.bind_eq_some_iff.mp hlinked
    exact Table.find_key hl ▸ (h.links l (Table.mem_of_find hl)).1
  have hexisting : existingReplan f db = .ok (some d, db) := by
    simp only [existingReplan, Tx.ask_bind, hlinked, Tx.check_bind, Tx.pure_ok]
    exact ⟨d, hd, by simp⟩
  refine ⟨d, ?_, decisionFromRow_ok hd⟩
  simp only [requestReplan, Tx.bind_ok, Tx.outside_ok, Tx.require_ok, Tx.ask_ok]
  refine ⟨(), db, ⟨trivial, rfl⟩, (), db, ⟨hid, rfl⟩, _, db, ⟨rfl, rfl⟩, (), db, ⟨by simp, rfl⟩,
    some d, db, hexisting, ?_⟩
  simp only [Tx.bind_ok, Tx.pure_ok]
  exact ⟨(), db, hsame, by simp⟩

/-! ## Runs -/

abbrev ReplanRun := Run PlanStore ReplanCall (Except StoreError ReplanAnswer)

/-- The store stays inside the budget, and every decision that was answered is still linked. -/
structure Kept (r : ReplanRun) : Prop where
  budgeted : Budgeted r.state
  decided : ∀ {f automatic now fault d},
    (ReplanCall.request f automatic now fault, .ok (.decision d)) ∈ r.log →
      ∃ q, r.state.linked f = some q ∧ q.replanId = d.replanId ∧ q.outcome = d.outcome

/-- What a call did to the requests: it left them alone, or it was a request that settled. -/
inductive Effect : ReplanCall → Except StoreError ReplanAnswer → PlanStore → PlanStore → Prop where
  | quiet {call answer db db'} (h : Quiet db db') (hother : ∀ d, answer ≠ .ok (.decision d)) :
    Effect call answer db db'
  | settled {f automatic now fault d db db'} (h : Settles f d db db') (hb : Budgeted db') :
    Effect (.request f automatic now fault) (.ok (.decision d)) db db'

omit [Documents] in
/-- A committed body did nothing or ran to its end. -/
theorem answer_eq {α : Type} (wrap : α → ReplanAnswer) (body : PlanTx α) (db : PlanStore) :
    (∃ a db', body db = .ok (a, db') ∧ answer wrap body db = (.ok (wrap a), db')) ∨
      ∃ e, answer wrap body db = (.error e, db) := by
  obtain ⟨a, db', hbody, hcommit⟩ | ⟨e, -, hcommit⟩ := Tx.commit_eq body db
  · exact .inl ⟨a, db', hbody, by simp [answer, hcommit, Except.map]⟩
  · exact .inr ⟨e, by simp [answer, hcommit, Except.map]⟩

/-- A call whose body leaves the requests alone. -/
theorem effect_quiet {α : Type} {wrap : α → ReplanAnswer} {body : PlanTx α} {call : ReplanCall}
    (hbody : ∀ {a db'}, body db = .ok (a, db') → Quiet db db')
    (hwrap : ∀ a d, wrap a ≠ .decision d) :
    Effect call (answer wrap body db).1 db (answer wrap body db).2 := by
  obtain ⟨a, db', hrun, heq⟩ | ⟨e, heq⟩ := answer_eq wrap body db
  · rw [heq]
    exact .quiet (hbody hrun) fun d he => hwrap a d (by simpa using he)
  · rw [heq]
    exact .quiet (.refl _) fun d he => nomatch he

theorem execReplan_effect (h : Budgeted db) (call : ReplanCall) :
    Effect call (execReplan call db).1 db (execReplan call db).2 := by
  cases call with
  | request f automatic now fault =>
    obtain ⟨d, db', hrun, heq⟩ | ⟨e, heq⟩ :=
      answer_eq .decision (requestReplan f automatic now fault) db
    · obtain ⟨hb, hs⟩ := requestReplan_ok h hrun
      have hexec : execReplan (.request f automatic now fault) db = (.ok (.decision d), db') := heq
      rw [hexec]
      exact .settled hs hb
    · have hexec : execReplan (.request f automatic now fault) db = (.error e, db) := heq
      rw [hexec]
      exact .quiet (.refl _) fun d he => nomatch he
  | claim f owner now leaseMs => exact effect_quiet claimFeedbackItem_quiet fun _ _ he => nomatch he
  | ack f epoch owner id now => exact effect_quiet ackFeedbackItem_quiet fun _ _ he => nomatch he
  | feedback item now => exact effect_quiet insertFeedback_quiet fun _ _ he => nomatch he
  | propose raw expectedParent key now fault =>
    exact effect_quiet applyPlanProposal_quiet fun _ _ he => nomatch he
  | others change => exact .quiet (others_quiet change db) fun _ he => nomatch he

theorem Effect.budgeted {call : ReplanCall} {answer : Except StoreError ReplanAnswer}
    (h : Effect call answer db db') (hb : Budgeted db) : Budgeted db' := by
  cases h with
  | quiet hq => exact hb.quiet hq
  | settled _ hb' => exact hb'

theorem Effect.extends {call : ReplanCall} {answer : Except StoreError ReplanAnswer}
    (h : Effect call answer db db') :
    db.links.Extends db'.links ∧ db.replans.Extends db'.replans := by
  cases h with
  | quiet hq => exact ⟨hq.links ▸ .refl _, hq.replans ▸ .refl _⟩
  | settled hs => exact ⟨hs.links, hs.replans⟩

theorem Kept.call {r : ReplanRun} (h : Kept r) (call : ReplanCall) :
    Kept (r.call execReplan call) := by
  have heffect := execReplan_effect h.budgeted call
  refine ⟨heffect.budgeted h.budgeted, ?_⟩
  intro f automatic now fault d hmem
  rw [Run.call_log, List.mem_append, List.mem_singleton] at hmem
  rcases hmem with hmem | hmem
  · obtain ⟨q, hq, hsame⟩ := h.decided hmem
    exact ⟨q, linked_of_extends hq heffect.extends.1 heffect.extends.2, hsame⟩
  · obtain ⟨rfl, hanswer⟩ := Prod.mk.inj hmem
    rw [← hanswer] at heffect
    cases heffect with
    | quiet _ hother => exact absurd rfl (hother d)
    | settled hs => exact hs.linked

/-- What holds in every reachable state. -/
structure ReplanBudget (r : ReplanRun) : Prop where
  /-- At most two automatic requests for one blocker inside one plan revision. -/
  automatic : ∀ revision fingerprint, r.state.replans.rows.countP
    (ReplanRequest.charges revision fingerprint .automatic) ≤ 2
  /-- At most one escalation, and only after both automatic requests. -/
  escalated : ∀ revision fingerprint, r.state.replans.rows.countP
    (ReplanRequest.charges revision fingerprint .escalated) ≤ 1
  both : ∀ q ∈ r.state.replans.rows, q.outcome = .escalated → r.state.replans.rows.countP
    (ReplanRequest.charges q.planRevision q.blockerFingerprint .automatic) = 2
  /-- A feedback item is linked to at most one decision, and a request to its own feedback. -/
  linked : (r.state.links.rows.map (·.feedbackId)).Nodup
  own : ∀ q ∈ r.state.replans.rows,
    r.state.links.find q.feedbackId = some ⟨q.feedbackId, q.replanId⟩
  /-- A repeated request answers the same decision and writes nothing. -/
  again : ∀ {f automatic now fault d},
    (ReplanCall.request f automatic now fault, .ok (.decision d)) ∈ r.log → ∀ now',
      ∃ d', execReplan (.request f false now' none) r.state = (.ok (.decision d'), r.state) ∧
        d'.replanId = d.replanId ∧ d'.outcome = d.outcome
  /-- Whoever repeats it: a request for linked feedback that succeeds writes nothing. -/
  silent : ∀ {f automatic now fault answer}, (r.state.links.find f).isSome →
    (execReplan (.request f automatic now fault) r.state).1 = .ok answer →
      (execReplan (.request f automatic now fault) r.state).2 = r.state
  /-- The feedback of an automatic request is acknowledged with it. -/
  acked : ∀ q ∈ r.state.replans.rows, q.outcome = .automatic →
    ∃ item, r.state.feedback.find q.feedbackId = some item ∧ item.state = .acked ∧
      item.replanProposalId = some q.replanId
  /-- One active claim, and epochs that increase. -/
  active : ∀ f, r.state.claims.rows.countP (fun c => c.feedbackId = f && c.state = .active) ≤ 1
  epochs : ∀ f, ((r.state.claims.rows.filter fun c => c.feedbackId = f).map
    (·.claimEpoch)).Pairwise (· < ·)
  /-- A call that fails leaves every table unchanged. -/
  unchanged : ∀ call e, (execReplan call r.state).1 = .error e →
    (execReplan call r.state).2 = r.state

theorem execReplan_error {call : ReplanCall} {e : StoreError}
    (h : (execReplan call db).1 = .error e) : (execReplan call db).2 = db := by
  have hbody : ∀ {α : Type} (wrap : α → ReplanAnswer) (body : PlanTx α),
      (answer wrap body db).1 = .error e → (answer wrap body db).2 = db := by
    intro α wrap body h
    obtain ⟨a, db', -, heq⟩ | ⟨e', heq⟩ := answer_eq wrap body db
    · rw [heq] at h
      cases h
    · rw [heq]
  cases call with
  | request => exact hbody _ _ h
  | claim => exact hbody _ _ h
  | ack => exact hbody _ _ h
  | feedback => exact hbody _ _ h
  | propose => exact hbody _ _ h
  | others => cases h

/-- **The replan budget**, in every interleaving of requests, lease operations, feedback and
proposals. -/
theorem replan_budget (path incarnation : String) (calls : List ReplanCall) :
    ReplanBudget (Run.calls execReplan (.start (.created path incarnation)) calls) := by
  have h : Kept (Run.calls execReplan (.start (.created path incarnation)) calls) := by
    refine Run.invariant ⟨budgeted_created path incarnation, ?_⟩ fun r c _ h => h.call c
    intro _ _ _ _ _ hmem
    cases hmem
  have hb := h.budgeted
  refine ⟨hb.automatic, hb.escalated, hb.both, Table.nodup _, hb.own, ?_, ?_, ?_, hb.leases.active,
    hb.leases.epochs, fun call e => execReplan_error⟩
  · intro f automatic now fault d hmem now'
    obtain ⟨q, hq, hreplan, houtcome⟩ := h.decided hmem
    obtain ⟨d', hrun, hreplan', houtcome'⟩ := requestReplan_again hb hq now'
    refine ⟨d', ?_, hreplan'.trans hreplan, houtcome'.trans houtcome⟩
    simp [execReplan, answer, Tx.commit, hrun, Except.map]
  · intro f automatic now fault ans hlink hok
    obtain ⟨l, hl⟩ := Option.isSome_iff_exists.mp hlink
    have hlinked := (hb.links l (Table.mem_of_find hl)).2
    obtain ⟨d, db', hrun, heq⟩ | ⟨e, heq⟩ :=
      answer_eq .decision (requestReplan f automatic now fault) _
    · have hsame := (requestReplan_ok hb hrun).2.again (by simp [PlanStore.linked, hl, hlinked])
      rw [show execReplan (.request f automatic now fault) _ = _ from heq]
      exact hsame
    · rw [show execReplan (.request f automatic now fault) _ = _ from heq] at hok
      cases hok
  · intro q hq ho
    obtain ⟨item, hitem, hstate, hproposal, -⟩ := (hb.answered q hq ho).item
    exact ⟨item, hitem, hstate, hproposal⟩

end Herdr.Plans
