import Herdr.Store.Proposals
import Herdr.Verify.DependencyGraph

/-!
# One chain of plan revisions

`Accepts` says what an accepted proposal writes, and `Replays` what a stored proposal needs to be
answered again. Accepted proposals form one chain, every one of them stays answerable whatever is
accepted after it, and the planning intents are the fold of the accepted contracts.
-/

namespace Herdr.Plans

open Topological

variable [Documents] {db db' : PlanStore} {raw : Bytes} {key : String} {proposal : ParsedProposal}

/-! ## Replay -/

/-- What `validate_binding` finds. -/
structure BindingHolds (b : PlannerBinding) (parent : Nat) (db : PlanStore) : Prop where
  fields : identifier b.sessionId = true ∧ b.inputDigest.utf8ByteSize = 64 ∧
    plain b.rationale (16 * 1024) = true
  session : ∃ row session, db.sessions.find b.sessionId = some row ∧
    row.load b.sessionId = .ok session ∧
    (session.input.projectStore = db.path ∧ session.input.storeIncarnation = db.incarnation) ∧
    session.inputDigest = b.inputDigest ∧ session.input.parentPlanRevision = parent

theorem validateBinding_ok {b : PlannerBinding} {parent : Nat} {u : Unit} :
    validateBinding b parent db = .ok (u, db') ↔ BindingHolds b parent db ∧ db = db' := by
  simp only [validateBinding, Tx.require_bind, Tx.find_bind, Tx.check_bind, Tx.ask_bind,
    Tx.require_ok]
  constructor
  · rintro ⟨hfields, row, hrow, session, hload, hstore, hparent, rfl⟩
    exact ⟨⟨hfields, row, session, hrow, hload, hstore, hparent⟩, rfl⟩
  · rintro ⟨⟨hfields, row, session, hrow, hload, hstore, hparent⟩, rfl⟩
    exact ⟨hfields, row, hrow, session, hload, hstore, hparent, rfl⟩

theorem validatePlanner_ok {planner : Option PlannerBinding} {parent : Nat} {u : Unit} :
    validatePlanner planner parent db = .ok (u, db') ↔
      (∀ b ∈ planner, BindingHolds b parent db) ∧ db = db' := by
  cases planner with
  | none => simp [validatePlanner, Tx.pure_ok]
  | some b => simp [validatePlanner, validateBinding_ok]

theorem validateIdentity_ok {parent : Nat} {u : Unit} :
    validateIdentity proposal key parent db = .ok (u, db') ↔
      (∀ e ∈ proposal.envelope, e.names key parent db = true ∧
        db.requests.find e.requestId = none) ∧ db = db' := by
  unfold validateIdentity
  cases proposal.envelope with
  | none => simp [Tx.pure_ok]
  | some e => simp [Tx.require_bind, Tx.ask_bind, Tx.require_ok, and_assoc]

theorem validateReplay_ok {parent : Nat} {id : String} {u : Unit} :
    validateReplay proposal key parent id db = .ok (u, db') ↔
      (∀ e ∈ proposal.envelope, e.names key parent db = true ∧
        (db.requests.find e.requestId).any (·.proposalId = id) = true) ∧ db = db' := by
  unfold validateReplay
  cases proposal.envelope with
  | none => simp [Tx.pure_ok]
  | some e => simp [Tx.ask_bind, Tx.require_ok]

/-- What a stored proposal needs to be answered again. -/
structure Replays (raw : Bytes) (key : String) (p : PlanProposal) (db : PlanStore) : Prop where
  stored : Documents.sha256 p.payload = p.payloadDigest
  digest : p.payloadDigest = Documents.sha256 raw
  parsed : ∃ proposal, parseProposal raw = .ok proposal ∧
    (∀ e ∈ proposal.envelope, e.names key (p.planRevision - 1) db = true ∧
      (db.requests.find e.requestId).any (·.proposalId = p.proposalId) = true) ∧
    (∀ b ∈ proposal.planner, BindingHolds b (p.planRevision - 1) db) ∧
    ∀ b ∈ proposal.planner, (db.inputs.find p.proposalId).any
      (fun i => i.sessionId = b.sessionId && i.inputDigest = b.inputDigest) = true
  answered : ∀ r ∈ db.automaticReplan key,
    (db.responses.find key).any (·.proposalId = p.proposalId) = true

/-- The receipt of a stored proposal. -/
def PlanProposal.receipt (p : PlanProposal) (replayed : Bool) : PlanProposalReceipt :=
  ⟨p.planRevision, p.proposalId, p.payloadDigest, replayed⟩

omit [Documents] in
theorem all_iff {α : Type} {o : Option α} {f : α → Bool} :
    o.all f = true ↔ ∀ a ∈ o, f a = true := by
  cases o <;> simp

section

variable {α : Type} {f : Unit → PlanTx α} {a : α} {parent : Nat}

theorem validateReplay_bind {id : String} :
    (validateReplay proposal key parent id >>= f) db = .ok (a, db') ↔
      (∀ e ∈ proposal.envelope, e.names key parent db = true ∧
        (db.requests.find e.requestId).any (·.proposalId = id) = true) ∧ f () db = .ok (a, db') :=
  (Tx.bind_reads validateReplay_ok).trans Tx.exists_unit

theorem validateIdentity_bind :
    (validateIdentity proposal key parent >>= f) db = .ok (a, db') ↔
      (∀ e ∈ proposal.envelope, e.names key parent db = true ∧
        db.requests.find e.requestId = none) ∧ f () db = .ok (a, db') :=
  (Tx.bind_reads validateIdentity_ok).trans Tx.exists_unit

theorem validatePlanner_bind {planner : Option PlannerBinding} :
    (validatePlanner planner parent >>= f) db = .ok (a, db') ↔
      (∀ b ∈ planner, BindingHolds b parent db) ∧ f () db = .ok (a, db') :=
  (Tx.bind_reads validatePlanner_ok).trans Tx.exists_unit

end

theorem replayProposal_ok {p : PlanProposal} {receipt : PlanProposalReceipt} :
    replayProposal raw key p db = .ok (receipt, db') ↔
      Replays raw key p db ∧ p.receipt true = receipt ∧ db = db' := by
  simp only [replayProposal, Tx.require_bind, Tx.check_bind, validateReplay_bind,
    validatePlanner_bind, Tx.ask_bind, Tx.pure_ok, all_iff]
  constructor
  · rintro ⟨hstored, hdigest, proposal, hparse, henv, hplanner, hlinked, hanswered, rfl, rfl⟩
    exact ⟨⟨hstored, hdigest, ⟨proposal, hparse, henv, hplanner, hlinked⟩, hanswered⟩, rfl, rfl⟩
  · rintro ⟨⟨hstored, hdigest, ⟨proposal, hparse, henv, hplanner, hlinked⟩, hanswered⟩, rfl, rfl⟩
    exact ⟨hstored, hdigest, proposal, hparse, henv, hplanner, hlinked, hanswered, rfl, rfl⟩

/-- Inbox items keep their content. -/
def KeepsInbox (inbox inbox' : Table InboxRow InboxRow.id) : Prop :=
  ∀ id row, inbox.find id = some row → ∃ row', inbox'.find id = some row' ∧
    row'.payload = row.payload ∧ row'.payloadHash = row.payloadHash

omit [Documents] in
theorem KeepsInbox.refl (inbox : Table InboxRow InboxRow.id) : KeepsInbox inbox inbox :=
  fun _ _ h => ⟨_, h, rfl, rfl⟩

omit [Documents] in
/-- Reading an item keeps its content. -/
theorem KeepsInbox.finish {inbox : Table InboxRow InboxRow.id} {id : String} {row : InboxRow}
    (hrow : inbox.find id = some row) : KeepsInbox inbox (inbox.update row.finish) := by
  have hfinish : row.finish.id = row.id ∧ row.finish.payload = row.payload ∧
      row.finish.payloadHash = row.payloadHash := by
    unfold InboxRow.finish
    split <;> exact ⟨rfl, rfl, rfl⟩
  intro k old hold
  by_cases hk : row.finish.id = k
  · have hself : row = old := by
      have hid : id = k := by rw [← Table.find_key hrow, ← hfinish.1, hk]
      rw [hid, hold] at hrow
      cases hrow
      rfl
    subst hself
    refine ⟨row.finish, ?_, hfinish.2⟩
    rw [Table.find_update, if_pos hk, hold]
    rfl
  · refine ⟨old, ?_, rfl, rfl⟩
    rw [Table.find_update_ne hk, hold]

/-- The tables that a replay reads only grew, and no automatic request took its key. -/
structure Grows (db db' : PlanStore) : Prop where
  path : db'.path = db.path
  incarnation : db'.incarnation = db.incarnation
  sessions : db.sessions.Extends db'.sessions
  requests : db.requests.Extends db'.requests
  inputs : db.inputs.Extends db'.inputs
  responses : db.responses.Extends db'.responses

theorem BindingHolds.grows {b : PlannerBinding} {parent : Nat} (h : BindingHolds b parent db)
    (hg : Grows db db') : BindingHolds b parent db' := by
  obtain ⟨row, session, hrow, hload, hstore, hparent⟩ := h.session
  refine ⟨h.fields, row, session, hg.sessions.find hrow, hload, ?_, hparent⟩
  rwa [hg.path, hg.incarnation]

omit [Documents] in
theorem any_find_extends {α κ : Type} {k : α → κ} [DecidableEq κ] {t t' : Table α k} {f : α → Bool}
    {i : κ} (h : t.Extends t') (hany : (t.find i).any f = true) : (t'.find i).any f = true := by
  cases hf : t.find i with
  | none => simp [hf] at hany
  | some a => rwa [h.find hf, ← hf]

/-- A stored proposal stays answerable. -/
theorem Replays.grows {p : PlanProposal} (h : Replays raw key p db) (hg : Grows db db')
    (hkey : db'.automaticReplan key = db.automaticReplan key) : Replays raw key p db' := by
  obtain ⟨proposal, hparse, henv, hplanner, hlinked⟩ := h.parsed
  refine ⟨h.stored, h.digest, ⟨proposal, hparse, ?_, ?_, ?_⟩, ?_⟩
  · intro e he
    obtain ⟨hnames, hrequest⟩ := henv e he
    refine ⟨?_, any_find_extends hg.requests hrequest⟩
    unfold Envelope.names at hnames ⊢
    rwa [hg.path, hg.incarnation]
  · exact fun b hb => (hplanner b hb).grows hg
  · exact fun b hb => any_find_extends hg.inputs (hlinked b hb)
  · intro r hr
    rw [hkey] at hr
    exact any_find_extends hg.responses (h.answered r hr)

/-! ## Acceptance -/

omit [Documents] in
theorem logEvent_ok {entity : String} {revision : Nat} {body : PlanEventBody} {u : Unit}
    (h : logEvent entity revision body db = .ok (u, db')) :
    ∃ events, { db with events := events } = db' := by
  simp only [logEvent, integer, Tx.require_bind, Tx.write_ok] at h
  exact ⟨_, h.2⟩

theorem insertProposal_ok {row : PlanProposal} {u : Unit}
    (h : insertProposal row db = .ok (u, db')) :
    ∃ proposals, db.proposals.insert? row = some proposals ∧
      { db with proposals := proposals, intents := acceptIntents row db.intents } = db' := by
  simp only [insertProposal, Tx.insert_ok] at h
  split at h
  · cases h
  · obtain ⟨proposals, hinsert, rfl⟩ := Option.map_eq_some_iff.mp h
    exact ⟨proposals, hinsert, rfl⟩

omit [Documents] in
theorem insertRevision_ok {row : PlanRevision} {u : Unit}
    (h : insertRevision row db = .ok (u, db')) :
    ∃ revisions, db.revisions.insert? row = some revisions ∧
      { db with revisions := revisions } = db' := by
  simp only [insertRevision, Tx.insert_ok] at h
  split at h
  · cases h
  · obtain ⟨revisions, hinsert, rfl⟩ := Option.map_eq_some_iff.mp h
    exact ⟨revisions, hinsert, rfl⟩

omit [Documents] in
theorem record_ok {id : String} {u : Unit} (h : record proposal id db = .ok (u, db')) :
    ∃ requests, db.requests.Extends requests ∧
      (∀ e ∈ proposal.envelope, requests.find e.requestId = some ⟨e.requestId, id⟩) ∧
      { db with requests := requests } = db' := by
  unfold record at h
  cases henv : proposal.envelope with
  | none =>
    simp only [henv, Tx.pure_ok, true_and] at h
    exact ⟨db.requests, .refl _, by simp, h⟩
  | some e =>
    simp only [henv, Tx.insert_ok] at h
    split at h
    · cases h
    · obtain ⟨requests, hinsert, rfl⟩ := Option.map_eq_some_iff.mp h
      refine ⟨requests, .insert? hinsert, ?_, rfl⟩
      simp [Table.find_insert? hinsert]

omit [Documents] in
theorem recordInput_ok {planner : Option PlannerBinding} {id : String} {u : Unit}
    (h : recordInput planner id db = .ok (u, db')) :
    ∃ inputs, db.inputs.Extends inputs ∧
      (∀ b ∈ planner, inputs.find id = some ⟨id, b.sessionId, b.inputDigest⟩) ∧
      { db with inputs := inputs } = db' := by
  unfold recordInput at h
  cases planner with
  | none =>
    simp only [Tx.pure_ok, true_and] at h
    exact ⟨db.inputs, .refl _, by simp, h⟩
  | some b =>
    simp only [Tx.insert_ok] at h
    obtain ⟨inputs, hinsert, rfl⟩ := Option.map_eq_some_iff.mp h
    refine ⟨inputs, .insert? hinsert, ?_, rfl⟩
    simp [Table.find_insert? hinsert]

omit [Documents] in
theorem recordReplanReset_ok {revision : Nat} {now : Int} {u : Unit}
    (h : recordReplanReset revision now db = .ok (u, db')) :
    ∃ resets, { db with resets := resets } = db' := by
  simp only [recordReplanReset, Tx.insert_ok] at h
  obtain ⟨resets, -, rfl⟩ := Option.map_eq_some_iff.mp h
  exact ⟨resets, rfl⟩

theorem recordResponse_ok {id : String} {revision : Nat} {now : Int} {u : Unit}
    (h : recordResponse key id revision now db = .ok (u, db')) :
    ∃ responses events inbox, db.responses.Extends responses ∧
      responses.find key = some ⟨key, id, now⟩ ∧ KeepsInbox db.inbox inbox ∧
      { db with responses := responses, events := events, inbox := inbox } = db' := by
  simp only [recordResponse, Tx.bind_ok, Tx.insert_ok, Tx.ask_ok] at h
  obtain ⟨_, db₁, hrow, _, db₂, hlog, notice, _, ⟨hnotice, rfl⟩, h⟩ := h
  split at hrow
  · cases hrow
  obtain ⟨responses, hinsert, rfl⟩ := Option.map_eq_some_iff.mp hrow
  obtain ⟨events, rfl⟩ := logEvent_ok hlog
  have hfind : responses.find key = some ⟨key, id, now⟩ := by simp [Table.find_insert? hinsert]
  cases notice with
  | none =>
    obtain ⟨-, rfl⟩ := Tx.pure_ok.mp h
    exact ⟨responses, events, db.inbox, .insert? hinsert, hfind, .refl _, rfl⟩
  | some row =>
    obtain ⟨_, db₃, hwrite, h⟩ := Tx.bind_ok.mp h
    obtain rfl := Tx.write_ok.mp hwrite
    obtain ⟨events', rfl⟩ := logEvent_ok h
    exact ⟨responses, events', _, .insert? hinsert, hfind, .finish hnotice, rfl⟩

/-- What the acceptance of a proposal writes: `row` extends the chain, and the links that a replay
will look for are there. -/
structure Accepts (raw : Bytes) (key : String) (proposal : ParsedProposal) (row : PlanProposal)
    (db db' : PlanStore) : Prop where
  store : row.projectStore = db.path
  named : row.idempotencyKey = key
  payload : row.payload = raw
  digest : row.payloadDigest = Documents.sha256 raw
  parent : row.parentRevision = db.currentRevision
  revision : row.planRevision = db.currentRevision + 1
  proposals : db'.proposals.rows = db.proposals.rows ++ [row]
  revisions : db'.revisions.rows = db.revisions.rows ++ [⟨row.planRevision, row.parentRevision,
    row.proposalId, row.payloadDigest, proposal.contractTexts, row.createdUnixMs⟩]
  intents : db'.intents = acceptIntents row db.intents
  grows : Grows db db'
  replans : db'.replans = db.replans
  queue : db'.queue = db.queue
  feedback : db'.feedback = db.feedback ∧ db'.claims = db.claims ∧ db'.links = db.links
  inbox : KeepsInbox db.inbox db'.inbox
  request : ∀ e ∈ proposal.envelope,
    db'.requests.find e.requestId = some ⟨e.requestId, row.proposalId⟩
  input : ∀ b ∈ proposal.planner,
    db'.inputs.find row.proposalId = some ⟨row.proposalId, b.sessionId, b.inputDigest⟩
  response : ∀ r ∈ db.automaticReplan key,
    (db'.responses.find key).any (·.proposalId = row.proposalId) = true

theorem respond_ok {replan : Option ReplanRequest} {id : String} {revision : Nat} {now : Int}
    {u : Unit} (h : respond replan key id revision now db = .ok (u, db')) :
    ∃ responses events inbox, db.responses.Extends responses ∧
      (∀ r ∈ replan, (responses.find key).any (·.proposalId = id) = true) ∧
      KeepsInbox db.inbox inbox ∧
      { db with responses := responses, events := events, inbox := inbox } = db' := by
  cases replan with
  | none =>
    obtain ⟨-, rfl⟩ := Tx.pure_ok.mp h
    exact ⟨db.responses, db.events, db.inbox, .refl _, by simp, .refl _, rfl⟩
  | some r =>
    obtain ⟨responses, events, inbox, hext, hfind, hinbox, rfl⟩ := recordResponse_ok h
    exact ⟨responses, events, inbox, hext, by simp [hfind], hinbox, rfl⟩

theorem acceptProposal_ok {now : Int} {receipt : PlanProposalReceipt}
    (h : acceptProposal raw key proposal db.currentRevision (db.automaticReplan key) now db =
      .ok (receipt, db')) :
    ∃ row, Accepts raw key proposal row db db' ∧ row.receipt false = receipt := by
  simp only [acceptProposal, Tx.bind_ok, Tx.require_ok, Tx.ask_ok, Tx.pure_ok] at h
  obtain ⟨_, _, ⟨-, rfl⟩, _, _, ⟨rfl, rfl⟩, _, db₁, hlog, _, db₂, hproposal, _, db₃, hrevision,
    _, db₄, hrecord, _, db₅, hbind, _, db₆, hreset, _, db₇, hrespond, rfl, rfl⟩ := h
  obtain ⟨events, rfl⟩ := logEvent_ok hlog
  obtain ⟨proposals, hproposals, rfl⟩ := insertProposal_ok hproposal
  obtain ⟨revisions, hrevisions, rfl⟩ := insertRevision_ok hrevision
  obtain ⟨requests, hrequests, hrequest, rfl⟩ := record_ok hrecord
  obtain ⟨inputs, hinputs, hinput, rfl⟩ := recordInput_ok hbind
  obtain ⟨resets, rfl⟩ := recordReplanReset_ok hreset
  obtain ⟨responses, events', inbox, hresponses, hresponse, hinbox, rfl⟩ := respond_ok hrespond
  refine ⟨⟨_, db.path, key, Documents.sha256 raw, raw, db.currentRevision, db.currentRevision + 1,
    now⟩, ?_, rfl⟩
  exact {
    store := rfl
    named := rfl
    payload := rfl
    digest := rfl
    parent := rfl
    revision := rfl
    proposals := (Table.insert?_eq_some hproposals).2
    revisions := (Table.insert?_eq_some hrevisions).2
    intents := rfl
    grows := ⟨rfl, rfl, .refl _, hrequests, hinputs, hresponses⟩
    replans := rfl
    queue := rfl
    feedback := ⟨rfl, rfl, rfl⟩
    inbox := hinbox
    request := hrequest
    input := hinput
    response := hresponse }

/-- A proposal that was accepted stays answerable from then on. -/
theorem Accepts.replays {row : PlanProposal} (h : Accepts raw key proposal row db db')
    (hparse : parseProposal raw = .ok proposal)
    (hidentity : ∀ e ∈ proposal.envelope, e.names key db.currentRevision db = true)
    (hplanner : ∀ b ∈ proposal.planner, BindingHolds b db.currentRevision db) :
    Replays row.payload row.idempotencyKey row db' := by
  have hparent : row.planRevision - 1 = db.currentRevision := by rw [h.revision]; rfl
  rw [h.payload, h.named]
  refine ⟨by rw [h.payload, h.digest], h.digest, ⟨proposal, hparse, ?_, ?_, ?_⟩, ?_⟩
  · intro e he
    refine ⟨?_, by simp [h.request e he]⟩
    have hnames := hidentity e he
    unfold Envelope.names at hnames ⊢
    rwa [hparent, h.grows.path, h.grows.incarnation]
  · intro b hb
    rw [hparent]
    exact (hplanner b hb).grows h.grows
  · intro b hb
    simp [h.input b hb]
  · intro r hr
    refine h.response r ?_
    unfold PlanStore.automaticReplan at hr ⊢
    rwa [h.replans] at hr

/-! ## The dependency graph -/

section Overlay

variable {queue : List QueueRecord} {p t : TaskId} {α : Type} {task : α → TaskId}
  {deps : α → List Dependency} {xs : List α}

omit [Documents]

theorem depends_overlay_ne {id : TaskId} {ds : List Dependency} (h : Depends queue p t)
    (hne : t ≠ id) : Depends (overlay queue id ds) p t := by
  obtain ⟨q, hq, rfl, hd⟩ := h
  exact ⟨q, List.mem_append_left _ (List.mem_filter.mpr ⟨hq, by simpa using hne⟩), rfl, hd⟩

theorem depends_overlay_self {d : Dependency} {ds : List Dependency} (hd : d ∈ ds) :
    Depends (overlay queue t ds) d.predecessor t :=
  ⟨_, List.mem_append_right _ (List.mem_singleton.mpr rfl), rfl, d, hd, rfl⟩

/-- A task that no entry names keeps its dependencies. -/
theorem depends_overlays_ne (h : Depends queue p t) (hxs : ∀ x ∈ xs, task x ≠ t) :
    Depends (xs.foldl (fun q x => overlay q (task x) (deps x)) queue) p t := by
  induction xs generalizing queue with
  | nil => exact h
  | cons x xs ih =>
    exact ih (depends_overlay_ne h (Ne.symm (hxs x (by simp))))
      fun y hy => hxs y (List.mem_cons_of_mem _ hy)

/-- A task that an entry names gets the dependencies of that entry. -/
theorem depends_overlays (hnodup : (xs.map task).Nodup) {x : α} (hx : x ∈ xs) {d : Dependency}
    (hd : d ∈ deps x) :
    Depends (xs.foldl (fun q x => overlay q (task x) (deps x)) queue) d.predecessor (task x) := by
  induction xs generalizing queue with
  | nil => cases hx
  | cons y xs ih =>
    obtain ⟨hy, hnodup⟩ := List.nodup_cons.mp hnodup
    rcases List.mem_cons.mp hx with rfl | hx
    · rw [List.foldl_cons]
      refine depends_overlays_ne (depends_overlay_self hd) fun z hz he => hy ?_
      exact List.mem_map.mpr ⟨z, hz, he⟩
    · exact ih hnodup hx

end Overlay

/-- The dependencies that the queue holds for a task, under the accepted intents. -/
def PlanStore.planned (db : PlanStore) (t : TaskId) : List Dependency :=
  match db.intents.find t with
  | some intent => intent.dependencies
  | none => ((db.queue.find t).map (·.dependencies)).getD []

/-- The graph of queue records overridden by intents, from predecessor to follower. -/
def PlanStore.PlannedEdge (db : PlanStore) (p t : TaskId) : Prop :=
  ∃ d ∈ db.planned t, d.predecessor = p

omit [Documents] in
theorem validateGraph_ok {nodes : List TaskId} {queue : List QueueRecord} {u : Unit}
    (h : validateGraph nodes queue = .ok u) : graphIds nodes (byTask queue) = .ok () := by
  unfold validateGraph at h
  split at h
  · cases h
  · split at h
    · cases h
    · exact h

omit [Documents] in
theorem depends_byTask {queue : List QueueRecord} {p t : TaskId} (h : Depends queue p t) :
    Depends (byTask queue) p t := by
  obtain ⟨q, hq, hrest⟩ := h
  exact ⟨q, (List.perm_insertionSort _ _).mem_iff.mpr hq, hrest⟩

omit [Documents] in
theorem rejectCycles_ok {u : Unit} (h : rejectCycles proposal db = .ok (u, db')) :
    db = db' ∧ Acyclic (Depends
      (overlayContracts (overlayIntents db.queue.rows db.intents.rows) proposal.contracts)) := by
  simp only [rejectCycles, Tx.bind_ok, Tx.ask_ok, Tx.require_ok, Tx.check_ok] at h
  obtain ⟨_, _, ⟨rfl, rfl⟩, _, _, ⟨rfl, rfl⟩, _, _, ⟨-, rfl⟩, _, _, ⟨-, rfl⟩, _, _, ⟨-, rfl⟩, _, _,
    ⟨-, rfl⟩, _, _, ⟨-, rfl⟩, _, _, ⟨-, rfl⟩, _, _, ⟨rfl, rfl⟩, _, _, ⟨-, rfl⟩, _, _, ⟨-, rfl⟩,
    _, _, ⟨-, rfl⟩, _, _, ⟨-, rfl⟩, hgraph, rfl⟩ := h
  exact ⟨rfl, (graphIds_acyclic (validateGraph_ok hgraph)).mono depends_byTask⟩

/-! ## Reading checks -/

omit [Documents] in
theorem reads_unstarted (task : TaskId) : Tx.Reads (unstarted task) :=
  .bind (.ask _) fun _ => .require _ _

theorem reads_currentIntent (task : TaskId) (expected : IntentReference) :
    Tx.Reads (currentIntent task expected) := by
  refine .bind (.find _ _) fun found => .bind (.require _ _) fun _ =>
    .bind (.require _ _) fun _ => .bind (.check _) fun parsed => ?_
  cases parsed.contracts.find? (·.taskId = task) with
  | none => exact ⟨fun h => (Tx.throw_ok.mp h).elim⟩
  | some prior => exact .bind (.require _ _) fun _ => .pure _

theorem reads_validateChange (contracts : List ProposedContract) (change : Change) :
    Tx.Reads (validateChange contracts change) := by
  unfold validateChange
  cases contracts.find? (·.taskId = change.task) with
  | none => exact ⟨fun h => (Tx.throw_ok.mp h).elim⟩
  | some next =>
    cases change with
    | createContract task =>
      exact .bind (.ask _) fun _ => .bind (.require _ _) fun _ => reads_unstarted task
    | supersedeUnstarted task expected =>
      exact .bind (reads_currentIntent _ _) fun _ => .bind (reads_unstarted _) fun _ =>
        .require _ _
    | addDependencies task expected added =>
      exact .bind (reads_currentIntent _ _) fun _ => .check _
    | requestCancellation task expected reason =>
      exact .bind (reads_currentIntent _ _) fun _ => .require _ _

theorem reads_validateChanges (proposal : ParsedProposal) : Tx.Reads (validateChanges proposal) :=
  .forEach (reads_validateChange _) _

/-! ## Planning intents -/

omit [Documents] in
theorem validateContracts_ok {seen : List TaskId} {contracts : List ProposedContract}
    (h : validateContracts seen contracts = .ok ()) :
    (contracts.map (·.taskId)).Nodup ∧ ∀ c ∈ contracts, c.taskId ∉ seen := by
  induction contracts generalizing seen with
  | nil => simp
  | cons c contracts ih =>
    unfold validateContracts at h
    dsimp only at h
    split at h
    · cases h
    next hc =>
    split at h
    · cases h
    obtain ⟨hnodup, hseen⟩ := ih h
    refine ⟨?_, ?_⟩
    · rw [List.map_cons, List.nodup_cons]
      refine ⟨fun hmem => ?_, hnodup⟩
      obtain ⟨d, hd, he⟩ := List.mem_map.mp hmem
      exact hseen d hd (by simp [he])
    · intro d hd
      rcases List.mem_cons.mp hd with rfl | hd
      · exact fun hmem => hc (.inl hmem)
      · exact fun hmem => hseen d hd (List.mem_cons_of_mem _ hmem)

/-- What a parsed proposal is: the decoded contracts, each for another task. -/
theorem parseProposal_ok (h : parseProposal raw = .ok proposal) :
    ∃ document, Documents.proposal raw = some document ∧
      proposal.contracts = document.contracts ∧ (document.contracts.map (·.taskId)).Nodup := by
  unfold parseProposal at h
  split at h
  · cases h
  split at h
  · cases h
  next document hdocument =>
  obtain ⟨_, -, h⟩ := Except.bind_ok.mp h
  unfold ProposalFile.parsed at h
  obtain ⟨_, hcontracts, h⟩ := Except.bind_ok.mp h
  split at h
  · cases h
  cases h
  exact ⟨document, hdocument, rfl, (validateContracts_ok hcontracts).1⟩

/-- The intent that a stored proposal has for a task. -/
def PlanProposal.intent (row : PlanProposal) (t : TaskId) : Option PlanTaskIntent :=
  (Documents.proposal row.payload).bind fun document =>
    (document.contracts.find? (·.taskId = t)).map fun c =>
      ⟨c.taskId, row.proposalId, row.planRevision, c.dependencies, c.cancellationReason⟩

section

omit [Documents]

variable {intents : Table PlanTaskIntent PlanTaskIntent.taskId} {next : PlanTaskIntent} {t : TaskId}

/-- The upsert takes effect when the stored intent is older. -/
theorem find_upsertIntent
    (hold : ∀ old, intents.find next.taskId = some old → old.planRevision < next.planRevision) :
    (upsertIntent intents next).find t = if next.taskId = t then some next else intents.find t := by
  unfold upsertIntent
  cases hinsert : intents.insert? next with
  | some added => exact Table.find_insert? hinsert
  | none =>
    cases hfind : intents.find next.taskId with
    | none =>
      unfold Table.insert? at hinsert
      rw [dif_pos hfind] at hinsert
      cases hinsert
    | some old =>
      dsimp only
      rw [if_pos (hold old hfind), Table.find_update]
      split
      · next he => rw [← he, hfind]; rfl
      · rfl

/-- Folding the contracts of one proposal into older intents. -/
theorem find_upsertIntents {contracts : List ProposedContract} {id : String} {revision : Nat}
    (hnodup : (contracts.map (·.taskId)).Nodup)
    (hold : ∀ c ∈ contracts, ∀ old, intents.find c.taskId = some old →
      old.planRevision < revision) :
    (contracts.foldl (fun table c => upsertIntent table
      ⟨c.taskId, id, revision, c.dependencies, c.cancellationReason⟩) intents).find t =
      ((contracts.find? (·.taskId = t)).map fun c => (⟨c.taskId, id, revision, c.dependencies,
        c.cancellationReason⟩ : PlanTaskIntent)).or (intents.find t) := by
  induction contracts generalizing intents with
  | nil => rfl
  | cons c contracts ih =>
    obtain ⟨hc, hnodup⟩ := List.nodup_cons.mp hnodup
    have hfind : ∀ k, (upsertIntent intents
        ⟨c.taskId, id, revision, c.dependencies, c.cancellationReason⟩).find k =
        if c.taskId = k then some ⟨c.taskId, id, revision, c.dependencies, c.cancellationReason⟩
        else intents.find k :=
      fun k => find_upsertIntent (hold c (by simp))
    rw [List.foldl_cons, ih hnodup]
    · rw [hfind, List.find?_cons]
      by_cases he : c.taskId = t
      · -- no later contract names the same task
        have hnone : contracts.find? (·.taskId = t) = none := by
          rw [List.find?_eq_none]
          intro d hd hdt
          exact hc (List.mem_map.mpr ⟨d, hd, (by simpa using hdt : d.taskId = t).trans he.symm⟩)
        simp [he, hnone]
      · simp [he]
    · intro d hd old hfound
      rw [hfind, if_neg] at hfound
      · exact hold d (List.mem_cons_of_mem _ hd) old hfound
      · exact fun he => hc (List.mem_map.mpr ⟨d, hd, he.symm⟩)

end

/-- The trigger puts the contracts of a new proposal over the older intents. -/
theorem find_acceptIntents {row : PlanProposal} (hparse : parseProposal row.payload = .ok proposal)
    {intents : Table PlanTaskIntent PlanTaskIntent.taskId}
    (hold : ∀ t old, intents.find t = some old → old.planRevision < row.planRevision) (t : TaskId) :
    (acceptIntents row intents).find t = (row.intent t).or (intents.find t) := by
  obtain ⟨document, hdocument, -, hnodup⟩ := parseProposal_ok hparse
  unfold acceptIntents PlanProposal.intent
  rw [hdocument]
  exact find_upsertIntents hnodup fun c _ => hold c.taskId

/-! ## One call -/

/-- What the submission of a new key leads to. -/
structure Extended (raw : Bytes) (expectedParent : Nat) (key : String) (row : PlanProposal)
    (db db' : PlanStore) : Prop where
  parent : expectedParent = db.currentRevision
  accepts : ∃ proposal, parseProposal raw = .ok proposal ∧ Accepts raw key proposal row db db' ∧
    Acyclic (Depends
      (overlayContracts (overlayIntents db.queue.rows db.intents.rows) proposal.contracts))
  replays : Replays row.payload row.idempotencyKey row db'

theorem newProposal_ok {expectedParent : Nat} {now : Int} {receipt : PlanProposalReceipt}
    (h : newProposal raw expectedParent key now db = .ok (receipt, db')) :
    ∃ row, Extended raw expectedParent key row db db' ∧ row.receipt false = receipt := by
  simp only [newProposal, Tx.bind_ok, Tx.check_ok, Tx.ask_ok, Tx.require_ok, validatePlanner_ok,
    validateIdentity_ok] at h
  obtain ⟨proposal, _, ⟨hparse, rfl⟩, _, _, ⟨rfl, rfl⟩, _, _, ⟨hparent, rfl⟩, _, _,
    ⟨hplanner, rfl⟩, _, _, ⟨rfl, rfl⟩, _, _, ⟨-, rfl⟩, _, _, ⟨hidentity, rfl⟩, _, _, hchanges, _, _,
    hcycles, haccept⟩ := h
  obtain rfl := (reads_validateChanges proposal).keeps hchanges
  obtain ⟨rfl, hacyclic⟩ := rejectCycles_ok hcycles
  obtain ⟨row, haccepts, hreceipt⟩ := acceptProposal_ok haccept
  refine ⟨row, ⟨hparent.symm, ⟨proposal, hparse, haccepts, hacyclic⟩, ?_⟩, hreceipt⟩
  exact haccepts.replays hparse (fun e he => (hidentity e he).1) hplanner

/-- The checks that a call makes before it looks its key up. -/
structure Admissible (raw : Bytes) (key : String) (db : PlanStore) : Prop where
  raw : ¬ raw.isEmpty = true ∧ raw.length ≤ proposalLimit
  key : identifier key = true
  path : ¬ db.path.isEmpty = true ∧ db.path.utf8ByteSize ≤ 4096

/-- A call that succeeds found its key and answered again, or extended the chain. -/
theorem applyPlanProposal_ok {expectedParent : Nat} {now : Int} {fault : Option StoreError}
    {receipt : PlanProposalReceipt}
    (h : applyPlanProposal raw expectedParent key now fault db = .ok (receipt, db')) :
    Admissible raw key db ∧
    ((∃ p, db.lookupProposal key = some p ∧ Replays raw key p db ∧ p.receipt true = receipt ∧
        db = db') ∨
      (db.lookupProposal key = none ∧
        ∃ row, Extended raw expectedParent key row db db' ∧ row.receipt false = receipt)) := by
  simp only [applyPlanProposal, Tx.bind_ok, Tx.outside_ok, Tx.require_ok, Tx.ask_ok] at h
  obtain ⟨_, _, ⟨-, rfl⟩, _, _, ⟨hraw, rfl⟩, _, _, ⟨hkey, rfl⟩, _, _, ⟨rfl, rfl⟩, _, _,
    ⟨hpath, rfl⟩, existing, _, ⟨hlookup, rfl⟩, h⟩ := h
  refine ⟨⟨hraw, hkey, hpath⟩, ?_⟩
  cases existing with
  | some p =>
    obtain ⟨hreplays, hreceipt, rfl⟩ := replayProposal_ok.mp h
    exact .inl ⟨p, hlookup, hreplays, hreceipt, rfl⟩
  | none => exact .inr ⟨hlookup, newProposal_ok h⟩

/-- A stored proposal that is answerable is answered, whatever parent the caller expects. -/
theorem applyPlanProposal_replay {p : PlanProposal} (hadmissible : Admissible raw key db)
    (hlookup : db.lookupProposal key = some p) (hreplays : Replays raw key p db)
    (expectedParent : Nat) (now : Int) :
    applyPlanProposal raw expectedParent key now none db = .ok (p.receipt true, db) := by
  simp only [applyPlanProposal, Tx.bind_ok, Tx.outside_ok, Tx.require_ok, Tx.ask_ok]
  refine ⟨(), db, ⟨trivial, rfl⟩, (), db, ⟨hadmissible.raw, rfl⟩, (), db, ⟨hadmissible.key, rfl⟩,
    _, db, ⟨rfl, rfl⟩, (), db, ⟨hadmissible.path, rfl⟩, some p, db, ⟨hlookup, rfl⟩, ?_⟩
  exact replayProposal_ok.mpr ⟨hreplays, rfl, rfl⟩

/-! ## The chain -/

/-- The revisions are `1..n`, proposals and revisions correspond, no key is used twice, every
proposal is answerable, and the intents are the fold of the proposals. -/
structure Chained (db : PlanStore) : Prop where
  store : ∀ p ∈ db.proposals.rows, p.projectStore = db.path
  revisions : db.revisions.rows.map (fun v => (v.parentRevision, v.planRevision)) =
    (List.range db.revisions.rows.length).map fun k => (k, k + 1)
  proposals : db.proposals.rows.map (fun p => (p.parentRevision, p.planRevision)) =
    db.revisions.rows.map fun v => (v.parentRevision, v.planRevision)
  keys : (db.proposals.rows.map (·.idempotencyKey)).Nodup
  replays : ∀ p ∈ db.proposals.rows, Replays p.payload p.idempotencyKey p db
  intents : ∀ t, db.intents.find t = db.proposals.rows.reverse.findSome? (·.intent t)

theorem chained_created (path incarnation : String) : Chained (.created path incarnation) := by
  refine ⟨?_, rfl, rfl, ?_, ?_, fun _ => rfl⟩ <;> simp [PlanStore.created, Table.empty]

omit [Documents] in
theorem foldl_max_range (n : Nat) : ((List.range n).map (· + 1)).foldl max 0 = n := by
  induction n with
  | zero => rfl
  | succ n ih => simp [List.range_succ, ih]

namespace Chained

theorem currentRevision (h : Chained db) : db.currentRevision = db.revisions.rows.length := by
  have hrevisions : db.revisions.rows.map (·.planRevision) =
      (List.range db.revisions.rows.length).map (· + 1) := by
    have hsnd := congrArg (List.map Prod.snd) h.revisions
    simpa [List.map_map, Function.comp_def] using hsnd
  unfold PlanStore.currentRevision
  rw [hrevisions, foldl_max_range]

theorem length (h : Chained db) : db.proposals.rows.length = db.revisions.rows.length := by
  simpa using congrArg List.length h.proposals

/-- A stored proposal has its place in the chain. -/
theorem bounds (h : Chained db) {p : PlanProposal} (hp : p ∈ db.proposals.rows) :
    p.planRevision ≤ db.currentRevision := by
  have hmem := List.mem_map_of_mem (f := fun p : PlanProposal => (p.parentRevision, p.planRevision))
    hp
  rw [h.proposals, h.revisions] at hmem
  obtain ⟨k, hk, he⟩ := List.mem_map.mp hmem
  have hk := List.mem_range.mp hk
  have hrevision : k + 1 = p.planRevision := congrArg Prod.snd he
  rw [h.currentRevision]
  omega

/-- The parents of stored proposals are all different. -/
theorem parents_nodup (h : Chained db) : (db.proposals.rows.map (·.parentRevision)).Nodup := by
  have hfst := congrArg (List.map Prod.fst) (h.proposals.trans h.revisions)
  have hparents : db.proposals.rows.map (·.parentRevision) =
      List.range db.revisions.rows.length := by
    simpa [List.map_map, Function.comp_def] using hfst
  rw [hparents]
  exact List.nodup_range

theorem older (h : Chained db) {t : TaskId} {old : PlanTaskIntent}
    (hfind : db.intents.find t = some old) : old.planRevision ≤ db.currentRevision := by
  rw [h.intents] at hfind
  obtain ⟨p, hp, hintent⟩ := List.exists_of_findSome?_eq_some hfind
  have hrevision : old.planRevision = p.planRevision := by
    obtain ⟨document, -, hmap⟩ := Option.bind_eq_some_iff.mp hintent
    obtain ⟨c, -, rfl⟩ := Option.map_eq_some_iff.mp hmap
    rfl
  rw [hrevision]
  exact h.bounds (List.mem_reverse.mp hp)

theorem lookup (h : Chained db) {p : PlanProposal} (hp : p ∈ db.proposals.rows) :
    db.lookupProposal p.idempotencyKey = some p := by
  unfold PlanStore.lookupProposal
  cases hfind : db.proposals.rows.find?
      fun q => q.projectStore = db.path && q.idempotencyKey = p.idempotencyKey with
  | none =>
    have hnone := List.find?_eq_none.mp hfind p hp
    simp [h.store p hp] at hnone
  | some q =>
    have hq := List.find?_some hfind
    simp only [Bool.and_eq_true, decide_eq_true_eq] at hq
    rw [List.inj_on_of_nodup_map h.keys (List.mem_of_find?_eq_some hfind) hp hq.2]

/-- The intents after an acceptance. -/
theorem find_intents (h : Chained db) {row : PlanProposal}
    (hparse : parseProposal raw = .ok proposal) (haccepts : Accepts raw key proposal row db db')
    (t : TaskId) : db'.intents.find t = (row.intent t).or (db.intents.find t) := by
  rw [haccepts.intents]
  refine find_acceptIntents (haccepts.payload ▸ hparse) (fun t old hold => ?_) t
  rw [haccepts.revision]
  exact Nat.lt_succ_of_le (h.older hold)

/-- An acceptance extends the chain. -/
theorem extended (h : Chained db) {expectedParent : Nat} {row : PlanProposal}
    (hnew : db.lookupProposal key = none) (hext : Extended raw expectedParent key row db db') :
    Chained db' := by
  obtain ⟨-, ⟨proposal, hparse, haccepts, -⟩, hreplays⟩ := hext
  have hcurrent := h.currentRevision
  refine ⟨?_, ?_, ?_, ?_, ?_, ?_⟩
  · intro p hp
    rw [haccepts.proposals, List.mem_append, List.mem_singleton] at hp
    rw [haccepts.grows.path]
    rcases hp with hp | rfl
    · exact h.store p hp
    · exact haccepts.store
  · rw [haccepts.revisions, List.map_append, h.revisions]
    simp [List.range_succ, haccepts.parent, haccepts.revision, hcurrent]
  · rw [haccepts.proposals, haccepts.revisions, List.map_append, List.map_append, h.proposals]
    rfl
  · rw [haccepts.proposals, List.map_append, List.nodup_append]
    refine ⟨h.keys, by simp, ?_⟩
    rintro k hk k' hk' rfl
    obtain ⟨p, hp, hpk⟩ := List.mem_map.mp hk
    have hrow : k = key := by simpa [haccepts.named] using hk'
    have hlookup := h.lookup hp
    rw [show p.idempotencyKey = key from hpk.trans hrow, hnew] at hlookup
    cases hlookup
  · intro p hp
    rw [haccepts.proposals, List.mem_append, List.mem_singleton] at hp
    rcases hp with hp | rfl
    · refine (h.replays p hp).grows haccepts.grows ?_
      unfold PlanStore.automaticReplan
      rw [haccepts.replans]
    · exact hreplays
  · intro t
    rw [h.find_intents hparse haccepts, haccepts.proposals, h.intents, List.reverse_append]
    cases hintent : row.intent t with
    | none => simp [hintent]
    | some i => simp [hintent]

/-- Right after an acceptance the queue under the intents has no cycle. -/
theorem acyclic (h : Chained db) {expectedParent : Nat} {row : PlanProposal}
    (hext : Extended raw expectedParent key row db db') : Acyclic db'.PlannedEdge := by
  obtain ⟨-, ⟨proposal, hparse, haccepts, hacyclic⟩, -⟩ := hext
  obtain ⟨document, hdocument, hcontracts, hnodup⟩ := parseProposal_ok hparse
  rw [← hcontracts] at hnodup
  have hintent : ∀ t, row.intent t = (proposal.contracts.find? (·.taskId = t)).map fun c =>
      (⟨c.taskId, row.proposalId, row.planRevision, c.dependencies, c.cancellationReason⟩ :
        PlanTaskIntent) := by
    intro t
    unfold PlanProposal.intent
    rw [haccepts.payload, hdocument, hcontracts]
    rfl
  refine hacyclic.mono ?_
  rintro p t ⟨d, hd, rfl⟩
  unfold PlanStore.planned at hd
  rw [h.find_intents hparse haccepts, hintent, haccepts.queue] at hd
  cases hcontract : proposal.contracts.find? (·.taskId = t) with
  | some c =>
    rw [hcontract] at hd
    have htask : c.taskId = t := by simpa using List.find?_some hcontract
    rw [← htask]
    exact depends_overlays hnodup (List.mem_of_find?_eq_some hcontract) hd
  | none =>
    rw [hcontract] at hd
    have hother : ∀ c ∈ proposal.contracts, c.taskId ≠ t := by
      intro c hc
      simpa using List.find?_eq_none.mp hcontract c hc
    refine depends_overlays_ne ?_ hother
    cases hold : db.intents.find t with
    | some i =>
      rw [hold] at hd
      rw [← Table.find_key hold]
      exact depends_overlays db.intents.nodup (Table.mem_of_find hold) hd
    | none =>
      rw [hold] at hd
      cases hqueue : db.queue.find t with
      | none => simp [hqueue] at hd
      | some q =>
        rw [hqueue] at hd
        refine depends_overlays_ne ?_ fun i hi he => ?_
        · exact ⟨q, Table.mem_of_find hqueue, Table.find_key hqueue, d, hd, rfl⟩
        · exact Table.find_eq_none_iff.mp hold (List.mem_map.mpr ⟨i, hi, he⟩)

end Chained

/-! ## Other writers -/

section Elsewhere

omit [Documents]

theorem extends_addSession (rows : List PlannerSessionRow)
    (sessions : Table PlannerSessionRow PlannerSessionRow.sessionId) :
    sessions.Extends (rows.foldl addSession sessions) := by
  induction rows generalizing sessions with
  | nil => exact .refl _
  | cons row rows ih =>
    refine Table.Extends.trans ?_ (ih _)
    unfold addSession
    cases hinsert : sessions.insert? row with
    | none => exact .refl _
    | some added => exact .insert? hinsert

theorem find_addReplan {accepted : List String} {key : String} (hkey : key ∈ accepted)
    (rows : List ReplanRequest) (replans : Table ReplanRequest ReplanRequest.replanId) :
    (rows.foldl (addReplan accepted) replans).find key = replans.find key := by
  induction rows generalizing replans with
  | nil => rfl
  | cons row rows ih =>
    rw [List.foldl_cons, ih]
    unfold addReplan
    split
    · rfl
    · next hrow =>
      cases hinsert : replans.insert? row with
      | none => rfl
      | some added =>
        rw [Option.getD_some, Table.find_insert? hinsert, if_neg]
        exact fun he => hrow (he ▸ hkey)

end Elsewhere

theorem Chained.elsewhere (h : Chained db) (e : Elsewhere) : Chained (e.apply db) := by
  refine ⟨h.store, h.revisions, h.proposals, h.keys, ?_, h.intents⟩
  intro p hp
  refine (h.replays p hp).grows
    ⟨rfl, rfl, extends_addSession _ _, .refl _, .refl _, .refl _⟩ ?_
  unfold PlanStore.automaticReplan
  have hfind := find_addReplan (List.mem_map_of_mem (f := (·.idempotencyKey)) hp) e.replans
    db.replans
  exact congrArg (Option.filter _) hfind

/-! ## Runs -/

/-- A new proposal that was accepted. -/
structure Acceptance where
  raw : Bytes
  expectedParent : Nat
  key : String
  receipt : PlanProposalReceipt

/-- The entry of a log that accepted a new proposal. -/
def acceptance : Call × Answer → Option Acceptance
  | (.apply raw expectedParent key _ _, some (.ok receipt)) =>
    if receipt.replayed then none else some ⟨raw, expectedParent, key, receipt⟩
  | _ => none

/-- The proposals that a log accepted, oldest first. -/
def accepted (log : List (Call × Answer)) : List Acceptance := log.filterMap acceptance

/-- The last accepted contract that names a task. -/
def lastContract (accepted : List Acceptance) (t : TaskId) : Option ProposedContract :=
  accepted.reverse.findSome? fun a => (Documents.proposal a.raw).bind fun document =>
    document.contracts.find? (·.taskId = t)

abbrev PlanRun := Run PlanStore Call Answer

def PlanProposal.acceptance (p : PlanProposal) : Acceptance :=
  ⟨p.payload, p.parentRevision, p.idempotencyKey, p.receipt false⟩

/-- The log and the store of a run agree. -/
structure Recorded (r : PlanRun) : Prop where
  chained : Chained r.state
  admissible : ∀ p ∈ r.state.proposals.rows, Admissible p.payload p.idempotencyKey r.state
  accepted : accepted r.log = r.state.proposals.rows.map PlanProposal.acceptance
  answers : ∀ {raw expectedParent key now fault receipt},
    (Call.apply raw expectedParent key now fault, some (.ok receipt)) ∈ r.log →
      ∃ p ∈ r.state.proposals.rows, p.idempotencyKey = key ∧ p.payloadDigest = receipt.digest

theorem recorded_start (path incarnation : String) :
    Recorded (.start (.created path incarnation)) := by
  refine ⟨chained_created path incarnation, ?_, rfl, ?_⟩
  · simp [PlanStore.created, Table.empty]
  · intro _ _ _ _ _ _ h
    cases h

omit [Documents] in
theorem lookup_some {p : PlanProposal} (h : db.lookupProposal key = some p) :
    p ∈ db.proposals.rows ∧ p.idempotencyKey = key := by
  have hp := List.find?_some h
  simp only [Bool.and_eq_true, decide_eq_true_eq] at hp
  exact ⟨List.mem_of_find?_eq_some h, hp.2⟩

namespace Recorded

variable {r : PlanRun}

/-- A call that accepts nothing and keeps the stored proposals. -/
theorem keep (h : Recorded r) {call : Call} (hchained : Chained (exec call r.state).2)
    (hrows : (exec call r.state).2.proposals.rows = r.state.proposals.rows)
    (hpath : (exec call r.state).2.path = r.state.path)
    (hnone : acceptance (call, (exec call r.state).1) = none)
    (hanswer : ∀ {raw expectedParent key now fault receipt},
      (call, (exec call r.state).1) =
        (Call.apply raw expectedParent key now fault, some (.ok receipt)) →
      ∃ p ∈ r.state.proposals.rows, p.idempotencyKey = key ∧ p.payloadDigest = receipt.digest) :
    Recorded (r.call exec call) := by
  refine ⟨hchained, ?_, ?_, ?_⟩
  · intro p hp
    obtain ⟨hraw, hkey, hp'⟩ := h.admissible p (hrows ▸ hp)
    refine ⟨hraw, hkey, ?_⟩
    rwa [Run.call_state, hpath]
  · rw [Run.call_log, Plans.accepted, List.filterMap_append]
    simp only [List.filterMap_cons, List.filterMap_nil, hnone, List.append_nil]
    rw [Run.call_state, hrows]
    exact h.accepted
  · intro raw expectedParent key now fault receipt hmem
    rw [Run.call_log, List.mem_append, List.mem_singleton] at hmem
    rw [Run.call_state, hrows]
    rcases hmem with hmem | hmem
    · exact h.answers hmem
    · exact hanswer hmem.symm

/-- A call that extends the chain. -/
theorem extend (h : Recorded r) {expectedParent : Nat} {now : Int} {fault : Option StoreError}
    {row : PlanProposal} (hadmissible : Admissible raw key r.state)
    (hnew : r.state.lookupProposal key = none)
    (hext : Extended raw expectedParent key row r.state db)
    (hexec : exec (.apply raw expectedParent key now fault) r.state =
      (some (.ok (row.receipt false)), db)) :
    Recorded (r.call exec (.apply raw expectedParent key now fault)) := by
  have hchained := h.chained.extended hnew hext
  obtain ⟨hparent, ⟨proposal, -, haccepts, -⟩, -⟩ := hext
  have hstate : (r.call exec (.apply raw expectedParent key now fault)).state = db := by
    rw [Run.call_state, hexec]
  have hlog : (r.call exec (.apply raw expectedParent key now fault)).log =
      r.log ++ [(.apply raw expectedParent key now fault, some (.ok (row.receipt false)))] := by
    rw [Run.call_log, hexec]
  refine ⟨hstate ▸ hchained, ?_, ?_, ?_⟩
  · rw [hstate, haccepts.proposals]
    intro p hp
    rw [List.mem_append, List.mem_singleton] at hp
    rcases hp with hp | rfl
    · obtain ⟨hraw, hkey, hpath⟩ := h.admissible p hp
      exact ⟨hraw, hkey, haccepts.grows.path ▸ hpath⟩
    · rw [haccepts.payload, haccepts.named]
      exact ⟨hadmissible.raw, hadmissible.key, haccepts.grows.path ▸ hadmissible.path⟩
  · have hacceptance : row.acceptance = ⟨raw, expectedParent, key, row.receipt false⟩ := by
      unfold PlanProposal.acceptance
      rw [haccepts.payload, haccepts.named, haccepts.parent, hparent]
    rw [hlog, hstate, haccepts.proposals, List.map_append, ← h.accepted, Plans.accepted,
      List.filterMap_append, List.map_singleton, hacceptance]
    rfl
  · intro raw' expectedParent' key' now' fault' receipt hmem
    rw [hlog, List.mem_append, List.mem_singleton] at hmem
    rw [hstate, haccepts.proposals]
    rcases hmem with hmem | hmem
    · obtain ⟨p, hp, hfacts⟩ := h.answers hmem
      exact ⟨p, List.mem_append_left _ hp, hfacts⟩
    · cases hmem
      exact ⟨row, by simp, haccepts.named, rfl⟩

theorem call (h : Recorded r) (call : Call) : Recorded (r.call exec call) := by
  cases call with
  | elsewhere change =>
    refine h.keep (h.chained.elsewhere change) rfl rfl rfl ?_
    intro _ _ _ _ _ _ he
    cases he
  | apply raw expectedParent key now fault =>
    obtain ⟨receipt, db, hbody, hcommit⟩ | ⟨e, -, hcommit⟩ :=
      Tx.commit_eq (applyPlanProposal raw expectedParent key now fault) r.state
    · have hexec : exec (.apply raw expectedParent key now fault) r.state =
          (some (.ok receipt), db) := by simp [exec, hcommit]
      obtain ⟨hadmissible, ⟨p, hlookup, hreplays, rfl, rfl⟩ | ⟨hnew, row, hext, rfl⟩⟩ :=
        applyPlanProposal_ok hbody
      · refine h.keep (hexec ▸ h.chained) (hexec ▸ rfl) (hexec ▸ rfl) (hexec ▸ rfl) ?_
        intro raw' expectedParent' key' now' fault' receipt he
        rw [hexec] at he
        cases he
        exact ⟨p, (lookup_some hlookup).1, (lookup_some hlookup).2, rfl⟩
      · exact h.extend hadmissible hnew hext hexec
    · have hexec : exec (.apply raw expectedParent key now fault) r.state =
          (some (.error e), r.state) := by simp [exec, hcommit]
      refine h.keep (hexec ▸ h.chained) (hexec ▸ rfl) (hexec ▸ rfl) (hexec ▸ rfl) ?_
      intro raw' expectedParent' key' now' fault' receipt he
      rw [hexec] at he
      cases he

theorem calls (h : Recorded r) (calls : List Call) : Recorded (r.calls exec calls) :=
  Run.invariant h fun _ c _ h => h.call c

/-- The bytes of an accepted proposal are answered with its receipt, and nothing is written. -/
theorem replayed (h : Recorded r) {a : Acceptance} (ha : a ∈ Plans.accepted r.log)
    (expectedParent : Nat) (now : Int) :
    exec (.apply a.raw expectedParent a.key now none) r.state =
      (some (.ok { a.receipt with replayed := true }), r.state) := by
  rw [h.accepted] at ha
  obtain ⟨p, hp, rfl⟩ := List.mem_map.mp ha
  have hbody := applyPlanProposal_replay (h.admissible p hp) (h.chained.lookup hp)
    (h.chained.replays p hp) expectedParent now
  simp [exec, Tx.commit, PlanProposal.acceptance, PlanProposal.receipt, hbody]

/-- The intents are the last accepted contracts. -/
theorem dependencies (h : Recorded r) (t : TaskId) :
    (r.state.intents.find t).map (·.dependencies) =
      (lastContract (Plans.accepted r.log) t).map (·.dependencies) := by
  rw [h.chained.intents, h.accepted, lastContract, ← List.map_reverse]
  induction r.state.proposals.rows.reverse with
  | nil => rfl
  | cons p rows ih =>
    rw [List.map_cons, List.findSome?_cons, List.findSome?_cons]
    unfold PlanProposal.intent PlanProposal.acceptance at *
    cases hdocument : Documents.proposal p.payload with
    | none => simpa [hdocument] using ih
    | some document =>
      cases hcontract : document.contracts.find? (·.taskId = t) with
      | none => simpa [hdocument, hcontract] using ih
      | some c => simp [hcontract]

end Recorded

omit [Documents] in
/-- Of distinct values, at most one is a given one. -/
theorem countP_le_one_of_nodup {α : Type} {f : α → Nat} {l : List α} (h : (l.map f).Nodup)
    (n : Nat) : l.countP (fun a => f a = n) ≤ 1 := by
  have hcount := List.nodup_iff_count_le_one.mp h n
  rw [List.count, List.countP_map] at hcount
  refine le_trans (le_of_eq ?_) hcount
  apply List.countP_congr
  intro a _
  simp

/-- What holds after any interleaving of proposals and other writers. -/
structure OneChain (r : PlanRun) : Prop where
  /-- The stored revisions are `1..n`, each with the one before it as parent. -/
  revisions : r.state.revisions.rows.map (fun v => (v.parentRevision, v.planRevision)) =
    (List.range r.state.revisions.rows.length).map fun k => (k, k + 1)
  /-- Of the new proposals submitted with one expected parent at most one was accepted. -/
  one_per_parent : ∀ parent, (accepted r.log).countP (fun a => a.expectedParent = parent) ≤ 1
  /-- No key is stored twice, and no two answers under one key have different digests. -/
  keys : (r.state.proposals.rows.map (·.idempotencyKey)).Nodup
  one_digest : ∀ {raw raw' parent parent' key now now' fault fault' receipt receipt'},
    (Call.apply raw parent key now fault, some (.ok receipt)) ∈ r.log →
    (Call.apply raw' parent' key now' fault', some (.ok receipt')) ∈ r.log →
    receipt.digest = receipt'.digest
  /-- The accepted bytes under their key get the original receipt, and nothing is written. -/
  replay : ∀ a ∈ accepted r.log, ∀ parent now,
    exec (.apply a.raw parent a.key now none) r.state =
      (some (.ok { a.receipt with replayed := true }), r.state)
  /-- A call that fails leaves every table unchanged. -/
  unchanged : ∀ call e, (exec call r.state).1 = some (.error e) → (exec call r.state).2 = r.state
  /-- The intent of a task has the dependencies of the last accepted contract that names it. -/
  intents : ∀ t, (r.state.intents.find t).map (·.dependencies) =
    (lastContract (accepted r.log) t).map (·.dependencies)
  /-- Right after an acceptance the queue under the intents has no cycle. -/
  acyclic : ∀ call a, acceptance (call, (exec call r.state).1) = some a →
    Acyclic (exec call r.state).2.PlannedEdge

/-- A call that fails is rolled back. -/
theorem exec_error {call : Call} {e : StoreError} (h : (exec call db).1 = some (.error e)) :
    (exec call db).2 = db := by
  cases call with
  | elsewhere change => cases h
  | apply raw expectedParent key now fault =>
    simp only [exec, Option.some.injEq] at h
    exact Tx.commit_error h

/-- A call that accepted a new proposal left the queue without a cycle under the intents. -/
theorem acyclic_of_acceptance (h : Chained db) {call : Call} {a : Acceptance}
    (ha : acceptance (call, (exec call db).1) = some a) : Acyclic (exec call db).2.PlannedEdge := by
  cases call with
  | elsewhere change => cases ha
  | apply raw expectedParent key now fault =>
    obtain ⟨receipt, db', hbody, hcommit⟩ | ⟨e, -, hcommit⟩ :=
      Tx.commit_eq (applyPlanProposal raw expectedParent key now fault) db
    · simp only [exec, hcommit] at ha ⊢
      obtain ⟨-, ⟨p, -, -, rfl, rfl⟩ | ⟨-, row, hext, rfl⟩⟩ := applyPlanProposal_ok hbody
      · cases ha
      · exact h.acyclic hext
    · simp only [exec, hcommit] at ha
      cases ha

/-- **Plan revisions form one chain and the intents are its fold**, after every interleaving of
proposals with arbitrary bytes, expected parents and keys. -/
theorem plan_revisions_form_one_chain (path incarnation : String) (calls : List Call) :
    OneChain (Run.calls exec (.start (.created path incarnation)) calls) := by
  have h := (recorded_start path incarnation).calls calls
  refine ⟨h.chained.revisions, ?_, h.chained.keys, ?_, ?_, ?_, ?_, ?_⟩
  · intro parent
    refine countP_le_one_of_nodup ?_ parent
    rw [h.accepted, List.map_map]
    exact h.chained.parents_nodup
  · intro _ _ _ _ _ _ _ _ _ _ _ hmem hmem'
    obtain ⟨p, hp, hkey, hdigest⟩ := h.answers hmem
    obtain ⟨p', hp', hkey', hdigest'⟩ := h.answers hmem'
    have hsame : p = p' := List.inj_on_of_nodup_map h.chained.keys hp hp' (hkey.trans hkey'.symm)
    rw [← hdigest, ← hdigest', hsame]
  · exact fun a ha => h.replayed ha
  · exact fun call e => exec_error
  · exact h.dependencies
  · exact fun call a => acyclic_of_acceptance h.chained

end Herdr.Plans
