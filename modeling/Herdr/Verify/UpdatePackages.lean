import Herdr.Verify.Retirement

/-!
# Update packages and their receipts

Packages, receipts and acceptance events are only ever added. What ties them together is one
invariant: a package is the digest of changes that are still described by the same rows, an
acceptance event has a receipt for each change of its package, and an applied receipt came after a
seen one. Every check that a repeated call makes is then a check of a row against itself.
-/

namespace Herdr.Updates

variable {db db' : Routing}

/-! ## Members -/

/-- The rows that describe changes. -/
theorem memberOf_changeId {change : String} {m : Member} (h : db.memberOf change = some m) :
    m.changeId = change := by
  unfold Routing.memberOf at h
  obtain ⟨d, hd, hm⟩ := Option.bind_eq_some_iff.mp h
  unfold Routing.member at hm
  obtain ⟨v, -, rfl⟩ := Option.map_eq_some_iff.mp hm
  have hkey : d.id = change := Table.find_key hd
  exact hkey

theorem map_changeId {changes : List String} {members : List Member}
    (h : changes.map db.memberOf = members.map some) : members.map (·.changeId) = changes := by
  induction changes generalizing members with
  | nil =>
    cases members with
    | nil => rfl
    | cons m members => cases h
  | cons c changes ih =>
    cases members with
    | nil => cases h
    | cons m members =>
      simp only [List.map_cons, List.cons.injEq] at h ⊢
      exact ⟨memberOf_changeId h.1, ih h.2⟩

/-- A change is described by the same row for good. -/
theorem memberOf_of_extends (hi : db.intents.Extends db'.intents)
    (hr : db.revisions.Extends db'.revisions) {change : String} {m : Member}
    (h : db.memberOf change = some m) : db'.memberOf change = some m := by
  unfold Routing.memberOf at h ⊢
  obtain ⟨d, hd, hm⟩ := Option.bind_eq_some_iff.mp h
  rw [hi.find hd, Option.bind_some]
  unfold Routing.member at hm ⊢
  obtain ⟨v, hv, rfl⟩ := Option.map_eq_some_iff.mp hm
  rw [hr.find hv]
  rfl

theorem map_memberOf_of_extends (hi : db.intents.Extends db'.intents)
    (hr : db.revisions.Extends db'.revisions) {changes : List String} {members : List Member}
    (h : changes.map db.memberOf = members.map some) :
    changes.map db'.memberOf = members.map some := by
  induction changes generalizing members with
  | nil => exact h
  | cons c changes ih =>
    cases members with
    | nil => cases h
    | cons m members =>
      simp only [List.map_cons, List.cons.injEq] at h ⊢
      exact ⟨memberOf_of_extends hi hr h.1, ih h.2⟩

/-- The join of changes that all have their row. -/
theorem filterMap_memberOf {changes : List String}
    (h : changes.length = (changes.filterMap db.memberOf).length) :
    changes.map db.memberOf = (changes.filterMap db.memberOf).map some := by
  induction changes with
  | nil => rfl
  | cons c changes ih =>
    cases hc : db.memberOf c with
    | none =>
      rw [List.filterMap_cons_none hc] at h
      have hle := List.length_filterMap_le db.memberOf changes
      simp only [List.length_cons] at h
      omega
    | some m =>
      rw [List.filterMap_cons_some hc] at h ⊢
      simp only [List.length_cons, Nat.add_right_cancel_iff] at h
      rw [List.map_cons, List.map_cons, hc, ih h]

theorem filterMap_of_map {changes : List String} {members : List Member}
    (h : changes.map db.memberOf = members.map some) :
    changes.filterMap db.memberOf = members := by
  induction changes generalizing members with
  | nil =>
    cases members with
    | nil => rfl
    | cons m members => cases h
  | cons c changes ih =>
    cases members with
    | nil => cases h
    | cons m members =>
      simp only [List.map_cons, List.cons.injEq] at h
      rw [List.filterMap_cons_some h.1, ih h.2]

/-- The change is an obligation of the binding that it neither applied nor superseded. -/
def Routing.Unresolved (db : Routing) (binding change : String) : Prop :=
  ⟨binding, change⟩ ∈ db.obligations.rows ∧ db.appliedBy binding change = false ∧
    db.supersededBy binding change = false

theorem selectMember_ok {binding change : String} {m : Member} :
    selectMember binding change db = .ok (m, db) ↔
      db.Unresolved binding change ∧ db.memberOf change = some m := by
  unfold selectMember Routing.Unresolved
  rw [Tx.find_ok]
  have hobl : (db.obligations.find (binding, change)).isSome = true ↔
      ⟨binding, change⟩ ∈ db.obligations.rows := by
    rw [Option.isSome_iff_exists]
    constructor
    · rintro ⟨o, ho⟩
      have hkey := Table.find_key ho
      cases o
      cases hkey
      exact Table.mem_of_find ho
    · intro ho
      exact ⟨_, Table.find_of_mem ho⟩
  rw [← hobl]
  cases (db.obligations.find (binding, change)).isSome <;> cases db.appliedBy binding change <;>
    cases db.supersededBy binding change <;> simp

theorem selectMembers_ok {binding : String} {changes : List String} {members : List Member} :
    selectMembers binding changes db = .ok (members, db) ↔
      (∀ c ∈ changes, db.Unresolved binding c) ∧ changes.map db.memberOf = members.map some := by
  induction changes generalizing members with
  | nil =>
    constructor
    · intro h
      obtain ⟨rfl, -⟩ := Tx.pure_ok.mp h
      simp
    · rintro ⟨-, h⟩
      cases members with
      | nil => rfl
      | cons m members => cases h
  | cons c changes ih =>
    have hreads : Tx.Reads (selectMember binding c) := .find _ _
    rw [selectMembers, hreads.peel]
    simp only [(selectMembers_reads binding changes).peel, Tx.pure_ok]
    constructor
    · rintro ⟨m, hm, rest, hrest, rfl, -⟩
      obtain ⟨hun, hmem⟩ := selectMember_ok.mp hm
      obtain ⟨huns, hmems⟩ := ih.mp hrest
      refine ⟨?_, by rw [List.map_cons, List.map_cons, hmem, hmems]⟩
      intro c' hc'
      rcases List.mem_cons.mp hc' with rfl | hc'
      · exact hun
      · exact huns c' hc'
    · rintro ⟨hun, hmem⟩
      cases members with
      | nil => cases hmem
      | cons m members =>
        simp only [List.map_cons, List.cons.injEq] at hmem
        exact ⟨m, selectMember_ok.mpr ⟨hun c (by simp), hmem.1⟩, members,
          ih.mpr ⟨fun c' hc' => hun c' (List.mem_cons_of_mem c hc'), hmem.2⟩, rfl, trivial⟩

theorem unresolvedMembers_ok {binding : String} {members : List Member} :
    unresolvedMembers binding db = .ok (members, db) ↔
      (db.unresolvedOf binding).length ≤ 10000 ∧
        (db.unresolvedOf binding).map db.memberOf = members.map some := by
  simp only [unresolvedMembers, Tx.ask_bind, Tx.require_bind, Tx.pure_ok]
  constructor
  · rintro ⟨hlen, heq, rfl, -⟩
    refine ⟨?_, filterMap_memberOf heq⟩
    rw [heq]
    simp only [List.length_take] at hlen
    omega
  · rintro ⟨hlen, hmem⟩
    have hlength : (db.unresolvedOf binding).length = members.length := by
      simpa using congrArg List.length hmem
    rw [filterMap_of_map hmem]
    refine ⟨?_, hlength, rfl, trivial⟩
    simp only [List.length_take]
    omega

/-- The changes that a package of a selection is made of. -/
def Routing.Selects (db : Routing) (binding : String) : Option (List String) → List String → Prop
  | none, changes => db.unresolvedOf binding = changes ∧ changes.length ≤ 10000
  | some listed, changes => normalizeChangeIds listed = .ok changes ∧
    ∀ c ∈ changes, db.Unresolved binding c

theorem membersOf_ok {binding : String} {selected : Option (List String)} {members : List Member} :
    membersOf binding selected db = .ok (members, db) ↔
      ∃ changes, db.Selects binding selected changes ∧
        changes.map db.memberOf = members.map some := by
  cases selected with
  | none =>
    rw [membersOf, unresolvedMembers_ok]
    constructor
    · rintro ⟨hlen, hmem⟩
      exact ⟨_, ⟨rfl, hlen⟩, hmem⟩
    · rintro ⟨_, ⟨rfl, hlen⟩, hmem⟩
      exact ⟨hlen, hmem⟩
  | some listed =>
    simp only [membersOf, selectedMembers, Tx.check_bind, selectMembers_ok]
    constructor
    · rintro ⟨changes, hn, hun, hmem⟩
      exact ⟨changes, ⟨hn, hun⟩, hmem⟩
    · rintro ⟨changes, ⟨hn, hun⟩, hmem⟩
      exact ⟨changes, hn, hun, hmem⟩

/-! ## What is only ever added -/

/-- Rows of changes, packages, receipts and events are added, never changed. -/
structure Grows (db db' : Routing) : Prop where
  head : db.head ≤ db'.head
  revisions : db.revisions.Extends db'.revisions
  intents : db.intents.Extends db'.intents
  updateReceipts : db.updateReceipts.Extends db'.updateReceipts
  changeReceipts : db.changeReceipts.Extends db'.changeReceipts
  packages : db.packages.Extends db'.packages
  acks : db.acks <+: db'.acks
  workerAcks : db.workerAcks.Extends db'.workerAcks

namespace Grows

protected theorem refl (db : Routing) : Grows db db :=
  ⟨le_refl _, .refl _, .refl _, .refl _, .refl _, .refl _, List.prefix_rfl, .refl _⟩

protected theorem trans {db'' : Routing} (h : Grows db db') (h' : Grows db' db'') :
    Grows db db'' where
  head := h.head.trans h'.head
  revisions := h.revisions.trans h'.revisions
  intents := h.intents.trans h'.intents
  updateReceipts := h.updateReceipts.trans h'.updateReceipts
  changeReceipts := h.changeReceipts.trans h'.changeReceipts
  packages := h.packages.trans h'.packages
  acks := h.acks.trans h'.acks
  workerAcks := h.workerAcks.trans h'.workerAcks

instance : Std.Refl Grows := ⟨Grows.refl⟩

instance : IsTrans Routing Grows := ⟨fun _ _ _ => Grows.trans⟩

theorem memberOf (h : Grows db db') {change : String} {m : Member}
    (hm : db.memberOf change = some m) : db'.memberOf change = some m :=
  memberOf_of_extends h.intents h.revisions hm

end Grows

/-- Every intent is of a stored revision. -/
def IntentsStored (db : Routing) : Prop :=
  ∀ d ∈ db.intents.rows, ∃ v, db.revisions.find (d.recordId, d.revision) = some v

/-- Generations count from one. -/
def GenerationsPositive (db : Routing) : Prop := ∀ b ∈ db.bindings.rows, b.generation ≠ 0

/-- Packages, their receipts and their events stay as they are. -/
structure Quiet (db db' : Routing) : Prop extends Grows db db' where
  samePackages : db'.packages = db.packages
  sameReceipts : db'.changeReceipts = db.changeReceipts
  sameAcks : db'.acks = db.acks
  stored : IntentsStored db → IntentsStored db'
  positive : GenerationsPositive db → GenerationsPositive db'

namespace Quiet

protected theorem refl (db : Routing) : Quiet db db :=
  ⟨.refl db, rfl, rfl, rfl, fun h => h, fun h => h⟩

protected theorem trans {db'' : Routing} (h : Quiet db db') (h' : Quiet db' db'') :
    Quiet db db'' :=
  ⟨h.toGrows.trans h'.toGrows, h'.samePackages.trans h.samePackages,
    h'.sameReceipts.trans h.sameReceipts, h'.sameAcks.trans h.sameAcks,
    fun hs => h'.stored (h.stored hs),
    fun hp => h'.positive (h.positive hp)⟩

instance : Std.Refl Quiet := ⟨Quiet.refl⟩

instance : IsTrans Routing Quiet := ⟨fun _ _ _ => Quiet.trans⟩

/-- An UPDATE of bindings; their generation is part of their identity. -/
theorem modifyBindings {p : ConsumerBinding → Bool} {f : ConsumerBinding → ConsumerBinding}
    {hf : ∀ b, (f b).bindingId = b.bindingId} (hgen : ∀ b, (f b).generation = b.generation) :
    Quiet db (db.modifyBindings p f hf) := by
  refine ⟨⟨le_refl _, .refl _, .refl _, .refl _, .refl _, .refl _, List.prefix_rfl, .refl _⟩, rfl,
    rfl, rfl, fun h => h, ?_⟩
  intro hp b' hb'
  obtain ⟨b, hb, rfl⟩ := mem_modifyBindings.mp hb'
  rcases selecting_cases (p := p) (f := f) b with he | he
  · rw [he, hgen]
    exact hp b hb
  · rw [he]
    exact hp b hb

theorem reconcile {p : ConsumerBinding → Bool} :
    Quiet db (db.modifyBindings p db.reconciled db.reconciled_bindingId) :=
  modifyBindings fun b => (reconciled_same b).generation

end Quiet

theorem insertEvent_quiet : Tx.Steps Quiet insertEvent := by
  refine .bind (.write ?_) fun _ => .of_reads (.ask _)
  intro s
  exact ⟨⟨Nat.le_succ _, .refl _, .refl _, .refl _, .refl _, .refl _, List.prefix_rfl, .refl _⟩, rfl,
    rfl, rfl, fun h => h, fun h => h⟩

theorem oblige_quiet (binding delivery : String) : Tx.Steps Quiet (oblige binding delivery) := by
  refine .insert ?_
  intro s t hins
  obtain ⟨obligations, -, rfl⟩ := Option.map_eq_some_iff.mp hins
  exact ⟨⟨le_refl _, .refl _, .refl _, .refl _, .refl _, .refl _, List.prefix_rfl, .refl _⟩, rfl,
    rfl, rfl, fun h => h, fun h => h⟩

theorem recordUndeliverable_quiet (binding reason delivery : String) :
    Tx.Steps Quiet (recordUndeliverable binding reason delivery) := by
  refine .insert ?_
  intro s t hins
  obtain ⟨undeliverable, -, rfl⟩ := Option.map_eq_some_iff.mp hins
  exact ⟨⟨le_refl _, .refl _, .refl _, .refl _, .refl _, .refl _, List.prefix_rfl, .refl _⟩, rfl,
    rfl, rfl, fun h => h, fun h => h⟩

theorem retire_quiet (b : ConsumerBinding) (successor : Option String) :
    Tx.Steps Quiet (retire b successor) := by
  refine .bind (.of_reads (.ask _)) fun unresolved => .bind (.of_reads (.require _ _)) fun _ =>
    .bind (.of_reads (.ask _)) fun moveTo => ?_
  cases moveTo with
  | ok next =>
    exact .bind (.forEach (oblige_quiet next) unresolved) fun _ =>
      .write fun _ => .modifyBindings fun _ => rfl
  | error reason =>
    exact .bind (.forEach (recordUndeliverable_quiet _ reason) unresolved) fun _ =>
      .write fun _ => .modifyBindings fun _ => rfl

theorem retireConsumerBinding_quiet (id : String) (successor : Option String) :
    Tx.Steps Quiet (retireConsumerBinding id successor) :=
  .bind (.of_reads (.require _ _)) fun _ => .bind (.of_reads (.require _ _)) fun _ =>
    .bind (.write fun _ => .reconcile) fun _ => .bind (.of_reads (.find _ _)) fun b =>
    .ite (.of_reads (.require _ _)) (retire_quiet b successor)

section Calls

variable [UpdateDigests]

theorem createMemorySnapshot_quiet {consumer : String} {snapshot : MemorySnapshot} {env : Outside}
    {u : Unit} (hx : createMemorySnapshot consumer snapshot env db = .ok (u, db')) :
    Quiet db db' := by
  simp only [createMemorySnapshot, Tx.outside_bind, Tx.ask_bind] at hx
  obtain ⟨-, hx⟩ := hx
  split at hx
  · obtain ⟨-, rfl⟩ := Tx.pure_ok.mp hx
    exact .refl _
  · obtain ⟨db₁, hins, hx⟩ := Tx.insert_bind.mp hx
    obtain ⟨snapshots, -, rfl⟩ := Option.map_eq_some_iff.mp hins
    have hfirst : Quiet db { db with snapshots := snapshots } :=
      ⟨⟨le_refl _, .refl _, .refl _, .refl _, .refl _, .refl _, List.prefix_rfl, .refl _⟩, rfl, rfl,
        rfl, fun h => h, fun h => h⟩
    simp only [ensureForSnapshot, Tx.ask_bind] at hx
    split at hx
    · obtain ⟨-, rfl⟩ := Tx.pure_ok.mp hx
      exact hfirst
    · simp only [Tx.ask_bind, Tx.require_bind, Tx.insert_ok, Option.map_eq_some_iff] at hx
      obtain ⟨-, bindings, hbindings, rfl⟩ := hx
      refine hfirst.trans ⟨⟨le_refl _, .refl _, .refl _, .refl _, .refl _, .refl _, List.prefix_rfl,
        .refl _⟩, rfl, rfl, rfl, fun h => h, ?_⟩
      intro hp b hb
      rcases (Table.mem_insert? hbindings).mp hb with hb | rfl
      · exact hp b hb
      · exact Nat.succ_ne_zero _

theorem deliver_quiet (cause record : String) (revision : Nat) (severity : Severity)
    (sequence : Nat) (env : Outside) (b : ConsumerBinding) :
    Tx.Steps Quiet (deliver cause record revision severity sequence env b) := by
  refine .bind (.of_reads (.find _ _)) fun snapshot => .ite (.bind (.insert ?_) fun _ =>
    oblige_quiet _ _) (.of_reads (.pure _))
  intro s t hins
  split at hins
  · cases hins
  · next hrev =>
    obtain ⟨intents, hintents, rfl⟩ := Option.map_eq_some_iff.mp hins
    refine ⟨⟨le_refl _, .refl _, .insert? hintents, .refl _, .refl _, .refl _, List.prefix_rfl,
      .refl _⟩, rfl, rfl, rfl, ?_, fun h => h⟩
    intro hs d hd
    rcases (Table.mem_insert? hintents).mp hd with hd | rfl
    · exact hs d hd
    · refine Option.ne_none_iff_exists'.mp fun hnone => hrev ?_
      rw [show s.revisions.find (record, revision) = none from hnone]
      rfl

theorem recordChange_quiet (cause record : String) (revision : Nat) (severity : Severity)
    (sequence : Nat) (env : Outside) :
    Tx.Steps Quiet (recordChange cause record revision severity sequence env) :=
  .bind (.write fun _ => .reconcile) fun _ => .bind (.of_reads (.ask _)) fun _ =>
    .bind (.of_reads (.require _ _)) fun _ =>
    .bind (.forEach (deliver_quiet cause record revision severity sequence env) _) fun _ =>
    .of_reads (.outside _)

theorem acknowledgeMemoryUpdate_quiet (ack : MemoryUpdateAck) (now : Int) :
    Tx.Steps Quiet (acknowledgeMemoryUpdate ack now) := by
  refine .bind (.of_reads (.require _ _)) fun _ => .bind (.of_reads (.find _ _)) fun item =>
    .bind (.of_reads (.require _ _)) fun _ => .bind (.of_reads (.ask _)) fun existing => ?_
  cases existing with
  | some receipt => exact .of_reads (.pure _)
  | none =>
    refine .bind (.of_reads (.ask _)) fun _ => .bind (.of_reads (.require _ _)) fun _ =>
      .bind (.of_reads (.ask _)) fun _ => .bind (.of_reads (.require _ _)) fun _ =>
      .bind insertEvent_quiet fun _ => .bind (.insert ?_) fun _ => .of_reads (.pure _)
    intro s t hins
    obtain ⟨receipts, hreceipts, rfl⟩ := Option.map_eq_some_iff.mp hins
    exact ⟨⟨le_refl _, .refl _, .refl _, .insert? hreceipts, .refl _, .refl _, List.prefix_rfl,
      .refl _⟩, rfl, rfl, rfl, fun h => h, fun h => h⟩

theorem supersedeWorkerUpdate_quiet (attempt : AttemptId) (request : SupersessionRequest)
    (now : Int) (env : Outside) :
    Tx.Steps Quiet (supersedeWorkerUpdate attempt request now env) := by
  refine .bind (.of_reads (.require _ _)) fun _ => .bind (.of_reads (.find _ _)) fun _ =>
    .bind (.of_reads (.find _ _)) fun _ => .bind (.of_reads (.find _ _)) fun _ =>
    .bind (.of_reads (.ask _)) fun _ => .bind (.of_reads (.require _ _)) fun _ =>
    .bind (.of_reads (.require _ _)) fun _ => .bind (.of_reads (.find _ _)) fun _ =>
    .bind (.of_reads (.ask _)) fun existing => ?_
  cases existing with
  | some stored => exact .bind (.of_reads (.require _ _)) fun _ => .of_reads (.pure _)
  | none =>
    refine .bind (.of_reads (.require _ _)) fun _ => .bind (.of_reads (.ask _)) fun _ =>
      .bind (.of_reads (.require _ _)) fun _ => .bind (.of_reads (.ask _)) fun _ =>
      .bind (.of_reads (.require _ _)) fun _ => .bind insertEvent_quiet fun _ =>
      .bind (.insert ?_) fun _ => .of_reads (.pure _)
    intro s t hins
    obtain ⟨supersessions, -, rfl⟩ := Option.map_eq_some_iff.mp hins
    exact ⟨⟨le_refl _, .refl _, .refl _, .refl _, .refl _, .refl _, List.prefix_rfl, .refl _⟩, rfl,
      rfl, rfl, fun h => h, fun h => h⟩

omit [UpdateDigests] in
theorem addRevisions_extends (revisions : Table RevisionBody RevisionBody.key)
    (rows : List RevisionBody) : revisions.Extends (addRevisions revisions rows) := by
  unfold addRevisions
  induction rows generalizing revisions with
  | nil => exact .refl _
  | cons row rows ih =>
    refine Table.Extends.trans (?_ : revisions.Extends ((revisions.insert? row).getD revisions))
      (ih _)
    cases h : revisions.insert? row with
    | none => exact .refl _
    | some t => exact .insert? h

omit [UpdateDigests] in
theorem elsewhere_quiet (change : Elsewhere) : Quiet db (change.apply db) := by
  refine ⟨⟨Nat.le_add_right _ _, addRevisions_extends _ _, .refl _, .refl _, .refl _, .refl _,
    List.prefix_rfl, .refl _⟩, rfl, rfl, rfl, ?_, fun h => h⟩
  intro hs d hd
  obtain ⟨v, hv⟩ := hs d hd
  exact ⟨v, (addRevisions_extends _ _).find hv⟩

/-! ## The invariant -/

/-- The package is the digest of its changes as they are described. -/
structure Routing.Holds (db : Routing) (p : UpdatePackage) : Prop where
  binding : ∃ b, db.bindings.find p.bindingId = some b ∧ b.generation = p.consumerBindingGeneration
  length : p.changeIds.length ≤ 10000
  identity : p.packageId =
    UpdateDigests.package p.bindingId p.consumerBindingGeneration p.changeIds
  members : ∃ members, members ≠ [] ∧ p.changeIds.map db.memberOf = members.map some ∧
    p.manifestHash = UpdateDigests.manifest p.bindingId p.consumerBindingGeneration members

/-- An acceptance event names a package and has a receipt for each of its changes. -/
def Routing.Accepts (db : Routing) (e : AckEvent) : Prop :=
  ∃ p ∈ db.packages.rows, e.ack.packageId = p.packageId ∧ e.ack.schemaVersion = 1 ∧
    e.ack.manifestHash = p.manifestHash ∧
    normalizeChangeIds e.ack.changeIds = .ok (p.changeIds.insertionSort (· ≤ ·)) ∧
    ∀ c ∈ p.changeIds, ∃ r, db.changeReceipts.find (p.bindingId, c, e.ack.disposition) = some r

/-- An applied receipt follows a seen one of the same generation. -/
def Routing.Ordered (db : Routing) (r : ChangeReceipt) : Prop :=
  r.disposition = .applied → ∃ s ∈ db.changeReceipts.rows, s.bindingId = r.bindingId ∧
    s.changeId = r.changeId ∧ s.disposition = .seen ∧ s.generation = r.generation ∧
    s.sequence < r.sequence

structure Packed (db : Routing) : Prop where
  stored : IntentsStored db
  positive : GenerationsPositive db
  packages : ∀ p ∈ db.packages.rows, db.Holds p
  receipts : ∀ r ∈ db.changeReceipts.rows, r.sequence ≤ db.head ∧ db.Ordered r ∧
    ∃ b, db.bindings.find r.bindingId = some b ∧ b.generation = r.generation
  accepts : ∀ e ∈ db.acks, db.Accepts e
  once : (db.acks.map fun e => (e.ack.packageId, e.ack.disposition)).Nodup

theorem Routing.Holds.mono {p : UpdatePackage} (h : db.Holds p) (hg : Grows db db')
    (hk : KeepsBindings db db') : db'.Holds p where
  binding := by
    obtain ⟨b, hb, he⟩ := h.binding
    obtain ⟨b', hb', hkept⟩ := hk _ b hb
    exact ⟨b', hb', hkept.generation.trans he⟩
  length := h.length
  identity := h.identity
  members := by
    obtain ⟨members, hne, hm, hh⟩ := h.members
    exact ⟨members, hne, map_memberOf_of_extends hg.intents hg.revisions hm, hh⟩

omit [UpdateDigests] in
theorem Routing.Accepts.mono {e : AckEvent} (h : db.Accepts e) (hg : Grows db db') :
    db'.Accepts e := by
  obtain ⟨p, hp, hid, hv, hh, hn, hr⟩ := h
  refine ⟨p, hg.packages.mem hp, hid, hv, hh, hn, ?_⟩
  intro c hc
  obtain ⟨r, hr⟩ := hr c hc
  exact ⟨r, hg.changeReceipts.find hr⟩

omit [UpdateDigests] in
theorem Routing.Ordered.mono {r : ChangeReceipt} (h : db.Ordered r) (hg : Grows db db') :
    db'.Ordered r := by
  intro ha
  obtain ⟨s, hs, hrest⟩ := h ha
  exact ⟨s, hg.changeReceipts.mem hs, hrest⟩

theorem Packed.quiet (h : Packed db) (hq : Quiet db db') (hk : KeepsBindings db db') :
    Packed db' where
  stored := hq.stored h.stored
  positive := hq.positive h.positive
  packages := by
    intro p hp
    rw [hq.samePackages] at hp
    exact (h.packages p hp).mono hq.toGrows hk
  receipts := by
    intro r hr
    rw [hq.sameReceipts] at hr
    obtain ⟨hs, ho, b, hb, he⟩ := h.receipts r hr
    obtain ⟨b', hb', hkept⟩ := hk _ b hb
    exact ⟨hs.trans hq.head, ho.mono hq.toGrows, b', hb', hkept.generation.trans he⟩
  accepts := by
    intro e he
    rw [hq.sameAcks] at he
    exact (h.accepts e he).mono hq.toGrows
  once := by
    rw [hq.sameAcks]
    exact h.once

/-! ## Materializing -/

/-- The package of the given members. -/
def packageOf (binding : String) (generation : Nat) (changes : List String)
    (members : List Member) : UpdatePackage :=
  ⟨UpdateDigests.package binding generation changes, binding, generation,
    UpdateDigests.manifest binding generation members, changes⟩

omit [UpdateDigests] in
theorem loadBinding_ok {id : String} {b : ConsumerBinding} :
    loadBinding id db = .ok (b, db) ↔ db.bindings.find id = some b ∧ b.generation ≠ 0 := by
  simp only [loadBinding, Tx.find_bind, Tx.require_bind, Tx.pure_ok]
  constructor
  · rintro ⟨_, hb, hg, rfl, -⟩
    exact ⟨hb, hg⟩
  · rintro ⟨hb, hg⟩
    exact ⟨b, hb, hg, rfl, trivial⟩

omit [UpdateDigests] in
theorem Routing.Selects.length_le {binding : String} {selected : Option (List String)}
    {changes : List String} (h : db.Selects binding selected changes) : changes.length ≤ 10000 := by
  cases selected with
  | none => exact h.2
  | some listed =>
    have hn := h.1
    unfold normalizeChangeIds at hn
    split at hn
    · cases hn
    · next hlen =>
      dsimp only at hn
      split at hn
      · cases hn
      · split at hn
        · cases hn
        · cases hn
          rw [List.length_insertionSort]
          omega

/-- A successful materialization found its package or stored it. -/
theorem materializeUpdatePackage_ok {binding : String} {selected : Option (List String)}
    {p : UpdatePackage} (hx : materializeUpdatePackage binding selected db = .ok (p, db')) :
    hex64 binding = true ∧ ∃ b changes members, db.bindings.find binding = some b ∧
      b.generation ≠ 0 ∧ db.Selects binding selected changes ∧
      changes.map db.memberOf = members.map some ∧ members ≠ [] ∧
      p = packageOf binding b.generation changes members ∧
      ((db.packages.find p.packageId = some p ∧ db' = db) ∨
        ∃ t, db.packages.insert? p = some t ∧ db' = { db with packages := t }) := by
  simp only [materializeUpdatePackage, materializeParts, Tx.require_bind, Tx.ask_bind,
    (loadBinding_reads binding).peel, (membersOf_reads binding selected).peel, loadBinding_ok,
    membersOf_ok] at hx
  obtain ⟨hhex, b, ⟨hb, hgen⟩, members, ⟨changes, hsel, hmem⟩, hne, hx⟩ := hx
  rw [map_changeId hmem] at hx
  refine ⟨hhex, b, changes, members, hb, hgen, hsel, hmem, hne, ?_⟩
  cases hfind : db.packages.find (UpdateDigests.package binding b.generation changes) with
  | some stored =>
    simp only [hfind, Tx.require_bind, Tx.pure_ok] at hx
    obtain ⟨rfl, rfl, rfl⟩ := hx
    exact ⟨rfl, .inl ⟨hfind, rfl⟩⟩
  | none =>
    simp only [hfind, Tx.require_bind, Tx.insert_bind, Tx.pure_ok, Option.map_eq_some_iff] at hx
    obtain ⟨-, db₁, ⟨t, ht, rfl⟩, rfl, rfl⟩ := hx
    exact ⟨rfl, .inr ⟨t, ht, rfl⟩⟩

theorem Packed.materialize (h : Packed db) {binding : String} {selected : Option (List String)}
    {p : UpdatePackage} (hx : materializeUpdatePackage binding selected db = .ok (p, db')) :
    Packed db' := by
  obtain ⟨-, b, changes, members, hb, hgen, hsel, hmem, hne, hp, hcase⟩ :=
    materializeUpdatePackage_ok hx
  obtain ⟨-, rfl⟩ | ⟨t, ht, rfl⟩ := hcase
  · exact h
  · constructor
    · exact h.stored
    · exact h.positive
    · intro q hq
      rcases (Table.mem_insert? ht).mp hq with hq | rfl
      · obtain ⟨hb, hl, hi, hm⟩ := h.packages q hq
        exact ⟨hb, hl, hi, hm⟩
      · rw [hp]
        exact ⟨⟨b, hb, rfl⟩, hsel.length_le, rfl, members, hne, hmem, rfl⟩
    · exact h.receipts
    · intro e he
      obtain ⟨q, hq, hrest⟩ := h.accepts e he
      exact ⟨q, (Table.mem_insert? ht).mpr (.inl hq), hrest⟩
    · exact h.once

omit [UpdateDigests] in
theorem missingReceipts_ok {package : UpdatePackage} {generation : Nat} {disposition : Disposition}
    {changes missing : List String} :
    missingReceipts package generation disposition changes db = .ok (missing, db) ↔
      (∀ c ∈ changes, ∀ r, db.changeReceipts.find (package.bindingId, c, disposition) = some r →
        r.generation = generation) ∧
      missing = changes.filter fun c =>
        (db.changeReceipts.find (package.bindingId, c, disposition)).isNone := by
  induction changes generalizing missing with
  | nil =>
    rw [missingReceipts, Tx.pure_ok]
    simp [eq_comm]
  | cons c changes ih =>
    simp only [missingReceipts, Tx.ask_bind, Tx.require_bind,
      (missingReceipts_reads package generation disposition changes).peel, Tx.pure_ok, ih]
    cases hf : db.changeReceipts.find (package.bindingId, c, disposition) with
    | none =>
      simp only [Option.all_none, Option.isNone_none, if_true, true_and, and_true,
        List.forall_mem_cons, hf, reduceCtorEq, false_implies, implies_true]
      constructor
      · rintro ⟨m, ⟨hall, rfl⟩, rfl⟩
        exact ⟨hall, by simp [hf]⟩
      · rintro ⟨hall, rfl⟩
        exact ⟨_, ⟨hall, rfl⟩, by simp [hf]⟩
    | some r =>
      simp only [hf, Option.all_some, decide_eq_true_eq, Option.isNone_some, Bool.false_eq_true,
        if_false, and_true, List.forall_mem_cons, Option.some.injEq, forall_eq']
      constructor
      · rintro ⟨hg, m, ⟨hall, rfl⟩, rfl⟩
        exact ⟨⟨hg, hall⟩, by simp [hf]⟩
      · rintro ⟨⟨hg, hall⟩, rfl⟩
        exact ⟨hg, _, ⟨hall, rfl⟩, by simp [hf]⟩

/-- The receipt of one change that a first acknowledgement records. -/
def receiptOf (ack : UpdatePackageAck) (package : UpdatePackage) (generation sequence : Nat)
    (change : String) : ChangeReceipt :=
  ⟨package.bindingId, change, ack.disposition, generation, package.packageId, sequence⟩

/-- What a first acknowledgement needs of a change that it applies. -/
def Routing.Applicable (db : Routing) (package : UpdatePackage) (generation : Nat) (now : Int)
    (change : String) : Prop :=
  (∃ d, db.intents.find change = some d ∧ db.eligible d.recordId d.revision now = true) ∧
    ∃ r, db.changeReceipts.find (package.bindingId, change, .seen) = some r ∧
      r.generation = generation

/-- What a first acknowledgement leaves. -/
structure Accepted (ack : UpdatePackageAck) (package : UpdatePackage) (b : ConsumerBinding)
    (missing : List String) (now : Int) (db db' : Routing) : Prop where
  applicable : ack.disposition = .applied →
    ∀ c ∈ package.changeIds, db.Applicable package b.generation now c
  head : db'.head = db.head + 1
  acks : db'.acks = db.acks ++ [⟨db.head + 1, ack⟩]
  receipts : db'.changeReceipts.rows = db.changeReceipts.rows ++
    missing.map (receiptOf ack package b.generation (db.head + 1))
  intents : db'.intents = db.intents
  revisions : db'.revisions = db.revisions
  packages : db'.packages = db.packages
  updateReceipts : db'.updateReceipts = db.updateReceipts
  workerAcks : db'.workerAcks = db.workerAcks
  positive : GenerationsPositive db → GenerationsPositive db'

omit [UpdateDigests] in
theorem checkApplied_ok {package : UpdatePackage} {generation : Nat} {now : Int} {change : String}
    {u : Unit} (hx : checkApplied package generation now change db = .ok (u, db)) :
    db.Applicable package generation now change := by
  simp only [checkApplied, Tx.ask_bind, Tx.require_bind, Tx.require_ok] at hx
  obtain ⟨he, hs, -⟩ := hx
  constructor
  · cases hd : db.intents.find change with
    | none =>
      rw [hd] at he
      cases he
    | some d =>
      rw [hd] at he
      exact ⟨d, rfl, he⟩
  · cases hr : db.changeReceipts.find (package.bindingId, change, .seen) with
    | none =>
      rw [hr] at hs
      cases hs
    | some r =>
      rw [hr] at hs
      exact ⟨r, rfl, by simpa using hs⟩

omit [UpdateDigests] in
theorem accept_ok {ack : UpdatePackageAck} {package : UpdatePackage} {b : ConsumerBinding}
    {missing : List String} {now : Int} {receipt : PackageAckReceipt}
    (hx : accept ack package b missing now db = .ok (receipt, db')) :
    receipt = ⟨package.packageId, ack.disposition, package.changeIds, db.head + 1⟩ ∧
      Accepted ack package b missing now db db' := by
  simp only [accept, (checkChanges_reads ack package b.generation now).peel] at hx
  obtain ⟨_, hcheck, hx⟩ := hx
  have happlicable : ack.disposition = .applied →
      ∀ c ∈ package.changeIds, db.Applicable package b.generation now c := by
    intro ha c hc
    unfold checkChanges at hcheck
    rw [if_pos ha] at hcheck
    exact checkApplied_ok (Tx.Reads.forEach_mem (checkApplied_reads package b.generation now)
      hcheck hc)
  simp only [insertEvent, Tx.write_bind, Tx.ask_bind, bind_assoc] at hx
  obtain ⟨_, db₁, hloop, hx⟩ := Tx.bind_ok.mp hx
  obtain ⟨_, db₂, hcursor, hx⟩ := Tx.bind_ok.mp hx
  obtain ⟨rfl, rfl⟩ := Tx.pure_ok.mp hx
  obtain ⟨t, ht, rfl⟩ := changeReceiptRows.forEach_insert_ok hloop
  refine ⟨rfl, ?_⟩
  unfold advanceCursor at hcursor
  split at hcursor
  · rw [moveCursor, Tx.write_ok] at hcursor
    subst hcursor
    refine ⟨happlicable, rfl, rfl, ht, rfl, rfl, rfl, rfl, rfl, fun hp => ?_⟩
    exact (Quiet.modifyBindings fun b => by rfl).positive hp
  · obtain ⟨-, rfl⟩ := Tx.pure_ok.mp hcursor
    exact ⟨happlicable, rfl, rfl, ht, rfl, rfl, rfl, rfl, rfl, fun h => h⟩

/-- The acceptance events of a package. -/
def Routing.eventsOf (db : Routing) (package : UpdatePackage) : List AckEvent :=
  db.acks.filter fun e => e.ack.packageId = package.packageId

/-- The changes of a package without a receipt of the disposition. -/
def Routing.missingOf (db : Routing) (package : UpdatePackage) (disposition : Disposition) :
    List String :=
  package.changeIds.filter fun c =>
    (db.changeReceipts.find (package.bindingId, c, disposition)).isNone

/-- What an acknowledgement is checked against. -/
structure Acknowledges (ack : UpdatePackageAck) (db : Routing) (package : UpdatePackage)
    (b : ConsumerBinding) : Prop where
  version : ack.schemaVersion = 1
  form : hex64 ack.packageId = true ∧ hex64 ack.manifestHash = true
  found : db.packages.find ack.packageId = some package
  manifest : ack.manifestHash = package.manifestHash
  listed : normalizeChangeIds ack.changeIds = .ok (package.changeIds.insertionSort (· ≤ ·))
  binding : db.bindings.find package.bindingId = some b ∧ b.generation ≠ 0
  generation : b.generation = package.consumerBindingGeneration

omit [UpdateDigests] in
theorem Acknowledges.packageId {ack : UpdatePackageAck} {package : UpdatePackage}
    {b : ConsumerBinding} (h : Acknowledges ack db package b) : package.packageId = ack.packageId :=
  Table.find_key h.found

omit [UpdateDigests] in
/-- A successful acknowledgement repeats an event or accepts the package. -/
theorem acknowledge_ok {ack : UpdatePackageAck} {now : Int} {receipt : PackageAckReceipt}
    (hx : acknowledge ack now db = .ok (receipt, db')) :
    ∃ package b, Acknowledges ack db package b ∧
      ((∃ e ∈ db.eventsOf package, e.ack.disposition = ack.disposition ∧ db' = db ∧
        receipt = ⟨package.packageId, ack.disposition, package.changeIds, e.sequence⟩) ∨
      ((∀ e ∈ db.eventsOf package, e.ack.disposition ≠ ack.disposition) ∧
        receipt = ⟨package.packageId, ack.disposition, package.changeIds, db.head + 1⟩ ∧
        Accepted ack package b (db.missingOf package ack.disposition) now db db')) := by
  simp only [acknowledge, Tx.require_bind, Tx.check_bind, Tx.find_bind, Tx.ask_bind,
    (loadBinding_reads _).peel, (checkEvents_reads _ _ _ _).peel,
    (missingReceipts_reads _ _ _ _).peel, loadBinding_ok, missingReceipts_ok] at hx
  obtain ⟨hv, hform, listed, hlisted, package, hfound, hmanifest, rfl, b, hb, hgen, hlen, _, hcheck,
    missing, ⟨-, rfl⟩, hx⟩ := hx
  have hall : (db.acks.filter fun e => e.ack.packageId = package.packageId).take 3 =
      db.eventsOf package := by
    rw [List.take_of_length_le]
    · rfl
    · rw [List.length_take] at hlen
      omega
  rw [hall] at hx
  refine ⟨package, b, ⟨hv, hform, hfound, hmanifest, hlisted, hb, hgen⟩, ?_⟩
  cases hfind : (db.eventsOf package).find? fun e => e.ack.disposition = ack.disposition with
  | some event =>
    simp only [hfind, Tx.require_bind, Tx.pure_ok] at hx
    obtain ⟨-, rfl, rfl⟩ := hx
    exact .inl ⟨event, List.mem_of_find?_eq_some hfind, by simpa using List.find?_some hfind, rfl, rfl⟩
  | none =>
    simp only [hfind] at hx
    obtain ⟨rfl, hacc⟩ := accept_ok hx
    refine .inr ⟨?_, rfl, hacc⟩
    intro e he
    simpa using List.find?_eq_none.mp hfind e he

omit [UpdateDigests] in
theorem Accepted.grows {ack : UpdatePackageAck} {package : UpdatePackage} {b : ConsumerBinding}
    {missing : List String} {now : Int} (h : Accepted ack package b missing now db db') :
    Grows db db' where
  head := by
    rw [h.head]
    omega
  revisions := h.revisions ▸ .refl _
  intents := h.intents ▸ .refl _
  updateReceipts := h.updateReceipts ▸ .refl _
  changeReceipts := ⟨_, h.receipts⟩
  packages := h.packages ▸ .refl _
  acks := ⟨_, h.acks.symm⟩
  workerAcks := h.workerAcks ▸ .refl _

/-- A first acknowledgement adds one event and the receipts that it lacks. -/
theorem Packed.accepted (h : Packed db) {ack : UpdatePackageAck} {package : UpdatePackage}
    {b : ConsumerBinding} {now : Int} (hk : KeepsBindings db db')
    (hack : Acknowledges ack db package b)
    (hfirst : ∀ e ∈ db.eventsOf package, e.ack.disposition ≠ ack.disposition)
    (hacc : Accepted ack package b (db.missingOf package ack.disposition) now db db') :
    Packed db' := by
  have hgrows := hacc.grows
  have hstored : IntentsStored db' := by
    intro d hd
    rw [hacc.intents] at hd
    obtain ⟨v, hv⟩ := h.stored d hd
    exact ⟨v, hgrows.revisions.find hv⟩
  -- every change of the package has its receipt now
  have hreceipt : ∀ c ∈ package.changeIds, ∃ r,
      db'.changeReceipts.find (package.bindingId, c, ack.disposition) = some r := by
    intro c hc
    cases hf : db.changeReceipts.find (package.bindingId, c, ack.disposition) with
    | some r => exact ⟨r, hgrows.changeReceipts.find hf⟩
    | none =>
      have hmem : receiptOf ack package b.generation (db.head + 1) c ∈ db'.changeReceipts.rows := by
        rw [hacc.receipts]
        apply List.mem_append_right
        apply List.mem_map_of_mem
        exact List.mem_filter.mpr ⟨hc, by rw [hf]; rfl⟩
      exact ⟨_, Table.find_of_mem hmem⟩
  constructor
  · exact hstored
  · exact hacc.positive h.positive
  · intro p hp
    rw [hacc.packages] at hp
    exact (h.packages p hp).mono hgrows hk
  · intro r hr
    rw [hacc.receipts] at hr
    rcases List.mem_append.mp hr with hr | hr
    · obtain ⟨hs, ho, b', hb', he⟩ := h.receipts r hr
      obtain ⟨b'', hb'', hkept⟩ := hk _ b' hb'
      exact ⟨hs.trans hgrows.head, ho.mono hgrows, b'', hb'', hkept.generation.trans he⟩
    · obtain ⟨c, hc, rfl⟩ := List.mem_map.mp hr
      obtain ⟨b', hb', hkept⟩ := hk _ b hack.binding.1
      refine ⟨by rw [hacc.head]; exact le_refl _, ?_, b', hb', hkept.generation⟩
      intro happlied
      obtain ⟨-, s, hs, hsgen⟩ := hacc.applicable happlied c (List.mem_filter.mp hc).1
      have hmem := Table.mem_of_find hs
      have hseq := (h.receipts s hmem).1
      have hkey : s.key = (package.bindingId, c, .seen) := Table.find_key hs
      simp only [ChangeReceipt.key, Prod.mk.injEq] at hkey
      exact ⟨s, hgrows.changeReceipts.mem hmem, hkey.1, hkey.2.1, hkey.2.2, hsgen,
        Nat.lt_succ_of_le hseq⟩
  · intro e he
    rw [hacc.acks] at he
    rcases List.mem_append.mp he with he | he
    · exact (h.accepts e he).mono hgrows
    · obtain rfl := List.mem_singleton.mp he
      exact ⟨package, hgrows.packages.mem (Table.mem_of_find hack.found), hack.packageId.symm,
        hack.version, hack.manifest, hack.listed, hreceipt⟩
  · rw [hacc.acks, List.map_append, List.nodup_append]
    refine ⟨h.once, by simp, ?_⟩
    intro k hk' k' hk'' heq
    obtain ⟨e, he, rfl⟩ := List.mem_map.mp hk'
    simp only [List.map_cons, List.map_nil, List.mem_singleton] at hk''
    rw [hk'', Prod.mk.injEq] at heq
    exact hfirst e (List.mem_filter.mpr ⟨he, by simp [heq.1, hack.packageId]⟩) heq.2

theorem Packed.acknowledge (h : Packed db) {ack : UpdatePackageAck} {now : Int}
    {receipt : PackageAckReceipt} (hx : Updates.acknowledge ack now db = .ok (receipt, db')) :
    Packed db' := by
  have hk := ((acknowledge_frame ack now).step hx).keepsBindings
  obtain ⟨package, b, hack, ⟨e, -, -, rfl, -⟩ | ⟨hfirst, -, hacc⟩⟩ := acknowledge_ok hx
  · exact h
  · exact h.accepted hk hack hfirst hacc

/-- The worker's acknowledgement: the package first, then the evidence. -/
theorem acknowledgeWorkerUpdatePackage_ok {attempt : AttemptId} {ack : UpdatePackageAck} {now : Int}
    {env : Outside} {w : WorkerPackageAckReceipt}
    (hx : acknowledgeWorkerUpdatePackage attempt ack now env db = .ok (w, db')) :
    ∃ db₁, acknowledge ack now db = .ok (w.receipt, db₁) ∧ Quiet db₁ db' ∧
      db'.bindings = db₁.bindings ∧ (∃ row, db'.workerAcks.find (ack.packageId, attempt, ack.disposition) = some row ∧
        row.evidenceSequence = w.evidenceSequence) ∧
      ∀ row, db₁.workerAcks.find (ack.packageId, attempt, ack.disposition) = some row →
        row.evidenceSequence = w.evidenceSequence ∧ db' = db₁ := by
  simp only [acknowledgeWorkerUpdatePackage, (workerMembers_reads attempt ack).peel] at hx
  obtain ⟨receipts, -, hx⟩ := hx
  obtain ⟨receipt, db₁, hack, hx⟩ := Tx.bind_ok.mp hx
  rw [Tx.ask_bind] at hx
  cases hfind : db₁.workerAcks.find (ack.packageId, attempt, ack.disposition) with
  | some stored =>
    simp only [hfind, Tx.require_bind, Tx.pure_ok] at hx
    obtain ⟨-, rfl, rfl⟩ := hx
    refine ⟨db₁, hack, .refl _, rfl, ⟨stored, hfind, rfl⟩, ?_⟩
    intro row hrow
    rw [hfind] at hrow
    cases hrow
    exact ⟨rfl, rfl⟩
  | none =>
    simp only [hfind, Tx.outside_bind, insertEvent, bind_assoc, Tx.write_bind, Tx.ask_bind,
      Tx.insert_bind, Tx.pure_ok, Option.map_eq_some_iff] at hx
    obtain ⟨-, db₂, ⟨t, ht, rfl⟩, rfl, rfl⟩ := hx
    refine ⟨db₁, hack, ⟨⟨Nat.le_succ _, .refl _, .refl _, .refl _, .refl _, .refl _,
      List.prefix_rfl, .insert? ht⟩, rfl, rfl, rfl, fun h => h, fun h => h⟩, rfl,
      ⟨⟨ack.packageId, attempt, ack.disposition, receipt.sequence, db₁.head + 1, receipts⟩, ?_, rfl⟩,
      ?_⟩
    · exact (Table.find_insert? ht).trans (if_pos rfl)
    · intro row hrow
      rw [hfind] at hrow
      cases hrow

/-! ## Every call -/

/-- What a successful call was, as far as packages are concerned. -/
theorem quiet_of_body {call : Call} {answer : Answer} (hx : call.body db = .ok (answer, db')) :
    Quiet db db' ∨
      (∃ binding selected p, call = .materialize binding selected ∧ answer = .package p ∧
        materializeUpdatePackage binding selected db = .ok (p, db')) ∨
      (∃ ack now receipt, call = .acknowledge ack now ∧ answer = .receipt receipt ∧
        acknowledge ack now db = .ok (receipt, db')) ∨
      ∃ attempt ack now env w, call = .acknowledgeWorker attempt ack now env ∧
        answer = .worker w ∧ acknowledgeWorkerUpdatePackage attempt ack now env db = .ok (w, db') := by
  cases call with
  | createMemorySnapshot consumer snapshot env =>
    obtain ⟨_, hx, -⟩ := Tx.map_ok.mp hx
    exact .inl (createMemorySnapshot_quiet hx)
  | recordChange cause record revision severity sequence env =>
    obtain ⟨_, hx, -⟩ := Tx.map_ok.mp hx
    exact .inl ((recordChange_quiet cause record revision severity sequence env).step hx)
  | reconcile task =>
    obtain ⟨_, hx, -⟩ := Tx.map_ok.mp hx
    rw [← Tx.write_ok.mp hx]
    exact .inl .reconcile
  | acknowledgeMemoryUpdate ack now =>
    obtain ⟨_, hx, -⟩ := Tx.map_ok.mp hx
    exact .inl ((acknowledgeMemoryUpdate_quiet ack now).step hx)
  | materialize binding selected =>
    obtain ⟨p, hbody, rfl⟩ := Tx.map_ok.mp hx
    exact .inr (.inl ⟨binding, selected, p, rfl, rfl, hbody⟩)
  | acknowledge ack now =>
    obtain ⟨receipt, hbody, rfl⟩ := Tx.map_ok.mp hx
    exact .inr (.inr (.inl ⟨ack, now, receipt, rfl, rfl, hbody⟩))
  | acknowledgeWorker attempt ack now env =>
    obtain ⟨w, hbody, rfl⟩ := Tx.map_ok.mp hx
    exact .inr (.inr (.inr ⟨attempt, ack, now, env, w, rfl, rfl, hbody⟩))
  | supersede attempt request now env =>
    obtain ⟨_, hx, -⟩ := Tx.map_ok.mp hx
    exact .inl ((supersedeWorkerUpdate_quiet attempt request now env).step hx)
  | retire binding successor =>
    obtain ⟨_, hx, -⟩ := Tx.map_ok.mp hx
    exact .inl ((retireConsumerBinding_quiet binding successor).step hx)
  | elsewhere change =>
    simp only [Call.body, Tx.write_bind, Tx.pure_ok] at hx
    obtain ⟨-, rfl⟩ := hx
    exact .inl (elsewhere_quiet change)

theorem Packed.exec (h : Packed db) (call : Call) : Packed (Updates.exec call db).2 := by
  have hk := exec_keepsBindings call db
  obtain ⟨answer, db', hx, hc⟩ | ⟨e, hx, hc⟩ := Tx.commit_eq call.body db
  · rw [Updates.exec, hc] at hk ⊢
    obtain hq | ⟨_, _, _, -, -, hx⟩ | ⟨_, _, _, -, -, hx⟩ | ⟨_, _, _, _, _, -, -, hx⟩ :=
      quiet_of_body hx
    · exact h.quiet hq hk
    · exact h.materialize hx
    · exact h.acknowledge hx
    · obtain ⟨db₁, hack, hq, hb, -⟩ := acknowledgeWorkerUpdatePackage_ok hx
      refine (h.acknowledge hack).quiet hq ?_
      intro k b hkb
      rw [hb]
      exact KeepsBindings.refl db₁ k b hkb
  · rw [Updates.exec, hc]
    exact h

theorem Packed.created : Packed Routing.created := by
  constructor
  · intro d hd
    cases hd
  · intro b hb
    cases hb
  · intro p hp
    cases hp
  · intro r hr
    cases hr
  · intro e he
    cases he
  · exact List.nodup_nil

theorem Packed.calls (cs : List Call) : Packed (reached cs) :=
  Run.invariant (I := fun r => Packed r.state) Packed.created fun _ c _ h => h.exec c

/-! ## Repeated acknowledgements -/

/-- The event is one of the package. -/
structure Matches (package : UpdatePackage) (e : AckEvent) : Prop where
  version : e.ack.schemaVersion = 1
  packageId : e.ack.packageId = package.packageId
  manifest : e.ack.manifestHash = package.manifestHash
  listed : normalizeChangeIds e.ack.changeIds = .ok (package.changeIds.insertionSort (· ≤ ·))

omit [UpdateDigests] in
theorem Acknowledges.mono {ack : UpdatePackageAck} {package : UpdatePackage} {b : ConsumerBinding}
    (h : Acknowledges ack db package b) (hg : Grows db db') (hk : KeepsBindings db db') :
    ∃ b', Acknowledges ack db' package b' := by
  obtain ⟨b', hb', hkept⟩ := hk _ b h.binding.1
  exact ⟨b', h.version, h.form, hg.packages.find h.found, h.manifest, h.listed,
    ⟨hb', hkept.generation ▸ h.binding.2⟩, hkept.generation.trans h.generation⟩

/-- The clock of an acknowledgement. -/
def Call.clock : Call → Option Int
  | .acknowledge _ now => some now
  | .acknowledgeWorker _ _ now _ => some now
  | _ => none

/-- The state that further calls reach. -/
def after (db : Routing) (later : List Call) : Routing :=
  ((Run.start db).calls Updates.exec later).state

theorem reached_append (cs later : List Call) : reached (cs ++ later) = after (reached cs) later := by
  unfold reached after
  rw [Run.calls_append]
  exact Run.state_calls_congr rfl

theorem Packed.after (h : Packed db) (later : List Call) : Packed (Updates.after db later) :=
  Run.invariant (I := fun r => Packed r.state) h fun _ c _ h => h.exec c

end Calls

namespace Resurrection

end Resurrection

end Herdr.Updates
