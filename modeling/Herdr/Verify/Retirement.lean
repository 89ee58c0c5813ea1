import Mathlib.Data.List.Dedup
import Herdr.Lib.Run
import Herdr.Lib.Steps
import Herdr.Store.Updates

/-!
# Obligations and the retirement of bindings

A change is held by a chain of bindings: every holder but the last has retired, and the last one is
still open, or retired with the change recorded as undeliverable, or a worker applied the change.
The chain is kept by every call, so nothing is lost or doubled. What retirement hands on is decided
by worker receipts alone: it forgets package receipts and supersessions.
-/

namespace Herdr.Updates

variable {db db' : Routing}

/-! ## The chain of holders -/

/-- The bindings that were ever given a change, oldest first. -/
def Routing.holders (db : Routing) (delivery : String) : List String :=
  (db.obligations.rows.filter fun o => o.deliveryId = delivery).map (·.bindingId)

/-- The binding is stored and its `retired` column is `value`. -/
def Routing.Marked (db : Routing) (value : Bool) (binding : String) : Prop :=
  ∃ b, db.bindings.find binding = some b ∧ b.retired = value

abbrev Routing.isRetired (db : Routing) (binding : String) : Prop := db.Marked true binding

abbrev Routing.isOpen (db : Routing) (binding : String) : Prop := db.Marked false binding

/-- Every holder but the last retired, and the last one did not lose the change. -/
def Routing.Held (db : Routing) (delivery : String) : Prop :=
  ∃ earlier last, db.holders delivery = earlier ++ [last] ∧ (∀ a ∈ earlier, db.isRetired a) ∧
    (db.isOpen last ∨ (db.isRetired last ∧
      ((∃ u ∈ db.undeliverable.rows, u.key = (last, delivery)) ∨ db.workerApplied delivery = true)))

structure Routed (db : Routing) : Prop where
  held : ∀ d ∈ db.intents.rows, db.Held d.id
  /-- A change is an obligation of the binding of its snapshot. -/
  own : ∀ d ∈ db.intents.rows, ∀ b ∈ db.bindings.rows, b.snapshotId = d.snapshotId →
    b.bindingId ∈ db.holders d.id
  snapshot_unique : ∀ a ∈ db.bindings.rows, ∀ b ∈ db.bindings.rows, a.snapshotId = b.snapshotId → a = b
  obligation_intent : ∀ o ∈ db.obligations.rows, ∃ d ∈ db.intents.rows, d.id = o.deliveryId
  intent_snapshot : ∀ d ∈ db.intents.rows, ∃ s, db.snapshots.find d.snapshotId = some s
  active_open : ∀ b ∈ db.bindings.rows, b.active = true → b.retired = false
  open_successor : ∀ b ∈ db.bindings.rows, b.retired = false → b.successorBindingId = none
  undeliverable_retired : ∀ u ∈ db.undeliverable.rows, db.isRetired u.bindingId

theorem mem_holders {delivery binding : String} :
    binding ∈ db.holders delivery ↔ ⟨binding, delivery⟩ ∈ db.obligations.rows := by
  unfold Routing.holders
  simp only [List.mem_map, List.mem_filter, decide_eq_true_eq]
  constructor
  · rintro ⟨o, ⟨ho, rfl⟩, rfl⟩
    exact ho
  · intro ho
    exact ⟨_, ⟨ho, rfl⟩, rfl⟩

theorem not_isRetired_of_isOpen {binding : String} (h : db.isOpen binding) :
    ¬db.isRetired binding := by
  rintro ⟨b, hb, hr⟩
  obtain ⟨b', hb', hr'⟩ := h
  rw [hb] at hb'
  cases hb'
  rw [hr] at hr'
  cases hr'

theorem marked_congr (h : db'.bindings = db.bindings) {value : Bool} {binding : String} :
    db'.Marked value binding ↔ db.Marked value binding := by
  unfold Routing.Marked
  rw [h]

/-- A worker's receipt stays. -/
theorem workerApplied_of_extends {delivery : String}
    (h : db.updateReceipts.Extends db'.updateReceipts) (hw : db.workerApplied delivery = true) :
    db'.workerApplied delivery = true := by
  unfold Routing.workerApplied at hw ⊢
  rw [List.any_eq_true] at hw ⊢
  obtain ⟨r, hr, hp⟩ := hw
  exact ⟨r, h.mem hr, hp⟩

/-- An open holder is the last one. -/
theorem Routing.Held.eq_last {delivery binding : String} {earlier : List String} {last : String}
    (hh : db.holders delivery = earlier ++ [last]) (he : ∀ a ∈ earlier, db.isRetired a)
    (hb : binding ∈ db.holders delivery) (ho : db.isOpen binding) : binding = last := by
  rw [hh] at hb
  rcases List.mem_append.mp hb with hb | hb
  · exact absurd (he binding hb) (not_isRetired_of_isOpen ho)
  · simpa using hb

/-! ## Growth of the chains -/

theorem holders_append {more : List Obligation}
    (h : db'.obligations.rows = db.obligations.rows ++ more) (delivery : String) :
    db'.holders delivery = db.holders delivery ++
      (more.filter fun o => o.deliveryId = delivery).map (·.bindingId) := by
  unfold Routing.holders
  rw [h, List.filter_append, List.map_append]

/-- A list of distinct changes handed to one binding gives that binding to each of them. -/
theorem handed_filter {changes : List String} (hnodup : changes.Nodup) (binding delivery : String) :
    ((changes.map fun d => (⟨binding, d⟩ : Obligation)).filter fun o => o.deliveryId = delivery).map
      (·.bindingId) = if delivery ∈ changes then [binding] else [] := by
  induction changes with
  | nil => rfl
  | cons d rest ih =>
    obtain ⟨hd, hrest⟩ := List.nodup_cons.mp hnodup
    rw [List.map_cons]
    by_cases he : d = delivery
    · subst he
      rw [List.filter_cons_of_pos (by simp), List.map_cons, ih hrest, if_neg hd, if_pos (by simp)]
    · rw [List.filter_cons_of_neg (by simpa using he), ih hrest]
      by_cases hm : delivery ∈ rest
      · rw [if_pos hm, if_pos (List.mem_cons_of_mem d hm)]
      · rw [if_neg hm, if_neg (by simp [hm, Ne.symm he])]

/-- A chain that no new holder joined. -/
theorem Routing.Held.keep {delivery : String} (h : db.Held delivery)
    (hh : db'.holders delivery = db.holders delivery)
    (hr : ∀ a, db.isRetired a → db'.isRetired a)
    (hlast : ∀ a ∈ db.holders delivery, db.isOpen a → db'.isOpen a ∨ (db'.isRetired a ∧
      ((∃ u ∈ db'.undeliverable.rows, u.key = (a, delivery)) ∨ db'.workerApplied delivery = true)))
    (hu : db.undeliverable.Extends db'.undeliverable)
    (hw : db.updateReceipts.Extends db'.updateReceipts) : db'.Held delivery := by
  obtain ⟨earlier, last, hchain, he, hl⟩ := h
  refine ⟨earlier, last, hh.trans hchain, fun a ha => hr a (he a ha), ?_⟩
  rcases hl with hopen | ⟨hret, ⟨u, hmem, hkey⟩ | happlied⟩
  · exact hlast last (by rw [hchain]; simp) hopen
  · exact .inr ⟨hr last hret, .inl ⟨u, hu.mem hmem, hkey⟩⟩
  · exact .inr ⟨hr last hret, .inr (workerApplied_of_extends hw happlied)⟩

/-- A chain whose last holder retired in favour of an open one. -/
theorem Routing.Held.handOn {delivery successor : String}
    (hh : db'.holders delivery = db.holders delivery ++ [successor])
    (hr : ∀ a ∈ db.holders delivery, db'.isRetired a) (ho : db'.isOpen successor) :
    db'.Held delivery :=
  ⟨db.holders delivery, successor, hh, hr, .inl ho⟩

theorem mem_modifyBindings {p : ConsumerBinding → Bool} {f : ConsumerBinding → ConsumerBinding}
    {hf : ∀ b, (f b).bindingId = b.bindingId} {b' : ConsumerBinding} :
    b' ∈ (db.modifyBindings p f hf).bindings.rows ↔ ∃ b ∈ db.bindings.rows, selecting p f b = b' := by
  simp [Routing.modifyBindings]

/-- An UPDATE changes a row or leaves it alone. -/
theorem selecting_cases {p : ConsumerBinding → Bool} {f : ConsumerBinding → ConsumerBinding}
    (b : ConsumerBinding) : selecting p f b = f b ∨ selecting p f b = b := by
  unfold selecting
  split
  · exact .inl rfl
  · exact .inr rfl

/-! ## Statements that leave the chains alone -/

/-- A binding whose identity and retirement did not move. -/
structure ConsumerBinding.Same (b b' : ConsumerBinding) : Prop where
  bindingId : b'.bindingId = b.bindingId
  snapshotId : b'.snapshotId = b.snapshotId
  generation : b'.generation = b.generation
  retired : b'.retired = b.retired
  successor : b'.successorBindingId = b.successorBindingId
  active : b'.active = true → b.retired = false ∨ b.active = true

theorem ConsumerBinding.Same.refl (b : ConsumerBinding) : b.Same b :=
  ⟨rfl, rfl, rfl, rfl, rfl, .inr⟩

theorem ConsumerBinding.Same.trans {a b c : ConsumerBinding} (h : a.Same b) (h' : b.Same c) :
    a.Same c where
  bindingId := h'.bindingId.trans h.bindingId
  snapshotId := h'.snapshotId.trans h.snapshotId
  generation := h'.generation.trans h.generation
  retired := h'.retired.trans h.retired
  successor := h'.successor.trans h.successor
  active := by
    intro hc
    rcases h'.active hc with hr | hb
    · exact .inl (h.retired ▸ hr)
    · exact h.active hb

/-- Nothing was routed, handed on or retired. -/
structure Frame (db db' : Routing) : Prop where
  intents : db'.intents = db.intents
  obligations : db'.obligations = db.obligations
  undeliverable : db'.undeliverable = db.undeliverable
  snapshots : db'.snapshots = db.snapshots
  receipts : db.updateReceipts.Extends db'.updateReceipts
  kept : ∀ k b, db.bindings.find k = some b → ∃ b', db'.bindings.find k = some b' ∧ b.Same b'
  back : ∀ b' ∈ db'.bindings.rows, ∃ b ∈ db.bindings.rows, b.Same b'

namespace Frame

/-- A statement that writes no binding. -/
theorem of_eq (hb : db'.bindings = db.bindings) (hi : db'.intents = db.intents)
    (ho : db'.obligations = db.obligations) (hu : db'.undeliverable = db.undeliverable)
    (hs : db'.snapshots = db.snapshots) (hr : db.updateReceipts.Extends db'.updateReceipts) :
    Frame db db' :=
  ⟨hi, ho, hu, hs, hr, fun _ b hf => ⟨b, hb ▸ hf, .refl b⟩, fun b hm => ⟨b, hb ▸ hm, .refl b⟩⟩

protected theorem refl (db : Routing) : Frame db db := of_eq rfl rfl rfl rfl rfl (.refl _)

protected theorem trans {db'' : Routing} (h : Frame db db') (h' : Frame db' db'') :
    Frame db db'' where
  intents := h'.intents.trans h.intents
  obligations := h'.obligations.trans h.obligations
  undeliverable := h'.undeliverable.trans h.undeliverable
  snapshots := h'.snapshots.trans h.snapshots
  receipts := h.receipts.trans h'.receipts
  kept := by
    intro k b hb
    obtain ⟨b', hb', hs⟩ := h.kept k b hb
    obtain ⟨b'', hb'', hs'⟩ := h'.kept k b' hb'
    exact ⟨b'', hb'', hs.trans hs'⟩
  back := by
    intro b'' hb''
    obtain ⟨b', hb', hs'⟩ := h'.back b'' hb''
    obtain ⟨b, hb, hs⟩ := h.back b' hb'
    exact ⟨b, hb, hs.trans hs'⟩

instance : Std.Refl Frame := ⟨Frame.refl⟩

instance : IsTrans Routing Frame := ⟨fun _ _ _ => Frame.trans⟩

/-- An UPDATE of columns that routing does not read. -/
theorem modifyBindings {p : ConsumerBinding → Bool} {f : ConsumerBinding → ConsumerBinding}
    {hf : ∀ b, (f b).bindingId = b.bindingId} (hsame : ∀ b : ConsumerBinding, b.Same (f b)) :
    Frame db (db.modifyBindings p f hf) := by
  have hsel : ∀ b : ConsumerBinding, b.Same (selecting p f b) := by
    intro b
    unfold selecting
    split
    · exact hsame b
    · exact .refl b
  refine ⟨rfl, rfl, rfl, rfl, .refl _, ?_, ?_⟩
  · intro k b hb
    refine ⟨selecting p f b, ?_, hsel b⟩
    unfold Routing.modifyBindings
    rw [Table.find_modify, hb]
    rfl
  · intro b' hb'
    obtain ⟨b, hb, rfl⟩ := mem_modifyBindings.mp hb'
    exact ⟨b, hb, hsel b⟩

theorem marked (h : Frame db db') {value : Bool} {binding : String}
    (hm : db.Marked value binding) : db'.Marked value binding := by
  obtain ⟨b, hb, hv⟩ := hm
  obtain ⟨b', hb', hs⟩ := h.kept binding b hb
  exact ⟨b', hb', hs.retired.trans hv⟩

theorem holders (h : Frame db db') (delivery : String) :
    db'.holders delivery = db.holders delivery := by
  unfold Routing.holders
  rw [h.obligations]

end Frame

theorem Routed.frame (h : Routed db) (hf : Frame db db') : Routed db' where
  held := by
    intro d hd
    refine (h.held d (hf.intents ▸ hd)).keep (hf.holders d.id) (fun a => hf.marked)
      (fun a _ ha => .inl (hf.marked ha)) (hf.undeliverable ▸ .refl _) hf.receipts
  own := by
    intro d hd b' hb' hsnap
    obtain ⟨b, hb, hs⟩ := hf.back b' hb'
    rw [hf.holders, hs.bindingId]
    exact h.own d (hf.intents ▸ hd) b hb (hs.snapshotId ▸ hsnap)
  snapshot_unique := by
    intro a' ha' b' hb' hab
    obtain ⟨a, ha, hsa⟩ := hf.back a' ha'
    obtain ⟨b, hb, hsb⟩ := hf.back b' hb'
    have he := h.snapshot_unique a ha b hb (by rw [← hsa.snapshotId, ← hsb.snapshotId, hab])
    exact Table.eq_of_mem ha' hb' (by rw [hsa.bindingId, hsb.bindingId, he])
  obligation_intent := by
    rw [hf.obligations, hf.intents]
    exact h.obligation_intent
  intent_snapshot := by
    rw [hf.intents, hf.snapshots]
    exact h.intent_snapshot
  active_open := by
    intro b' hb' hactive
    obtain ⟨b, hb, hs⟩ := hf.back b' hb'
    rw [hs.retired]
    rcases hs.active hactive with hr | ha
    · exact hr
    · exact h.active_open b hb ha
  open_successor := by
    intro b' hb' hopen
    obtain ⟨b, hb, hs⟩ := hf.back b' hb'
    rw [hs.successor]
    exact h.open_successor b hb (hs.retired ▸ hopen)
  undeliverable_retired := fun u hu => hf.marked (h.undeliverable_retired u (hf.undeliverable ▸ hu))

theorem reconciled_same (b : ConsumerBinding) : b.Same (db.reconciled b) := by
  unfold Routing.reconciled
  split
  · exact .refl b
  · next hr =>
    split
    · exact .refl b
    · exact ⟨rfl, rfl, rfl, rfl, rfl, fun _ => .inl (by simpa using hr)⟩

theorem reconcile_frame {p : ConsumerBinding → Bool} :
    Frame db (db.modifyBindings p db.reconciled db.reconciled_bindingId) :=
  .modifyBindings reconciled_same

/-! ## New snapshots -/

theorem Routed.insertSnapshot (h : Routed db) {snapshots : Table MemorySnapshot MemorySnapshot.id}
    (hs : db.snapshots.Extends snapshots) : Routed { db with snapshots := snapshots } where
  held := h.held
  own := h.own
  snapshot_unique := h.snapshot_unique
  obligation_intent := h.obligation_intent
  intent_snapshot := by
    intro d hd
    obtain ⟨s, hfind⟩ := h.intent_snapshot d hd
    exact ⟨s, hs.find hfind⟩
  active_open := h.active_open
  open_successor := h.open_successor
  undeliverable_retired := h.undeliverable_retired

/-- A binding of a snapshot to which nothing was routed. -/
theorem Routed.insertBinding (h : Routed db) {b : ConsumerBinding}
    {bindings : Table ConsumerBinding ConsumerBinding.bindingId}
    (hinsert : db.bindings.insert? b = some bindings) (hopen : b.retired = false)
    (hsuccessor : b.successorBindingId = none)
    (hintents : ∀ d ∈ db.intents.rows, d.snapshotId ≠ b.snapshotId)
    (hbindings : ∀ a ∈ db.bindings.rows, a.snapshotId ≠ b.snapshotId) :
    Routed { db with bindings := bindings } := by
  have hmark : ∀ {value binding}, db.Marked value binding →
      ({ db with bindings := bindings } : Routing).Marked value binding := by
    rintro value binding ⟨a, ha, hv⟩
    exact ⟨a, Table.find_insert?_of_some hinsert ha, hv⟩
  constructor
  · intro d hd
    exact (h.held d hd).keep rfl (fun a => hmark) (fun a _ ha => .inl (hmark ha)) (.refl _) (.refl _)
  · intro d hd a ha hsnap
    rcases (Table.mem_insert? hinsert).mp ha with ha | rfl
    · exact h.own d hd a ha hsnap
    · exact absurd hsnap.symm (hintents d hd)
  · intro a ha c hc hac
    rcases (Table.mem_insert? hinsert).mp ha with ha | rfl <;>
      rcases (Table.mem_insert? hinsert).mp hc with hc | rfl
    · exact h.snapshot_unique a ha c hc hac
    · exact absurd hac (hbindings a ha)
    · exact absurd hac.symm (hbindings c hc)
    · rfl
  · exact h.obligation_intent
  · exact h.intent_snapshot
  · intro a ha hactive
    rcases (Table.mem_insert? hinsert).mp ha with ha | rfl
    · exact h.active_open a ha hactive
    · exact hopen
  · intro a ha hr
    rcases (Table.mem_insert? hinsert).mp ha with ha | rfl
    · exact h.open_successor a ha hr
    · exact hsuccessor
  · exact fun u hu => hmark (h.undeliverable_retired u hu)

/-- An intent of a new change and the obligation of an open binding. -/
theorem Routed.insertIntent (h : Routed db) {intent : DeliveryIntent} {binding : String}
    {intents : Table DeliveryIntent DeliveryIntent.id} {obligations : Table Obligation Obligation.key}
    (hintents : db.intents.insert? intent = some intents)
    (hrows : obligations.rows = db.obligations.rows ++ [⟨binding, intent.id⟩])
    (hopen : db.isOpen binding)
    (hown : ∀ a ∈ db.bindings.rows, a.snapshotId = intent.snapshotId → a.bindingId = binding)
    (hsnap : ∃ s, db.snapshots.find intent.snapshotId = some s) :
    Routed { db with intents := intents, obligations := obligations } := by
  have hfresh := Table.find_eq_none_iff.mp (Table.insert?_eq_some hintents).1
  have hholders : ∀ d, ({ db with intents := intents, obligations := obligations } :
      Routing).holders d = db.holders d ++ (([⟨binding, intent.id⟩] : List Obligation).filter
        fun o => o.deliveryId = d).map (·.bindingId) := fun d => holders_append hrows d
  have hold : ∀ d ∈ db.intents.rows, d.id ≠ intent.id := fun d hd he =>
    hfresh (he ▸ List.mem_map_of_mem hd)
  have hsame : ∀ d ∈ db.intents.rows, ({ db with intents := intents, obligations := obligations } :
      Routing).holders d.id = db.holders d.id := by
    intro d hd
    rw [hholders, List.filter_cons_of_neg (by simpa using (hold d hd).symm)]
    simp
  -- no binding can have been given a change that was not there
  have hnone : db.holders intent.id = [] := by
    rw [List.eq_nil_iff_forall_not_mem]
    intro b hb
    obtain ⟨d, hd, he⟩ := h.obligation_intent _ (mem_holders.mp hb)
    exact hold d hd he
  have hnew : ({ db with intents := intents, obligations := obligations } : Routing).holders
      intent.id = [binding] := by
    rw [hholders, hnone]
    simp
  constructor
  · intro d hd
    rcases (Table.mem_insert? hintents).mp hd with hd | rfl
    · exact (h.held d hd).keep (hsame d hd) (fun _ ha => ha) (fun _ _ ha => .inl ha) (.refl _)
        (.refl _)
    · exact ⟨[], binding, hnew, by simp, .inl hopen⟩
  · intro d hd a ha he
    rcases (Table.mem_insert? hintents).mp hd with hd | rfl
    · rw [hsame d hd]
      exact h.own d hd a ha he
    · rw [hnew, hown a ha he]
      simp
  · exact h.snapshot_unique
  · intro o ho
    rw [hrows] at ho
    rcases List.mem_append.mp ho with ho | ho
    · obtain ⟨d, hd, he⟩ := h.obligation_intent o ho
      exact ⟨d, (Table.mem_insert? hintents).mpr (.inl hd), he⟩
    · obtain rfl := List.mem_singleton.mp ho
      exact ⟨intent, (Table.mem_insert? hintents).mpr (.inr rfl), rfl⟩
  · intro d hd
    rcases (Table.mem_insert? hintents).mp hd with hd | rfl
    · exact h.intent_snapshot d hd
    · exact hsnap
  · exact h.active_open
  · exact h.open_successor
  · exact h.undeliverable_retired

section Calls

variable [UpdateDigests]

theorem Routed.createMemorySnapshot (h : Routed db) {consumer : String} {snapshot : MemorySnapshot}
    {env : Outside} {u : Unit}
    (hx : Updates.createMemorySnapshot consumer snapshot env db = .ok (u, db')) : Routed db' := by
  simp only [Updates.createMemorySnapshot, Tx.outside_bind, Tx.ask_bind] at hx
  obtain ⟨-, hx⟩ := hx
  split at hx
  · obtain ⟨-, rfl⟩ := Tx.pure_ok.mp hx
    exact h
  · next hnew =>
    obtain ⟨db₁, hins, hx⟩ := Tx.insert_bind.mp hx
    obtain ⟨snapshots, hsnapshots, rfl⟩ := Option.map_eq_some_iff.mp hins
    have hnone := (Table.insert?_eq_some hsnapshots).1
    have h₁ : Routed { db with snapshots := snapshots } :=
      h.insertSnapshot (.insert? hsnapshots)
    simp only [ensureForSnapshot, Tx.ask_bind] at hx
    split at hx
    · obtain ⟨-, rfl⟩ := Tx.pure_ok.mp hx
      exact h₁
    · next hex =>
      simp only [Tx.ask_bind, Tx.require_bind, Tx.insert_ok, Option.map_eq_some_iff] at hx
      obtain ⟨-, bindings, hbindings, rfl⟩ := hx
      refine h₁.insertBinding hbindings rfl rfl ?_ ?_
      · intro d hd he
        obtain ⟨s, hs⟩ := h.intent_snapshot d hd
        rw [show d.snapshotId = snapshot.id from he, hnone] at hs
        cases hs
      · intro a ha he
        apply hex
        rw [List.any_eq_true]
        exact ⟨a, ha, by simpa using he⟩

/-! ## Routing of a change -/

/-- A recipient's new intent and obligation. -/
theorem Routed.deliver (h : Routed db) {cause record : String} {revision sequence : Nat}
    {severity : Severity} {env : Outside} {b : ConsumerBinding} {u : Unit}
    (hb : b ∈ db.bindings.rows) (hactive : b.active = true)
    (hx : Updates.deliver cause record revision severity sequence env b db = .ok (u, db')) :
    Routed db' := by
  simp only [Updates.deliver, Tx.find_bind] at hx
  obtain ⟨snapshot, hsnapshot, hx⟩ := hx
  split at hx
  · obtain ⟨db₁, hins, hx⟩ := Tx.insert_bind.mp hx
    split at hins
    · cases hins
    · obtain ⟨intents, hintents, rfl⟩ := Option.map_eq_some_iff.mp hins
      obtain ⟨obligations, hobligations, rfl⟩ := obligationRows.insert_ok.mp hx
      have hfresh := (Table.insert?_eq_some hintents).1
      have hrows := (Table.insert?_eq_some hobligations).2
      have hopen : db.isOpen b.bindingId := ⟨b, Table.find_of_mem hb, h.active_open b hb hactive⟩
      refine Routed.insertIntent h hintents hrows hopen ?_ ⟨snapshot, hsnapshot⟩
      intro a ha hsnap
      rw [h.snapshot_unique a ha b hb hsnap]
  · obtain ⟨-, rfl⟩ := Tx.pure_ok.mp hx
    exact h

theorem deliver_bindings {cause record : String} {revision sequence : Nat}
    {severity : Severity} {env : Outside} {b : ConsumerBinding} {u : Unit}
    (hx : Updates.deliver cause record revision severity sequence env b db = .ok (u, db')) :
    db'.bindings = db.bindings := by
  simp only [Updates.deliver, Tx.find_bind] at hx
  obtain ⟨snapshot, -, hx⟩ := hx
  split at hx
  · obtain ⟨db₁, hins, hx⟩ := Tx.insert_bind.mp hx
    split at hins
    · cases hins
    · obtain ⟨intents, -, rfl⟩ := Option.map_eq_some_iff.mp hins
      obtain ⟨obligations, -, rfl⟩ := obligationRows.insert_ok.mp hx
      rfl
  · obtain ⟨-, rfl⟩ := Tx.pure_ok.mp hx
    rfl

/-- A loop over fixed bindings keeps the chains. -/
structure RoutedOver (bindings : Table ConsumerBinding ConsumerBinding.bindingId)
    (s s' : Routing) : Prop where
  same : s'.bindings = s.bindings
  routed : s.bindings = bindings → Routed s → Routed s'

omit [UpdateDigests] in
theorem RoutedOver.refl {bindings : Table ConsumerBinding ConsumerBinding.bindingId} (s : Routing) :
    RoutedOver bindings s s := ⟨rfl, fun _ h => h⟩

omit [UpdateDigests] in
theorem RoutedOver.trans {bindings : Table ConsumerBinding ConsumerBinding.bindingId}
    {s s' s'' : Routing} (h : RoutedOver bindings s s') (h' : RoutedOver bindings s' s'') :
    RoutedOver bindings s s'' :=
  ⟨h'.same.trans h.same, fun hs hr => h'.routed (h.same.trans hs) (h.routed hs hr)⟩

theorem Routed.recordChange (h : Routed db) {cause record : String} {revision sequence : Nat}
    {severity : Severity} {env : Outside} {u : Unit}
    (hx : Updates.recordChange cause record revision severity sequence env db = .ok (u, db')) :
    Routed db' := by
  simp only [Updates.recordChange, reconcileActive, reconcileSelected, Tx.write_bind, Tx.ask_bind,
    Tx.require_bind] at hx
  obtain ⟨-, hx⟩ := hx
  obtain ⟨_, db₂, hloop, hx⟩ := Tx.bind_ok.mp hx
  obtain ⟨-, rfl⟩ := Tx.outside_ok.mp hx
  generalize hdb₁ : db.modifyBindings (fun b => (none : Option TaskId).all fun t => b.taskId = some t)
    db.reconciled db.reconciled_bindingId = db₁ at hloop
  have h₁ : Routed db₁ := hdb₁ ▸ h.frame reconcile_frame
  -- the bindings do not move while the loop routes to them
  have hmem : ∀ b ∈ db₁.recipients, b ∈ db₁.bindings.rows ∧ b.active = true := by
    intro b hb
    have hb := (List.perm_insertionSort _ _).mem_iff.mp hb
    obtain ⟨hb, hp⟩ := List.mem_filter.mp hb
    exact ⟨hb, by simp only [Bool.and_eq_true] at hp; exact hp.1⟩
  have hpres : RoutedOver db₁.bindings db₁ db₂ := Tx.forEach_preserves RoutedOver.refl
    RoutedOver.trans (fun b hb s s' u hbody => ⟨deliver_bindings hbody, fun hs hr =>
      hr.deliver (hs ▸ (hmem b hb).1) (hmem b hb).2 hbody⟩) hloop
  exact hpres.routed rfl h₁

end Calls

/-! ## Retirement -/

theorem mem_unresolvedDeliveries {b : ConsumerBinding} {delivery : String} :
    delivery ∈ db.unresolvedDeliveries b ↔
      ((∃ d ∈ db.intents.rows, d.snapshotId = b.snapshotId ∧ d.id = delivery) ∨
        b.bindingId ∈ db.holders delivery) ∧ db.workerApplied delivery = false := by
  unfold Routing.unresolvedDeliveries
  rw [(List.perm_insertionSort _ _).mem_iff, List.mem_filter, List.mem_dedup, List.mem_append]
  simp only [List.mem_map, List.mem_filter, decide_eq_true_eq, mem_holders, Bool.not_eq_true',
    and_assoc]
  constructor
  · rintro ⟨h | ⟨o, ho, hb, rfl⟩, hw⟩
    · exact ⟨.inl h, hw⟩
    · refine ⟨.inr ?_, hw⟩
      rw [← hb]
      exact ho
  · rintro ⟨h | ho, hw⟩
    · exact ⟨.inl h, hw⟩
    · exact ⟨.inr ⟨_, ho, rfl, rfl⟩, hw⟩

theorem nodup_unresolvedDeliveries {b : ConsumerBinding} : (db.unresolvedDeliveries b).Nodup := by
  unfold Routing.unresolvedDeliveries
  rw [(List.perm_insertionSort _ _).nodup_iff]
  exact (List.nodup_dedup _).filter _

/-- What is unresolved is held by the binding. -/
theorem Routed.mem_unresolved (h : Routed db) {b : ConsumerBinding} (hb : b ∈ db.bindings.rows)
    {delivery : String} : delivery ∈ db.unresolvedDeliveries b ↔
      b.bindingId ∈ db.holders delivery ∧ db.workerApplied delivery = false := by
  rw [mem_unresolvedDeliveries]
  constructor
  · rintro ⟨⟨d, hd, hs, rfl⟩ | hh, hw⟩
    · exact ⟨h.own d hd b hb hs.symm, hw⟩
    · exact ⟨hh, hw⟩
  · rintro ⟨hh, hw⟩
    exact ⟨.inr hh, hw⟩

/-- The columns of the bindings that a retirement leaves. -/
def Routing.withRetired (db : Routing) (binding : String)
    (successor : ConsumerBinding → Option String) : Routing :=
  db.modifyBindings (fun b => b.bindingId = binding) (fun b => b.retiredTo (successor b)) fun _ => rfl

section WithRetired

variable {binding : String} {successor : ConsumerBinding → Option String}

theorem find_withRetired {other : String} : (db.withRetired binding successor).bindings.find other =
    (db.bindings.find other).map fun b =>
      if b.bindingId = binding then b.retiredTo (successor b) else b := by
  unfold Routing.withRetired Routing.modifyBindings
  rw [Table.find_modify]
  congr 1
  funext b
  simp [selecting]

theorem marked_withRetired_ne {value : Bool} {other : String} (hne : other ≠ binding) :
    (db.withRetired binding successor).Marked value other ↔ db.Marked value other := by
  unfold Routing.Marked
  rw [find_withRetired]
  constructor
  · rintro ⟨b', hb', hv⟩
    obtain ⟨b, hb, rfl⟩ := Option.map_eq_some_iff.mp hb'
    have hkey : b.bindingId = other := Table.find_key hb
    rw [if_neg (by rw [hkey]; exact hne)] at hv
    exact ⟨b, hb, hv⟩
  · rintro ⟨b, hb, hv⟩
    have hkey : b.bindingId = other := Table.find_key hb
    refine ⟨b, ?_, hv⟩
    rw [hb, Option.map_some, if_neg (by rw [hkey]; exact hne)]

theorem isRetired_withRetired {b : ConsumerBinding} (hb : db.bindings.find binding = some b) :
    (db.withRetired binding successor).isRetired binding := by
  have hkey : b.bindingId = binding := Table.find_key hb
  refine ⟨b.retiredTo (successor b), ?_, rfl⟩
  rw [find_withRetired, hb, Option.map_some, if_pos hkey]

theorem isRetired_withRetired_of {other : String} (h : db.isRetired other) :
    (db.withRetired binding successor).isRetired other := by
  by_cases hne : other = binding
  · obtain ⟨b, hb, -⟩ := h
    subst hne
    exact isRetired_withRetired hb
  · exact (marked_withRetired_ne hne).mpr h

end WithRetired

/-- What a first retirement leaves: the rows that it added and the retired binding. -/
structure Retired (db : Routing) (b : ConsumerBinding) (db' : Routing) : Prop where
  bindings : ∃ successor : ConsumerBinding → Option String,
    db'.bindings = (db.withRetired b.bindingId successor).bindings
  intents : db'.intents = db.intents
  snapshots : db'.snapshots = db.snapshots
  receipts : db'.updateReceipts = db.updateReceipts
  handed : (∃ next, next ≠ b.bindingId ∧ db.isOpen next ∧ db'.undeliverable = db.undeliverable ∧
      db'.obligations.rows = db.obligations.rows ++
        (db.unresolvedDeliveries b).map fun d => ⟨next, d⟩) ∨
    ∃ reason, db'.obligations = db.obligations ∧ db'.undeliverable.rows = db.undeliverable.rows ++
      (db.unresolvedDeliveries b).map fun d => ⟨b.bindingId, d, reason⟩

namespace Retired

variable {b : ConsumerBinding}

theorem isRetired (hr : Retired db b db') {other : String} (ho : db.isRetired other) :
    db'.isRetired other := by
  obtain ⟨successor, hs⟩ := hr.bindings
  exact (marked_congr hs).mpr (isRetired_withRetired_of ho)

theorem isRetired_self (hr : Retired db b db') (hb : b ∈ db.bindings.rows) :
    db'.isRetired b.bindingId := by
  obtain ⟨successor, hs⟩ := hr.bindings
  exact (marked_congr hs).mpr (isRetired_withRetired (Table.find_of_mem hb))

theorem isOpen (hr : Retired db b db') {other : String} (ho : db.isOpen other)
    (hne : other ≠ b.bindingId) : db'.isOpen other := by
  obtain ⟨successor, hs⟩ := hr.bindings
  exact (marked_congr hs).mpr ((marked_withRetired_ne hne).mpr ho)

theorem workerApplied (hr : Retired db b db') {delivery : String} :
    db'.workerApplied delivery = db.workerApplied delivery := by
  unfold Routing.workerApplied
  rw [hr.receipts]

/-- Nothing is taken out of the chains. -/
theorem mem_holders_of (hr : Retired db b db') {delivery holder : String}
    (hh : holder ∈ db.holders delivery) : holder ∈ db'.holders delivery := by
  rw [mem_holders] at hh ⊢
  obtain ⟨next, -, -, -, hrows⟩ | ⟨reason, hobl, -⟩ := hr.handed
  · rw [hrows]
    exact List.mem_append_left _ hh
  · rwa [hobl]

/-- Every chain of a change is kept: the binding that retires hands on what it must. -/
theorem held (hr : Retired db b db') (h : Routed db) (hb : b ∈ db.bindings.rows)
    (hopen : b.retired = false) {delivery : String} (hd : db.Held delivery) :
    db'.Held delivery := by
  have hself : db.isOpen b.bindingId := ⟨b, Table.find_of_mem hb, hopen⟩
  -- a holder that is open stays open, or it is the one that retires
  have hstay : ∀ a, db.isOpen a → a ≠ b.bindingId → db'.isOpen a := fun a ho hne => hr.isOpen ho hne
  obtain ⟨next, hnext, hnextOpen, hund, hrows⟩ | ⟨reason, hobl, hund⟩ := hr.handed
  · have hholders := holders_append hrows delivery
    rw [handed_filter nodup_unresolvedDeliveries] at hholders
    by_cases hm : delivery ∈ db.unresolvedDeliveries b
    · rw [if_pos hm] at hholders
      refine .handOn hholders ?_ (hr.isOpen hnextOpen hnext)
      intro a ha
      obtain ⟨earlier, last, hchain, hearlier, -⟩ := hd
      have hlast := Routing.Held.eq_last hchain hearlier ((h.mem_unresolved hb).mp hm).1 hself
      rw [hchain] at ha
      rcases List.mem_append.mp ha with ha | ha
      · exact hr.isRetired (hearlier a ha)
      · rw [List.mem_singleton.mp ha, ← hlast]
        exact hr.isRetired_self hb
    · rw [if_neg hm, List.append_nil] at hholders
      refine hd.keep hholders (fun a => hr.isRetired) ?_ (hund ▸ .refl _) (hr.receipts ▸ .refl _)
      intro a ha ho
      by_cases hne : a = b.bindingId
      · refine .inr ⟨hne ▸ hr.isRetired_self hb, .inr ?_⟩
        rw [hr.workerApplied]
        by_contra hw
        exact hm ((h.mem_unresolved hb).mpr ⟨hne ▸ ha, by simpa using hw⟩)
      · exact .inl (hstay a ho hne)
  · have hholders : db'.holders delivery = db.holders delivery := by
      unfold Routing.holders
      rw [hobl]
    refine hd.keep hholders (fun a => hr.isRetired) ?_ ⟨_, hund⟩ (hr.receipts ▸ .refl _)
    intro a ha ho
    by_cases hne : a = b.bindingId
    · refine .inr ⟨hne ▸ hr.isRetired_self hb, ?_⟩
      by_cases hw : db.workerApplied delivery = true
      · exact .inr (hr.workerApplied.trans hw)
      · refine .inl ⟨⟨b.bindingId, delivery, reason⟩, ?_, by rw [hne]; rfl⟩
        rw [hund]
        apply List.mem_append_right
        have hm := (h.mem_unresolved hb).mpr ⟨hne ▸ ha, by simpa using hw⟩
        exact List.mem_map.mpr ⟨delivery, hm, rfl⟩
    · exact .inl (hstay a ho hne)

theorem routed (hr : Retired db b db') (h : Routed db) (hb : b ∈ db.bindings.rows)
    (hopen : b.retired = false) : Routed db' := by
  obtain ⟨successor, hbindings⟩ := hr.bindings
  have hrow : ∀ a' ∈ db'.bindings.rows, ∃ a ∈ db.bindings.rows,
      a'.bindingId = a.bindingId ∧ a'.snapshotId = a.snapshotId ∧ (a' = a ∨ a'.active = false) ∧
        a' = selecting (fun c => c.bindingId = b.bindingId) (fun c => c.retiredTo (successor c)) a := by
    intro a' ha'
    rw [hbindings] at ha'
    obtain ⟨a, ha, rfl⟩ := mem_modifyBindings.mp ha'
    have hid : (selecting (fun c => c.bindingId = b.bindingId)
        (fun c => c.retiredTo (successor c)) a).bindingId = a.bindingId :=
      selecting_bindingId (fun c => by rfl) a
    refine ⟨a, ha, hid, ?_, ?_, rfl⟩
    · rcases selecting_cases (p := fun c => c.bindingId = b.bindingId)
        (f := fun c => c.retiredTo (successor c)) a with hs | hs <;> rw [hs]
      rfl
    · rcases selecting_cases (p := fun c => c.bindingId = b.bindingId)
        (f := fun c => c.retiredTo (successor c)) a with hs | hs <;> rw [hs]
      · exact .inr rfl
      · exact .inl rfl
  constructor
  · intro d hd
    rw [hr.intents] at hd
    exact hr.held h hb hopen (h.held d hd)
  · intro d hd a' ha' hsnap
    rw [hr.intents] at hd
    obtain ⟨a, ha, hid, hs, -, -⟩ := hrow a' ha'
    rw [hid]
    exact hr.mem_holders_of (h.own d hd a ha (hs ▸ hsnap))
  · intro a' ha' c' hc' hac
    obtain ⟨a, ha, -, hsa, -, hea⟩ := hrow a' ha'
    obtain ⟨c, hc, -, hsc, -, hec⟩ := hrow c' hc'
    rw [hea, hec, h.snapshot_unique a ha c hc (by rw [← hsa, ← hsc, hac])]
  · intro o ho
    rw [hr.intents]
    obtain ⟨next, -, -, -, hrows⟩ | ⟨reason, hobl, -⟩ := hr.handed
    · rw [hrows] at ho
      rcases List.mem_append.mp ho with ho | ho
      · exact h.obligation_intent o ho
      · obtain ⟨delivery, hm, rfl⟩ := List.mem_map.mp ho
        exact h.obligation_intent ⟨b.bindingId, delivery⟩
          (mem_holders.mp ((h.mem_unresolved hb).mp hm).1)
    · rw [hobl] at ho
      exact h.obligation_intent o ho
  · intro d hd
    rw [hr.intents] at hd
    rw [hr.snapshots]
    exact h.intent_snapshot d hd
  · intro a' ha' hactive
    obtain ⟨a, ha, -, -, he | he, -⟩ := hrow a' ha'
    · rw [he] at hactive ⊢
      exact h.active_open a ha hactive
    · rw [he] at hactive
      cases hactive
  · intro a' ha' hopen'
    obtain ⟨a, ha, -, -, -, he⟩ := hrow a' ha'
    rw [he] at hopen' ⊢
    unfold selecting at hopen' ⊢
    split at hopen'
    · cases hopen'
    · next hne =>
      rw [if_neg hne]
      exact h.open_successor a ha hopen'
  · intro u hu
    obtain ⟨next, -, -, hund, -⟩ | ⟨reason, -, hund⟩ := hr.handed
    · rw [hund] at hu
      exact hr.isRetired (h.undeliverable_retired u hu)
    · rw [hund] at hu
      rcases List.mem_append.mp hu with hu | hu
      · exact hr.isRetired (h.undeliverable_retired u hu)
      · obtain ⟨delivery, -, rfl⟩ := List.mem_map.mp hu
        exact hr.isRetired_self hb

end Retired

/-- What `reconcile_active` leaves. -/
def Routing.reconciledAll (db : Routing) : Routing :=
  db.modifyBindings (fun b => (none : Option TaskId).all fun t => b.taskId = some t) db.reconciled
    db.reconciled_bindingId

theorem moveTo_ok {successor : Option String} {next : String}
    (h : db.moveTo successor = .ok next) : successor = some next ∧
      ∃ row, db.bindings.find next = some row ∧ row.retired = false ∧ row.active = true := by
  unfold Routing.moveTo at h
  split at h
  · cases h
  · split at h
    · cases h
    · next row hrow =>
      split at h
      · cases h
      · split at h
        · cases h
          next hr ha => exact ⟨rfl, row, hrow, by simpa using hr, ha⟩
        · cases h

/-- The two ways a first retirement ends. -/
theorem retire_ok {b : ConsumerBinding} {successor : Option String} {u : Unit}
    (hx : retire b successor db = .ok (u, db')) :
    (∃ next t, db.moveTo successor = .ok next ∧
      t.rows = db.obligations.rows ++ (db.unresolvedDeliveries b).map (fun d => ⟨next, d⟩) ∧
      db' = ({ db with obligations := t } : Routing).withRetired b.bindingId fun _ => some next) ∨
    ∃ reason t, db.moveTo successor = .error reason ∧
      t.rows = db.undeliverable.rows ++
        (db.unresolvedDeliveries b).map (fun d => ⟨b.bindingId, d, reason⟩) ∧
      db' = ({ db with undeliverable := t } : Routing).withRetired b.bindingId (·.successorBindingId) := by
  simp only [retire, Tx.ask_bind, Tx.require_bind] at hx
  obtain ⟨-, hx⟩ := hx
  cases hmove : db.moveTo successor with
  | ok next =>
    simp only [hmove] at hx
    obtain ⟨_, db₁, hloop, hx⟩ := Tx.bind_ok.mp hx
    obtain ⟨t, ht, rfl⟩ := obligationRows.forEach_insert_ok hloop
    rw [Tx.write_ok] at hx
    exact .inl ⟨next, t, rfl, ht, hx.symm⟩
  | error reason =>
    simp only [hmove] at hx
    obtain ⟨_, db₁, hloop, hx⟩ := Tx.bind_ok.mp hx
    obtain ⟨t, ht, rfl⟩ := undeliverableRows.forEach_insert_ok hloop
    rw [Tx.write_ok] at hx
    exact .inr ⟨reason, t, rfl, ht, hx.symm⟩

theorem retired_of_retire {b : ConsumerBinding} {successor : Option String} {u : Unit}
    (hne : successor ≠ some b.bindingId) (hx : retire b successor db = .ok (u, db')) :
    Retired db b db' := by
  obtain ⟨next, t, hmove, ht, rfl⟩ | ⟨reason, t, hmove, ht, rfl⟩ := retire_ok hx
  · obtain ⟨rfl, row, hrow, hopen, -⟩ := moveTo_ok hmove
    refine ⟨⟨_, rfl⟩, rfl, rfl, rfl, .inl ⟨next, ?_, ⟨row, hrow, hopen⟩, rfl, ht⟩⟩
    rintro rfl
    exact hne rfl
  · exact ⟨⟨_, rfl⟩, rfl, rfl, rfl, .inr ⟨reason, rfl, ht⟩⟩

/-- A successful call: a repeat, or a first retirement. -/
theorem retireConsumerBinding_ok {id : String} {successor : Option String} {u : Unit}
    (hx : retireConsumerBinding id successor db = .ok (u, db')) :
    successor ≠ some id ∧ ∃ b, db.reconciledAll.bindings.find id = some b ∧
      ((b.retired = true ∧ b.successorBindingId = successor ∧ db' = db.reconciledAll) ∨
        (b.retired = false ∧ retire b successor db.reconciledAll = .ok (u, db'))) := by
  simp only [retireConsumerBinding, reconcileActive, reconcileSelected, Tx.require_bind,
    Tx.write_bind, Tx.find_bind] at hx
  obtain ⟨-, hne, b, hb, hx⟩ := hx
  refine ⟨hne, b, hb, ?_⟩
  split at hx
  · next hr =>
    obtain ⟨hs, rfl⟩ := Tx.require_ok.mp hx
    exact .inl ⟨hr, hs, rfl⟩
  · next hr => exact .inr ⟨by simpa using hr, hx⟩

theorem Routed.retireConsumerBinding (h : Routed db) {id : String} {successor : Option String}
    {u : Unit} (hx : Updates.retireConsumerBinding id successor db = .ok (u, db')) :
    Routed db' := by
  obtain ⟨hne, b, hb, ⟨-, -, rfl⟩ | ⟨hopen, hx⟩⟩ := retireConsumerBinding_ok hx
  · exact h.frame reconcile_frame
  · have hkey : b.bindingId = id := Table.find_key hb
    exact (retired_of_retire (hkey ▸ hne) hx).routed (h.frame reconcile_frame) (Table.mem_of_find hb) hopen

/-! ## Bodies that only read -/

theorem loadBinding_reads (id : String) : Tx.Reads (loadBinding id) :=
  .bind (.find _ _) fun _ => .bind (.require _ _) fun _ => .pure _

theorem unresolvedMembers_reads (binding : String) : Tx.Reads (unresolvedMembers binding) :=
  .bind (.ask _) fun _ => .bind (.ask _) fun _ => .bind (.require _ _) fun _ =>
    .bind (.require _ _) fun _ => .pure _

theorem selectMembers_reads (binding : String) : ∀ changes, Tx.Reads (selectMembers binding changes)
  | [] => .pure _
  | _ :: rest => .bind (.find _ _) fun _ => .bind (selectMembers_reads binding rest) fun _ => .pure _

theorem membersOf_reads (binding : String) : ∀ selected, Tx.Reads (membersOf binding selected)
  | some _ => .bind (.check _) fun changes => selectMembers_reads binding changes
  | none => unresolvedMembers_reads binding

theorem checkEvents_reads (package : UpdatePackage) (expected : List String) :
    ∀ seen events, Tx.Reads (checkEvents package expected seen events)
  | _, [] => .pure _
  | _, _ :: rest => .bind (.check _) fun _ => .bind (.require _ _) fun _ =>
    checkEvents_reads package expected _ rest

theorem missingReceipts_reads (package : UpdatePackage) (generation : Nat)
    (disposition : Disposition) :
    ∀ changes, Tx.Reads (missingReceipts package generation disposition changes)
  | [] => .pure _
  | _ :: rest => .bind (.ask _) fun _ => .bind (.require _ _) fun _ =>
    .bind (missingReceipts_reads package generation disposition rest) fun _ => .pure _

theorem checkApplied_reads (package : UpdatePackage) (generation : Nat) (now : Int)
    (change : String) : Tx.Reads (checkApplied package generation now change) :=
  .bind (.ask _) fun _ => .bind (.require _ _) fun _ => .bind (.ask _) fun _ => .require _ _

theorem checkChanges_reads (ack : UpdatePackageAck) (package : UpdatePackage) (generation : Nat)
    (now : Int) : Tx.Reads (checkChanges ack package generation now) :=
  .ite (.forEach (checkApplied_reads package generation now) _) (.pure _)

/-! ## Every call keeps the chains -/

theorem insertEvent_frame : Tx.Steps Frame insertEvent :=
  .bind (.write fun _ => .of_eq rfl rfl rfl rfl rfl (.refl _)) fun _ => .of_reads (.ask _)

theorem moveCursor_frame (binding package : String) :
    Tx.Steps Frame (moveCursor binding package) :=
  .write fun _ => .modifyBindings fun _ => ⟨rfl, rfl, rfl, rfl, rfl, .inr⟩

theorem insertReceipt_frame (row : ChangeReceipt) :
    Tx.Steps Frame (insertReceipt row) := by
  refine .insert ?_
  intro s t hins
  obtain ⟨receipts, -, rfl⟩ := Option.map_eq_some_iff.mp hins
  exact .of_eq rfl rfl rfl rfl rfl (.refl _)

theorem accept_frame (ack : UpdatePackageAck) (package : UpdatePackage) (binding : ConsumerBinding)
    (missing : List String) (now : Int) :
    Tx.Steps Frame (accept ack package binding missing now) := by
  refine .bind (.of_reads (checkChanges_reads ack package _ now)) fun _ =>
    .bind insertEvent_frame fun sequence => .bind (.write ?_) fun _ =>
    .bind (.forEach (fun _ => insertReceipt_frame _) _) fun _ => .bind ?_ fun _ => .of_reads (.pure _)
  · exact fun _ => .of_eq rfl rfl rfl rfl rfl (.refl _)
  · exact .ite (moveCursor_frame _ _) (.of_reads (.pure _))

theorem acknowledge_frame (ack : UpdatePackageAck) (now : Int) :
    Tx.Steps Frame (acknowledge ack now) := by
  refine .bind (.of_reads (.require _ _)) fun _ => .bind (.of_reads (.require _ _)) fun _ =>
    .bind (.of_reads (.check _)) fun _ => .bind (.of_reads (.find _ _)) fun package =>
    .bind (.of_reads (.require _ _)) fun _ => .bind (.of_reads (.require _ _)) fun _ =>
    .bind (.of_reads (loadBinding_reads _)) fun binding => .bind (.of_reads (.require _ _)) fun _ =>
    .bind (.of_reads (.ask _)) fun events => .bind (.of_reads (.require _ _)) fun _ =>
    .bind (.of_reads (checkEvents_reads package _ _ _)) fun _ =>
    .bind (.of_reads (missingReceipts_reads package _ _ _)) fun missing => ?_
  split
  · exact .bind (.of_reads (.require _ _)) fun _ => .of_reads (.pure _)
  · exact accept_frame ack package binding missing now

section Calls

variable [UpdateDigests]

theorem workerReceipts_reads (attempt : AttemptId) (disposition : Disposition) :
    ∀ changes, Tx.Reads (workerReceipts attempt disposition changes)
  | [] => .pure _
  | _ :: rest => .bind (.bind (.find _ _) fun _ => .bind (.find _ _) fun _ => .pure _) fun _ =>
    .bind (workerReceipts_reads attempt disposition rest) fun _ => .pure _

theorem workerMembers_reads (attempt : AttemptId) (ack : UpdatePackageAck) :
    Tx.Reads (workerMembers attempt ack) :=
  .bind (.require _ _) fun _ => .bind (.find _ _) fun _ => .bind (.check _) fun _ =>
    .bind (.require _ _) fun _ => .bind (.ask _) fun _ => .bind (.require _ _) fun _ =>
    workerReceipts_reads attempt _ _

theorem materializeUpdatePackage_frame (binding : String) (selected : Option (List String)) :
    Tx.Steps Frame (materializeUpdatePackage binding selected) := by
  refine .bind (.of_reads (.require _ _)) fun _ => .bind (.of_reads (loadBinding_reads _)) fun row =>
    .bind (.of_reads (membersOf_reads _ _)) fun members => .bind (.of_reads (.require _ _)) fun _ =>
    .bind (.of_reads (.ask _)) fun existing => ?_
  cases existing with
  | some stored => exact .bind (.of_reads (.require _ _)) fun _ => .of_reads (.pure _)
  | none =>
    refine .bind (.of_reads (.require _ _)) fun _ => .bind (.insert ?_) fun _ => .of_reads (.pure _)
    intro s t hins
    obtain ⟨packages, -, rfl⟩ := Option.map_eq_some_iff.mp hins
    exact .of_eq rfl rfl rfl rfl rfl (.refl _)

theorem acknowledgeWorkerUpdatePackage_frame (attempt : AttemptId) (ack : UpdatePackageAck)
    (now : Int) (env : Outside) :
    Tx.Steps Frame (acknowledgeWorkerUpdatePackage attempt ack now env) := by
  refine .bind (.of_reads (workerMembers_reads _ _)) fun _ => .bind (acknowledge_frame _ _) fun _ =>
    .bind (.of_reads (.ask _)) fun existing => ?_
  cases existing with
  | some stored => exact .bind (.of_reads (.require _ _)) fun _ => .of_reads (.pure _)
  | none =>
    refine .bind (.of_reads (.outside _)) fun _ => .bind insertEvent_frame fun _ =>
      .bind (.insert ?_) fun _ => .of_reads (.pure _)
    intro s t hins
    obtain ⟨workerAcks, -, rfl⟩ := Option.map_eq_some_iff.mp hins
    exact .of_eq rfl rfl rfl rfl rfl (.refl _)

theorem supersedeWorkerUpdate_frame (attempt : AttemptId) (request : SupersessionRequest)
    (now : Int) (env : Outside) :
    Tx.Steps Frame (supersedeWorkerUpdate attempt request now env) := by
  refine .bind (.of_reads (.require _ _)) fun _ => .bind (.of_reads (.find _ _)) fun _ =>
    .bind (.of_reads (.find _ _)) fun _ => .bind (.of_reads (.find _ _)) fun _ =>
    .bind (.of_reads (.ask _)) fun _ => .bind (.of_reads (.require _ _)) fun _ =>
    .bind (.of_reads (.require _ _)) fun _ => .bind (.of_reads (.find _ _)) fun _ =>
    .bind (.of_reads (.ask _)) fun existing => ?_
  cases existing with
  | some stored => exact .bind (.of_reads (.require _ _)) fun _ => .of_reads (.pure _)
  | none =>
    refine .bind (.of_reads (.require _ _)) fun _ => .bind (.of_reads (.ask _)) fun _ =>
      .bind (.of_reads (.require _ _)) fun _ => .bind (.of_reads (.ask _)) fun _ =>
      .bind (.of_reads (.require _ _)) fun _ => .bind insertEvent_frame fun _ =>
      .bind (.insert ?_) fun _ => .of_reads (.pure _)
    intro s t hins
    obtain ⟨supersessions, -, rfl⟩ := Option.map_eq_some_iff.mp hins
    exact .of_eq rfl rfl rfl rfl rfl (.refl _)

theorem acknowledgeMemoryUpdate_frame (ack : MemoryUpdateAck) (now : Int) :
    Tx.Steps Frame (acknowledgeMemoryUpdate ack now) := by
  refine .bind (.of_reads (.require _ _)) fun _ => .bind (.of_reads (.find _ _)) fun item =>
    .bind (.of_reads (.require _ _)) fun _ => .bind (.of_reads (.ask _)) fun existing => ?_
  cases existing with
  | some receipt => exact .of_reads (.pure _)
  | none =>
    refine .bind (.of_reads (.ask _)) fun _ => .bind (.of_reads (.require _ _)) fun _ =>
      .bind (.of_reads (.ask _)) fun _ => .bind (.of_reads (.require _ _)) fun _ =>
      .bind insertEvent_frame fun _ => .bind (.insert ?_) fun _ => .of_reads (.pure _)
    intro s t hins
    obtain ⟨receipts, hreceipts, rfl⟩ := Option.map_eq_some_iff.mp hins
    exact .of_eq rfl rfl rfl rfl rfl (.insert? hreceipts)

/-- What a successful call was, as far as routing is concerned. -/
inductive Moved (db db' : Routing) : Prop
  | frame (h : Frame db db')
  | created {consumer : String} {snapshot : MemorySnapshot} {env : Outside}
      (h : createMemorySnapshot consumer snapshot env db = .ok ((), db'))
  | routed {cause record : String} {revision : Nat} {severity : Severity} {sequence : Nat}
      {env : Outside} (h : recordChange cause record revision severity sequence env db = .ok ((), db'))
  | retired {binding : String} {successor : Option String}
      (h : retireConsumerBinding binding successor db = .ok ((), db'))

theorem moved_of_body {call : Call} {answer : Answer} (hx : call.body db = .ok (answer, db')) :
    Moved db db' := by
  cases call with
  | createMemorySnapshot consumer snapshot env =>
    obtain ⟨_, hx, -⟩ := Tx.map_ok.mp hx
    exact .created hx
  | recordChange cause record revision severity sequence env =>
    obtain ⟨_, hx, -⟩ := Tx.map_ok.mp hx
    exact .routed hx
  | reconcile task =>
    obtain ⟨_, hx, -⟩ := Tx.map_ok.mp hx
    rw [← Tx.write_ok.mp hx]
    exact .frame reconcile_frame
  | acknowledgeMemoryUpdate ack now =>
    obtain ⟨_, hx, -⟩ := Tx.map_ok.mp hx
    exact .frame ((acknowledgeMemoryUpdate_frame ack now).step hx)
  | materialize binding selected =>
    obtain ⟨_, hx, -⟩ := Tx.map_ok.mp hx
    exact .frame ((materializeUpdatePackage_frame binding selected).step hx)
  | acknowledge ack now =>
    obtain ⟨_, hx, -⟩ := Tx.map_ok.mp hx
    exact .frame ((acknowledge_frame ack now).step hx)
  | acknowledgeWorker attempt ack now env =>
    obtain ⟨_, hx, -⟩ := Tx.map_ok.mp hx
    exact .frame ((acknowledgeWorkerUpdatePackage_frame attempt ack now env).step hx)
  | supersede attempt request now env =>
    obtain ⟨_, hx, -⟩ := Tx.map_ok.mp hx
    exact .frame ((supersedeWorkerUpdate_frame attempt request now env).step hx)
  | retire binding successor =>
    obtain ⟨_, hx, -⟩ := Tx.map_ok.mp hx
    exact .retired hx
  | elsewhere change =>
    simp only [Call.body, Tx.write_bind, Tx.pure_ok] at hx
    obtain ⟨-, rfl⟩ := hx
    exact .frame (.of_eq rfl rfl rfl rfl rfl (.refl _))

/-- **Every call keeps the chains.** -/
theorem Routed.exec (h : Routed db) (call : Call) : Routed (Updates.exec call db).2 := by
  refine Tx.commit_preserves (R := Tx.Carries Routed) (fun h => h) ?_ h
  intro answer db' hx h
  cases moved_of_body hx with
  | frame hf => exact h.frame hf
  | created hx => exact h.createMemorySnapshot hx
  | routed hx => exact h.recordChange hx
  | retired hx => exact h.retireConsumerBinding hx

omit [UpdateDigests] in
theorem Routed.created : Routed Routing.created := by
  constructor <;> intro x hx <;> cases hx

/-- The state that a run of calls reaches. -/
def reached (cs : List Call) : Routing := ((Run.start Routing.created).calls Updates.exec cs).state

theorem Routed.calls (cs : List Call) : Routed (reached cs) :=
  Run.invariant (I := fun r => Routed r.state) Routed.created fun _ c _ h => h.exec c

/-! ## Bindings over a run -/

/-- What never changes about a binding. -/
structure ConsumerBinding.Kept (b b' : ConsumerBinding) : Prop where
  snapshotId : b'.snapshotId = b.snapshotId
  generation : b'.generation = b.generation
  retired : b.retired = true → b'.retired = true ∧ b'.successorBindingId = b.successorBindingId

omit [UpdateDigests] in
theorem ConsumerBinding.Same.kept {b b' : ConsumerBinding} (h : b.Same b') : b.Kept b' :=
  ⟨h.snapshotId, h.generation, fun hr => ⟨h.retired.trans hr, h.successor⟩⟩

omit [UpdateDigests] in
theorem ConsumerBinding.Kept.trans {a b c : ConsumerBinding} (h : a.Kept b) (h' : b.Kept c) :
    a.Kept c where
  snapshotId := h'.snapshotId.trans h.snapshotId
  generation := h'.generation.trans h.generation
  retired := by
    intro hr
    obtain ⟨hb, hs⟩ := h.retired hr
    obtain ⟨hc, hs'⟩ := h'.retired hb
    exact ⟨hc, hs'.trans hs⟩

/-- Every stored binding is still there. -/
def KeepsBindings (db db' : Routing) : Prop :=
  ∀ k b, db.bindings.find k = some b → ∃ b', db'.bindings.find k = some b' ∧ b.Kept b'

omit [UpdateDigests] in
theorem KeepsBindings.refl (db : Routing) : KeepsBindings db db :=
  fun _ b hb => ⟨b, hb, rfl, rfl, fun hr => ⟨hr, rfl⟩⟩

omit [UpdateDigests] in
theorem KeepsBindings.trans {db'' : Routing} (h : KeepsBindings db db')
    (h' : KeepsBindings db' db'') : KeepsBindings db db'' := by
  intro k b hb
  obtain ⟨b', hb', hk⟩ := h k b hb
  obtain ⟨b'', hb'', hk'⟩ := h' k b' hb'
  exact ⟨b'', hb'', hk.trans hk'⟩

omit [UpdateDigests] in
theorem Frame.keepsBindings (h : Frame db db') : KeepsBindings db db' := by
  intro k b hb
  obtain ⟨b', hb', hs⟩ := h.kept k b hb
  exact ⟨b', hb', hs.kept⟩

omit [UpdateDigests] in
theorem Retired.keepsBindings {b : ConsumerBinding} (hr : Retired db b db')
    (hb : b ∈ db.bindings.rows) (hopen : b.retired = false) : KeepsBindings db db' := by
  obtain ⟨successor, hs⟩ := hr.bindings
  intro k a ha
  rw [hs, find_withRetired, ha]
  refine ⟨_, rfl, ?_⟩
  beta_reduce
  split
  · next he =>
    obtain rfl := Table.eq_of_mem (Table.mem_of_find ha) hb he
    refine ⟨rfl, rfl, ?_⟩
    intro hra
    rw [hopen] at hra
    cases hra
  · exact ⟨rfl, rfl, fun hra => ⟨hra, rfl⟩⟩

theorem createMemorySnapshot_keepsBindings {consumer : String} {snapshot : MemorySnapshot}
    {env : Outside} {u : Unit}
    (hx : createMemorySnapshot consumer snapshot env db = .ok (u, db')) : KeepsBindings db db' := by
  simp only [createMemorySnapshot, Tx.outside_bind, Tx.ask_bind] at hx
  obtain ⟨-, hx⟩ := hx
  split at hx
  · obtain ⟨-, rfl⟩ := Tx.pure_ok.mp hx
    exact .refl _
  · obtain ⟨db₁, hins, hx⟩ := Tx.insert_bind.mp hx
    obtain ⟨snapshots, -, rfl⟩ := Option.map_eq_some_iff.mp hins
    simp only [ensureForSnapshot, Tx.ask_bind] at hx
    split at hx
    · obtain ⟨-, rfl⟩ := Tx.pure_ok.mp hx
      exact KeepsBindings.refl _
    · simp only [Tx.ask_bind, Tx.require_bind, Tx.insert_ok, Option.map_eq_some_iff] at hx
      obtain ⟨-, bindings, hbindings, rfl⟩ := hx
      intro k b hb
      exact ⟨b, Table.find_insert?_of_some hbindings hb, rfl, rfl, fun hr => ⟨hr, rfl⟩⟩

theorem recordChange_keepsBindings {cause record : String} {revision sequence : Nat}
    {severity : Severity} {env : Outside} {u : Unit}
    (hx : recordChange cause record revision severity sequence env db = .ok (u, db')) :
    KeepsBindings db db' := by
  simp only [recordChange, reconcileActive, reconcileSelected, Tx.write_bind, Tx.ask_bind,
    Tx.require_bind] at hx
  obtain ⟨-, hx⟩ := hx
  obtain ⟨_, db₂, hloop, hx⟩ := Tx.bind_ok.mp hx
  obtain ⟨-, rfl⟩ := Tx.outside_ok.mp hx
  refine KeepsBindings.trans reconcile_frame.keepsBindings
    (Tx.forEach_preserves KeepsBindings.refl KeepsBindings.trans ?_ hloop)
  intro b _ s s' u hbody k a ha
  rw [deliver_bindings hbody]
  exact KeepsBindings.refl s k a ha

omit [UpdateDigests] in
theorem retireConsumerBinding_keepsBindings {id : String} {successor : Option String} {u : Unit}
    (hx : retireConsumerBinding id successor db = .ok (u, db')) : KeepsBindings db db' := by
  obtain ⟨hne, b, hb, ⟨-, -, rfl⟩ | ⟨hopen, hx⟩⟩ := retireConsumerBinding_ok hx
  · exact reconcile_frame.keepsBindings
  · have hkey : b.bindingId = id := Table.find_key hb
    exact KeepsBindings.trans reconcile_frame.keepsBindings
      ((retired_of_retire (hkey ▸ hne) hx).keepsBindings (Table.mem_of_find hb) hopen)

theorem exec_keepsBindings (call : Call) (db : Routing) :
    KeepsBindings db (Updates.exec call db).2 := by
  refine Tx.commit_preserves (KeepsBindings.refl db) ?_
  intro answer db' hx
  cases moved_of_body hx with
  | frame hf => exact hf.keepsBindings
  | created hx => exact createMemorySnapshot_keepsBindings hx
  | routed hx => exact recordChange_keepsBindings hx
  | retired hx => exact retireConsumerBinding_keepsBindings hx

theorem calls_keepsBindings (cs : List Call) (db : Routing) :
    KeepsBindings db ((Run.start db).calls Updates.exec cs).state :=
  Run.preserves (r := Run.start db) KeepsBindings.refl KeepsBindings.trans
    fun s c _ => exec_keepsBindings c s

/-! ## A first retirement succeeds -/

omit [UpdateDigests] in
/-- Of two open bindings only one holds a change. -/
theorem Routed.not_mem_holders (h : Routed db) {b : ConsumerBinding} (hb : b ∈ db.bindings.rows)
    (hopen : b.retired = false) {delivery other : String}
    (hm : delivery ∈ db.unresolvedDeliveries b) (ho : db.isOpen other) (hne : other ≠ b.bindingId) :
    other ∉ db.holders delivery := by
  intro hmem
  have hown := ((h.mem_unresolved hb).mp hm).1
  obtain ⟨d, hd, hid⟩ := h.obligation_intent _ (mem_holders.mp hown)
  obtain ⟨earlier, last, hchain, hearlier, -⟩ := h.held d hd
  rw [show d.id = delivery from hid] at hchain
  have h₁ := Routing.Held.eq_last hchain hearlier hown ⟨b, Table.find_of_mem hb, hopen⟩
  have h₂ := Routing.Held.eq_last hchain hearlier hmem ho
  exact hne (h₂.trans h₁.symm)

omit [UpdateDigests] in
theorem retire_succeeds (h : Routed db) {b : ConsumerBinding} (hb : b ∈ db.bindings.rows)
    (hopen : b.retired = false) {successor : Option String} (hne : successor ≠ some b.bindingId)
    (hlen : (db.unresolvedDeliveries b).length ≤ 10000) :
    ∃ db', retire b successor db = .ok ((), db') := by
  simp only [retire, Tx.ask_bind, Tx.require_bind]
  cases hmove : db.moveTo successor with
  | ok next =>
    obtain ⟨rfl, row, hrow, hrowOpen, -⟩ := moveTo_ok hmove
    obtain ⟨db₁, hloop⟩ := obligationRows.forEach_insert (fun d => ⟨next, d⟩)
      StoreError.conflict (db.unresolvedDeliveries b) db
      (nodup_unresolvedDeliveries.map fun _ _ he => congrArg Prod.snd he) (by
        intro d hd
        rw [Table.find_eq_none_iff]
        intro hm
        obtain ⟨o, ho, hkey⟩ := List.mem_map.mp hm
        cases hkey
        exact h.not_mem_holders hb hopen hd ⟨row, hrow, hrowOpen⟩ (fun he => hne (he ▸ rfl))
          (mem_holders.mpr ho))
    exact ⟨_, hlen, Tx.bind_ok.mpr ⟨(), db₁, hloop, rfl⟩⟩
  | error reason =>
    obtain ⟨db₁, hloop⟩ := undeliverableRows.forEach_insert (fun d => ⟨b.bindingId, d, reason⟩)
      StoreError.conflict (db.unresolvedDeliveries b) db
      (nodup_unresolvedDeliveries.map fun _ _ he => congrArg Prod.snd he) (by
        intro d hd
        rw [Table.find_eq_none_iff]
        intro hm
        obtain ⟨u, hu, hkey⟩ := List.mem_map.mp hm
        have hret := h.undeliverable_retired u hu
        rw [show u.bindingId = b.bindingId from congrArg Prod.fst hkey] at hret
        exact not_isRetired_of_isOpen ⟨b, Table.find_of_mem hb, hopen⟩ hret)
    exact ⟨_, hlen, Tx.bind_ok.mpr ⟨(), db₁, hloop, rfl⟩⟩

omit [UpdateDigests] in
/-- The rows of reconciled bindings. -/
theorem find_reconciledAll {k : String} :
    db.reconciledAll.bindings.find k = (db.bindings.find k).map db.reconciled := by
  unfold Routing.reconciledAll Routing.modifyBindings
  rw [Table.find_modify]
  congr 1

theorem exec_retire (id : String) (successor : Option String) (db : Routing) :
    Updates.exec (.retire id successor) db =
      Tx.commit ((fun _ => Answer.done) <$> retireConsumerBinding id successor) db := rfl

/-- The body of a successful call. -/
theorem retire_body {id : String} {successor : Option String}
    (h : (Updates.exec (.retire id successor) db).1 = .ok .done) :
    retireConsumerBinding id successor db =
      .ok ((), (Updates.exec (.retire id successor) db).2) := by
  rw [exec_retire] at h ⊢
  obtain ⟨_, hx, -⟩ := Tx.map_ok.mp (Tx.commit_ok h)
  exact hx

theorem exec_of_retire {id : String} {successor : Option String}
    (h : retireConsumerBinding id successor db = .ok ((), db')) :
    Updates.exec (.retire id successor) db = (.ok .done, db') := by
  have hbody : ((fun _ => Answer.done) <$> retireConsumerBinding id successor) db =
      .ok (Answer.done, db') := Tx.map_ok.mpr ⟨(), h, rfl⟩
  rw [exec_retire, Tx.commit, hbody]

/-- Nothing stands in the way of a first retirement: no successor holds a change already. -/
theorem Routed.retire_succeeds (h : Routed db) {id : String} {successor : Option String}
    {b : ConsumerBinding} (hb : db.bindings.find id = some b) (hopen : b.retired = false)
    (hid : hex64 id = true) (hsuccessor : successor.all hex64 = true) (hne : successor ≠ some id)
    (hlen : (db.unresolvedDeliveries b).length ≤ 10000) :
    (Updates.exec (.retire id successor) db).1 = .ok .done := by
  have hfind : db.reconciledAll.bindings.find id = some (db.reconciled b) := by
    rw [find_reconciledAll, hb]
    rfl
  have hkey : (db.reconciled b).bindingId = id := Table.find_key hfind
  have hsame : b.Same (db.reconciled b) := reconciled_same b
  have hopen' : (db.reconciled b).retired = false := hsame.retired.trans hopen
  have hunresolved : db.reconciledAll.unresolvedDeliveries (db.reconciled b) =
      db.unresolvedDeliveries b := by
    unfold Routing.unresolvedDeliveries
    rw [hsame.snapshotId, hsame.bindingId]
    rfl
  obtain ⟨db', hdb'⟩ := Updates.retire_succeeds (h.frame reconcile_frame) (Table.mem_of_find hfind)
    hopen' (hkey.symm ▸ hne) (hunresolved.symm ▸ hlen)
  have hx : Updates.retireConsumerBinding id successor db = .ok ((), db') := by
    simp only [Updates.retireConsumerBinding, reconcileActive, reconcileSelected, Tx.require_bind,
      Tx.write_bind, Tx.find_bind]
    refine ⟨⟨hid, hsuccessor⟩, hne, _, hfind, ?_⟩
    rw [hopen']
    exact hdb'
  rw [exec_of_retire hx]

/-! ## What a retirement hands on -/

/-- The binding applied the change through a package, or superseded it. -/
def Routing.SettledBy (db : Routing) (binding change : String) : Prop :=
  db.appliedBy binding change = true ∨ db.supersededBy binding change = true

/-- No change that the binding settled was handed on or recorded as undeliverable. -/
def KeepsSettled (binding : String) (db db' : Routing) : Prop :=
  ∀ change, db.SettledBy binding change → ∀ other,
    (⟨other, change⟩ ∈ db'.obligations.rows → ⟨other, change⟩ ∈ db.obligations.rows) ∧
      ∀ reason, ⟨other, change, reason⟩ ∈ db'.undeliverable.rows →
        ⟨other, change, reason⟩ ∈ db.undeliverable.rows

/-- Every change that the binding settled was applied by a worker, too. -/
def Routing.SettledByWorker (db : Routing) (binding : String) : Prop :=
  ∀ change, ⟨binding, change⟩ ∈ db.obligations.rows → db.SettledBy binding change →
    db.workerApplied change = true

omit [UpdateDigests] in
theorem Retired.keepsSettled_iff {b : ConsumerBinding} {successor : Option String} {u : Unit}
    (h : Routed db) (hb : b ∈ db.bindings.rows) (hx : retire b successor db = .ok (u, db')) :
    KeepsSettled b.bindingId db db' ↔ db.SettledByWorker b.bindingId := by
  have hmem : ∀ change, change ∈ db.unresolvedDeliveries b ↔
      ⟨b.bindingId, change⟩ ∈ db.obligations.rows ∧ db.workerApplied change = false := by
    intro change
    rw [h.mem_unresolved hb, mem_holders]
  constructor
  · -- what is still unresolved is written, and its row is new
    intro hkeeps change hobl hsettled
    by_contra hw
    have hun := (hmem change).mpr ⟨hobl, by simpa using hw⟩
    obtain ⟨next, t, -, ht, rfl⟩ | ⟨reason, t, -, ht, rfl⟩ := retire_ok hx
    · have hold := ((hkeeps change hsettled next).1 (by
        change _ ∈ t.rows
        rw [ht]
        exact List.mem_append_right _ (List.mem_map.mpr ⟨change, hun, rfl⟩)))
      have hnodup := t.nodup
      rw [ht, List.map_append, List.nodup_append] at hnodup
      exact hnodup.2.2 _ (List.mem_map_of_mem hold) _
        (List.mem_map_of_mem (List.mem_map.mpr ⟨change, hun, rfl⟩)) rfl
    · have hold := ((hkeeps change hsettled b.bindingId).2 reason (by
        change _ ∈ t.rows
        rw [ht]
        exact List.mem_append_right _ (List.mem_map.mpr ⟨change, hun, rfl⟩)))
      have hnodup := t.nodup
      rw [ht, List.map_append, List.nodup_append] at hnodup
      exact hnodup.2.2 _ (List.mem_map_of_mem hold) _
        (List.mem_map_of_mem (List.mem_map.mpr ⟨change, hun, rfl⟩)) rfl
  · intro hworker change hsettled other
    have hnot : change ∉ db.unresolvedDeliveries b := by
      intro hun
      obtain ⟨hobl, hw⟩ := (hmem change).mp hun
      rw [hworker change hobl hsettled] at hw
      cases hw
    obtain ⟨next, t, -, ht, rfl⟩ | ⟨reason, t, -, ht, rfl⟩ := retire_ok hx
    · refine ⟨fun ho => ?_, fun _ hu => hu⟩
      change _ ∈ t.rows at ho
      rw [ht] at ho
      rcases List.mem_append.mp ho with ho | ho
      · exact ho
      · obtain ⟨d, hd, he⟩ := List.mem_map.mp ho
        cases he
        exact absurd hd hnot
    · refine ⟨fun ho => ho, fun _ hu => ?_⟩
      change _ ∈ t.rows at hu
      rw [ht] at hu
      rcases List.mem_append.mp hu with hu | hu
      · exact hu
      · obtain ⟨d, hd, he⟩ := List.mem_map.mp hu
        cases he
        exact absurd hd hnot

omit [UpdateDigests] in
theorem Routed.keepsSettled_iff (h : Routed db) {id : String} {successor : Option String}
    (hx : Updates.retireConsumerBinding id successor db = .ok ((), db')) :
    KeepsSettled id db db' ↔ db.isRetired id ∨ db.SettledByWorker id := by
  obtain ⟨hne, b, hb, ⟨hret, -, rfl⟩ | ⟨hopen, hx⟩⟩ := retireConsumerBinding_ok hx
  · refine ⟨fun _ => .inl ?_, fun _ => fun change _ other => ⟨fun ho => ho, fun _ hu => hu⟩⟩
    rw [find_reconciledAll] at hb
    obtain ⟨b₀, hb₀, rfl⟩ := Option.map_eq_some_iff.mp hb
    exact ⟨b₀, hb₀, (reconciled_same b₀).retired ▸ hret⟩
  · have hkey : b.bindingId = id := Table.find_key hb
    have hiff := Retired.keepsSettled_iff (h.frame reconcile_frame) (Table.mem_of_find hb) hx
    rw [hkey] at hiff
    refine hiff.trans ⟨fun hw => .inr hw, ?_⟩
    rintro (hret | hw)
    · rw [find_reconciledAll] at hb
      obtain ⟨b₀, hb₀, rfl⟩ := Option.map_eq_some_iff.mp hb
      exact absurd hret (not_isRetired_of_isOpen ⟨b₀, hb₀, (reconciled_same b₀).retired ▸ hopen⟩)
    · exact hw

/-! ## Repeating a retirement -/

/-- The binding retired in favour of `successor`. -/
def Routing.RetiredTo (db : Routing) (binding : String) (successor : Option String) : Prop :=
  ∃ b, db.bindings.find binding = some b ∧ b.retired = true ∧ b.successorBindingId = successor

/-- The binding can take over changes: it is open, and it is active once it is reconciled. -/
def Routing.usable (db : Routing) (binding : String) : Bool :=
  (db.bindings.find binding).any fun b => !b.retired && (db.reconciled b).active

/-- The call again, right away or after any other calls: it succeeds and changes nothing, but for
the reconciliation that a later call of this kind starts with. -/
def Repeats (binding : String) (successor : Option String) (db : Routing) : Prop :=
  Updates.exec (.retire binding successor) db = (.ok .done, db) ∧
    ∀ later, Updates.exec (.retire binding successor)
        ((Run.start db).calls Updates.exec later).state =
      (.ok .done, ((Run.start db).calls Updates.exec later).state.reconciledAll)

omit [UpdateDigests] in
theorem KeepsBindings.retiredTo (h : KeepsBindings db db') {binding : String}
    {successor : Option String} (hr : db.RetiredTo binding successor) :
    db'.RetiredTo binding successor := by
  obtain ⟨b, hb, hret, hs⟩ := hr
  obtain ⟨b', hb', hk⟩ := h binding b hb
  obtain ⟨hret', hs'⟩ := hk.retired hret
  exact ⟨b', hb', hret', hs'.trans hs⟩

omit [UpdateDigests] in
theorem reconciledAll_keepsBindings : KeepsBindings db db.reconciledAll :=
  reconcile_frame.keepsBindings

/-- A repeat for the stored successor is accepted. -/
theorem exec_retired {id : String} {successor : Option String} (hid : hex64 id = true)
    (hsuccessor : successor.all hex64 = true) (hne : successor ≠ some id)
    (hr : db.RetiredTo id successor) :
    Updates.exec (.retire id successor) db = (.ok .done, db.reconciledAll) := by
  obtain ⟨b, hb, hret, rfl⟩ := reconciledAll_keepsBindings.retiredTo hr
  apply exec_of_retire
  simp only [retireConsumerBinding, reconcileActive, reconcileSelected, Tx.require_bind,
    Tx.write_bind, Tx.find_bind]
  refine ⟨⟨hid, hsuccessor⟩, hne, b, hb, ?_⟩
  rw [hret]
  exact Tx.require_ok.mpr ⟨rfl, rfl⟩

/-- A repeat that is accepted names the stored successor. -/
theorem Routing.RetiredTo.eq_of_exec {id : String} {successor stored : Option String}
    (hr : db.RetiredTo id stored) (hx : (Updates.exec (.retire id successor) db).1 = .ok .done) :
    stored = successor := by
  obtain ⟨b, hb, hret, rfl⟩ := reconciledAll_keepsBindings.retiredTo hr
  obtain ⟨-, b', hb', ⟨-, hs, -⟩ | ⟨hopen, -⟩⟩ := retireConsumerBinding_ok (retire_body hx)
  · rw [hb] at hb'
    cases hb'
    exact hs
  · rw [hb] at hb'
    cases hb'
    rw [hret] at hopen
    cases hopen

omit [UpdateDigests] in
/-- Reconciling a binding again changes nothing. -/
theorem reconciled_idem {b : ConsumerBinding} (hs : db'.snapshots = db.snapshots)
    (ht : db'.tasks = db.tasks) (ha : db'.attempts = db.attempts) :
    db'.reconciled (db.reconciled b) = db.reconciled b := by
  have hroute : ∀ snapshot, db'.routeState snapshot = db.routeState snapshot := by
    intro snapshot
    unfold Routing.routeState
    rw [ht, ha]
  unfold Routing.reconciled
  by_cases hr : b.retired = true
  · rw [if_pos hr, if_pos hr]
  · rw [if_neg hr]
    cases hfind : db.snapshots.find b.snapshotId with
    | none => simp [hr, hs, hfind]
    | some snapshot =>
      simp only [hr, hs, hfind, hroute]
      by_cases hc : b.attemptId.isNone = true ∧ b.taskId.isSome = true
      · simp [hc]
      · simp only [if_neg hc]
        simp

omit [UpdateDigests] in
theorem reconciledAll_eq_self (h : ∀ b ∈ db.bindings.rows, db.reconciled b = b) :
    db.reconciledAll = db := by
  unfold Routing.reconciledAll Routing.modifyBindings
  rw [Table.modify_eq_self]
  intro b hb
  rcases selecting_cases (p := fun c => (none : Option TaskId).all fun t => c.taskId = some t)
    (f := db.reconciled) b with he | he
  · rw [he, h b hb]
  · exact he

omit [UpdateDigests] in
/-- Nothing is left to reconcile after a retirement. -/
theorem reconciledAll_retired {id : String} {successor : Option String} {u : Unit}
    (hx : retireConsumerBinding id successor db = .ok (u, db')) : db'.reconciledAll = db' := by
  have hall : ∀ b ∈ db.reconciledAll.bindings.rows, ∃ b₀, b = db.reconciled b₀ := by
    intro b hb
    have hfind := Table.find_of_mem hb
    rw [find_reconciledAll] at hfind
    obtain ⟨b₀, -, he⟩ := Option.map_eq_some_iff.mp hfind
    exact ⟨b₀, he.symm⟩
  apply reconciledAll_eq_self
  obtain ⟨-, b, -, ⟨-, -, rfl⟩ | ⟨-, hx⟩⟩ := retireConsumerBinding_ok hx
  · intro c hc
    obtain ⟨c₀, rfl⟩ := hall c hc
    exact reconciled_idem rfl rfl rfl
  · -- the retired row is skipped, and the other rows are those that were just reconciled
    have hrows : ∀ {db₂ : Routing} {f : ConsumerBinding → Option String},
        db₂.bindings = db.reconciledAll.bindings → db₂.snapshots = db.snapshots →
        db₂.tasks = db.tasks → db₂.attempts = db.attempts →
        ∀ c ∈ (db₂.withRetired b.bindingId f).bindings.rows,
          (db₂.withRetired b.bindingId f).reconciled c = c := by
      intro db₂ f hb₂ hs ht ha c hc
      obtain ⟨c₁, hc₁, rfl⟩ := mem_modifyBindings.mp hc
      rcases selecting_cases (p := fun c => c.bindingId = b.bindingId)
        (f := fun c => c.retiredTo (f c)) c₁ with he | he
      · rw [he]
        rfl
      · rw [he]
        rw [hb₂] at hc₁
        obtain ⟨c₀, rfl⟩ := hall c₁ hc₁
        exact reconciled_idem hs ht ha
    obtain ⟨next, t, -, -, rfl⟩ | ⟨reason, t, -, -, rfl⟩ := retire_ok hx
    · exact hrows rfl rfl rfl rfl
    · exact hrows rfl rfl rfl rfl

omit [UpdateDigests] in
theorem moveTo_reconciledAll {successor : String} {next : String} :
    db.reconciledAll.moveTo (some successor) = .ok next ↔
      next = successor ∧ db.usable successor = true := by
  unfold Routing.moveTo Routing.usable
  simp only [find_reconciledAll]
  cases db.bindings.find successor with
  | none => simp
  | some b =>
    have hr : (db.reconciled b).retired = b.retired := (reconciled_same b).retired
    simp only [Option.map_some, Option.any_some, hr]
    cases b.retired <;> cases (db.reconciled b).active <;> simp [eq_comm]

omit [UpdateDigests] in
/-- Which successor a successful call leaves in the row. -/
theorem Routed.retiredTo (h : Routed db) {id : String} {successor : Option String} {u : Unit}
    (hx : Updates.retireConsumerBinding id successor db = .ok (u, db')) :
    ∃ stored, db'.RetiredTo id stored ∧ (stored = successor ↔
      db.isRetired id ∨ successor = none ∨ ∃ s, successor = some s ∧ db.usable s = true) := by
  obtain ⟨hne, b, hb, ⟨hret, hs, rfl⟩ | ⟨hopen, hx⟩⟩ := retireConsumerBinding_ok hx
  · refine ⟨successor, ⟨b, hb, hret, hs⟩, iff_of_true rfl (.inl ?_)⟩
    rw [find_reconciledAll] at hb
    obtain ⟨b₀, hb₀, rfl⟩ := Option.map_eq_some_iff.mp hb
    exact ⟨b₀, hb₀, (reconciled_same b₀).retired ▸ hret⟩
  · have hkey : b.bindingId = id := Table.find_key hb
    have hnot : ¬db.isRetired id := by
      rw [find_reconciledAll] at hb
      obtain ⟨b₀, hb₀, rfl⟩ := Option.map_eq_some_iff.mp hb
      exact not_isRetired_of_isOpen ⟨b₀, hb₀, (reconciled_same b₀).retired ▸ hopen⟩
    obtain ⟨next, t, hmove, -, rfl⟩ | ⟨reason, t, hmove, -, rfl⟩ := retire_ok hx
    · obtain ⟨rfl, -⟩ := moveTo_ok hmove
      refine ⟨some next, ⟨b.retiredTo (some next), ?_, rfl, rfl⟩,
        iff_of_true rfl (.inr (.inr ⟨next, rfl, (moveTo_reconciledAll.mp hmove).2⟩))⟩
      rw [find_withRetired]
      change (db.reconciledAll.bindings.find id).map _ = _
      rw [hb, Option.map_some, if_pos rfl]
    · have hnone := (h.frame reconcile_frame).open_successor b (Table.mem_of_find hb) hopen
      refine ⟨none, ⟨b.retiredTo none, ?_, rfl, rfl⟩, ?_⟩
      · rw [find_withRetired]
        change (db.reconciledAll.bindings.find id).map _ = _
        rw [hb, Option.map_some, if_pos rfl, hnone]
      · cases successor with
        | none => simp
        | some s =>
          refine iff_of_false (by simp) ?_
          rintro (hret | hs | ⟨s', hs', husable⟩)
          · exact hnot hret
          · cases hs
          · cases hs'
            rw [moveTo_reconciledAll.mpr ⟨rfl, husable⟩] at hmove
            cases hmove

theorem Routed.repeats_iff (h : Routed db) {id : String} {successor : Option String}
    (hx : (Updates.exec (.retire id successor) db).1 = .ok .done) :
    Repeats id successor (Updates.exec (.retire id successor) db).2 ↔
      db.isRetired id ∨ successor = none ∨ ∃ s, successor = some s ∧ db.usable s = true := by
  have hbody := retire_body hx
  obtain ⟨stored, hstored, hiff⟩ := h.retiredTo hbody
  rw [← hiff]
  have hform : hex64 id = true ∧ successor.all hex64 = true ∧ successor ≠ some id := by
    have hb := hbody
    simp only [Updates.retireConsumerBinding, Tx.require_bind] at hb
    exact ⟨hb.1.1, hb.1.2, hb.2.1⟩
  constructor
  · intro hrep
    exact hstored.eq_of_exec (by rw [hrep.1])
  · rintro rfl
    refine ⟨?_, fun later => ?_⟩
    · rw [exec_retired hform.1 hform.2.1 hform.2.2 hstored, reconciledAll_retired hbody]
    · exact exec_retired hform.1 hform.2.1 hform.2.2
        ((calls_keepsBindings later _).retiredTo hstored)

/-! ## The main result -/

/-- An acknowledgement or a supersession resolved the change. -/
def Routing.Resolved (db : Routing) (change : String) : Prop :=
  db.workerApplied change = true ∨ ∃ binding, db.SettledBy binding change

/-- The change is an obligation of exactly one open binding, or it is recorded undeliverable for
the retired binding that was given it last. -/
def Routing.Placed (db : Routing) (change : String) : Prop :=
  (∃! binding, ⟨binding, change⟩ ∈ db.obligations.rows ∧ db.isOpen binding) ∨
    ∃ binding, (db.holders change).getLast? = some binding ∧ db.isRetired binding ∧
      ∃ reason, ⟨binding, change, reason⟩ ∈ db.undeliverable.rows

omit [UpdateDigests] in
theorem Routing.Held.placed {change : String} (h : db.Held change)
    (hw : db.workerApplied change = false) : db.Placed change := by
  obtain ⟨earlier, last, hchain, hearlier, hopen | ⟨hret, ⟨u, hu, hkey⟩ | happlied⟩⟩ := h
  · refine .inl ⟨last, ⟨mem_holders.mp (by rw [hchain]; simp), hopen⟩, ?_⟩
    rintro other ⟨ho, hother⟩
    exact eq_last hchain hearlier (mem_holders.mpr ho) hother
  · refine .inr ⟨last, by rw [hchain]; simp, hret, u.reason, ?_⟩
    cases hkey
    exact hu
  · rw [hw] at happlied
    cases happlied

/-- **Obligations and retirement.** In every run: what nothing resolved is an obligation of exactly
one open binding or recorded undeliverable for its last holder; the successor of a first retirement
never stands in its way; a retirement keeps what the binding settled to itself exactly if a worker
applied all of it, too; and it can be repeated exactly if the successor that was asked for took
over, or none was asked for. -/
theorem obligations_over_retirements (cs : List Call) :
    (∀ d ∈ (reached cs).intents.rows, ¬(reached cs).Resolved d.id → (reached cs).Placed d.id) ∧
      (∀ id successor b, (reached cs).bindings.find id = some b → b.retired = false →
        hex64 id = true → successor.all hex64 = true → successor ≠ some id →
        ((reached cs).unresolvedDeliveries b).length ≤ 10000 →
          (Updates.exec (.retire id successor) (reached cs)).1 = .ok .done) ∧
      ∀ id successor db', Updates.exec (.retire id successor) (reached cs) = (.ok .done, db') →
        (KeepsSettled id (reached cs) db' ↔
          (reached cs).isRetired id ∨ (reached cs).SettledByWorker id) ∧
        (Repeats id successor db' ↔ (reached cs).isRetired id ∨ successor = none ∨
          ∃ s, successor = some s ∧ (reached cs).usable s = true) := by
  have h := Routed.calls cs
  refine ⟨?_, ?_, ?_⟩
  · intro d hd hres
    refine (h.held d hd).placed ?_
    cases hw : (reached cs).workerApplied d.id with
    | false => rfl
    | true => exact absurd (.inl hw) hres
  · intro id successor b hb hopen hid hsuccessor hne hlen
    exact h.retire_succeeds hb hopen hid hsuccessor hne hlen
  · intro id successor db' hx
    have hok : (Updates.exec (.retire id successor) (reached cs)).1 = .ok .done := by rw [hx]
    obtain rfl : (Updates.exec (.retire id successor) (reached cs)).2 = db' := by rw [hx]
    exact ⟨h.keepsSettled_iff (retire_body hok), h.repeats_iff hok⟩

end Calls

/-! ### A settled change that comes back -/

namespace Resurrection

def pad64 (s : String) : String := String.ofList (List.replicate (64 - s.length) '0') ++ s

/-- Short identities at the length of a digest. -/
@[reducible] def shortDigests : UpdateDigests where
  binding := fun _ generation snapshot => pad64 (toString generation ++ snapshot)
  delivery := fun _ _ snapshot record revision => pad64 (snapshot ++ record ++ toString revision)
  update := fun _ member => member.changeId
  package := fun binding _ changes =>
    pad64 (String.ofList (binding.toList.drop 60) ++ toString changes.length)
  manifest := fun _ _ members => pad64 ("f" ++ toString members.length)

/-- One valid revision. -/
def revision : Elsewhere where
  tasks := .empty
  attempts := .empty
  revisions := [⟨"a", 1, "body"⟩]
  heads := ⟨[⟨"a", 1, true, 1⟩], by simp⟩
  validity := ⟨[⟨"a", 1, .valid, "", none, 0⟩], by simp⟩
  events := 0

def first : String := pad64 "1aa"
def second : String := pad64 "2bb"
def missing : String := pad64 "3cc"
def change : String := pad64 "aaa1"

def ack (disposition : Disposition) : UpdatePackageAck :=
  ⟨1, pad64 "1aa1", pad64 "f1", [change], disposition⟩

/-- The first generation of the coordinator applies its only package. -/
def history : List Call := [.elsewhere revision,
  .createMemorySnapshot "coordinator" ⟨"aa", none⟩ {},
  .createMemorySnapshot "coordinator" ⟨"bb", none⟩ {},
  .recordChange "cause" "a" 1 .informational 1 {},
  .materialize first none, .acknowledge (ack .seen) 0, .acknowledge (ack .applied) 0]

/-- The applied change is handed to the successor as unresolved, and a retirement for a successor
that is not stored cannot be repeated. -/
theorem settled_change_is_handed_on :
    (@exec shortDigests (.retire first (some second)) (@reached shortDigests history)).1 =
        .ok .done ∧
      (@reached shortDigests history).SettledBy first change ∧
      ⟨second, change⟩ ∉ (@reached shortDigests history).obligations.rows ∧
      ⟨second, change⟩ ∈ (@exec shortDigests (.retire first (some second))
        (@reached shortDigests history)).2.obligations.rows ∧
      (@exec shortDigests (.retire first (some missing)) (@reached shortDigests history)).1 =
        .ok .done ∧
      (@exec shortDigests (.retire first (some missing)) (@exec shortDigests
        (.retire first (some missing)) (@reached shortDigests history)).2).1 = .error .conflict := by
  unfold Routing.SettledBy
  decide +kernel

end Resurrection

end Herdr.Updates
