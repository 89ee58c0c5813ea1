import Herdr.Store.ResourceIndexes

/-!
# The indexes of retained resources and identity gaps are their views

What a view selects at a key depends on the rows that name the key only, so a trigger that refreshes
the keys of the changed row leaves nothing stale. The keys of the source tables make the selected
rows distinct, so no insert of a trigger fails.
-/

namespace Herdr.ResourceIndexes

open Table (RowChange Changed)

variable {db db' : IndexStore} {operation : String}

/-! ## Retained resources -/

/-- The operation's attempt has terminated and its launch was acknowledged. -/
def IndexStore.Over (db : IndexStore) (operation : String) : Prop :=
  db.started operation = true ∧ ∃ i ∈ db.attemptInputs.rows, i.operationId = operation ∧
    ∃ a ∈ db.attempts.rows, a.id = i.attemptId ∧ a.terminationObserved = true

/-- The event is a resource of its operation. -/
def IndexStore.Retains (db : IndexStore) (e : Event) : Prop :=
  e.kind = launchWorkspace ∨ e.kind = launchTarget ∧ ¬db.Over e.entity

theorem inputs_le_one (db : IndexStore) (operation : String) :
    (db.attemptInputs.rows.filter (·.operationId = operation)).length ≤ 1 :=
  length_filter_le_one db.operations fun _ h => of_decide_eq_true h

theorem attempts_le_one (db : IndexStore) (i : Option AttemptInput) :
    (db.attempts.rows.filter fun a => i.any (a.id = ·.attemptId)).length ≤ 1 := by
  cases i with
  | none =>
    rw [List.filter_eq_nil_iff.mpr (by simp)]
    exact Nat.zero_le 1
  | some i => exact length_filter_le_one db.attempts.nodup fun _ h => of_decide_eq_true h

/-- The attempt that the joins find for an operation. -/
theorem joined_attempt (db : IndexStore) (operation : String) : ∃ i a,
    leftJoin (·.operationId = operation) db.attemptInputs.rows = [i] ∧
      leftJoin (fun a => i.any (a.id = ·.attemptId)) db.attempts.rows = [a] ∧
        (db.Over operation ↔
          db.started operation = true ∧ a.any (·.terminationObserved = true) = true) := by
  obtain ⟨i, hi⟩ := leftJoin_eq_singleton (inputs_le_one db operation)
  obtain ⟨a, ha⟩ := leftJoin_eq_singleton (attempts_le_one db i)
  refine ⟨i, a, hi, ha, and_congr_right fun _ => ?_⟩
  constructor
  · intro ⟨j, hj, hof, b, hb, hid, hterminated⟩
    obtain rfl := leftJoin_unique hi hj (decide_eq_true hof)
    obtain rfl := leftJoin_unique ha hb (decide_eq_true hid)
    exact decide_eq_true hterminated
  · intro hterminated
    obtain ⟨b, rfl, hterminated⟩ := (Option.any_eq_true _ _).mp hterminated
    obtain ⟨hb, hid⟩ := leftJoin_found ha
    obtain ⟨j, rfl, hid⟩ := (Option.any_eq_true _ _).mp hid
    obtain ⟨hj, hof⟩ := leftJoin_found hi
    exact ⟨j, hj, of_decide_eq_true hof, b, hb, of_decide_eq_true hid,
      of_decide_eq_true hterminated⟩

theorem live_iff {started : Bool} {a : Option Attempt} :
    (a.all (·.terminationObserved = false) || !started) = true ↔
      ¬(started = true ∧ a.any (·.terminationObserved = true) = true) := by
  cases started with
  | false => simp
  | true =>
    cases a with
    | none => simp
    | some a =>
      obtain ⟨id, terminated⟩ := a
      cases terminated <;> simp

/-- **The view of retained resources.** -/
theorem mem_resources {r : RetainedLaunchResource} : r ∈ db.retainedLaunchResourceSource ↔
    ∃ e ∈ db.events.rows, db.Retains e ∧ e.resource = r := by
  rw [IndexStore.retainedLaunchResourceSource, List.mem_flatMap]
  refine exists_congr fun e => and_congr_right fun _ => ?_
  obtain ⟨i, a, hi, ha, hover⟩ := joined_attempt db e.entity
  have hretains : db.retains e a = true ↔ db.Retains e := by
    rw [IndexStore.retains, IndexStore.Retains, hover, Bool.or_eq_true, Bool.and_eq_true,
      decide_eq_true_eq, decide_eq_true_eq]
    exact or_congr_right (and_congr_right fun _ => live_iff)
  rw [hi, List.flatMap_singleton, ha, ← hretains, List.mem_filterMap]
  simp only [List.mem_singleton, exists_eq_left, Option.ite_none_right_eq_some,
    Option.some.injEq]

theorem nodup_resources : (db.retainedLaunchResourceSource.map (·.sequence)).Nodup := by
  refine nodup_flatMap db.events.nodup (fun e r hr => ?_) fun e => ?_
  · obtain ⟨i, -, hr⟩ := List.mem_flatMap.mp hr
    obtain ⟨a, -, hr⟩ := List.mem_filterMap.mp hr
    split at hr
    · cases hr
      rfl
    · cases hr
  · obtain ⟨i, a, hi, ha, -⟩ := joined_attempt db e.entity
    rw [hi, List.flatMap_singleton, ha]
    exact List.length_filterMap_le _ _

/-- The rows that the view reads at an operation are the same. -/
structure SameAt (db db' : IndexStore) (operation : String) : Prop where
  events : ∀ e : Event, e.entity = operation → e.kind ∈ launchKinds →
    (e ∈ db.events.rows ↔ e ∈ db'.events.rows)
  inputs : ∀ i : AttemptInput, i.operationId = operation →
    (i ∈ db.attemptInputs.rows ↔ i ∈ db'.attemptInputs.rows)
  attempts : ∀ i ∈ db.attemptInputs.rows, i.operationId = operation → ∀ a : Attempt,
    a.id = i.attemptId → (a ∈ db.attempts.rows ↔ a ∈ db'.attempts.rows)

theorem SameAt.symm (h : SameAt db db' operation) : SameAt db' db operation :=
  ⟨fun e he hk => (h.events e he hk).symm, fun i hi => (h.inputs i hi).symm,
    fun i hi hof a ha => (h.attempts i ((h.inputs i hof).mpr hi) hof a ha).symm⟩

theorem SameAt.over (h : SameAt db db' operation) (hover : db.Over operation) :
    db'.Over operation := by
  obtain ⟨hstarted, i, hi, hof, a, ha, hid, hterminated⟩ := hover
  obtain ⟨e, he, hkind⟩ := List.any_eq_true.mp hstarted
  obtain ⟨hentity, hkind⟩ := Bool.and_eq_true_iff.mp hkind
  have he := (h.events e (of_decide_eq_true hentity)
    (by rw [of_decide_eq_true hkind]; decide)).mp he
  refine ⟨List.any_eq_true.mpr ⟨e, he, by rw [hentity, hkind]; rfl⟩, i, (h.inputs i hof).mp hi, hof,
    a, (h.attempts i hi hof a hid).mp ha, hid, hterminated⟩

theorem SameAt.resources (h : SameAt db db' operation) {r : RetainedLaunchResource}
    (hof : r.operationId = operation) (hr : r ∈ db.retainedLaunchResourceSource) :
    r ∈ db'.retainedLaunchResourceSource := by
  obtain ⟨e, he, hretains, rfl⟩ := mem_resources.mp hr
  have hkind : e.kind ∈ launchKinds := by
    rcases hretains with hk | ⟨hk, -⟩ <;> rw [hk] <;> decide
  refine mem_resources.mpr ⟨e, (h.events e hof hkind).mp he, ?_, rfl⟩
  refine hretains.imp_right fun ⟨hk, hnot⟩ => ⟨hk, fun hover => hnot ?_⟩
  have hof : e.entity = operation := hof
  rw [hof] at hover ⊢
  exact h.symm.over hover

/-- A refresh of the operations where the view's rows may differ makes the index its view. -/
theorem refreshResources_ok (h : db'.retainedLaunchResources.Holds db.retainedLaunchResourceSource)
    {operations : List String} (hsame : ∀ o, o ∉ operations → SameAt db db' o) :
    ∃ t, db'.refreshResources operations = some { db' with retainedLaunchResources := t } ∧
      t.Holds db'.retainedLaunchResourceSource := by
  have hkept : ∀ r : RetainedLaunchResource, operations.contains r.operationId = false →
      (r ∈ db.retainedLaunchResourceSource ↔ r ∈ db'.retainedLaunchResourceSource) := by
    intro r hr
    have hnot : r.operationId ∉ operations := by simpa using hr
    exact ⟨(hsame _ hnot).resources rfl, (hsame _ hnot).symm.resources rfl⟩
  obtain ⟨t, ht, hholds⟩ := h.refresh hkept nodup_resources
  exact ⟨t, by rw [IndexStore.refreshResources, ht]; rfl, hholds⟩

/-! ## Identity gaps -/

/-- A reference of a kind whose binding is missing. -/
def IndexStore.Gap (db : IndexStore) : GapKind → String → Prop
  | .observation, k => (∃ r ∈ db.runtimeObservations.rows, r.bindingId = k) ∧
      ∀ b ∈ db.runtimeBindings.rows, b.id ≠ k
  | .ownership, k => (∃ r ∈ db.runtimeOwnership.rows, r.bindingId = k) ∧
      ∀ b ∈ db.runtimeBindings.rows, b.id ≠ k
  | .imported, k => (∃ s ∈ db.legacySources.rows, s.path = k ∧ s.identifies = true) ∧
      ∀ b ∈ db.runtimeBindings.rows, b.sourcePath ≠ some k

/-- The select of a kind. -/
def IndexStore.gapsOf (db : IndexStore) : GapKind → List IdentityReferenceGap
  | .observation => db.observationGaps
  | .ownership => db.ownershipGaps
  | .imported => db.importedGaps

/-- **The view of identity gaps.** -/
theorem mem_gapsOf {kind : GapKind} {g : IdentityReferenceGap} :
    g ∈ db.gapsOf kind ↔ g.kind = kind ∧ db.Gap kind g.referenceKey := by
  obtain ⟨k, key⟩ := g
  cases kind with
  | observation =>
    refine (mem_unmatched (c := fun _ => true)).trans ?_
    constructor
    · rintro ⟨r, hr, -, hnone, he⟩
      cases he
      exact ⟨rfl, ⟨r, hr, rfl⟩, fun b hb => of_decide_eq_false (hnone b hb)⟩
    · intro ⟨hk, ⟨r, hr, hof⟩, hnone⟩
      exact ⟨r, hr, rfl, fun b hb => decide_eq_false (hof ▸ hnone b hb), by rw [hof, ← hk]⟩
  | ownership =>
    refine (mem_unmatched (c := fun _ => true)).trans ?_
    constructor
    · rintro ⟨r, hr, -, hnone, he⟩
      cases he
      exact ⟨rfl, ⟨r, hr, rfl⟩, fun b hb => of_decide_eq_false (hnone b hb)⟩
    · intro ⟨hk, ⟨r, hr, hof⟩, hnone⟩
      exact ⟨r, hr, rfl, fun b hb => decide_eq_false (hof ▸ hnone b hb), by rw [hof, ← hk]⟩
  | imported =>
    refine mem_unmatched.trans ?_
    constructor
    · intro ⟨s, hs, hidentifies, hnone, he⟩
      cases he
      exact ⟨rfl, ⟨s, hs, rfl, hidentifies⟩, fun b hb => of_decide_eq_false (hnone b hb)⟩
    · intro ⟨hk, ⟨s, hs, hof, hidentifies⟩, hnone⟩
      exact ⟨s, hs, hidentifies, fun b hb => decide_eq_false (hof ▸ hnone b hb), by rw [hof, ← hk]⟩

theorem nodup_gapsOf {kind : GapKind} : ((db.gapsOf kind).map id).Nodup := by
  have hnamed : ∀ {α : Type} {rows : List α} {name : α → String} (kind : GapKind),
      (rows.map name).Nodup →
        (rows.map fun r => (⟨kind, name r⟩ : IdentityReferenceGap)).Nodup := by
    intro α rows name kind hnodup
    have hmap : (rows.map fun r => (⟨kind, name r⟩ : IdentityReferenceGap)) =
        (rows.map name).map (⟨kind, ·⟩) := by
      rw [List.map_map]
      rfl
    rw [hmap]
    exact hnodup.map fun a b he => (IdentityReferenceGap.mk.inj he).2
  rw [List.map_id]
  cases kind with
  | observation =>
    exact nodup_unmatched (c := fun _ => true) (hnamed _ db.runtimeObservations.nodup)
  | ownership => exact nodup_unmatched (c := fun _ => true) (hnamed _ db.runtimeOwnership.nodup)
  | imported => exact nodup_unmatched (hnamed _ db.legacySources.nodup)

/-- The gaps of every kind. -/
def IndexStore.allGaps (db : IndexStore) : List IdentityReferenceGap :=
  db.observationGaps ++ db.ownershipGaps ++ db.importedGaps

theorem mem_allGaps {g : IdentityReferenceGap} :
    g ∈ db.allGaps ↔ db.Gap g.kind g.referenceKey := by
  have hkind : ∀ kind, g ∈ db.gapsOf kind → db.Gap g.kind g.referenceKey := by
    intro kind hg
    obtain ⟨rfl, hgap⟩ := mem_gapsOf.mp hg
    exact hgap
  rw [IndexStore.allGaps, List.mem_append, List.mem_append]
  constructor
  · intro hg
    rcases hg with (hg | hg) | hg
    · exact hkind .observation hg
    · exact hkind .ownership hg
    · exact hkind .imported hg
  · intro hgap
    have hg : g ∈ db.gapsOf g.kind := mem_gapsOf.mpr ⟨rfl, hgap⟩
    generalize g.kind = kind at hg
    cases kind with
    | observation => exact .inl (.inl hg)
    | ownership => exact .inl (.inr hg)
    | imported => exact .inr hg

/-- Gaps of two kinds differ. -/
theorem gapsOf_ne {a b : IdentityReferenceGap} {kind kind' : GapKind} (hne : kind ≠ kind')
    (ha : a ∈ db.gapsOf kind) (hb : b ∈ db.gapsOf kind') : a ≠ b := by
  intro he
  exact hne ((mem_gapsOf.mp ha).1.symm.trans (he ▸ (mem_gapsOf.mp hb).1))

theorem nodup_allGaps : (db.allGaps.map id).Nodup := by
  have hnodup : ∀ kind, (db.gapsOf kind).Nodup := fun kind => by
    simpa using @nodup_gapsOf db kind
  rw [List.map_id]
  refine List.nodup_append.mpr ⟨List.nodup_append.mpr
    ⟨hnodup .observation, hnodup .ownership, fun a ha b hb => ?_⟩, hnodup .imported,
    fun a ha b hb => ?_⟩
  · exact @gapsOf_ne db a b .observation .ownership (by decide) ha hb
  · rcases List.mem_append.mp ha with ha | ha
    · exact @gapsOf_ne db a b .observation .imported (by decide) ha hb
    · exact @gapsOf_ne db a b .ownership .imported (by decide) ha hb

/-- The index has the gaps of every kind and key that is not stale. -/
def GapsExcept (db : IndexStore) (stale : GapKind → String → Prop) : Prop :=
  ∀ g : IdentityReferenceGap, ¬stale g.kind g.referenceKey →
    (g ∈ db.identityReferenceGaps.rows ↔ db.Gap g.kind g.referenceKey)

theorem GapsExcept.mono {stale stale' : GapKind → String → Prop} (h : GapsExcept db stale)
    (hle : ∀ kind k, stale kind k → stale' kind k) : GapsExcept db stale' := fun g hg =>
  h g fun hstale => hg (hle _ _ hstale)

/-- A refresh of a kind at some keys leaves the other stale ones. -/
theorem refreshGaps_ok {stale : GapKind → String → Prop} (h : GapsExcept db stale) (kind : GapKind)
    (keys : List String) :
    ∃ t, db.refreshGaps kind (db.gapsOf kind) keys = some { db with identityReferenceGaps := t } ∧
      GapsExcept { db with identityReferenceGaps := t } fun kind' k =>
        stale kind' k ∧ ¬(kind' = kind ∧ k ∈ keys) := by
  have hdec : ∀ g : IdentityReferenceGap,
      (decide (g.kind = kind) && keys.contains g.referenceKey) = true ↔
        g.kind = kind ∧ g.referenceKey ∈ keys := by
    intro g
    rw [Bool.and_eq_true, decide_eq_true_eq, List.contains_iff_mem]
  let affected : IdentityReferenceGap → Bool := fun g =>
    decide (g.kind = kind) && keys.contains g.referenceKey
  -- the rows are their own keys, and an affected row is not one that stays
  have hfree : ∀ a ∈ db.identityReferenceGaps.rows, affected a = false →
      ∀ b ∈ db.gapsOf kind, affected b = true → id a ≠ id b := by
    intro a _ ha b _ hb he
    rw [show a = b from he, hb] at ha
    cases ha
  obtain ⟨t, ht, hmem⟩ := Table.refresh_ok nodup_gapsOf hfree
  refine ⟨t, by rw [IndexStore.refreshGaps, ht]; rfl, fun g hg => ?_⟩
  change g ∈ t.rows ↔ db.Gap g.kind g.referenceKey
  rw [hmem]
  by_cases hin : g.kind = kind ∧ g.referenceKey ∈ keys
  · rw [if_pos ((hdec g).mpr hin), mem_gapsOf, ← hin.1]
    exact and_iff_right rfl
  · rw [if_neg (mt (hdec g).mp hin)]
    exact h g fun hstale => hg ⟨hstale, hin⟩

/-! ## Statements -/

/-- Both indexes are their views. -/
structure Indexed (db : IndexStore) : Prop where
  resources : db.retainedLaunchResources.Holds db.retainedLaunchResourceSource
  gaps : GapsExcept db fun _ _ => False

section Trigger

variable {α κ : Type} {key : α → κ} [DecidableEq κ] {t : Triggers α} {d : Changed α key}
  {table : Table α key} {c : RowChange α κ}

/-- The triggers of a table that share one body over the rows that a statement touches. -/
structure Triggers.Runs (t : Triggers α) (body : List α → IndexStore → Option IndexStore) : Prop where
  insert : ∀ new, t.insert new = body [new]
  update : ∀ old new, t.update old new = body [old, new]
  delete : ∀ old, t.delete old = body [old]

omit [DecidableEq κ] in
theorem Triggers.Runs.run_ok {body : List α → IndexStore → Option IndexStore} (h : t.Runs body)
    (hnone : d.touched = [] → Indexed db)
    (hbody : ∃ db', body d.touched db = some db' ∧ Indexed db') :
    ∃ db', t.run d db = some db' ∧ Indexed db' := by
  obtain ⟨table, old, new⟩ := d
  cases old with
  | none =>
    cases new with
    | none => exact ⟨db, rfl, hnone rfl⟩
    | some new =>
      change ∃ db', t.insert new db = some db' ∧ _
      rw [h.insert]
      exact hbody
  | some old =>
    cases new with
    | none =>
      change ∃ db', t.delete old db = some db' ∧ _
      rw [h.delete]
      exact hbody
    | some new =>
      change ∃ db', t.update old new db = some db' ∧ _
      rw [h.update]
      exact hbody

/-- A row of another key than those that a statement touched. -/
theorem mem_untouched {β : Type} {f : α → β} {k : β} (h : table.change? c = some d)
    (hk : k ∉ d.touched.map f) (a : α) (ha : f a = k) : a ∈ d.table.rows ↔ a ∈ table.rows :=
  Table.mem_change? h fun hmem => hk (ha ▸ List.mem_map_of_mem hmem)

end Trigger

/-- A statement on a table that only the resources read. -/
theorem resources_ok (hi : Indexed db) {operations : List String}
    (hsame : ∀ o, o ∉ operations → SameAt db db' o)
    (hindex : db'.retainedLaunchResources = db.retainedLaunchResources)
    (hgaps : GapsExcept db' fun _ _ => False) :
    ∃ db'', db'.refreshResources operations = some db'' ∧ Indexed db'' := by
  have hholds := hi.resources
  rw [← hindex] at hholds
  obtain ⟨t, ht, hresources⟩ := refreshResources_ok hholds hsame
  exact ⟨_, ht, hresources, hgaps⟩

/-- The resources are unchanged where nothing that they read is. -/
theorem resources_same (hi : Indexed db) (hsame : ∀ o, SameAt db db' o)
    (hindex : db'.retainedLaunchResources = db.retainedLaunchResources)
    (hgaps : GapsExcept db' fun _ _ => False) : Indexed db' := by
  refine ⟨fun r => ?_, hgaps⟩
  rw [hindex, hi.resources r]
  exact ⟨(hsame r.operationId).resources rfl, (hsame r.operationId).symm.resources rfl⟩

theorem SameAt.of_events {events : Table Event Event.sequence}
    (h : ∀ e : Event, e.entity = operation → e.kind ∈ launchKinds →
      (e ∈ db.events.rows ↔ e ∈ events.rows)) : SameAt db { db with events } operation :=
  ⟨h, fun _ _ => Iff.rfl, fun _ _ _ _ _ => Iff.rfl⟩

theorem events_ok (hi : Indexed db) {c : RowChange Event Int} {d : Changed Event Event.sequence}
    (h : db.events.change? c = some d) :
    ∃ db', eventTriggers.run d { db with events := d.table } = some db' ∧ Indexed db' := by
  have hruns : eventTriggers.Runs fun rows db =>
      if rows.any (·.kind ∈ launchKinds) then db.refreshResources (rows.map (·.entity))
      else some db := by
    refine ⟨fun new => ?_, fun old new => ?_, fun old => ?_⟩ <;> funext db <;>
      simp [eventTriggers]
  have hother : (∀ e ∈ d.touched, e.kind ∉ launchKinds) →
      Indexed { db with events := d.table } := fun hno =>
    resources_same hi (fun o => .of_events fun e _ hkind =>
      (Table.mem_change? h fun hmem => hno e hmem hkind).symm) rfl hi.gaps
  refine hruns.run_ok (fun hnil => hother (by simp [hnil])) ?_
  split
  · exact resources_ok hi (fun o ho => .of_events fun e hentity _ =>
      (mem_untouched h ho e hentity).symm) rfl hi.gaps
  · next hno =>
    refine ⟨_, rfl, hother fun e he hkind => hno ?_⟩
    exact List.any_eq_true.mpr ⟨e, he, decide_eq_true hkind⟩

theorem attemptInputs_ok (hi : Indexed db) {c : RowChange AttemptInput String}
    {d : Changed AttemptInput AttemptInput.attemptId} (h : db.attemptInputs.change? c = some d)
    (hu : (d.table.rows.map (·.operationId)).Nodup) :
    ∃ db', attemptInputTriggers.run d { db with attemptInputs := d.table, operations := hu } =
      some db' ∧ Indexed db' := by
  have hruns : attemptInputTriggers.Runs fun rows db =>
      db.refreshResources (rows.map (·.operationId)) :=
    ⟨fun _ => rfl, fun _ _ => rfl, fun _ => rfl⟩
  have hsame : ∀ o, o ∉ d.touched.map (·.operationId) →
      SameAt db { db with attemptInputs := d.table, operations := hu } o := fun o ho =>
    ⟨fun _ _ _ => Iff.rfl, fun i hof => (mem_untouched h ho i hof).symm, fun _ _ _ _ _ => Iff.rfl⟩
  refine hruns.run_ok (fun hnil => ?_) (resources_ok hi hsame rfl hi.gaps)
  exact resources_same hi (fun o => hsame o (by simp [hnil])) rfl hi.gaps

theorem attempts_ok (hi : Indexed db) {c : RowChange Attempt String} {d : Changed Attempt Attempt.id}
    (h : db.attempts.change? c = some d) :
    ∃ db', attemptTriggers.run d { db with attempts := d.table } = some db' ∧ Indexed db' := by
  have hruns : attemptTriggers.Runs fun rows db =>
      db.refreshResources (db.operationsOf (rows.map (·.id))) :=
    ⟨fun _ => rfl, fun _ _ => rfl, fun _ => rfl⟩
  have hsame : ∀ o, o ∉ db.operationsOf (d.touched.map (·.id)) →
      SameAt db { db with attempts := d.table } o := by
    refine fun o ho => ⟨fun _ _ _ => Iff.rfl, fun _ _ => Iff.rfl, fun i hi hof a hid => ?_⟩
    have hid' : i.attemptId ∉ d.touched.map (·.id) := by
      intro hmem
      refine ho (List.mem_map.mpr ⟨i, List.mem_filter.mpr ⟨hi, ?_⟩, hof⟩)
      exact List.contains_iff_mem.mpr hmem
    exact (mem_untouched h hid' a hid).symm
  refine hruns.run_ok (fun hnil => ?_) (resources_ok hi hsame rfl hi.gaps)
  exact resources_same hi (fun o => hsame o (by simp [hnil, IndexStore.operationsOf])) rfl hi.gaps

/-- The references that a refresh of some kinds and keys leaves stale. -/
theorem gaps_ok {stale : GapKind → String → Prop} (h : GapsExcept db stale) (kind : GapKind)
    {keys : List String} (hstale : ∀ kind' k, stale kind' k → kind' = kind ∧ k ∈ keys)
    (hresources : db.retainedLaunchResources.Holds db.retainedLaunchResourceSource) :
    ∃ db', db.refreshGaps kind (db.gapsOf kind) keys = some db' ∧ Indexed db' := by
  obtain ⟨t, ht, hgaps⟩ := refreshGaps_ok h kind keys
  refine ⟨_, ht, hresources, hgaps.mono ?_⟩
  intro kind' k ⟨hk, hnot⟩
  exact hnot (hstale kind' k hk)

theorem runtimeObservations_ok (hi : Indexed db) {c : RowChange RuntimeObservation String}
    {d : Changed RuntimeObservation RuntimeObservation.bindingId}
    (h : db.runtimeObservations.change? c = some d) :
    ∃ db', runtimeObservationTriggers.run d { db with runtimeObservations := d.table } =
      some db' ∧ Indexed db' := by
  have hruns : runtimeObservationTriggers.Runs fun rows db =>
      db.refreshGaps .observation (db.gapsOf .observation) (rows.map (·.bindingId)) :=
    ⟨fun _ => rfl, fun _ _ => rfl, fun _ => rfl⟩
  have hgaps : GapsExcept { db with runtimeObservations := d.table } fun kind k =>
      kind = .observation ∧ k ∈ d.touched.map (·.bindingId) := by
    intro g hg
    refine (hi.gaps g (fun hf => hf)).trans ?_
    obtain ⟨kind, k⟩ := g
    cases kind with
    | observation =>
      have hk : k ∉ d.touched.map (·.bindingId) := fun hmem => hg ⟨rfl, hmem⟩
      refine and_congr_left fun _ => exists_congr fun r => ?_
      exact and_congr_left fun hof => (mem_untouched h hk r hof).symm
    | ownership => exact Iff.rfl
    | imported => exact Iff.rfl
  refine hruns.run_ok (fun hnil => ⟨hi.resources, hgaps.mono ?_⟩)
    (gaps_ok hgaps .observation (fun _ _ hk => hk) hi.resources)
  simp [hnil]

theorem runtimeOwnership_ok (hi : Indexed db) {c : RowChange RuntimeOwnership String}
    {d : Changed RuntimeOwnership RuntimeOwnership.bindingId}
    (h : db.runtimeOwnership.change? c = some d) :
    ∃ db', runtimeOwnershipTriggers.run d { db with runtimeOwnership := d.table } =
      some db' ∧ Indexed db' := by
  have hruns : runtimeOwnershipTriggers.Runs fun rows db =>
      db.refreshGaps .ownership (db.gapsOf .ownership) (rows.map (·.bindingId)) :=
    ⟨fun _ => rfl, fun _ _ => rfl, fun _ => rfl⟩
  have hgaps : GapsExcept { db with runtimeOwnership := d.table } fun kind k =>
      kind = .ownership ∧ k ∈ d.touched.map (·.bindingId) := by
    intro g hg
    refine (hi.gaps g (fun hf => hf)).trans ?_
    obtain ⟨kind, k⟩ := g
    cases kind with
    | ownership =>
      have hk : k ∉ d.touched.map (·.bindingId) := fun hmem => hg ⟨rfl, hmem⟩
      refine and_congr_left fun _ => exists_congr fun r => ?_
      exact and_congr_left fun hof => (mem_untouched h hk r hof).symm
    | observation => exact Iff.rfl
    | imported => exact Iff.rfl
  refine hruns.run_ok (fun hnil => ⟨hi.resources, hgaps.mono ?_⟩)
    (gaps_ok hgaps .ownership (fun _ _ hk => hk) hi.resources)
  simp [hnil]

theorem legacySources_ok (hi : Indexed db) {c : RowChange LegacySource String}
    {d : Changed LegacySource LegacySource.path} (h : db.legacySources.change? c = some d) :
    ∃ db', legacySourceTriggers.run d { db with legacySources := d.table } = some db' ∧
      Indexed db' := by
  have hruns : legacySourceTriggers.Runs fun rows db =>
      db.refreshGaps .imported (db.gapsOf .imported) (rows.map (·.path)) :=
    ⟨fun _ => rfl, fun _ _ => rfl, fun _ => rfl⟩
  have hgaps : GapsExcept { db with legacySources := d.table } fun kind k =>
      kind = .imported ∧ k ∈ d.touched.map (·.path) := by
    intro g hg
    refine (hi.gaps g (fun hf => hf)).trans ?_
    obtain ⟨kind, k⟩ := g
    cases kind with
    | imported =>
      have hk : k ∉ d.touched.map (·.path) := fun hmem => hg ⟨rfl, hmem⟩
      refine and_congr_left fun _ => exists_congr fun s => ?_
      exact and_congr_left fun hof => (mem_untouched h hk s hof.1).symm
    | observation => exact Iff.rfl
    | ownership => exact Iff.rfl
  refine hruns.run_ok (fun hnil => ⟨hi.resources, hgaps.mono ?_⟩)
    (gaps_ok hgaps .imported (fun _ _ hk => hk) hi.resources)
  simp [hnil]

/-- The keys that a change of bindings makes stale. -/
def staleBindings (rows : List RuntimeBinding) : GapKind → String → Prop
  | .observation, k | .ownership, k => k ∈ rows.map (·.id)
  | .imported, k => k ∈ rows.filterMap (·.sourcePath)

theorem refreshBindings_ok {rows : List RuntimeBinding} (h : GapsExcept db (staleBindings rows))
    (hresources : db.retainedLaunchResources.Holds db.retainedLaunchResourceSource) :
    ∃ db', db.refreshBindings rows = some db' ∧ Indexed db' := by
  obtain ⟨t, ht, h⟩ := refreshGaps_ok h .observation (rows.map (·.id))
  obtain ⟨t', ht', h⟩ := refreshGaps_ok h .ownership (rows.map (·.id))
  have himported : ∀ kind k, (staleBindings rows kind k ∧
      ¬(kind = .observation ∧ k ∈ rows.map (·.id))) ∧ ¬(kind = .ownership ∧ k ∈ rows.map (·.id)) →
        kind = .imported ∧ k ∈ rows.filterMap (·.sourcePath) := by
    intro kind k ⟨⟨hk, hobservation⟩, hownership⟩
    cases kind with
    | observation => exact absurd ⟨rfl, hk⟩ hobservation
    | ownership => exact absurd ⟨rfl, hk⟩ hownership
    | imported => exact ⟨rfl, hk⟩
  obtain ⟨db', hdb', hi⟩ := gaps_ok h .imported himported hresources
  refine ⟨db', ?_, hi⟩
  rw [IndexStore.refreshBindings]
  refine Option.bind_eq_some_iff.mpr ⟨_, ht, Option.bind_eq_some_iff.mpr ⟨_, ht', hdb'⟩⟩

theorem runtimeBindings_ok (hi : Indexed db) {c : RowChange RuntimeBinding String}
    {d : Changed RuntimeBinding RuntimeBinding.id} (h : db.runtimeBindings.change? c = some d)
    (hu : (d.table.rows.filterMap (·.sourcePath)).Nodup) :
    ∃ db', runtimeBindingTriggers.run d { db with runtimeBindings := d.table, sourcePaths := hu } =
      some db' ∧ Indexed db' := by
  have hruns : runtimeBindingTriggers.Runs fun rows db => db.refreshBindings rows :=
    ⟨fun _ => rfl, fun _ _ => rfl, fun _ => rfl⟩
  have hids : ∀ k, k ∉ d.touched.map (·.id) → ((∀ b ∈ db.runtimeBindings.rows, b.id ≠ k) ↔
      ∀ b ∈ d.table.rows, b.id ≠ k) := by
    intro k hk
    refine forall_congr' fun b => ⟨fun hall hb hid => ?_, fun hall hb hid => ?_⟩
    · exact hall ((mem_untouched h hk b hid).mp hb) hid
    · exact hall ((mem_untouched h hk b hid).mpr hb) hid
  have hpaths : ∀ k, k ∉ d.touched.filterMap (·.sourcePath) →
      ((∀ b ∈ db.runtimeBindings.rows, b.sourcePath ≠ some k) ↔
        ∀ b ∈ d.table.rows, b.sourcePath ≠ some k) := by
    intro k hk
    have hmem : ∀ b : RuntimeBinding, b.sourcePath = some k →
        (b ∈ d.table.rows ↔ b ∈ db.runtimeBindings.rows) := fun b hb =>
      Table.mem_change? h fun hmem => hk (List.mem_filterMap.mpr ⟨b, hmem, hb⟩)
    refine forall_congr' fun b => ⟨fun hall hb hpath => ?_, fun hall hb hpath => ?_⟩
    · exact hall ((hmem b hpath).mp hb) hpath
    · exact hall ((hmem b hpath).mpr hb) hpath
  have hgaps : GapsExcept { db with runtimeBindings := d.table, sourcePaths := hu }
      (staleBindings d.touched) := by
    intro g hg
    refine (hi.gaps g (fun hf => hf)).trans ?_
    obtain ⟨kind, k⟩ := g
    cases kind with
    | observation => exact and_congr_right fun _ => hids k hg
    | ownership => exact and_congr_right fun _ => hids k hg
    | imported => exact and_congr_right fun _ => hpaths k hg
  refine hruns.run_ok (fun hnil => ⟨hi.resources, hgaps.mono ?_⟩)
    (refreshBindings_ok hgaps hi.resources)
  intro kind k hk
  rw [hnil] at hk
  cases kind <;> cases hk

/-- A statement whose triggers succeed on the table that it changed. -/
theorem ok_of_run {x : Option IndexStore} (h : ∃ db', x = some db' ∧ Indexed db') :
    ∃ db', orFail Failure.trigger x = .ok db' ∧ Indexed db' := by
  obtain ⟨db', rfl, hi⟩ := h
  exact ⟨db', rfl, hi⟩

/-- A statement is refused by a key of its own table, or goes on to the table's triggers. -/
theorem changed_ok {α κ : Type} {key : α → κ} (x : Option (Changed α key))
    {run : Changed α key → Except Failure IndexStore}
    (hrun : ∀ d, x = some d → (∃ db', run d = .ok db' ∧ Indexed db') ∨ run d = .error .key) :
    (∃ db', (orFail .key x >>= run) = .ok db' ∧ Indexed db') ∨
      (orFail .key x >>= run) = .error .key := by
  cases x with
  | none => exact .inr rfl
  | some d => exact hrun d rfl

/-- **One statement.** It is refused by a key of its own table, or its triggers succeed and leave
both indexes equal to their views. -/
theorem exec_indexed (hi : Indexed db) (s : Statement) :
    (∃ db', db.exec s = .ok db' ∧ Indexed db') ∨ db.exec s = .error .key := by
  cases s with
  | events c => exact changed_ok _ fun d h => .inl (ok_of_run (events_ok hi h))
  | attemptInputs c =>
    refine changed_ok _ fun d h => ?_
    by_cases hu : (d.table.rows.map (·.operationId)).Nodup
    · rw [dif_pos hu]
      exact .inl (ok_of_run (attemptInputs_ok hi h hu))
    · rw [dif_neg hu]
      exact .inr rfl
  | attempts c => exact changed_ok _ fun d h => .inl (ok_of_run (attempts_ok hi h))
  | runtimeObservations c =>
    exact changed_ok _ fun d h => .inl (ok_of_run (runtimeObservations_ok hi h))
  | runtimeOwnership c =>
    exact changed_ok _ fun d h => .inl (ok_of_run (runtimeOwnership_ok hi h))
  | runtimeBindings c =>
    refine changed_ok _ fun d h => ?_
    by_cases hu : (d.table.rows.filterMap (·.sourcePath)).Nodup
    · rw [dif_pos hu]
      exact .inl (ok_of_run (runtimeBindings_ok hi h hu))
    · rw [dif_neg hu]
      exact .inr rfl
  | legacySources c => exact changed_ok _ fun d h => .inl (ok_of_run (legacySources_ok hi h))

theorem next_indexed (hi : Indexed db) (s : Statement) : Indexed (db.next s) := by
  rw [IndexStore.next]
  rcases exec_indexed hi s with ⟨db', h, hi'⟩ | h
  · rw [h]
    exact hi'
  · rw [h]
    exact hi

theorem run_indexed (hi : Indexed db) (statements : List Statement) :
    Indexed (statements.foldl IndexStore.next db) := by
  induction statements generalizing db with
  | nil => exact hi
  | cons s statements ih => exact ih (next_indexed hi s)

/-! ## The migration -/

/-- **The migration** fills both indexes. -/
theorem migrate_indexed (base : IndexStore) : ∃ db, base.migrate = some db ∧ Indexed db := by
  have hnodup : ∀ kind, ((base.gapsOf kind).map id).Nodup := fun _ => nodup_gapsOf
  obtain ⟨resources, hresources, hrows⟩ :=
    @Table.insertAll_ok _ _ _ _ (.empty : Table _ RetainedLaunchResource.sequence) _
      (@nodup_resources base) (by simp [Table.empty])
  obtain ⟨gaps₁, h₁, hrows₁⟩ := @Table.insertAll_ok _ _ _ _
    (.empty : Table IdentityReferenceGap id) _ (hnodup .observation) (by simp [Table.empty])
  obtain ⟨gaps₂, h₂, hrows₂⟩ := @Table.insertAll_ok _ _ _ _ gaps₁ _ (hnodup .ownership) (by
    intro a ha b hb
    rw [hrows₁, Table.empty, List.nil_append] at ha
    exact @gapsOf_ne base a b .observation .ownership (by decide) ha hb)
  obtain ⟨gaps₃, h₃, hrows₃⟩ := @Table.insertAll_ok _ _ _ _ gaps₂ _ (hnodup .imported) (by
    intro a ha b hb
    rw [hrows₂, hrows₁, Table.empty, List.nil_append, List.mem_append] at ha
    rcases ha with ha | ha
    · exact @gapsOf_ne base a b .observation .imported (by decide) ha hb
    · exact @gapsOf_ne base a b .ownership .imported (by decide) ha hb)
  refine ⟨{ base with retainedLaunchResources := resources, identityReferenceGaps := gaps₃ }, ?_,
    fun r => ?_, fun g _ => ?_⟩
  · refine Option.bind_eq_some_iff.mpr ⟨resources, hresources, ?_⟩
    refine Option.bind_eq_some_iff.mpr ⟨gaps₁, h₁, ?_⟩
    exact Option.bind_eq_some_iff.mpr ⟨gaps₂, h₂, Option.bind_eq_some_iff.mpr ⟨gaps₃, h₃, rfl⟩⟩
  · change r ∈ resources.rows ↔ _
    rw [hrows]
    exact Iff.rfl
  · change g ∈ gaps₃.rows ↔ base.Gap g.kind g.referenceKey
    rw [hrows₃, hrows₂, hrows₁, Table.empty, List.nil_append, ← mem_allGaps]
    exact Iff.rfl

/-! ## The indexes -/

/-- A launch target leaves the index only when its attempt has terminated and the launch was
acknowledged. -/
theorem Indexed.target_retained (h : Indexed db) {e : Event} (he : e ∈ db.events.rows)
    (hkind : e.kind = launchTarget) (hout : e.resource ∉ db.retainedLaunchResources.rows) :
    db.Over e.entity := by
  by_contra hover
  exact hout ((h.resources _).mpr (mem_resources.mpr ⟨e, he, .inr ⟨hkind, hover⟩, rfl⟩))

/-- **The indexes equal their views.** The migration fills both indexes of any store. After any
statements on the source tables, each index has the rows of its view once each, a statement that
fails is refused by a key of its own table and not by one of a trigger, and a launch target that is
not in the index belongs to an attempt that has terminated, of a launch that was acknowledged. -/
theorem indexes_equal_views (base : IndexStore) : ∃ migrated, base.migrate = some migrated ∧
    ∀ statements : List Statement, ∀ db, db = statements.foldl IndexStore.next migrated →
      db.retainedLaunchResources.rows.Perm db.retainedLaunchResourceSource ∧
      db.identityReferenceGaps.rows.Perm
        (db.observationGaps ++ db.ownershipGaps ++ db.importedGaps) ∧
      (∀ s, db.exec s ≠ .error .trigger) ∧
      ∀ e ∈ db.events.rows, e.kind = launchTarget →
        e.resource ∉ db.retainedLaunchResources.rows →
          (∃ i ∈ db.attemptInputs.rows, i.operationId = e.entity ∧
            ∃ a ∈ db.attempts.rows, a.id = i.attemptId ∧ a.terminationObserved = true) ∧
          ∃ started ∈ db.events.rows, started.entity = e.entity ∧ started.kind = launchStarted := by
  obtain ⟨migrated, hmigrate, hi⟩ := migrate_indexed base
  refine ⟨migrated, hmigrate, fun statements db hdb => ?_⟩
  have hi : Indexed db := hdb ▸ run_indexed hi statements
  refine ⟨hi.resources.perm nodup_resources, ?_, fun s => ?_, fun e he hkind hout => ?_⟩
  · have hgaps : db.identityReferenceGaps.Holds db.allGaps := fun g =>
      (hi.gaps g fun hf => hf).trans mem_allGaps.symm
    exact hgaps.perm nodup_allGaps
  · rcases exec_indexed hi s with ⟨db', h, -⟩ | h <;> rw [h] <;> exact nofun
  · obtain ⟨hstarted, hterminated⟩ := hi.target_retained he hkind hout
    obtain ⟨started, hs, hwhere⟩ := List.any_eq_true.mp hstarted
    obtain ⟨hentity, hkind⟩ := Bool.and_eq_true_iff.mp hwhere
    exact ⟨hterminated, started, hs, of_decide_eq_true hentity, of_decide_eq_true hkind⟩

end Herdr.ResourceIndexes
