import Herdr.Lib.Greedy
import Herdr.Lib.Segments
import Herdr.Store.Snapshots

/-!
# A snapshot keeps its budget and loses nothing mandatory

The facts of a snapshot are those that the tables make active, valid and current. Every mandatory
one has an entry, and the optional entries are the greedy choice among the ranked facts with what
the mandatory ones leave of the budget.
-/

namespace Herdr.Snapshots

open Relation
open ReadSets (MemoryRecord)

/-! ## Facts -/

namespace Project

variable (db : Project)

/-- A dependency row leads from one revision to the other. -/
def DerivedFrom (key source : String × Nat) : Prop :=
  ∃ d ∈ db.memory.dependencies, d.derived = key ∧ d.source = source

/-- A recorded source is the valid, unexpired head of its record, and its object can be read. -/
structure SourceCurrent (now : Int) (source : String × Nat) : Prop where
  head : ∃ head, db.memory.heads.find source.1 = some head ∧ head.active = true ∧
    head.revision = source.2
  valid : ∃ v, db.memory.validity.find source = some v ∧ v.state = .valid ∧
    ∀ e, v.expiryUnixMs = some e → now < e
  available : ∃ r, db.memory.revisions.find source = some r ∧ db.available r.bodyHash = true

/-- The record is active, its head revision is valid and unexpired, its object can be read, and all
recorded sources are current, to any depth. -/
structure IsFact (now : Int) (fact : ActiveFact) : Prop where
  record : db.memory.records.find fact.record.id = some fact.record
  head : ∃ head, db.memory.heads.find fact.record.id = some head ∧ head.active = true ∧
    head.revision = fact.revision.revision
  revision : db.memory.revisions.find (fact.record.id, fact.revision.revision) = some fact.revision
  validity : db.memory.validity.find (fact.record.id, fact.revision.revision) = some fact.validity
  valid : fact.validity.state = .valid
  unexpired : ∀ e, fact.validity.expiryUnixMs = some e → now < e
  available : db.available fact.revision.bodyHash = true
  sources : ∀ source, TransGen db.DerivedFrom (fact.record.id, fact.revision.revision) source →
    db.SourceCurrent now source

variable {db} {now : Int} {fact : ActiveFact}

/-- The recursive query finds the sources to any depth. -/
theorem mem_sources {key source : String × Nat} :
    source ∈ db.sources key ↔ TransGen db.DerivedFrom key source := by
  have hnext : ∀ key source : String × Nat,
      source ∈ (db.memory.dependencies.filter (·.derived = key)).map (·.source) ↔
        db.DerivedFrom key source := by
    intro key source
    simp [DerivedFrom, and_assoc]
  have hsub : ∀ key : String × Nat, (db.memory.dependencies.filter (·.derived = key)).map
      (·.source) ⊆ db.memory.dependencies.map (·.source) :=
    fun key => List.map_subset _ List.filter_sublist.subset
  unfold sources
  dsimp only
  rw [GraphSearch.mem_gather_iff hsub (by simp), TransGen.head'_iff]
  simp only [hnext]

theorem sourceCurrent_iff {source : String × Nat} :
    db.sourceCurrent now source = true ↔ db.SourceCurrent now source := by
  simp only [sourceCurrent, Bool.and_eq_true, Option.any_eq_true, decide_eq_true_iff,
    Bool.not_eq_true', Option.any_eq_false, decide_eq_false_iff_not, not_le]
  constructor
  · rintro ⟨⟨hhead, hvalid⟩, havailable⟩
    exact ⟨hhead, hvalid, havailable⟩
  · rintro ⟨hhead, hvalid, havailable⟩
    exact ⟨⟨hhead, hvalid⟩, havailable⟩

theorem dependenciesCurrent_iff {key : String × Nat} :
    db.dependenciesCurrent now key = true ↔
      ∀ source, TransGen db.DerivedFrom key source → db.SourceCurrent now source := by
  rw [dependenciesCurrent, List.all_eq_true]
  simp only [mem_sources, sourceCurrent_iff]

theorem activeFact_eq_some {record : MemoryRecord}
    (hrecord : db.memory.records.find record.id = some record) :
    db.activeFact now record = some fact ↔ fact.record = record ∧ db.IsFact now fact := by
  simp only [activeFact, Option.bind_eq_bind, Option.bind_eq_some_iff]
  constructor
  · rintro ⟨head, hhead, revision, hrevision, validity, hvalidity, h⟩
    split at h
    · next hfact =>
      obtain ⟨hactive, hvalid, havailable, hexpiry, hcurrent⟩ := hfact
      cases h
      have hkey : revision.revision = head.revision := congrArg Prod.snd (Table.find_key hrevision)
      rw [← hkey] at hrevision hvalidity hcurrent
      refine ⟨rfl, hrecord, ⟨head, hhead, hactive, hkey.symm⟩, hrevision, hvalidity, hvalid, ?_,
        havailable, dependenciesCurrent_iff.mp hcurrent⟩
      intro e he
      change validity.expiryUnixMs = some e at he
      simpa [he] using hexpiry
    · cases h
  · rintro ⟨rfl, h⟩
    obtain ⟨head, hhead, hactive, hkey⟩ := h.head
    refine ⟨head, hhead, fact.revision, hkey ▸ h.revision, fact.validity, hkey ▸ h.validity, ?_⟩
    have hexpiry : ¬fact.validity.expiryUnixMs.any (· ≤ now) = true := by
      cases he : fact.validity.expiryUnixMs with
      | none => simp
      | some e =>
        have := h.unexpired e he
        simpa using this
    rw [if_pos ⟨hactive, h.valid, h.available, hexpiry, hkey ▸ dependenciesCurrent_iff.mpr h.sources⟩]

theorem mem_activeFacts : fact ∈ db.activeFacts now ↔ db.IsFact now fact := by
  simp only [activeFacts, List.mem_filterMap, List.mem_insertionSort]
  constructor
  · rintro ⟨record, hmem, h⟩
    exact ((activeFact_eq_some (Table.find_of_mem hmem)).mp h).2
  · intro h
    exact ⟨fact.record, Table.mem_of_find h.record, (activeFact_eq_some h.record).mpr ⟨rfl, h⟩⟩

/-- No two facts are of one record. -/
theorem nodup_activeFacts : ((db.activeFacts now).map (·.record.id)).Nodup := by
  have hsub : ((db.activeFacts now).map (·.record.id)).Sublist
      ((db.memory.records.rows.insertionSort fun a b => a.id ≤ b.id).map (·.id)) := by
    have hrows : ∀ record ∈ db.memory.records.rows.insertionSort fun a b => a.id ≤ b.id,
        db.memory.records.find record.id = some record := fun record hmem =>
      Table.find_of_mem ((List.mem_insertionSort _).mp hmem)
    unfold activeFacts
    generalize db.memory.records.rows.insertionSort (fun a b => a.id ≤ b.id) = rows at hrows ⊢
    induction rows with
    | nil => exact .slnil
    | cons record rows ih =>
      have hrest := ih fun r hr => hrows r (List.mem_cons_of_mem _ hr)
      rw [List.filterMap_cons]
      cases h : db.activeFact now record with
      | none => exact hrest.cons _
      | some f =>
        rw [List.map_cons, List.map_cons,
          ((activeFact_eq_some (hrows record List.mem_cons_self)).mp h).1]
        exact hrest.cons_cons _
  refine hsub.nodup ?_
  exact ((List.perm_insertionSort _ _).map _).nodup_iff.mpr db.memory.records.nodup

/-! ### Distances -/

variable (db) in
/-- The sources that have no distance yet. -/
def unfound (dist : List (String × Nat)) : List String :=
  (db.memory.dependencies.map (·.source.1)).dedup.filter fun id => (dist.lookup id).isNone

theorem lookup_append_isNone {dist : List (String × Nat)} {next : List String} {n : Nat}
    {id : String} :
    ((dist ++ next.map fun id => (id, n)).lookup id).isNone = true ↔
      (dist.lookup id).isNone = true ∧ id ∉ next := by
  rw [List.lookup_append]
  cases dist.lookup id with
  | some _ => simp
  | none =>
    simp only [Option.none_or, Option.isNone_iff_eq_none, Option.isNone_none, true_and]
    induction next with
    | nil => simp
    | cons first next ih =>
      rw [List.map_cons, List.lookup_cons]
      by_cases he : id = first
      · simp [he]
      · rw [beq_eq_false_iff_ne.mpr he]
        simp [he, ih]

/-- What is queued anew is found for the first time. -/
theorem length_unfound {dist : List (String × Nat)} {next : List String} {n : Nat}
    (hnodup : next.Nodup) (hsub : next ⊆ db.unfound dist) :
    next.length + (db.unfound (dist ++ next.map fun id => (id, n))).length ≤
      (db.unfound dist).length := by
  rw [← List.length_append]
  refine (List.subperm_of_subset (List.nodup_append.mpr ⟨hnodup, ?_, ?_⟩) ?_).length_le
  · exact (List.nodup_dedup _).filter _
  · rintro id hid _ hid' rfl
    exact (lookup_append_isNone.mp (List.mem_filter.mp hid').2).2 hid
  · intro id hid
    rcases List.mem_append.mp hid with hid | hid
    · exact hsub hid
    · obtain ⟨hmem, hnone⟩ := List.mem_filter.mp hid
      exact List.mem_filter.mpr ⟨hmem, (lookup_append_isNone.mp hnone).1⟩

/-- The search for distances has run out of records before it runs out of fuel. -/
theorem hopsFrom_succ {fuel : Nat} {dist : List (String × Nat)} {queue : List String}
    (h : queue.length + (db.unfound dist).length ≤ fuel) :
    db.hopsFrom (fuel + 1) dist queue = db.hopsFrom fuel dist queue := by
  induction fuel generalizing dist queue with
  | zero =>
    obtain rfl := List.eq_nil_of_length_eq_zero (by omega : queue.length = 0)
    rfl
  | succ fuel ih =>
    cases queue with
    | nil => rfl
    | cons id queue =>
      rw [List.length_cons] at h
      rw [hopsFrom, hopsFrom]
      dsimp only
      split
      · exact ih (by omega)
      · apply ih
        have hnext : ∀ next : List String, next =
            (db.hopEdges id).dedup.filter (fun n => (dist.lookup n).isNone) →
            next.length + (db.unfound (dist ++ next.map fun n =>
              (n, (dist.lookup id).getD 0 + 1))).length ≤ (db.unfound dist).length := by
          rintro next rfl
          refine length_unfound (List.Nodup.filter _ ?_) ?_
          · exact List.nodup_dedup _
          · intro n hn
            obtain ⟨hmem, hnone⟩ := List.mem_filter.mp hn
            obtain ⟨d, hd, rfl⟩ := List.mem_map.mp (List.mem_dedup.mp hmem)
            refine List.mem_filter.mpr ⟨List.mem_dedup.mpr (List.mem_map.mpr ?_), hnone⟩
            exact ⟨d, (List.mem_filter.mp hd).1, rfl⟩
        have := hnext _ rfl
        rw [List.length_append]
        omega

/-- With the fuel that it is given, the search answers what it would answer with more. -/
theorem hopsFromPins_eq (pins : List String) (more : Nat) :
    db.hopsFrom (pins.length + db.memory.dependencies.length + more) (pins.map fun pin => (pin, 0))
      pins = db.hopsFromPins pins := by
  induction more with
  | zero => rfl
  | succ more ih =>
    rw [← Nat.add_assoc, hopsFrom_succ, ih]
    have hle : (db.unfound (pins.map fun pin => (pin, 0))).length ≤
        db.memory.dependencies.length := by
      refine (List.length_filter_le _ _).trans ((List.dedup_sublist _).length_le.trans ?_)
      simp
    omega

end Project

/-! ## Selecting -/

variable {db : Project} {plan : SnapshotPlan} {fact : ActiveFact} {facts : List ActiveFact}

/-- Distinct records are each seen once. -/
theorem mandatoryFacts_eq {seen : List String} (hnodup : (facts.map (·.record.id)).Nodup)
    (hnew : ∀ f ∈ facts, f.record.id ∉ seen) :
    mandatoryFacts plan seen facts = facts.filter (isMandatory plan) := by
  induction facts generalizing seen with
  | nil => rfl
  | cons f rest ih =>
    obtain ⟨hf, hrest⟩ := List.nodup_cons.mp hnodup
    have hseen := hnew f List.mem_cons_self
    have hnew' : ∀ g ∈ rest, g.record.id ∉ seen :=
      fun g hg => hnew g (List.mem_cons_of_mem f hg)
    unfold mandatoryFacts
    cases hm : isMandatory plan f with
    | true =>
      rw [List.filter_cons_of_pos hm, if_pos (by simpa using hseen), ih hrest]
      intro g hg
      rw [List.mem_cons, not_or]
      exact ⟨fun he => hf (List.mem_map.mpr ⟨g, hg, he⟩), hnew' g hg⟩
    | false =>
      rw [List.filter_cons_of_neg (by simp [hm]), if_neg (by simp), ih hrest hnew']

/-- The bytes of an entry. -/
def size (db : Project) (role : Role) (fact : ActiveFact) : Nat :=
  ((db.objects.find fact.revision.bodyHash).map (·.size)).getD 0 +
    (entryText fact role).utf8ByteSize

theorem entryBytes_ok {role : Role} {n : Nat} (h : entryBytes db fact role = .ok n) :
    n = size db role fact := by
  unfold entryBytes at h
  unfold size
  split at h
  · cases h
  · next hobject =>
    cases h
    rw [hobject]
    rfl

/-- Within the range of a column no addition has saturated. -/
theorem addMandatory_ok {required out : Nat} (h : addMandatory db required facts = .ok out)
    (hrange : out ≤ i64Max) : out = required + Greedy.total (size db .mandatory) facts := by
  induction facts generalizing required with
  | nil =>
    cases h
    simp
  | cons f rest ih =>
    obtain ⟨n, hn, hrest⟩ := Except.bind_ok.mp h
    obtain rfl := entryBytes_ok hn
    have hout := ih hrest
    have hmax : i64Max < u64Max := by decide
    rw [Greedy.total_cons]
    unfold saturatingAdd at hout
    omega

/-- The loop is the greedy choice with its accounts. -/
theorem takeOptional_ok {remaining bytes omitted : Nat} {out : List ActiveFact × Nat × Nat}
    (h : takeOptional db remaining bytes omitted facts = .ok out) :
    out.1 = Greedy.choose (size db .optional) remaining facts ∧
      out.2.1 = bytes + Greedy.total (size db .optional) out.1 ∧
      out.2.2 + out.1.length = omitted + facts.length := by
  induction facts generalizing remaining bytes omitted out with
  | nil =>
    cases h
    exact ⟨rfl, rfl, rfl⟩
  | cons f rest ih =>
    obtain ⟨n, hn, hrest⟩ := Except.bind_ok.mp h
    obtain rfl := entryBytes_ok hn
    split at hrest
    · next hlarge =>
      obtain ⟨htaken, hbytes, hcount⟩ := ih hrest
      refine ⟨htaken.trans (Greedy.choose_cons_of_lt hlarge).symm, hbytes, ?_⟩
      rw [List.length_cons]
      omega
    · next hfits =>
      obtain ⟨⟨taken, bytes', omitted'⟩, htail, hpure⟩ := Except.bind_ok.mp hrest
      obtain ⟨htaken, hbytes, hcount⟩ := ih htail
      cases hpure
      dsimp only at htaken hbytes hcount ⊢
      refine ⟨?_, ?_, ?_⟩
      · rw [Greedy.choose_cons_of_le (by omega), htaken]
      · rw [Greedy.total_cons, hbytes]
        omega
      · simp only [List.length_cons]
        omega

theorem checkPinned_ok {keys : List String} {u : Unit} (h : checkPinned plan facts keys = .ok u) :
    ∀ key ∈ keys, ∃ f ∈ facts, f.record.recordKey = key := by
  induction keys with
  | nil => simp
  | cons key rest ih =>
    unfold checkPinned at h
    split at h
    · cases h
    · next f hf =>
      obtain ⟨_, -, h⟩ := Except.bind_ok.mp h
      obtain ⟨_, -, h⟩ := Except.bind_ok.mp h
      refine List.forall_mem_cons.mpr ⟨⟨f, ?_, ?_⟩, ih h⟩
      · exact List.mem_reverse.mp (List.mem_of_find?_eq_some hf)
      · simpa using List.find?_some hf

theorem demand_ok {p : Prop} [Decidable p] {e : StoreError} {u : Unit} :
    demand p e = .ok u ↔ p := by
  unfold demand
  by_cases h : p <;> simp [h]

/-! ### The selection as a whole -/

namespace Project

variable (db plan)

/-- The facts that have to be in the snapshot. -/
def mandatory : List ActiveFact := (db.activeFacts plan.nowUnixMs).filter (isMandatory plan)

/-- The distances from the pinned records. -/
def distances : List (String × Nat) :=
  db.hopsFromPins (plan.request.pinnedKeys.filterMap fun key =>
    (byKey (db.activeFacts plan.nowUnixMs) key).map (·.record.id))

/-- A fact that the snapshot may leave out. -/
structure Eligible (fact : ActiveFact) : Prop where
  task : plan.coordinator = false
  isFact : db.IsFact plan.nowUnixMs fact
  optional : isMandatory plan fact = false
  scope : fact.record.kind = .taskLocal → fact.record.scopeId = taskScope plan
  relevant : ((db.distances plan).lookup fact.record.id).isSome = true ∨
    scopeMatches plan.request fact.revision.applicability = true

/-- The eligible facts in the order in which they are considered. -/
def ranked : List ActiveFact :=
  if plan.coordinator then []
  else rankedFacts db plan (db.activeFacts plan.nowUnixMs) (db.mandatory plan)

/-- The greedy choice with what the mandatory entries leave. -/
def optional (required : Nat) : List ActiveFact :=
  Greedy.choose (size db .optional) (plan.budgetChars - required) (db.ranked plan)

/-- What the mandatory part of the snapshot takes, without saturation. -/
def requiredTotal (env : Outside) : Except StoreError Nat := do
  let (taskId, _, _) ← subject db plan
  let text ← taskText db plan taskId
  let base ← requiredBase env plan (requestText plan.request) text
  pure (base + Greedy.total (size db .mandatory) (db.mandatory plan))

variable {db plan}

theorem mem_mandatory :
    fact ∈ db.mandatory plan ↔ db.IsFact plan.nowUnixMs fact ∧ isMandatory plan fact = true := by
  rw [mandatory, List.mem_filter, mem_activeFacts]

theorem eq_of_isFact {now : Int} {f g : ActiveFact} (hf : db.IsFact now f) (hg : db.IsFact now g)
    (hid : f.record.id = g.record.id) : f = g :=
  List.inj_on_of_nodup_map nodup_activeFacts (mem_activeFacts.mpr hf) (mem_activeFacts.mpr hg) hid

theorem mem_ranked : fact ∈ db.ranked plan ↔ db.Eligible plan fact := by
  unfold ranked
  split
  · next hcoordinator =>
    refine ⟨fun h => (List.not_mem_nil h).elim, fun h => ?_⟩
    rw [h.task] at hcoordinator
    cases hcoordinator
  · next hcoordinator =>
    have hseen : db.IsFact plan.nowUnixMs fact →
        (fact.record.id ∈ (db.mandatory plan).map (·.record.id) ↔ isMandatory plan fact = true) := by
      intro hfact
      refine ⟨fun h => ?_, fun h => List.mem_map.mpr ⟨fact, mem_mandatory.mpr ⟨hfact, h⟩, rfl⟩⟩
      obtain ⟨g, hg, hid⟩ := List.mem_map.mp h
      obtain ⟨hfactg, hmandatory⟩ := mem_mandatory.mp hg
      rwa [← eq_of_isFact hfactg hfact hid]
    have hstanding : isMandatory plan fact = false → standing fact.record.kind = false := by
      unfold isMandatory
      simp only [Bool.or_eq_false_iff]
      exact fun h => h.1.1
    unfold rankedFacts
    simp only [List.mem_insertionSort, List.mem_filter, mem_activeFacts]
    constructor
    · rintro ⟨hfact, heligible⟩
      unfold isEligible at heligible
      split at heligible
      · cases heligible
      · next hskip =>
        split at heligible
        · cases heligible
        · next hscope =>
          simp only [Bool.or_eq_true, List.contains_iff_mem, not_or, hseen hfact,
            Bool.not_eq_true] at hskip
          refine ⟨by simpa using hcoordinator, hfact, hskip.1, ?_,
            Bool.or_eq_true_iff.mp heligible⟩
          exact fun hkind => by_contra fun hne => hscope ⟨hkind, hne⟩
    · intro h
      refine ⟨h.isFact, ?_⟩
      unfold isEligible
      rw [if_neg, if_neg]
      · exact Bool.or_eq_true_iff.mpr h.relevant
      · rintro ⟨hkind, hne⟩
        exact hne (h.scope hkind)
      · simp only [Bool.or_eq_true, List.contains_iff_mem, hseen h.isFact, h.optional,
          hstanding h.optional]
        simp

theorem nodup_ranked : (db.ranked plan).Nodup := by
  unfold ranked
  split
  · exact List.nodup_nil
  · unfold rankedFacts
    refine (List.perm_insertionSort _ _).nodup_iff.mpr (List.Nodup.filter _ ?_)
    exact nodup_activeFacts.of_map _

instance : Std.Total (ranksBefore plan (db.distances plan)) where
  total a b := by
    unfold ranksBefore
    dsimp only
    rcases lt_trichotomy
      (selectionScore plan.request a ((db.distances plan).lookup a.record.id))
      (selectionScore plan.request b ((db.distances plan).lookup b.record.id)) with h | h | h
    · exact .inr (.inl h)
    · rcases String.le_total a.record.id b.record.id with h' | h'
      · exact .inl (.inr ⟨h, h'⟩)
      · exact .inr (.inr ⟨h.symm, h'⟩)
    · exact .inl (.inl h)

instance : IsTrans ActiveFact (ranksBefore plan (db.distances plan)) where
  trans a b c := by
    unfold ranksBefore
    dsimp only
    rintro (h | ⟨h, hid⟩) (h' | ⟨h', hid'⟩)
    · exact .inl (h'.trans h)
    · exact .inl (h' ▸ h)
    · exact .inl (h ▸ h')
    · exact .inr ⟨h.trans h', String.le_trans hid hid'⟩

/-- Greater scores come first, and records of one score in their order. -/
theorem sorted_ranked : (db.ranked plan).Pairwise (ranksBefore plan (db.distances plan)) := by
  unfold ranked
  split
  · exact .nil
  · exact List.pairwise_insertionSort _ _

end Project

/-- What a selection that succeeds has established. -/
structure Selected (env : Outside) (plan : SnapshotPlan) (db : Project) (selection : Selection) :
    Prop where
  standing : ∀ id ∈ db.requiredIds, ∃ f ∈ db.activeFacts plan.nowUnixMs, f.record.id = id
  pinned : ∀ key ∈ plan.request.pinnedKeys,
    ∃ f ∈ db.activeFacts plan.nowUnixMs, f.record.recordKey = key
  mandatory : selection.mandatory = db.mandatory plan
  required : ∃ total, db.requiredTotal plan env = .ok total ∧
    (selection.required ≤ i64Max → selection.required = total)
  budget : selection.required ≤ plan.budgetChars
  optional : selection.optional = db.optional plan selection.required
  bytes : selection.optionalBytes = Greedy.total (size db .optional) selection.optional
  omitted : selection.omitted + selection.optional.length = (db.ranked plan).length

theorem select_ok [SnapshotDigests] {env : Outside} {selection : Selection}
    (h : select env plan db = .ok selection) : Selected env plan db selection := by
  unfold select at h
  simp only [Except.bind_ok, demand_ok] at h
  obtain ⟨-, -, -, -, -, -, ⟨taskId, revision, subscriber⟩, hsubject, -, -, facts, hfacts, -, -, -,
    hstanding, _, hpinned, text, htext, base, hbase, required, hrequired, -, hbudget, h⟩ := h
  have hload : facts = db.activeFacts plan.nowUnixMs := by
    unfold Project.loadActiveFacts at hfacts
    split at hfacts
    · cases hfacts
    · cases hfacts
      rfl
  subst hload
  have hmandatory : mandatoryFacts plan [] (db.activeFacts plan.nowUnixMs) = db.mandatory plan :=
    mandatoryFacts_eq Project.nodup_activeFacts fun _ _ => List.not_mem_nil
  rw [hmandatory] at hrequired h
  have htotal : db.requiredTotal plan env =
      .ok (base + Greedy.total (size db .mandatory) (db.mandatory plan)) := by
    unfold Project.requiredTotal
    simp only [Except.bind_ok]
    exact ⟨_, hsubject, text, htext, base, hbase, rfl⟩
  have hsum : ∃ total, db.requiredTotal plan env = .ok total ∧
      (required ≤ i64Max → required = total) := ⟨_, htotal, addMandatory_ok hrequired⟩
  split at h
  · next hcoordinator =>
    cases h
    have hranked : db.ranked plan = [] := if_pos hcoordinator
    refine ⟨hstanding, checkPinned_ok hpinned, rfl, hsum, hbudget, ?_, rfl, by rw [hranked]; rfl⟩
    rw [Project.optional, hranked]
    rfl
  · next hcoordinator =>
    obtain ⟨⟨taken, bytes, omitted⟩, htake, h⟩ := Except.bind_ok.mp h
    cases h
    have hranked : rankedFacts db plan (db.activeFacts plan.nowUnixMs) (db.mandatory plan) =
        db.ranked plan := (if_neg hcoordinator).symm
    rw [hranked] at htake
    obtain ⟨htaken, hbytes, hcount⟩ := takeOptional_ok htake
    refine ⟨hstanding, checkPinned_ok hpinned, rfl, hsum, hbudget, htaken, ?_, ?_⟩
    · exact hbytes.trans (Nat.zero_add _)
    · exact hcount.trans (Nat.zero_add _)

/-! ## The snapshot -/

/-- What a snapshot of a plan is, in terms of the tables it was selected from. -/
structure Sound (env : Outside) (db : Project) (plan : SnapshotPlan) (row : SnapshotRow) : Prop where
  /-- An active hard, constraint or hard-memory record has a mandatory entry. -/
  standing : ∀ record ∈ db.memory.records.rows, record.required = true →
    (∃ head, db.memory.heads.find record.id = some head ∧ head.active = true) →
    ∃ entry ∈ row.entries, entry.recordId = record.id ∧ entry.role = .mandatory
  /-- So has every pinned key of a task's plan. -/
  pinned : plan.coordinator = false → ∀ key ∈ plan.request.pinnedKeys,
    ∃ entry ∈ row.entries, entry.role = .mandatory ∧
      ∃ record, db.memory.records.find entry.recordId = some record ∧ record.recordKey = key
  distinct : (row.entries.map (·.recordId)).Nodup
  facts : ∀ entry ∈ row.entries, ∃ fact, db.IsFact plan.nowUnixMs fact ∧
    fact.record.id = entry.recordId ∧ fact.revision.revision = entry.revision
  required : db.requiredTotal plan env = .ok row.requiredBytes
  budget : row.requiredBytes + row.optionalBytes ≤ plan.budgetChars
  /-- The optional entries are the greedy choice. -/
  optional : (row.entries.filter (·.role = .optional)).map (fun e => (e.recordId, e.revision)) =
    (db.optional plan row.requiredBytes).map fun f => (f.record.id, f.revision.revision)
  bytes : row.optionalBytes =
    Greedy.total (size db .optional) (db.optional plan row.requiredBytes)
  omitted : row.omittedOptionalCount + (row.entries.filter (·.role = .optional)).length =
    (db.ranked plan).length

theorem entries_map {selection : Selection} {β : Type} (f : String × Nat × Role → β) :
    selection.entries.map (fun e => f (e.recordId, e.revision, e.role)) =
      (selection.mandatory.map fun fact => f (fact.record.id, fact.revision.revision, .mandatory)) ++
        selection.optional.map fun fact => f (fact.record.id, fact.revision.revision, .optional) := by
  have hindex : selection.entries.map (fun e => f (e.recordId, e.revision, e.role)) =
      (selection.chosen.zipIdx.map Prod.fst).map
        fun c => f (c.1.record.id, c.1.revision.revision, c.2.1) := by
    unfold Selection.entries
    rw [List.map_map, List.map_map]
    rfl
  rw [hindex, List.zipIdx_map_fst, Selection.chosen, List.map_append, List.map_map, List.map_map]
  rfl

/-- The optional entries, in order. -/
theorem entries_optional {selection : Selection} :
    (selection.entries.filter (·.role = .optional)).map (fun e => (e.recordId, e.revision)) =
      selection.optional.map fun fact => (fact.record.id, fact.revision.revision) := by
  have hall : selection.entries.map (fun e => (e.recordId, e.revision, e.role)) =
      _ ++ _ := entries_map id
  have hfilter := congrArg (List.filter fun t => t.2.2 = Role.optional) hall
  rw [List.filter_map, List.filter_append, List.filter_map, List.filter_map] at hfilter
  have hpairs := congrArg (List.map fun t : String × Nat × Role => (t.1, t.2.1)) hfilter
  simpa [Function.comp_def] using hpairs

/-- An entry is that of a chosen fact. -/
theorem mem_entries {selection : Selection} {e : SnapshotEntry} (h : e ∈ selection.entries) :
    ∃ fact, (fact ∈ selection.mandatory ∨ fact ∈ selection.optional) ∧
      fact.record.id = e.recordId ∧ fact.revision.revision = e.revision := by
  have hmem : (e.recordId, e.revision, e.role) ∈
      selection.entries.map (fun e => id (e.recordId, e.revision, e.role)) :=
    List.mem_map.mpr ⟨e, h, rfl⟩
  rw [entries_map] at hmem
  rcases List.mem_append.mp hmem with hmem | hmem
  · obtain ⟨fact, hfact, he⟩ := List.mem_map.mp hmem
    exact ⟨fact, .inl hfact, congrArg Prod.fst he, congrArg (fun t => t.2.1) he⟩
  · obtain ⟨fact, hfact, he⟩ := List.mem_map.mp hmem
    exact ⟨fact, .inr hfact, congrArg Prod.fst he, congrArg (fun t => t.2.1) he⟩

theorem exists_mandatory {selection : Selection} (h : fact ∈ selection.mandatory) :
    ∃ e ∈ selection.entries, e.recordId = fact.record.id ∧ e.role = .mandatory := by
  have hmem : (fact.record.id, fact.revision.revision, Role.mandatory) ∈
      selection.entries.map (fun e => id (e.recordId, e.revision, e.role)) := by
    rw [entries_map]
    exact List.mem_append_left _ (List.mem_map.mpr ⟨fact, h, rfl⟩)
  obtain ⟨e, he, hkey⟩ := List.mem_map.mp hmem
  exact ⟨e, he, congrArg Prod.fst hkey, congrArg (fun t => t.2.2) hkey⟩

theorem isMandatory_of_required {record : MemoryRecord} (hrecord : fact.record = record)
    (h : record.required = true) : isMandatory plan fact = true := by
  subst hrecord
  unfold MemoryRecord.required at h
  unfold isMandatory standing
  simp only [Bool.or_eq_true] at h ⊢
  tauto

/-- A selection whose row is in the range of its columns is sound. -/
theorem Selected.sound [SnapshotDigests] {env : Outside} {selection : Selection}
    (h : Selected env plan db selection) (hrange : selection.required ≤ i64Max) :
    Sound env db plan (snapshotRow db plan selection) := by
  have hoptional : ∀ f ∈ selection.optional, db.Eligible plan f := by
    intro f hf
    rw [h.optional] at hf
    exact Project.mem_ranked.mp (Greedy.choose_sublist.subset hf)
  have hlength : (selection.entries.filter (·.role = .optional)).length =
      selection.optional.length := by
    have := congrArg List.length (@entries_optional selection)
    simpa using this
  refine ⟨?_, ?_, ?_, ?_, ?_, ?_, ?_, ?_, ?_⟩
  · intro record hrecord hrequired ⟨head, hhead, hactive⟩
    have hid : record.id ∈ db.requiredIds := by
      refine List.mem_map.mpr ⟨record, List.mem_filter.mpr ⟨hrecord, ?_⟩, rfl⟩
      simp [hhead, hactive, hrequired]
    obtain ⟨f, hf, hfid⟩ := h.standing record.id hid
    have hfact := Project.mem_activeFacts.mp hf
    have hsame : f.record = record :=
      Table.eq_of_mem (Table.mem_of_find hfact.record) hrecord hfid
    have hmem : f ∈ selection.mandatory := by
      rw [h.mandatory, Project.mem_mandatory]
      exact ⟨hfact, isMandatory_of_required hsame hrequired⟩
    obtain ⟨e, he, hkey, hrole⟩ := exists_mandatory hmem
    exact ⟨e, he, hkey.trans hfid, hrole⟩
  · intro htask key hkey
    obtain ⟨f, hf, hfkey⟩ := h.pinned key hkey
    have hfact := Project.mem_activeFacts.mp hf
    have hmem : f ∈ selection.mandatory := by
      rw [h.mandatory, Project.mem_mandatory]
      refine ⟨hfact, ?_⟩
      unfold isMandatory
      simp [htask, hfkey, hkey]
    obtain ⟨e, he, hid, hrole⟩ := exists_mandatory hmem
    exact ⟨e, he, hrole, f.record, by rw [hid]; exact hfact.record, hfkey⟩
  · have hids : (snapshotRow db plan selection).entries.map (·.recordId) =
        (selection.mandatory ++ selection.optional).map (·.record.id) := by
      rw [List.map_append]
      exact entries_map (fun t => t.1)
    rw [hids, h.mandatory]
    refine List.Nodup.map_on ?_ ?_
    · intro f hf g hg hid
      have hfacts : ∀ f ∈ db.mandatory plan ++ selection.optional, db.IsFact plan.nowUnixMs f := by
        intro f hf
        rcases List.mem_append.mp hf with hf | hf
        · exact (Project.mem_mandatory.mp hf).1
        · exact (hoptional f hf).isFact
      exact Project.eq_of_isFact (hfacts f hf) (hfacts g hg) hid
    · rw [List.nodup_append]
      refine ⟨(Project.nodup_activeFacts.of_map _).filter _, ?_, ?_⟩
      · rw [h.optional]
        exact Greedy.choose_sublist.nodup Project.nodup_ranked
      · rintro f hf _ hg rfl
        have hno := (hoptional f hg).optional
        rw [(Project.mem_mandatory.mp hf).2] at hno
        cases hno
  · intro e he
    obtain ⟨f, hf, hid, hrevision⟩ := mem_entries he
    refine ⟨f, ?_, hid, hrevision⟩
    rcases hf with hf | hf
    · rw [h.mandatory] at hf
      exact (Project.mem_mandatory.mp hf).1
    · exact (hoptional f hf).isFact
  · obtain ⟨total, htotal, hsum⟩ := h.required
    rw [htotal]
    exact congrArg _ (hsum hrange).symm
  · have hle := @Greedy.total_choose_le _ (size db .optional) (plan.budgetChars - selection.required)
      (db.ranked plan)
    have hbytes := h.bytes
    have hbudget := h.budget
    rw [h.optional, Project.optional] at hbytes
    change selection.required + selection.optionalBytes ≤ plan.budgetChars
    omega
  · exact entries_optional.trans (by rw [h.optional]; rfl)
  · exact h.bytes.trans (by rw [h.optional]; rfl)
  · have := h.omitted
    change selection.omitted + (selection.entries.filter (·.role = .optional)).length = _
    omega

/-! ## The call -/

/-- The selection, when there is one, has an identity that no snapshot has. -/
def Fresh [SnapshotDigests] (env : Outside) (plan : SnapshotPlan) (db : Project) : Prop :=
  ∀ selection, select env plan db = .ok selection →
    db.snapshots.find (snapshotRow db plan selection).id = none

/-- What a body that succeeds on a fresh identity has done. -/
theorem createBody_ok [SnapshotDigests] {env : Outside} {db' : Project} {id : String}
    (hfresh : Fresh env plan db) (h : createBody env plan db = .ok (id, db')) :
    ∃ selection, select env plan db = .ok selection ∧
      checkIntegers (snapshotRow db plan selection) = .ok () ∧
      id = (snapshotRow db plan selection).id ∧
      db'.snapshots.find id = some (snapshotRow db plan selection) := by
  unfold createBody at h
  simp only [Tx.query_bind, Tx.ask_bind] at h
  obtain ⟨selection, hselect, h⟩ := h
  have hnone := hfresh selection hselect
  rw [hnone] at h
  simp only [Option.isSome_none, Bool.false_eq_true, if_false, Tx.check_bind, Tx.insert_bind,
    Tx.outside_bind, Tx.pure_ok] at h
  obtain ⟨_, hintegers, db₁, hsnapshot, db₂, hsubscription, -, rfl, rfl⟩ := h
  obtain ⟨snapshots, hinsert, rfl⟩ := Option.map_eq_some_iff.mp hsnapshot
  obtain ⟨subscriptions, -, rfl⟩ := Option.map_eq_some_iff.mp hsubscription
  refine ⟨selection, hselect, hintegers, rfl, ?_⟩
  exact (Table.find_insert? hinsert).trans (if_pos rfl)

/-- A call answers with the row of a selection, or leaves the store as it was. -/
theorem createMemorySnapshot_cases [SnapshotDigests] (env : Outside)
    (hfresh : Fresh env plan db) :
    (∃ selection, Selected env plan db selection ∧ selection.required ≤ i64Max ∧
      ∀ snapshot, (createMemorySnapshot env plan db).1 = .ok snapshot →
        snapshot.row = snapshotRow db plan selection) ∨
    ∃ e, createMemorySnapshot env plan db = (.error e, db) := by
  unfold createMemorySnapshot
  obtain ⟨id, db', hbody, hcommit⟩ | ⟨e, -, hcommit⟩ := Tx.commit_eq (createBody env plan) db
  · left
    rw [hcommit]
    obtain ⟨selection, hselect, hintegers, rfl, hfind⟩ := createBody_ok hfresh hbody
    refine ⟨selection, select_ok hselect, ?_, ?_⟩
    · unfold checkIntegers at hintegers
      obtain ⟨_, -, hintegers⟩ := Except.bind_ok.mp hintegers
      obtain ⟨_, -, hintegers⟩ := Except.bind_ok.mp hintegers
      obtain ⟨_, hrequired, -⟩ := Except.bind_ok.mp hintegers
      exact demand_ok.mp hrequired
    · intro snapshot hread
      dsimp only at hread
      unfold readMemorySnapshot at hread
      rw [hfind] at hread
      dsimp only at hread
      split at hread
      · cases hread
      · cases hread
        rfl
  · right
    rw [hcommit]
    exact ⟨e, rfl⟩

/-- **Snapshots keep their budget.** On a fresh identity a snapshot holds every mandatory record and
the greedy choice among the ranked facts, exactly accounted and within the budget; when a mandatory
record is no fact or does not fit, the call fails and writes nothing. -/
theorem snapshot_within_budget [SnapshotDigests] (env : Outside) (plan : SnapshotPlan) (db : Project)
    (hfresh : Fresh env plan db) :
    (∀ snapshot db', createMemorySnapshot env plan db = (.ok snapshot, db') →
      Sound env db plan snapshot.row ∧
      ∀ before fact after, db.ranked plan = before ++ fact :: after →
        (fact ∈ db.optional plan snapshot.row.requiredBytes ↔
          snapshot.row.requiredBytes + Greedy.total (size db .optional)
            (Greedy.choose (size db .optional) (plan.budgetChars - snapshot.row.requiredBytes) before) +
            size db .optional fact ≤ plan.budgetChars)) ∧
    ((db.ranked plan).Nodup ∧ (∀ fact, fact ∈ db.ranked plan ↔ db.Eligible plan fact) ∧
      (db.ranked plan).Pairwise (ranksBefore plan (db.distances plan))) ∧
    ((∃ record ∈ db.memory.records.rows, record.required = true ∧
        (∃ head, db.memory.heads.find record.id = some head ∧ head.active = true) ∧
        ∀ fact, db.IsFact plan.nowUnixMs fact → fact.record ≠ record) ∨
      (∃ key ∈ plan.request.pinnedKeys,
        ∀ fact, db.IsFact plan.nowUnixMs fact → fact.record.recordKey ≠ key) ∨
      (∃ total, db.requiredTotal plan env = .ok total ∧ plan.budgetChars < total) →
      ∃ e, createMemorySnapshot env plan db = (.error e, db)) := by
  refine ⟨?_, ⟨Project.nodup_ranked, fun _ => Project.mem_ranked, Project.sorted_ranked⟩, ?_⟩
  · intro snapshot db' hcreate
    obtain ⟨selection, hselected, hrange, hrow⟩ | ⟨e, herror⟩ :=
      createMemorySnapshot_cases env hfresh
    · have hsound := hrow snapshot (by rw [hcreate])
      rw [hsound]
      refine ⟨hselected.sound hrange, fun before fact after hsplit => ?_⟩
      have hbudget := hselected.budget
      change _ ↔ selection.required + _ + _ ≤ plan.budgetChars
      rw [Project.optional, Greedy.mem_choose_iff Project.nodup_ranked hsplit]
      change _ + _ ≤ plan.budgetChars - selection.required ↔ _
      omega
    · rw [hcreate] at herror
      cases herror
  · intro hbad
    obtain ⟨selection, hselected, hrange, -⟩ | herror := createMemorySnapshot_cases env hfresh
    · exfalso
      rcases hbad with ⟨record, hrecord, hrequired, ⟨head, hhead, hactive⟩, hno⟩ |
        ⟨key, hkey, hno⟩ | ⟨total, htotal, hlarge⟩
      · have hid : record.id ∈ db.requiredIds := by
          refine List.mem_map.mpr ⟨record, List.mem_filter.mpr ⟨hrecord, ?_⟩, rfl⟩
          simp [hhead, hactive, hrequired]
        obtain ⟨f, hf, hfid⟩ := hselected.standing record.id hid
        have hfact := Project.mem_activeFacts.mp hf
        exact hno f hfact (Table.eq_of_mem (Table.mem_of_find hfact.record) hrecord hfid)
      · obtain ⟨f, hf, hfkey⟩ := hselected.pinned key hkey
        exact hno f (Project.mem_activeFacts.mp hf) hfkey
      · obtain ⟨total', htotal', hsum⟩ := hselected.required
        rw [htotal, Except.ok.injEq] at htotal'
        have := hsum hrange
        have := hselected.budget
        omega
    · exact herror

/-! ## A rule, a pinned record and two optional ones -/

namespace Sample

open Objects (ObjectId)

/-- Stand-in digests. -/
@[reducible] def digests : SnapshotDigests where
  text _ := "0"
  heads _ := "1"
  manifest _ := "2"
  cache _ := "3"

def body (n : Char) (h : digest64 (String.ofList (List.replicate 64 n)) = true) : ObjectId := ⟨_, h⟩

def a : ObjectId := body 'a' (by decide)
def b : ObjectId := body 'b' (by decide)

/-- A rule, a pinned record, a source of it, and a record too large for the budget. -/
def project : Project where
  memory := { ReadSets.Knowledge.created "/state.db" with
    head := 4
    records := ⟨[⟨"rule", "memory/rule.md", "project", .constraint, false⟩,
      ⟨"pin", "memory/pin.md", "project", .observation, false⟩,
      ⟨"large", "memory/large.md", "project", .contract, false⟩,
      ⟨"small", "memory/small.md", "project", .assumption, false⟩], by decide⟩
    revisions := ⟨[⟨"rule", 1, a, a, 1, ⟨[], []⟩⟩, ⟨"pin", 1, a, a, 2, ⟨[], []⟩⟩,
      ⟨"large", 1, b, a, 3, ⟨[], []⟩⟩, ⟨"small", 1, a, a, 4, ⟨[], []⟩⟩], by decide⟩
    heads := ⟨[⟨"rule", 1, true, 1⟩, ⟨"pin", 1, true, 1⟩, ⟨"large", 1, true, 1⟩,
      ⟨"small", 1, true, 1⟩], by decide⟩
    validity := ⟨[⟨"rule", 1, .valid, "control_insert", none, 1⟩,
      ⟨"pin", 1, .valid, "control_insert", none, 2⟩,
      ⟨"large", 1, .valid, "control_insert", none, 3⟩,
      ⟨"small", 1, .valid, "control_insert", some 2000, 4⟩], by decide⟩
    dependencies := [⟨("pin", 1), ("small", 1), "supports"⟩] }
  objects := ⟨[⟨a, 10, .available, .unclaimed, 0, 0⟩, ⟨b, 10000, .available, .unclaimed, 0, 0⟩],
    by decide⟩
  tasks := ⟨[⟨"task", 1, "A task"⟩], by decide⟩
  control := ⟨1, 1, .active, false, none⟩
  snapshots := .empty
  subscriptions := .empty

def taskPlan : SnapshotPlan where
  coordinator := false
  sessionId := none
  request := ⟨1, "task", "implementation", [], [], ["memory/pin.md"], "default"⟩
  profileName := "implementation"
  profileDigest := a.val
  configDigest := none
  budgetChars := 2000
  estimator := "char-count-v1"
  instructions := "Do it."
  nowUnixMs := 1000
  expectedHeadsDigest := none

end Sample

/-- The theorem at a plan whose budget leaves out the largest record. -/
theorem snapshot_within_budget_sample :
    letI := Sample.digests
    ∃ snapshot, (createMemorySnapshot {} Sample.taskPlan Sample.project).1 = .ok snapshot ∧
      snapshot.row.entries.map (fun e => (e.recordId, e.role)) =
        [("pin", .mandatory), ("rule", .mandatory), ("small", .optional)] ∧
      Sound {} Sample.project Sample.taskPlan snapshot.row := by
  let _ := Sample.digests
  have hfresh : Fresh {} Sample.taskPlan Sample.project := fun _ _ => rfl
  have hentries : (createMemorySnapshot {} Sample.taskPlan Sample.project).1.map (fun snapshot =>
      snapshot.row.entries.map fun e => (e.recordId, e.role)) =
      .ok [("pin", .mandatory), ("rule", .mandatory), ("small", .optional)] := by decide +kernel
  obtain ⟨hsound, -, -⟩ := snapshot_within_budget {} Sample.taskPlan Sample.project hfresh
  cases hcreate : createMemorySnapshot {} Sample.taskPlan Sample.project with
  | mk answer db' =>
    rw [hcreate] at hentries
    cases answer with
    | error e => cases hentries
    | ok snapshot =>
      simp only [Except.map, Except.ok.injEq] at hentries
      exact ⟨snapshot, rfl, hentries, (hsound snapshot db' hcreate).1⟩

end Herdr.Snapshots
