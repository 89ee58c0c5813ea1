import Herdr.Lib.Steps
import Herdr.Store.ReadSets

/-!
# The read-set fence has no ABA

The fence is compared by value, so it must never return to an earlier value after mandatory
knowledge has moved. Its generations only grow: `mass` adds them up, every statement about a
mandatory record raises it, and every other statement leaves all that the fence reads alone.
-/

namespace Herdr.ReadSets

open Objects (MemoryKind MemoryHead ObjectId headExpected)

variable {db db' : Knowledge}

/-- The fence covers the record. -/
def Mandatory (db : Knowledge) (id : String) : Prop :=
  ∃ r, db.records.find id = some r ∧ r.mandatory = true

/-- Every scope of a mandatory record has its generation. -/
def Cataloged (db : Knowledge) : Prop :=
  ∀ r ∈ db.records.rows, r.mandatory = true → ∃ c, db.catalog.find r.scopeId = some c

/-- The generations of a catalog, each counted once more for being there. -/
def weight (catalog : Catalog) : Nat := (catalog.rows.map fun c => c.generation + 1).sum

/-- All generations of the fence. -/
def Knowledge.mass (db : Knowledge) : Nat := db.requiredGeneration + weight db.catalog

theorem weight_advance {catalog : Catalog} {scope : String} {row : ScopeCatalogGeneration}
    (h : catalog.find scope = some row) : weight (advance catalog scope) = weight catalog + 1 := by
  have hkey : row.scopeId = scope := Table.find_key h
  have hmem := Table.mem_of_find h
  have hnodup := catalog.nodup
  unfold advance weight
  simp only [h, Table.rows_update, List.map_map]
  generalize catalog.rows = rows at hmem hnodup
  induction rows with
  | nil => cases hmem
  | cons c rest ih =>
    simp only [List.map_cons, List.nodup_cons] at hnodup
    simp only [List.map_cons, List.sum_cons, Function.comp]
    rcases List.mem_cons.mp hmem with rfl | hmem
    · have hrest : rest.map ((fun c => c.generation + 1) ∘ fun r =>
          if r.scopeId = row.scopeId then { row with generation := row.generation + 1 } else r) =
          rest.map fun c => c.generation + 1 := by
        apply List.map_congr_left
        intro r hr
        have hne : r.scopeId ≠ row.scopeId := by
          intro he
          exact hnodup.1 (he ▸ List.mem_map_of_mem hr)
        simp [hne]
      rw [hrest]
      simp
      omega
    · have hne : c.scopeId ≠ row.scopeId := by
        intro he
        exact hnodup.1 (he ▸ List.mem_map_of_mem hmem)
      rw [ih hmem hnodup.2]
      simp [hne]
      omega

theorem weight_upsert (catalog : Catalog) (scope : String) :
    weight catalog < weight (upsert catalog scope) := by
  unfold upsert
  cases hinsert : catalog.insert? ⟨scope, 1⟩ with
  | some catalog' =>
    have hrows := (Table.insert?_eq_some hinsert).2
    simp [weight, hrows]
  | none =>
    cases hfind : catalog.find scope with
    | some row =>
      have hadvance := weight_advance hfind
      simp only
      omega
    | none =>
      simp [Table.insert?, hfind] at hinsert

theorem find_upsert (catalog : Catalog) (scope : String) :
    ∃ c, (upsert catalog scope).find scope = some c := by
  unfold upsert
  cases hinsert : catalog.insert? ⟨scope, 1⟩ with
  | some catalog' =>
    exact ⟨⟨scope, 1⟩, (Table.find_insert? hinsert).trans (if_pos rfl)⟩
  | none =>
    cases hfind : catalog.find scope with
    | some row =>
      simp only [advance, hfind]
      have hkey : row.scopeId = scope := Table.find_key hfind
      refine ⟨{ row with generation := row.generation + 1 }, ?_⟩
      rw [Table.find_update, if_pos hkey, hfind]
      rfl
    | none =>
      simp [Table.insert?, hfind] at hinsert

/-- A scope that is there stays. -/
theorem find_advance {catalog : Catalog} {scope other : String} {c : ScopeCatalogGeneration}
    (h : catalog.find other = some c) : ∃ c, (advance catalog scope).find other = some c := by
  unfold advance
  split
  · next row hrow =>
    rw [Table.find_update, h]
    split
    · exact ⟨_, rfl⟩
    · exact ⟨c, rfl⟩
  · exact ⟨c, h⟩

theorem find_upsert_of_find {catalog : Catalog} {scope other : String} {c : ScopeCatalogGeneration}
    (h : catalog.find other = some c) : ∃ c, (upsert catalog scope).find other = some c := by
  unfold upsert
  split
  · next catalog' hinsert => exact ⟨c, Table.find_insert?_of_some hinsert h⟩
  · exact find_advance h

/-! ## What one statement does to the fence -/

/-- All that the fence reads about records is the same. -/
structure Same (db db' : Knowledge) : Prop where
  required : db'.requiredGeneration = db.requiredGeneration
  catalog : db'.catalog = db.catalog
  records : db'.records.rows.filter MemoryRecord.mandatory =
    db.records.rows.filter MemoryRecord.mandatory
  heads : ∀ id, Mandatory db id → db'.heads.find id = db.heads.find id
  validity : ∀ id, Mandatory db id → ∀ n, db'.validity.find (id, n) = db.validity.find (id, n)
  revisions : ∀ id, Mandatory db id → ∀ n, db'.revisions.find (id, n) = db.revisions.find (id, n)

theorem mandatory_iff {id : String} : Mandatory db id ↔
    ∃ r ∈ db.records.rows.filter MemoryRecord.mandatory, r.id = id := by
  constructor
  · rintro ⟨r, hr, hm⟩
    exact ⟨r, List.mem_filter.mpr ⟨Table.mem_of_find hr, hm⟩, Table.find_key hr⟩
  · rintro ⟨r, hr, rfl⟩
    obtain ⟨hr, hm⟩ := List.mem_filter.mp hr
    exact ⟨r, Table.find_of_mem hr, hm⟩

theorem Same.mandatory (h : Same db db') {id : String} : Mandatory db' id ↔ Mandatory db id := by
  rw [mandatory_iff, mandatory_iff, h.records]

theorem Same.refl (db : Knowledge) : Same db db :=
  ⟨rfl, rfl, rfl, fun _ _ => rfl, fun _ _ _ => rfl, fun _ _ _ => rfl⟩

theorem Same.trans {db'' : Knowledge} (h : Same db db') (h' : Same db' db'') : Same db db'' where
  required := h'.required.trans h.required
  catalog := h'.catalog.trans h.catalog
  records := h'.records.trans h.records
  heads := fun id hid => (h'.heads id (h.mandatory.mpr hid)).trans (h.heads id hid)
  validity := fun id hid n => (h'.validity id (h.mandatory.mpr hid) n).trans (h.validity id hid n)
  revisions := fun id hid n => (h'.revisions id (h.mandatory.mpr hid) n).trans (h.revisions id hid n)

/-- The writes of a statement: one about a mandatory record raises the mass, and others change
nothing that the fence reads. -/
structure Advances (db db' : Knowledge) : Prop where
  cataloged : Cataloged db'
  keeps : ∀ {id}, Mandatory db id → Mandatory db' id
  le : db.mass ≤ db'.mass
  log : ∃ ws, db'.writes = db.writes ++ ws ∧
    ((∃ w ∈ ws, Mandatory db' w.record) → db.mass < db'.mass) ∧
    ((∀ w ∈ ws, ¬Mandatory db' w.record) → Same db db')

theorem Advances.refl (h : Cataloged db) : Advances db db :=
  ⟨h, id, Nat.le_refl _, [], by simp, by simp, fun _ => .refl _⟩

theorem Advances.trans {db'' : Knowledge} (h₁ : Advances db db') (h₂ : Advances db' db'') :
    Advances db db'' := by
  obtain ⟨ws₁, hws₁, hmoves₁, hsame₁⟩ := h₁.log
  obtain ⟨ws₂, hws₂, hmoves₂, hsame₂⟩ := h₂.log
  refine ⟨h₂.cataloged, fun hid => h₂.keeps (h₁.keeps hid), h₁.le.trans h₂.le, ws₁ ++ ws₂,
    by rw [hws₂, hws₁, List.append_assoc], ?_, ?_⟩
  · rintro ⟨w, hw, hm⟩
    by_cases hlater : ∃ w ∈ ws₂, Mandatory db'' w.record
    · exact lt_of_le_of_lt h₁.le (hmoves₂ hlater)
    · -- the second half left the fence alone, so the write was in the first
      have hsame := hsame₂ fun w hw hm => hlater ⟨w, hw, hm⟩
      rcases List.mem_append.mp hw with hw | hw
      · exact lt_of_lt_of_le (hmoves₁ ⟨w, hw, hsame.mandatory.mp hm⟩) h₂.le
      · exact absurd ⟨w, hw, hm⟩ hlater
  · intro hnone
    have hsame := hsame₂ fun w hw => hnone w (List.mem_append_right _ hw)
    exact (hsame₁ fun w hw hm =>
      hnone w (List.mem_append_left _ hw) (h₂.keeps hm)).trans hsame

/-- Policies, grants and revocations are as they were. -/
structure Quiet (db db' : Knowledge) : Prop where
  policies : db'.policies = db.policies
  grants : db'.grants = db.grants
  revoked : db'.revoked = db.revoked

theorem Quiet.refl (db : Knowledge) : Quiet db db := ⟨rfl, rfl, rfl⟩

theorem Quiet.trans {db'' : Knowledge} (h : Quiet db db') (h' : Quiet db' db'') : Quiet db db'' :=
  ⟨h'.policies.trans h.policies, h'.grants.trans h.grants, h'.revoked.trans h.revoked⟩

/-- Statements on the memory tables, from a store whose scopes are cataloged. -/
structure Fenced (db db' : Knowledge) : Prop where
  quiet : Quiet db db'
  advances : Cataloged db → Advances db db'

theorem Fenced.refl (db : Knowledge) : Fenced db db := ⟨.refl db, .refl⟩

theorem Fenced.trans {db'' : Knowledge} (h : Fenced db db') (h' : Fenced db' db'') :
    Fenced db db'' :=
  ⟨h.quiet.trans h'.quiet,
    fun hcat => (h.advances hcat).trans (h'.advances (h.advances hcat).cataloged)⟩

instance : Std.Refl Fenced := ⟨Fenced.refl⟩

instance : IsTrans Knowledge Fenced := ⟨fun _ _ _ => Fenced.trans⟩

/-! ## Statements about the rows of one record -/

/-- Only rows of heads, validity, revisions and dependencies changed, and only those of `id`. -/
structure Rows (id : String) (db db' : Knowledge) : Prop where
  quiet : Quiet db db'
  records : db'.records = db.records
  required : db'.requiredGeneration = db.requiredGeneration
  catalog : db'.catalog = db.catalog
  writes : db'.writes = db.writes
  heads : ∀ other, other ≠ id → db'.heads.find other = db.heads.find other
  validity : ∀ other, other ≠ id → ∀ n, db'.validity.find (other, n) = db.validity.find (other, n)
  revisions : ∀ other, other ≠ id → ∀ n, db'.revisions.find (other, n) = db.revisions.find (other, n)

theorem Rows.refl (id : String) (db : Knowledge) : Rows id db db :=
  ⟨.refl db, rfl, rfl, rfl, rfl, fun _ _ => rfl, fun _ _ _ => rfl, fun _ _ _ => rfl⟩

theorem Rows.trans {id : String} {db'' : Knowledge} (h : Rows id db db') (h' : Rows id db' db'') :
    Rows id db db'' where
  quiet := h.quiet.trans h'.quiet
  records := h'.records.trans h.records
  required := h'.required.trans h.required
  catalog := h'.catalog.trans h.catalog
  writes := h'.writes.trans h.writes
  heads := fun other hne => (h'.heads other hne).trans (h.heads other hne)
  validity := fun other hne n => (h'.validity other hne n).trans (h.validity other hne n)
  revisions := fun other hne n => (h'.revisions other hne n).trans (h.revisions other hne n)

instance (id : String) : Std.Refl (Rows id) := ⟨Rows.refl id⟩

instance (id : String) : IsTrans Knowledge (Rows id) := ⟨fun _ _ _ => Rows.trans⟩

theorem Rows.mandatory {id other : String} (h : Rows id db db') :
    Mandatory db' other ↔ Mandatory db other := by
  unfold Mandatory
  rw [h.records]

/-- Rows of a record that the fence does not cover are not read by it. -/
theorem Rows.same {id : String} (h : Rows id db db') (hid : ¬Mandatory db id) : Same db db' where
  required := h.required
  catalog := h.catalog
  records := by rw [h.records]
  heads := fun other hm => h.heads other fun he => hid (he ▸ hm)
  validity := fun other hm => h.validity other fun he => hid (he ▸ hm)
  revisions := fun other hm => h.revisions other fun he => hid (he ▸ hm)

theorem Rows.mass {id : String} (h : Rows id db db') : db'.mass = db.mass := by
  unfold Knowledge.mass
  rw [h.required, h.catalog]

theorem Rows.cataloged {id : String} (h : Rows id db db') (hcat : Cataloged db) : Cataloged db' := by
  unfold Cataloged
  rw [h.records, h.catalog]
  exact hcat

/-- What the triggers on changes do for a record that the fence covers. -/
theorem onChange_mandatory {id : String} {r : MemoryRecord} (hr : db.records.find id = some r)
    (hm : r.mandatory = true) (hcat : Cataloged db) :
    db.mass < (db.onChange id).mass ∧ Cataloged (db.onChange id) := by
  obtain ⟨c, hc⟩ := hcat r (Table.mem_of_find hr) hm
  have hadvance := weight_advance hc
  constructor
  · simp only [Knowledge.onChange, hr, hm, if_true, Knowledge.mass]
    split <;> omega
  · intro other hother hm'
    simp only [Knowledge.onChange, hr, hm, if_true] at hother ⊢
    obtain ⟨c', hc'⟩ := hcat other hother hm'
    exact find_advance hc'

theorem required_mandatory {r : MemoryRecord} (h : r.mandatory = false) : r.required = false := by
  cases hr : r.required with
  | false => rfl
  | true => simp [MemoryRecord.mandatory, hr] at h

/-- For other records they do nothing. -/
theorem onChange_other {id : String} (hid : ¬Mandatory db id) : db.onChange id = db := by
  unfold Knowledge.onChange
  cases hr : db.records.find id with
  | none => rfl
  | some r =>
    have hm : r.mandatory = false := by
      cases hm : r.mandatory with
      | false => rfl
      | true => exact absurd ⟨r, hr, hm⟩ hid
    simp [hm, required_mandatory hm]

theorem onChange_records {id : String} : (db.onChange id).records = db.records := by
  unfold Knowledge.onChange
  split <;> rfl

theorem onChange_writes {id : String} : (db.onChange id).writes = db.writes := by
  unfold Knowledge.onChange
  split <;> rfl

/-- The state after a statement that a trigger watches. -/
def touch (db : Knowledge) (id : String) (change : Change) : Knowledge :=
  (db.logged id change).onChange id

theorem mandatory_touch {id other : String} {change : Change} :
    Mandatory (touch db id change) other ↔ Mandatory db other := by
  unfold Mandatory touch
  rw [onChange_records]
  rfl

theorem writes_touch {id : String} {change : Change} :
    (touch db id change).writes = db.writes ++ [⟨id, change⟩] := onChange_writes

theorem quiet_touch (db : Knowledge) (id : String) (change : Change) :
    Quiet db (touch db id change) := by
  unfold touch Knowledge.onChange
  split <;> exact ⟨rfl, rfl, rfl⟩

/-- A watched statement on the rows of `id`, and whatever unwatched ones follow on these rows. -/
theorem Rows.fenced {id : String} {x y : Knowledge} {change : Change} (h : Rows id db x)
    (h' : Rows id (touch x id change) y) : Fenced db y := by
  refine ⟨h.quiet.trans ((quiet_touch ..).trans h'.quiet), fun hcat => ?_⟩
  have hx : Cataloged (x.logged id change) := h.cataloged hcat
  have hwrites : y.writes = db.writes ++ [⟨id, change⟩] := by
    rw [h'.writes, writes_touch, h.writes]
  have hiff : ∀ {other}, Mandatory y other ↔ Mandatory db other := fun {other} =>
    h'.mandatory.trans (mandatory_touch.trans h.mandatory)
  by_cases hid : Mandatory db id
  · obtain ⟨r, hr, hm⟩ := h.mandatory.mpr hid
    obtain ⟨hlt, hcat'⟩ := @onChange_mandatory (x.logged id change) id r hr hm hx
    have hmass : db.mass < y.mass := by
      rw [h'.mass]
      exact lt_of_eq_of_lt h.mass.symm hlt
    exact ⟨h'.cataloged hcat', hiff.mpr, hmass.le, _, hwrites, fun _ => hmass,
      fun hnone => absurd (hiff.mpr hid) (hnone _ (List.mem_singleton.mpr rfl))⟩
  · have hquiet : touch x id change = x.logged id change :=
      onChange_other fun hm => hid (h.mandatory.mp hm)
    rw [hquiet] at h'
    have hrows : Rows id (x.logged id change) y := h'
    have hmass : y.mass = db.mass := hrows.mass.trans h.mass
    have hsame : Same x (x.logged id change) :=
      ⟨rfl, rfl, rfl, fun _ _ => rfl, fun _ _ _ => rfl, fun _ _ _ => rfl⟩
    refine ⟨hrows.cataloged hx, hiff.mpr, hmass.ge, _, hwrites, ?_, fun _ => ?_⟩
    · rintro ⟨w, hw, hm⟩
      rw [List.mem_singleton.mp hw] at hm
      exact absurd (hiff.mp hm) hid
    · exact ((h.same hid).trans hsame).trans
        (hrows.same fun hm => hid (h.mandatory.mp hm))

/-! ## The statements -/

section Statements

variable {id : String}

/-- What is outside the memory tables is not read about records. -/
theorem advances_of_outside (h : db' = { db' with
      records := db.records, revisions := db.revisions, heads := db.heads, validity := db.validity,
      requiredGeneration := db.requiredGeneration, catalog := db.catalog, writes := db.writes })
    (hcat : Cataloged db) : Advances db db' := by
  rw [h]
  exact ⟨hcat, fun hid => hid, Nat.le_refl _, [], by simp, by simp,
    fun _ => ⟨rfl, rfl, rfl, fun _ _ => rfl, fun _ _ _ => rfl, fun _ _ _ => rfl⟩⟩

theorem insertEvent_steps : (insertEvent).Steps Fenced :=
  .bind (.write fun _ => ⟨⟨rfl, rfl, rfl⟩, advances_of_outside rfl⟩) fun _ => .of_reads (.ask _)

theorem rows_of_validity {db : Knowledge} {row : MemoryValidity} {validity}
    (h : db.validity.insert? row = some validity) :
    Rows row.recordId db { db with validity := validity } := by
  refine ⟨⟨rfl, rfl, rfl⟩, rfl, rfl, rfl, rfl, fun _ _ => rfl, fun other hne n => ?_, fun _ _ _ => rfl⟩
  show validity.find (other, n) = db.validity.find (other, n)
  rw [Table.find_insert? h, if_neg]
  intro he
  exact hne (congrArg Prod.fst he).symm

theorem insertValidity_rows (row : MemoryValidity) : (insertValidity row).Steps (Rows row.recordId) := by
  refine .insert fun {db db'} h => ?_
  obtain ⟨validity, hv, rfl⟩ := Option.map_eq_some_iff.mp h
  exact rows_of_validity hv

theorem insertHead_rows (head : MemoryHead) : (insertHead head).Steps (Rows head.recordId) := by
  refine .insert fun {db db'} h => ?_
  obtain ⟨heads, hh, rfl⟩ := Option.map_eq_some_iff.mp h
  refine ⟨⟨rfl, rfl, rfl⟩, rfl, rfl, rfl, rfl, fun other hne => ?_, fun _ _ _ => rfl, fun _ _ _ => rfl⟩
  show heads.find other = db.heads.find other
  rw [Table.find_insert? hh, if_neg (Ne.symm hne)]

theorem insertDependency_rows (row : MemoryDependency) :
    (insertDependency row).Steps (Rows id) := by
  refine .insert fun {db db'} h => ?_
  split at h
  · cases h
  · cases h
    exact ⟨⟨rfl, rfl, rfl⟩, rfl, rfl, rfl, rfl, fun _ _ => rfl, fun _ _ _ => rfl, fun _ _ _ => rfl⟩

theorem updateValidity_steps (key : String × Nat) (change : MemoryValidity → MemoryValidity) :
    (updateValidity key change).Steps Fenced := by
  refine .write fun db => ?_
  cases hold : db.validity.find key with
  | none => exact .refl db
  | some old =>
    refine @Rows.fenced db key.1 _ _ _ ?_ (.refl key.1 _)
    refine ⟨⟨rfl, rfl, rfl⟩, rfl, rfl, rfl, rfl, fun _ _ => rfl, fun other hne n => ?_, fun _ _ _ => rfl⟩
    have hkey : old.key = key := Table.find_key hold
    apply Table.find_update_ne
    intro he
    have hrecord : old.recordId = other := congrArg Prod.fst he
    exact hne (hrecord.symm.trans (congrArg Prod.fst hkey))

theorem rows_of_head (db : Knowledge) (head : MemoryHead) :
    Rows head.recordId db { db with heads := db.heads.update head } := by
  refine ⟨⟨rfl, rfl, rfl⟩, rfl, rfl, rfl, rfl, fun other hne => ?_, fun _ _ _ => rfl, fun _ _ _ => rfl⟩
  exact Table.find_update_ne (Ne.symm hne)

theorem updateHead_steps (head : MemoryHead) (change : Change) :
    (updateHead head change).Steps Fenced :=
  .write fun db => (rows_of_head db head).fenced (.refl head.recordId _)

/-- A new record that the fence covers moves it, and others are not read. -/
theorem insertRecord_steps (r : MemoryRecord) : (insertRecord r).Steps Fenced := by
  refine .insert fun {db db'} h => ?_
  split at h
  · cases h
  obtain ⟨records, hr, rfl⟩ := Option.map_eq_some_iff.mp h
  refine ⟨⟨rfl, rfl, rfl⟩, fun hcat => ?_⟩
  obtain ⟨hfresh, hrows⟩ := Table.insert?_eq_some hr
  have hkeeps : ∀ {id}, Mandatory db id →
      Mandatory (({ db with records := records }.logged r.id .inserted).onRecord r) id := by
    rintro id ⟨old, hold, hm⟩
    exact ⟨old, Table.find_insert?_of_some hr hold, hm⟩
  cases hm : r.mandatory with
  | true =>
    have hweight := weight_upsert db.catalog r.scopeId
    have hmass : db.mass < (({ db with records := records }.logged r.id .inserted).onRecord r).mass := by
      simp only [Knowledge.onRecord, Knowledge.logged, hm, if_true, Knowledge.mass]
      split <;> omega
    refine ⟨?_, hkeeps, hmass.le, [⟨r.id, .inserted⟩], rfl, fun _ => hmass, fun hnone => ?_⟩
    · intro other hother hm'
      simp only [Knowledge.onRecord, Knowledge.logged, hm, if_true]
      rcases (Table.mem_insert? hr).mp hother with hother | rfl
      · obtain ⟨c, hc⟩ := hcat other hother hm'
        exact find_upsert_of_find hc
      · exact find_upsert _ _
    · refine absurd ?_ (hnone _ (List.mem_singleton.mpr rfl))
      exact ⟨r, (Table.find_insert? hr).trans (if_pos rfl), hm⟩
  | false =>
    have hsame : Same db (({ db with records := records }.logged r.id .inserted).onRecord r) := by
      refine ⟨?_, ?_, ?_, fun _ _ => rfl, fun _ _ _ => rfl, fun _ _ _ => rfl⟩
      · simp [Knowledge.onRecord, Knowledge.logged, required_mandatory hm]
      · simp [Knowledge.onRecord, Knowledge.logged, hm]
      · show records.rows.filter MemoryRecord.mandatory = _
        rw [hrows, List.filter_append]
        simp [hm]
    have hmass : (({ db with records := records }.logged r.id .inserted).onRecord r).mass = db.mass := by
      unfold Knowledge.mass
      rw [hsame.required, hsame.catalog]
    refine ⟨?_, hkeeps, hmass.ge, [⟨r.id, .inserted⟩], rfl, ?_, fun _ => hsame⟩
    · intro other hother hm'
      rw [hsame.catalog]
      rcases (Table.mem_insert? hr).mp hother with hother | rfl
      · exact hcat other hother hm'
      · rw [hm] at hm'
        cases hm'
    · rintro ⟨w, hw, hm'⟩
      rw [List.mem_singleton.mp hw] at hm'
      obtain ⟨old, hold, hm'⟩ := hsame.mandatory.mp hm'
      rw [hfresh] at hold
      cases hold

/-- A record that becomes hard moves the fence. -/
theorem setHard_steps (id : String) : (setHard id).Steps Fenced := by
  refine .write fun db => ?_
  cases hold : db.records.find id with
  | none => exact .refl db
  | some old =>
    cases hhard : old.isHard with
    | true =>
      simp only [hhard, if_true]
      exact .refl db
    | false =>
      simp only [hhard, Bool.false_eq_true, if_false]
      have hkey : old.id = id := Table.find_key hold
      generalize hnew : ({ old with isHard := true } : MemoryRecord) = new
      have hid : new.id = old.id := by rw [← hnew]
      have hnewHard : new.isHard = true := by rw [← hnew]
      have hm : new.mandatory = true := by simp [MemoryRecord.mandatory, MemoryRecord.required, hnewHard]
      have hfind : (db.records.update new).find id = some new := by
        rw [← hkey, ← hid] at hold ⊢
        exact Table.find_update_self hold
      generalize hstate : ((({ db with records := db.records.update new } : Knowledge).logged id
        .reclassified).onReclassify old new) = db'
      have hchanged : old.isHard ≠ new.isHard ∨ old.kind ≠ new.kind := by
        rw [hhard, hnewHard]
        exact .inl (by simp)
      have hquiet : Quiet db db' := by
        rw [← hstate, Knowledge.onReclassify, if_pos hchanged]
        exact ⟨rfl, rfl, rfl⟩
      have hrecords : db'.records = db.records.update new := by
        rw [← hstate, Knowledge.onReclassify, if_pos hchanged]
        rfl
      have hcatalog : db'.catalog = upsert db.catalog new.scopeId := by
        rw [← hstate, Knowledge.onReclassify, if_pos hchanged]
        simp [Knowledge.logged, hm]
      have hrequired : db.requiredGeneration ≤ db'.requiredGeneration := by
        rw [← hstate, Knowledge.onReclassify, if_pos hchanged]
        simp only [Knowledge.logged]
        split <;> omega
      have hwrites : db'.writes = db.writes ++ [⟨id, .reclassified⟩] := by
        rw [← hstate, Knowledge.onReclassify, if_pos hchanged]
        rfl
      have hweight := weight_upsert db.catalog new.scopeId
      have hmass : db.mass < db'.mass := by
        unfold Knowledge.mass
        rw [hcatalog]
        omega
      refine ⟨hquiet, fun hcat => ⟨?_, ?_, hmass.le, _, hwrites, fun _ => hmass, fun hnone => ?_⟩⟩
      · intro r hr hm'
        rw [hcatalog]
        rw [hrecords] at hr
        rcases Table.mem_update hr with rfl | ⟨hr, -⟩
        · exact find_upsert _ _
        · obtain ⟨c, hc⟩ := hcat r hr hm'
          exact find_upsert_of_find hc
      · rintro other ⟨r, hr, hm'⟩
        unfold Mandatory
        rw [hrecords]
        by_cases hother : new.id = other
        · rw [hid, hkey] at hother
          subst hother
          exact ⟨new, hfind, hm⟩
        · exact ⟨r, (Table.find_update_ne hother).trans hr, hm'⟩
      · refine absurd ?_ (hnone _ (List.mem_singleton.mpr rfl))
        exact ⟨new, hrecords ▸ hfind, hm⟩

theorem insertRevision_ok {row : MemoryRevision} {u : Unit}
    (h : insertRevision row db = .ok (u, db')) : ∃ revisions,
      Rows row.recordId db { db with revisions := revisions } ∧
      touch { db with revisions := revisions } row.recordId .revised = db' := by
  simp only [insertRevision, Tx.insert_ok] at h
  obtain ⟨revisions, hr, rfl⟩ := Option.map_eq_some_iff.mp h
  refine ⟨revisions, ⟨⟨rfl, rfl, rfl⟩, rfl, rfl, rfl, rfl, fun _ _ => rfl, fun _ _ _ => rfl, fun other hne n => ?_⟩, rfl⟩
  show revisions.find (other, n) = db.revisions.find (other, n)
  rw [Table.find_insert? hr, if_neg]
  intro he
  exact hne (congrArg Prod.fst he).symm

/-- The rows of a revision: the first statement is watched, and what follows is on its record. -/
theorem publish_steps (next : NewRevision) (current : Option MemoryHead) (state : ValidityState)
    (sequence : Nat) : (publish next current state sequence).Steps Fenced := by
  constructor
  intro db head db' h
  simp only [publish, Tx.require_bind] at h
  obtain ⟨_, db₁, hrevision, h₁⟩ := Tx.bind_ok.mp h.2
  simp only [Tx.require_bind] at h₁
  obtain ⟨_, db₂, hvalidity, h₂⟩ := Tx.bind_ok.mp h₁.2
  obtain ⟨_, db₃, hdependencies, h₃⟩ := Tx.bind_ok.mp h₂
  obtain ⟨revisions, hx, rfl⟩ := insertRevision_ok hrevision
  have hrows : Rows next.id (touch { db with revisions := revisions } next.id .revised) db₃ := by
    refine ((insertValidity_rows _).step hvalidity).trans ?_
    have hloop : (Tx.forEach (fun d : String × Nat × String => do
        .require (d.2.2 ≠ "" ∧ d.2.2.utf8ByteSize ≤ 64) (.invalid "invalid memory dependency kind")
        insertDependency ⟨(next.id, (current.map (·.revision)).getD 0 + 1), (d.1, d.2.1), d.2.2⟩)
        next.dependencies).Steps (Rows next.id) :=
      .forEach (fun d => .bind (.of_reads (.require ..)) fun _ => insertDependency_rows _) _
    exact hloop.step hdependencies
  cases current with
  | some old =>
    obtain ⟨_, db₄, hhead, h₄⟩ := Tx.bind_ok.mp h₃
    obtain ⟨-, rfl⟩ := Tx.pure_ok.mp h₄
    exact (hx.fenced hrows).trans ((updateHead_steps _ _).step hhead)
  | none =>
    obtain ⟨_, db₄, hhead, h₄⟩ := Tx.bind_ok.mp h₃
    obtain ⟨-, rfl⟩ := Tx.pure_ok.mp h₄
    exact hx.fenced (hrows.trans ((insertHead_rows _).step hhead))

theorem invalidate_steps (sequence : Nat) (key : String × Nat) :
    (invalidate sequence key).Steps Fenced :=
  .bind (.of_reads (.ask _)) fun _ => .bind (.of_reads (.ask _)) fun _ =>
    .ite (updateValidity_steps _ _) (.of_reads (.pure _))

theorem dependents_steps (source : String × Nat) (sequence : Nat) (env : Outside) :
    (dependents source sequence env).Steps Fenced :=
  .bind (.of_reads (.ask _)) fun _ => .bind (.of_reads (.require ..)) fun _ =>
    .bind (.of_reads (.outside _)) fun _ => .forEach (invalidate_steps sequence) _

theorem admitRecord_steps (next : NewRevision) : (admitRecord next).Steps Fenced := by
  refine .bind (.of_reads (.ask _)) fun existing => ?_
  cases existing with
  | some old => exact .of_reads (.require ..)
  | none => exact insertRecord_steps _

theorem applyMemoryRevision_steps (next : NewRevision) (env : Outside) :
    (applyMemoryRevision next env).Steps Fenced := by
  refine .bind (.of_reads (.outside _)) fun _ => .bind (.of_reads (.require ..)) fun _ =>
    .bind (.of_reads (.require ..)) fun _ => .bind (.of_reads (.require ..)) fun _ =>
    .bind (admitRecord_steps next) fun _ => .bind (.of_reads (.ask _)) fun current =>
    .bind (.of_reads (.require ..)) fun _ => .bind insertEvent_steps fun _ =>
    .bind (.of_reads (.find ..)) fun _ => .bind (publish_steps ..) fun _ => ?_
  cases current with
  | some old =>
    exact .bind (dependents_steps (next.id, old.revision) _ env) fun _ =>
      .bind (.of_reads (.outside _)) fun _ => .of_reads (.pure _)
  | none => exact .bind (.of_reads (.outside _)) fun _ => .of_reads (.pure _)

theorem applyOp_steps (op : MemoryPolicyOp) (head : MemoryHead) (env : Outside) :
    (applyOp op head env).Steps Fenced := by
  cases op with
  | importAck =>
    exact .bind (updateValidity_steps ..) fun _ => .bind insertEvent_steps fun _ =>
      .of_reads (.outside _)
  | hardRule =>
    exact .bind (setHard_steps _) fun _ => .bind (updateValidity_steps ..) fun _ =>
      .bind insertEvent_steps fun _ => .of_reads (.outside _)
  | revokeHead =>
    exact .bind (updateHead_steps ..) fun _ => .bind (updateValidity_steps ..) fun _ =>
      .bind insertEvent_steps fun _ => dependents_steps ..
  | cutover => exact .throw

theorem applyMemoryOp_steps (op : MemoryPolicyOp) (recordKey : String) (env : Outside) :
    (applyMemoryOp op recordKey env).Steps Fenced :=
  .bind (.of_reads (.find ..)) fun _ => .bind (.of_reads (.find ..)) fun head =>
    applyOp_steps op head env

end Statements

/-! ## Calls -/

theorem insertMemoryRevision_steps (next : NewRevision) (env : Outside) :
    (insertMemoryRevision next env).Steps Fenced :=
  .bind (applyMemoryRevision_steps next env) fun _ => .of_reads (.pure _)

theorem importRevision_reads (candidate : Objects.ImportCandidate) :
    (importRevision candidate).Reads := by
  refine .bind (.ask _) fun _ => ?_
  cases candidate.expectedRevision with
  | some base =>
    exact .bind (.find ..) fun _ => .bind (.find ..) fun _ => .bind (.ask _) fun _ => .pure _
  | none => exact .pure _

theorem decideMemoryImport_steps (candidate : Objects.ImportCandidate) (approve : Bool)
    (env : Outside) : (decideMemoryImport candidate approve env).Steps Fenced := by
  refine .bind (.of_reads (.outside _)) fun _ => ?_
  cases approve with
  | true =>
    exact .bind (.of_reads (importRevision_reads candidate)) fun next =>
      .bind (applyMemoryRevision_steps next env) fun _ => .bind (.of_reads (.outside _)) fun _ =>
      .bind insertEvent_steps fun _ => .of_reads (.pure _)
  | false => exact .bind insertEvent_steps fun _ => .of_reads (.pure _)

theorem requireMatch_reads (signed : MemoryReadSet) (env : Outside) :
    (requireMatch signed env).Reads :=
  .bind (.outside _) fun _ => .bind (.query _) fun _ => .require ..

theorem promote_steps (signed : MemoryReadSet) (changes : List NewRevision) (env : Outside) :
    (promote signed changes env).Steps Fenced :=
  .bind (.of_reads (requireMatch_reads signed env)) fun _ =>
    .bind (.forEach (fun _ => .bind (.of_reads (.ask _)) fun _ => .of_reads (.require ..)) _) fun _ =>
    .bind (.forEach (fun next => .bind (applyMemoryRevision_steps next env) fun _ =>
      .of_reads (.outside _)) _) fun _ =>
    .bind insertEvent_steps fun _ => .of_reads (.pure _)

/-- Grants stay, and a revoked grant stays revoked. -/
structure Later (db db' : Knowledge) : Prop where
  grants : db.grants.Extends db'.grants
  revoked : ∀ id ∈ db.revoked, id ∈ db'.revoked

theorem Later.refl (db : Knowledge) : Later db db := ⟨.refl _, fun _ h => h⟩

theorem Later.trans {db'' : Knowledge} (h : Later db db') (h' : Later db' db'') : Later db db'' :=
  ⟨h.grants.trans h'.grants, fun id hid => h'.revoked id (h.revoked id hid)⟩

theorem Quiet.later (h : Quiet db db') : Later db db' :=
  ⟨h.grants ▸ .refl _, fun _ hid => h.revoked ▸ hid⟩

/-- A policy adds its row, and its operation is on the memory tables. -/
structure InstallsPolicy (policy : MemoryPolicy) (db db' : Knowledge) : Prop where
  policies : db'.policies = db.policies ++ [policy]
  grants : db'.grants = db.grants
  revoked : db'.revoked = db.revoked
  advances : Cataloged db → Advances db db'

theorem installMemoryPolicy_ok {policy : MemoryPolicy} {head : Nat} {env : Outside} {u : Unit}
    (h : installMemoryPolicy policy head env db = .ok (u, db')) : InstallsPolicy policy db db' := by
  simp only [installMemoryPolicy, Tx.outside_bind, Tx.ask_bind, Tx.require_bind, Tx.write_bind] at h
  obtain ⟨-, -, -, -, -, -, -, h⟩ := h
  generalize hmid : ({ db with policies := db.policies ++ [policy], head := db.head + 1 } :
    Knowledge) = mid at h
  have hinstalled : InstallsPolicy policy db mid := by
    rw [← hmid]
    exact ⟨rfl, rfl, rfl, advances_of_outside rfl⟩
  have hfenced : Fenced mid db' := by
    split at h
    · obtain ⟨-, rfl⟩ := Tx.pure_ok.mp h
      exact .refl _
    · simp only [Tx.find_bind] at h
      obtain ⟨key, -, h⟩ := h
      exact (applyMemoryOp_steps _ _ _).step h
  exact ⟨hfenced.quiet.policies.trans hinstalled.policies,
    hfenced.quiet.grants.trans hinstalled.grants, hfenced.quiet.revoked.trans hinstalled.revoked,
    fun hcat => (hinstalled.advances hcat).trans
      (hfenced.advances (hinstalled.advances hcat).cataloged)⟩

/-- The calls that write the memory tables and no other table of the fence. -/
def Call.onRecords : Call → Bool
  | .insertMemoryRevision .. | .decideMemoryImport .. | .promote .. | .revalidate .. => true
  | .installMemoryPolicy .. | .installDelegation .. | .revokeDelegation .. => false

theorem Call.body_fenced {call : Call} (h : call.onRecords = true) : call.body.Steps Fenced := by
  cases call with
  | insertMemoryRevision next env => exact insertMemoryRevision_steps next env
  | decideMemoryImport candidate approve env => exact decideMemoryImport_steps candidate approve env
  | promote signed changes env => exact promote_steps signed changes env
  | revalidate => exact updateValidity_steps ..
  | installMemoryPolicy | installDelegation | revokeDelegation => cases h

theorem exec_fenced {call : Call} (h : call.onRecords = true) (db : Knowledge) :
    Fenced db (exec call db).2 :=
  Tx.commit_preserves (.refl db) fun hbody => (Call.body_fenced h).step hbody

/-- **Every call advances the fence by what it did to mandatory records.** -/
theorem exec_advances (call : Call) (db : Knowledge) :
    Later db (exec call db).2 ∧ (Cataloged db → Advances db (exec call db).2) := by
  cases hcall : call.onRecords with
  | true =>
    have hfenced := exec_fenced hcall db
    exact ⟨hfenced.quiet.later, hfenced.advances⟩
  | false =>
    obtain ⟨u, db', hbody, hcommit⟩ | ⟨e, -, hcommit⟩ := Tx.commit_eq call.body db
    · rw [exec, hcommit]
      cases call with
      | insertMemoryRevision | decideMemoryImport | promote | revalidate => cases hcall
      | installMemoryPolicy policy head env =>
        have hinstalls := installMemoryPolicy_ok hbody
        exact ⟨⟨hinstalls.grants ▸ .refl _, fun _ hid => hinstalls.revoked ▸ hid⟩,
          hinstalls.advances⟩
      | installDelegation grant =>
        simp only [Call.body, Tx.insert_ok] at hbody
        split at hbody
        · cases hbody
          exact ⟨.refl _, .refl⟩
        · obtain ⟨grants, hgrants, rfl⟩ := Option.map_eq_some_iff.mp hbody
          exact ⟨⟨.insert? hgrants, fun _ hid => hid⟩, advances_of_outside rfl⟩
      | revokeDelegation id =>
        simp only [Call.body, Tx.insert_ok] at hbody
        split at hbody
        · cases hbody
        · cases hbody
          exact ⟨⟨.refl _, fun _ hid => List.mem_append_left _ hid⟩, advances_of_outside rfl⟩
    · rw [exec, hcommit]
      exact ⟨.refl _, .refl⟩

abbrev KnowledgeRun := Run Knowledge Call (Except StoreError Unit)

theorem cataloged_created {path : String} : Cataloged (.created path) := by
  intro r hr
  cases hr

/-- What the calls of a run do together. -/
theorem run_advances (run : KnowledgeRun) (calls : List Call) :
    Later run.state (run.calls exec calls).state ∧
      (Cataloged run.state → Advances run.state (run.calls exec calls).state) := by
  constructor
  · exact Run.preserves .refl .trans fun db call _ => (exec_advances call db).1
  · intro hcat
    exact Run.invariant (I := fun r => Advances run.state r.state) (.refl hcat)
      fun r call _ h => h.trans ((exec_advances call r.state).2 h.cataloged)

/-! ## Values of the fence -/

/-- The parts of a value. -/
theorem current_ok {grant : Option String} {v : MemoryReadSet} (h : db.current grant = .ok v) :
    db.revocationEpoch grant = .ok v.revocationEpoch ∧
      v.requiredSetGeneration = db.requiredGeneration ∧
      v.scopeCatalogGenerations = db.catalog.rows.insertionSort fun a b => a.scopeId ≤ b.scopeId := by
  unfold Knowledge.current at h
  split_ifs at h
  cases hepoch : db.revocationEpoch grant with
  | error e => simp [hepoch, Except.map] at h
  | ok epoch =>
    rw [hepoch] at h
    cases h
    exact ⟨rfl, rfl, rfl⟩

/-- Equal values have equal generations. -/
theorem mass_eq_of_current {grant grant' : Option String} {v : MemoryReadSet}
    (h : db.current grant = .ok v) (h' : db'.current grant' = .ok v) : db'.mass = db.mass := by
  obtain ⟨-, hrequired, hcatalog⟩ := current_ok h
  obtain ⟨-, hrequired', hcatalog'⟩ := current_ok h'
  have hperm : db'.catalog.rows.Perm db.catalog.rows := by
    have hsorted := List.perm_insertionSort (fun a b : ScopeCatalogGeneration => a.scopeId ≤ b.scopeId)
      db'.catalog.rows
    rw [← hcatalog', hcatalog] at hsorted
    exact hsorted.symm.trans (List.perm_insertionSort _ _)
  unfold Knowledge.mass weight
  rw [← hrequired', hrequired, (hperm.map _).sum_nat]

theorem Same.mandatoryRecords (h : Same db db') : db'.mandatoryRecords = db.mandatoryRecords := by
  unfold Knowledge.mandatoryRecords
  rw [h.records]

theorem mandatory_of_mem {r : MemoryRecord} (h : r ∈ db.mandatoryRecords) : Mandatory db r.id := by
  have hmem := (List.perm_insertionSort _ _).mem_iff.mp h
  exact mandatory_iff.mpr ⟨r, hmem, rfl⟩

theorem Same.recordHeads (h : Same db db') : db'.recordHeads = db.recordHeads := by
  unfold Knowledge.recordHeads
  rw [h.mandatoryRecords]
  apply List.filterMap_congr
  intro r hr
  rw [Knowledge.activeHead, Knowledge.activeHead, h.heads r.id (mandatory_of_mem hr)]

theorem Same.validityRevisions (h : Same db db') : db'.validityRevisions = db.validityRevisions := by
  unfold Knowledge.validityRevisions
  rw [h.mandatoryRecords]
  apply List.filterMap_congr
  intro r hr
  have hm := mandatory_of_mem hr
  rw [Knowledge.activeHead, Knowledge.activeHead, h.heads r.id hm]
  congr 1
  funext head
  rw [h.validity r.id hm]

theorem revocationEpoch_congr (hgrants : db'.grants = db.grants) (hrevoked : db'.revoked = db.revoked)
    (grant : Option String) : db'.revocationEpoch grant = db.revocationEpoch grant := by
  cases grant with
  | none => rfl
  | some id =>
    unfold Knowledge.revocationEpoch
    rw [hgrants, hrevoked]

/-- What the fence does not read leaves its value alone. -/
theorem Same.current (h : Same db db') (hquiet : Quiet db db') (grant : Option String) :
    db'.current grant = db.current grant := by
  unfold Knowledge.current
  rw [h.recordHeads, h.validityRevisions, h.catalog, h.required, hquiet.policies,
    revocationEpoch_congr hquiet.grants hquiet.revoked]

/-- One more policy is one more policy revision. -/
theorem Same.current_policy (h : Same db db') {policy : MemoryPolicy}
    (hinstalls : InstallsPolicy policy db db') (grant : Option String) :
    db'.current grant = (db.current grant).map fun v =>
      { v with policyRevision := v.policyRevision + 1 } := by
  unfold Knowledge.current
  rw [h.recordHeads, h.validityRevisions, h.catalog, h.required, hinstalls.policies,
    revocationEpoch_congr hinstalls.grants hinstalls.revoked]
  split_ifs <;> try rfl
  cases db.revocationEpoch grant with
  | error e => rfl
  | ok epoch => simp [Except.map]

/-- The grant of a value that stayed was not revoked meanwhile. -/
theorem not_revoked_between {id : String} {v : MemoryReadSet} (hlater : Later db db')
    (h : db.current (some id) = .ok v) (h' : db'.current (some id) = .ok v) :
    id ∈ db'.revoked ↔ id ∈ db.revoked := by
  refine ⟨fun hrevoked => ?_, hlater.revoked id⟩
  by_contra hfree
  have hepoch := (current_ok h).1
  have hepoch' := (current_ok h').1
  unfold Knowledge.revocationEpoch at hepoch hepoch'
  cases hgrant : db.grants.find id with
  | none => simp [hgrant] at hepoch
  | some row =>
    simp only [hgrant, if_neg hfree] at hepoch
    simp only [hlater.grants.find hgrant, if_pos hrevoked] at hepoch'
    split at hepoch'
    · have he := Except.ok.inj hepoch
      have he' := Except.ok.inj hepoch'
      omega
    · cases hepoch'

/-! ## Between two equal values -/

/-- The rows of a record. -/
structure SameRecord (id : String) (db db' : Knowledge) : Prop where
  record : db'.records.find id = db.records.find id
  head : db'.heads.find id = db.heads.find id
  validity : ∀ n, db'.validity.find (id, n) = db.validity.find (id, n)
  revisions : ∀ n, db'.revisions.find (id, n) = db.revisions.find (id, n)

theorem Same.sameRecord (h : Same db db') {id : String} (hid : Mandatory db id) :
    SameRecord id db db' := by
  refine ⟨?_, h.heads id hid, h.validity id hid, h.revisions id hid⟩
  obtain ⟨r, hr, hm⟩ := hid
  have hmem : r ∈ db'.records.rows.filter MemoryRecord.mandatory := by
    rw [h.records]
    exact List.mem_filter.mpr ⟨Table.mem_of_find hr, hm⟩
  have hfind := Table.find_of_mem (List.mem_filter.mp hmem).1
  rw [Table.find_key hr] at hfind
  rw [hfind, hr]

/-- Nothing that the fence covers at some point of the calls was written by any of them. -/
def Unmoved (run : KnowledgeRun) (more : List Call) : Prop :=
  ∀ before after, more = before ++ after → ∀ id, Mandatory (run.calls exec before).state id →
    (∀ w ∈ (run.calls exec more).state.writes.drop run.state.writes.length, w.record ≠ id) ∧
    ∀ before' after', more = before' ++ after' →
      SameRecord id run.state (run.calls exec before').state

theorem unmoved_of_mass {run : KnowledgeRun} (hcat : Cataloged run.state) {more : List Call}
    (hmass : (run.calls exec more).state.mass = run.state.mass) : Unmoved run more := by
  have hall := (run_advances run more).2 hcat
  obtain ⟨ws, hws, hmoves, hsame⟩ := hall.log
  have hnone : ∀ w ∈ ws, ¬Mandatory (run.calls exec more).state w.record := by
    intro w hw hm
    have hlt := hmoves ⟨w, hw, hm⟩
    omega
  -- the mass is the same at every point, so each half left the fence alone
  have hpoint : ∀ before after, more = before ++ after →
      Same run.state (run.calls exec before).state ∧
        ∀ id, Mandatory (run.calls exec before).state id →
          Mandatory (run.calls exec more).state id := by
    rintro before after rfl
    have hfirst := (run_advances run before).2 hcat
    have hsecond := (run_advances (run.calls exec before) after).2 hfirst.cataloged
    rw [← Run.calls_append] at hsecond
    have hle := hfirst.le
    have hle' := hsecond.le
    refine ⟨?_, fun id hid => hsecond.keeps hid⟩
    obtain ⟨us, -, hmoves', hsame'⟩ := hfirst.log
    apply hsame'
    intro w hw hm
    have hlt := hmoves' ⟨w, hw, hm⟩
    omega
  intro before after hsplit id hid
  obtain ⟨hsame₁, hkeeps⟩ := hpoint before after hsplit
  refine ⟨?_, fun before' after' hsplit' => ?_⟩
  · rw [hws, List.drop_left]
    rintro w hw rfl
    exact hnone w hw (hkeeps _ hid)
  · exact (hpoint before' after' hsplit').1.sameRecord (hsame₁.mandatory.mp hid)

/-! ## The fence -/

instance (db : Knowledge) (id : String) : Decidable (Mandatory db id) :=
  decidable_of_iff ((db.records.find id).any MemoryRecord.mandatory = true) (by
    unfold Mandatory
    cases db.records.find id with
    | none => simp
    | some r => simp)

/-- Only records that the fence does not cover were written. -/
def OnlyOther (db db' : Knowledge) : Prop :=
  ∀ w ∈ db'.writes.drop db.writes.length, ¬Mandatory db' w.record

theorem Advances.same (h : Advances db db') (hother : OnlyOther db db') : Same db db' := by
  obtain ⟨ws, hws, -, hsame⟩ := h.log
  unfold OnlyOther at hother
  rw [hws, List.drop_left] at hother
  exact hsame hother

/-- A promotion that succeeds was signed against the current value. -/
theorem promote_current {signed : MemoryReadSet} {changes : List NewRevision} {env : Outside}
    (h : (exec (.promote signed changes env) db).1 = .ok ()) :
    db.current signed.reviewerGrantId = .ok signed := by
  have hbody := Tx.commit_ok h
  simp only [Call.body, promote, (requireMatch_reads signed env).peel] at hbody
  obtain ⟨_, hmatch, -⟩ := hbody
  simp only [requireMatch, Tx.outside_bind, Tx.query_bind, Tx.require_ok] at hmatch
  obtain ⟨-, value, hvalue, rfl, -⟩ := hmatch
  exact hvalue

/-- **The read-set fence has no ABA.** Between two equal values of a run no record was written that
the fence covers at either end or at any point between, and the grant was not revoked; so a
promotion whose signed value matches was signed against the mandatory knowledge of its commit.
Calls on other records alone leave the value as it is, and a policy on one adds one to the policy
revision and changes nothing else. -/
theorem read_set_fence_has_no_aba (path : String) (calls : List Call) :
    let run := (Run.start (.created path) : KnowledgeRun).calls exec calls
    (∀ more grant v, run.state.current grant = .ok v →
      (run.calls exec more).state.current grant = .ok v →
      Unmoved run more ∧ ∀ id, grant = some id →
        (id ∈ (run.calls exec more).state.revoked ↔ id ∈ run.state.revoked)) ∧
    (∀ more signed changes env, run.state.current signed.reviewerGrantId = .ok signed →
      (exec (.promote signed changes env) (run.calls exec more).state).1 = .ok () →
      Unmoved run more) ∧
    (∀ call, call.onRecords = true → OnlyOther run.state (exec call run.state).2 →
      ∀ grant, (exec call run.state).2.current grant = run.state.current grant) ∧
    (∀ policy head env, (exec (.installMemoryPolicy policy head env) run.state).1 = .ok () →
      OnlyOther run.state (exec (.installMemoryPolicy policy head env) run.state).2 →
      ∀ grant, (exec (.installMemoryPolicy policy head env) run.state).2.current grant =
        (run.state.current grant).map fun v => { v with policyRevision := v.policyRevision + 1 }) := by
  intro run
  have hcat : Cataloged run.state := ((run_advances _ calls).2 cataloged_created).cataloged
  have hunmoved : ∀ more grant v, run.state.current grant = .ok v →
      (run.calls exec more).state.current grant = .ok v → Unmoved run more :=
    fun more grant v h h' => unmoved_of_mass hcat (mass_eq_of_current h h')
  refine ⟨?_, ?_, ?_, ?_⟩
  · rintro more grant v h h'
    refine ⟨hunmoved more grant v h h', ?_⟩
    rintro id rfl
    exact not_revoked_between (run_advances run more).1 h h'
  · intro more signed changes env hsigned hpromote
    exact hunmoved more _ _ hsigned (promote_current hpromote)
  · intro call hcall hother grant
    have hfenced := exec_fenced hcall run.state
    exact ((hfenced.advances hcat).same hother).current hfenced.quiet grant
  · intro policy head env hok hother grant
    have hinstalls := installMemoryPolicy_ok (Tx.commit_ok hok)
    exact ((hinstalls.advances hcat).same hother).current_policy hinstalls grant

/-- A store with one observation. -/
def observed : List Call :=
  [.insertMemoryRevision ⟨"note", "notes/a", "project", .observation,
    ⟨String.ofList (List.replicate 64 '0'), by decide⟩, ⟨String.ofList (List.replicate 64 '0'), by decide⟩,
    ⟨[], []⟩, [], none, none, "stale", "unverified_import"⟩ ⟨fun _ => true, fun _ => none, none, none⟩]

/-- The acknowledgement of an imported observation touches no record that the fence covers, and
still moves the policy revision of the fence. -/
theorem import_ack_moves_policy_revision :
    let run := (Run.start (.created "/p") : KnowledgeRun).calls exec observed
    let acked := exec (.installMemoryPolicy ⟨1, "/p", 1, .importAck, some "notes/a"⟩ 1
      ⟨fun _ => true, fun _ => none, none, none⟩) run.state
    acked.1 = .ok () ∧ OnlyOther run.state acked.2 ∧
      acked.2.current none ≠ run.state.current none := by
  unfold OnlyOther
  decide +kernel

end Herdr.ReadSets
