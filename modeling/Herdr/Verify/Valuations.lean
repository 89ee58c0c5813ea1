import Herdr.Lib.Run
import Herdr.Telemetry.Cost

/-!
# Valuation revisions are immutable

Appending a revision changes no table row below it, so an earlier revision replays as before; and
the new revision replays the rows that the reprice computed, because its delta is the difference
between them and the previous revision as it reads back.
-/

namespace Herdr

variable {db db' : Valuations} {n revision : Nat}

/-! ## What the tables of a sidecar satisfy -/

/-- The foreign keys: a delta revision is a revision, and a delta belongs to a delta revision. -/
structure Valuations.WellFormed (db : Valuations) : Prop where
  deltaRevisions : ∀ d ∈ db.deltaRevisions.rows, ∃ r ∈ db.revisions.rows, r.revision = d.revision
  deltas : ∀ d ∈ db.deltas.rows, ∃ r ∈ db.deltaRevisions.rows, r.revision = d.revision

/-- A revision of the sidecar. -/
def Valuations.Known (db : Valuations) (revision : Nat) : Prop :=
  ∃ r ∈ db.revisions.rows, r.revision = revision

/-- The number that the next revision gets. -/
def Valuations.nextRevision (db : Valuations) : Nat := db.latest.elim 1 (·.revision + 1)

theorem latest_isMax {l : ValuationRevision} (h : db.latest = some l) :
    l ∈ db.revisions.rows ∧ ∀ r ∈ db.revisions.rows, r.revision ≤ l.revision := by
  obtain ⟨top, htop, hfind⟩ := Option.bind_eq_some_iff.mp h
  obtain ⟨-, hmax⟩ := List.max?_eq_some_iff.mp htop
  refine ⟨Table.mem_of_find hfind, fun r hr => ?_⟩
  rw [Table.find_key hfind]
  exact hmax _ (List.mem_map_of_mem hr)

theorem latest_eq_none (h : db.latest = none) : db.revisions.rows = [] := by
  unfold Valuations.latest at h
  cases hmax : (db.revisions.rows.map (·.revision)).max? with
  | none => simpa using hmax
  | some top =>
    obtain ⟨r, hr, htop⟩ := List.mem_map.mp (List.max?_mem hmax)
    rw [hmax, Option.bind_some, ← htop, Table.find_of_mem hr] at h
    cases h

theorem Valuations.Known.lt_next (h : db.Known revision) : revision < db.nextRevision := by
  obtain ⟨r, hr, rfl⟩ := h
  unfold Valuations.nextRevision
  cases hl : db.latest with
  | none =>
    rw [latest_eq_none hl] at hr
    cases hr
  | some l => exact Nat.lt_succ_of_le ((latest_isMax hl).2 r hr)

theorem Valuations.WellFormed.delta_lt_next (h : db.WellFormed) {d : DeltaRevision}
    (hd : d ∈ db.deltaRevisions.rows) : d.revision < db.nextRevision :=
  Valuations.Known.lt_next (h.deltaRevisions d hd)

/-! ## Appending a revision -/

/-- One delta revision was added above all others, and nothing else changed. -/
structure Appends (db db' : Valuations) (n : Nat) (changes : List (Table.Change Stored String)) :
    Prop where
  number : n = db.nextRevision
  revisions : ∃ row, row.revision = n ∧ db'.revisions.rows = db.revisions.rows ++ [row]
  deltaRevisions : ∃ row, row.revision = n ∧
    db'.deltaRevisions.rows = db.deltaRevisions.rows ++ [row]
  deltas : db'.deltas.rows = db.deltas.rows ++ changes.map (⟨n, ·⟩)
  valuations : db'.valuations = db.valuations
  bases : db'.bases = db.bases

variable {changes : List (Table.Change Stored String)}

theorem Appends.wellFormed (h : Appends db db' n changes) (hdb : db.WellFormed) :
    db'.WellFormed := by
  obtain ⟨row, hrow, hrevisions⟩ := h.revisions
  obtain ⟨drow, hdrow, hdeltaRevisions⟩ := h.deltaRevisions
  refine ⟨fun d hd => ?_, fun d hd => ?_⟩
  · rw [hdeltaRevisions] at hd
    rw [hrevisions]
    rcases List.mem_append.mp hd with hd | hd
    · obtain ⟨r, hr, he⟩ := hdb.deltaRevisions d hd
      exact ⟨r, List.mem_append_left _ hr, he⟩
    · obtain rfl := List.mem_singleton.mp hd
      exact ⟨row, by simp, hrow.trans hdrow.symm⟩
  · rw [h.deltas] at hd
    rw [hdeltaRevisions]
    rcases List.mem_append.mp hd with hd | hd
    · obtain ⟨r, hr, he⟩ := hdb.deltas d hd
      exact ⟨r, List.mem_append_left _ hr, he⟩
    · obtain ⟨c, -, rfl⟩ := List.mem_map.mp hd
      exact ⟨drow, by simp, hdrow⟩

theorem Appends.known (h : Appends db db' n changes) (hr : db.Known revision) :
    db'.Known revision := by
  obtain ⟨row, -, hrevisions⟩ := h.revisions
  obtain ⟨r, hr, he⟩ := hr
  exact ⟨r, by simp [hrevisions, hr], he⟩

theorem Appends.known_self (h : Appends db db' n changes) : db'.Known n := by
  obtain ⟨row, hrow, hrevisions⟩ := h.revisions
  exact ⟨row, by simp [hrevisions], hrow⟩

/-! ### Earlier revisions -/

theorem Appends.deltasUpTo_of_lt (h : Appends db db' n changes) (hr : revision < n) :
    db'.deltasUpTo revision = db.deltasUpTo revision := by
  obtain ⟨row, hrow, hrows⟩ := h.deltaRevisions
  have hnot : ¬n ≤ revision := by omega
  simp [Valuations.deltasUpTo, hrows, hrow, List.filter_append, hnot]

theorem Appends.fullAt_of_lt (h : Appends db db' n changes) (hr : revision < n) :
    db'.fullAt revision = db.fullAt revision := by
  obtain ⟨row, hrow, hrows⟩ := h.revisions
  have hnot : ¬n ≤ revision := by omega
  simp [Valuations.fullAt, h.deltasUpTo_of_lt hr, hrows, hrow, List.filter_append, hnot]

theorem Appends.fullCopy (h : Appends db db' n changes) : db'.fullCopy = db.fullCopy := by
  have hcopied : db'.copied = db.copied := by
    funext v
    simp only [Valuations.copied, h.bases]
  funext r
  simp only [Valuations.fullCopy, h.valuations, hcopied]

theorem Appends.changesOf_of_ne (h : Appends db db' n changes) {d : Nat} (hd : d ≠ n) :
    db'.changesOf d = db.changesOf d := by
  have hnone : (changes.map fun c => (⟨n, c⟩ : ValuationDelta)).filter
      (fun x => x.revision = d) = [] := by
    simp [List.filter_map, Function.comp_def, Ne.symm hd]
  rw [Valuations.changesOf, h.deltas, List.filter_append, hnone, List.append_nil]
  rfl

theorem foldl_patch_congr {f g : Nat → List (Table.Change Stored String)} {ds : List Nat}
    (h : ∀ d ∈ ds, f d = g d) (base : Keyed) :
    ds.foldl (fun state d => state.patch (f d)) base =
      ds.foldl (fun state d => state.patch (g d)) base := by
  induction ds generalizing base with
  | nil => rfl
  | cons d ds ih =>
    rw [List.foldl_cons, List.foldl_cons, h d (by simp)]
    exact ih (fun d' hd' => h d' (List.mem_cons_of_mem _ hd')) _

/-- **An earlier revision replays as before.** -/
theorem Appends.storedAt_of_lt (h : Appends db db' n changes) (hr : revision < n) :
    db'.storedAt revision = db.storedAt revision := by
  have hchanges : ∀ d ∈ (db.deltasUpTo revision).filter (fun d => (db.fullAt revision).all (· < d)),
      db'.changesOf d = db.changesOf d := by
    intro d hd
    have hle := (List.mem_filter.mp hd).1
    simp only [Valuations.deltasUpTo, List.mem_insertionSort, List.mem_filter,
      decide_eq_true_eq] at hle
    exact h.changesOf_of_ne (by omega)
  unfold Valuations.storedAt
  rw [h.deltasUpTo_of_lt hr, h.fullAt_of_lt hr, h.fullCopy]
  exact foldl_patch_congr hchanges _

/-! ### The new revision -/

/-- Sorting puts a number above all others last. -/
theorem insertionSort_concat {l : List Nat} (h : ∀ x ∈ l, x < n) :
    (l ++ [n]).insertionSort (· ≤ ·) = l.insertionSort (· ≤ ·) ++ [n] := by
  apply List.Perm.eq_of_pairwise' (r := (· ≤ ·))
  · exact List.pairwise_insertionSort _ _
  · rw [List.pairwise_append]
    refine ⟨List.pairwise_insertionSort _ _, List.pairwise_singleton _ _, fun x hx y hy => ?_⟩
    obtain rfl := List.mem_singleton.mp hy
    exact Nat.le_of_lt (h x ((List.mem_insertionSort _).mp hx))
  · exact (List.perm_insertionSort _ _).trans
      ((List.perm_insertionSort _ l).symm.append_right [n])

/-- All delta revisions, in order, once every one of them is within the bound. -/
theorem deltasUpTo_of_forall_le (h : ∀ d ∈ db.deltaRevisions.rows, d.revision ≤ revision) :
    db.deltasUpTo revision =
      (db.deltaRevisions.rows.map (·.revision)).insertionSort (· ≤ ·) := by
  rw [Valuations.deltasUpTo, List.filter_eq_self.mpr]
  intro r hr
  obtain ⟨d, hd, rfl⟩ := List.mem_map.mp hr
  simpa using h d hd

theorem Appends.deltasUpTo_self (h : Appends db db' n changes) (hdb : db.WellFormed)
    (hprev : ∀ d ∈ db.deltaRevisions.rows, d.revision ≤ revision) :
    db'.deltasUpTo n = db.deltasUpTo revision ++ [n] := by
  obtain ⟨row, hrow, hrows⟩ := h.deltaRevisions
  have hlt : ∀ d ∈ db.deltaRevisions.rows, d.revision < n := fun d hd =>
    h.number ▸ hdb.delta_lt_next hd
  rw [deltasUpTo_of_forall_le hprev, deltasUpTo_of_forall_le, hrows, List.map_append,
    List.map_singleton, hrow, insertionSort_concat]
  · intro x hx
    obtain ⟨d, hd, rfl⟩ := List.mem_map.mp hx
    exact hlt d hd
  · intro d hd
    rw [hrows] at hd
    rcases List.mem_append.mp hd with hd | hd
    · exact Nat.le_of_lt (hlt d hd)
    · rw [List.mem_singleton.mp hd, hrow]

theorem Appends.changesOf_self (h : Appends db db' n changes) (hdb : db.WellFormed) :
    db'.changesOf n = changes := by
  have hold : db.deltas.rows.filter (fun d => d.revision = n) = [] := by
    rw [List.filter_eq_nil_iff]
    intro d hd
    obtain ⟨r, hr, he⟩ := hdb.deltas d hd
    have hlt := hdb.delta_lt_next hr
    rw [he, ← h.number] at hlt
    simpa using Nat.ne_of_lt hlt
  have hnew : (changes.map fun c => (⟨n, c⟩ : ValuationDelta)).filter
      (fun d => d.revision = n) = changes.map (⟨n, ·⟩) :=
    List.filter_eq_self.mpr fun d hd => by
      obtain ⟨c, -, rfl⟩ := List.mem_map.mp hd
      simp
  rw [Valuations.changesOf, h.deltas, List.filter_append, hold, hnew, List.nil_append, List.map_map]
  exact List.map_id _

/-- The number of the latest revision, or 0 where there is none. -/
def Valuations.latestRevision (db : Valuations) : Nat := db.latest.elim 0 (·.revision)

theorem nextRevision_eq : db.nextRevision = db.latestRevision + 1 := by
  unfold Valuations.nextRevision Valuations.latestRevision
  cases db.latest <;> rfl

theorem Valuations.Known.le_latest (h : db.Known revision) : revision ≤ db.latestRevision := by
  have hlt := h.lt_next
  rw [nextRevision_eq] at hlt
  omega

theorem fullAt_known {f : Nat} (h : db.fullAt revision = some f) : db.Known f := by
  have hmem := List.max?_mem h
  obtain ⟨r, hr, he⟩ := List.mem_map.mp (List.mem_filter.mp hmem).1
  exact ⟨r, hr, he⟩

theorem Appends.fullAt_self (h : Appends db db' n changes) (hdb : db.WellFormed) :
    db'.fullAt n = db.fullAt db.latestRevision := by
  obtain ⟨row, hrow, hrows⟩ := h.revisions
  have hdeltas := h.deltasUpTo_self hdb fun d hd =>
    Valuations.Known.le_latest (hdb.deltaRevisions d hd)
  have hold : ∀ r ∈ db.revisions.rows.map (·.revision),
      decide (r ≤ n ∧ r ∉ db.deltasUpTo db.latestRevision ++ [n]) =
        decide (r ≤ db.latestRevision ∧ r ∉ db.deltasUpTo db.latestRevision) := by
    intro r hr
    obtain ⟨v, hv, rfl⟩ := List.mem_map.mp hr
    have hle := Valuations.Known.le_latest ⟨v, hv, rfl⟩
    have hlt : v.revision < n := by
      rw [h.number, nextRevision_eq]
      omega
    simp [hle, Nat.le_of_lt hlt, Nat.ne_of_lt hlt]
  have hnew : ([n] : List Nat).filter
      (fun r => decide (r ≤ n ∧ r ∉ db.deltasUpTo db.latestRevision ++ [n])) = [] := by
    simp
  rw [Valuations.fullAt, hdeltas, hrows, List.map_append, List.map_singleton, hrow,
    List.filter_append, hnew, List.append_nil, List.filter_congr hold]
  rfl

/-- **The new revision replays its delta over the latest one.** -/
theorem Appends.storedAt_self (h : Appends db db' n changes) (hdb : db.WellFormed) :
    db'.storedAt n = (db.storedAt db.latestRevision).patch changes := by
  have hdeltas := h.deltasUpTo_self hdb fun d hd =>
    Valuations.Known.le_latest (hdb.deltaRevisions d hd)
  have hlast : ([n] : List Nat).filter
      (fun d => (db.fullAt db.latestRevision).all (· < d)) = [n] := by
    cases hfull : db.fullAt db.latestRevision with
    | none => rfl
    | some f =>
      have hlt := (fullAt_known hfull).lt_next
      rw [← h.number] at hlt
      simp [hlt]
  have hchanges : ∀ d ∈ (db.deltasUpTo db.latestRevision).filter
      (fun d => (db.fullAt db.latestRevision).all (· < d)), db'.changesOf d = db.changesOf d := by
    intro d hd
    have hle := (List.mem_filter.mp hd).1
    simp only [Valuations.deltasUpTo, List.mem_insertionSort, List.mem_filter,
      decide_eq_true_eq] at hle
    apply h.changesOf_of_ne
    rw [h.number, nextRevision_eq]
    omega
  unfold Valuations.storedAt
  rw [h.fullAt_self hdb, hdeltas, h.fullCopy]
  dsimp only
  rw [List.filter_append, hlast, List.foldl_append, foldl_patch_congr hchanges, List.foldl_cons,
    List.foldl_nil, h.changesOf_self hdb]

/-- A full copy reads back as it was copied. -/
theorem storedAt_fullCopy (hknown : db.Known revision)
    (hfull : ∀ d ∈ db.deltaRevisions.rows, d.revision ≠ revision) :
    db.storedAt revision = db.fullCopy revision := by
  have hnot : revision ∉ db.deltasUpTo revision := by
    simp only [Valuations.deltasUpTo, List.mem_insertionSort, List.mem_filter, List.mem_map]
    rintro ⟨⟨d, hd, he⟩, -⟩
    exact hfull d hd he
  have hat : db.fullAt revision = some revision := by
    obtain ⟨r, hr, rfl⟩ := hknown
    rw [Valuations.fullAt, List.max?_eq_some_iff]
    constructor
    · exact List.mem_filter.mpr ⟨List.mem_map_of_mem hr, by simpa using hnot⟩
    · intro q hq
      have hq := (List.mem_filter.mp hq).2
      simp only [decide_eq_true_eq] at hq
      exact hq.1
  have hnone : (db.deltasUpTo revision).filter (fun d => (some revision).all (· < d)) = [] := by
    rw [List.filter_eq_nil_iff]
    intro d hd
    simp only [Valuations.deltasUpTo, List.mem_insertionSort, List.mem_filter,
      decide_eq_true_eq] at hd
    simpa using hd.2
  unfold Valuations.storedAt
  rw [hat]
  dsimp only
  rw [hnone]
  rfl

/-! ## Reprices -/

/-- Only the fingerprint of the last inputs may have changed. -/
def KeepsRevisions (db db' : Valuations) : Prop := ∃ inputs, db' = { db with inputs := inputs }

variable {r : Reprice} {synced : Int} {answer : Repriced}

theorem insertRevision_ok {row : ValuationRevision} {u : Unit}
    (h : insertRevision row db = .ok (u, db')) :
    ∃ revisions, db.revisions.insert? row = some revisions ∧
      db' = { db with revisions := revisions } := by
  have h := Tx.insert_ok.mp h
  obtain ⟨revisions, hi, he⟩ := Option.map_eq_some_iff.mp h
  exact ⟨revisions, hi, he.symm⟩

theorem insertDeltaRevision_ok {row : DeltaRevision} {u : Unit}
    (h : insertDeltaRevision row db = .ok (u, db')) :
    ∃ deltaRevisions, db.deltaRevisions.insert? row = some deltaRevisions ∧
      db' = { db with deltaRevisions := deltaRevisions } := by
  have h := Tx.insert_ok.mp h
  obtain ⟨rows, hi, he⟩ := Option.map_eq_some_iff.mp h
  exact ⟨rows, hi, he.symm⟩

/-- A loop of delta insertions appends its rows in order. -/
theorem insertDeltas_ok {β : Type} {change : β → Table.Change Stored String} {xs : List β}
    {u : Unit} (h : Tx.forEach (fun x => insertDelta ⟨n, change x⟩) xs db = .ok (u, db')) :
    ∃ deltas, deltas.rows = db.deltas.rows ++ (xs.map change).map (⟨n, ·⟩) ∧
      db' = { db with deltas := deltas } := by
  induction xs generalizing db with
  | nil =>
    obtain ⟨-, rfl⟩ := Tx.pure_ok.mp h
    exact ⟨db.deltas, by simp, rfl⟩
  | cons x xs ih =>
    obtain ⟨_, db₁, hx, hrest⟩ := Tx.bind_ok.mp h
    have hx := Tx.insert_ok.mp hx
    obtain ⟨deltas₁, hi, he⟩ := Option.map_eq_some_iff.mp hx
    subst he
    obtain ⟨deltas, hrows, rfl⟩ := ih hrest
    exact ⟨deltas, by simp [hrows, (Table.insert?_eq_some hi).2], rfl⟩

/-- The revision that a reprice compares with, read back. -/
def Valuations.previous (db : Valuations) : Keyed :=
  db.latest.elim .empty fun l => db.storedAt l.revision

theorem previous_eq (hdb : db.WellFormed) : db.previous = db.storedAt db.latestRevision := by
  unfold Valuations.previous Valuations.latestRevision
  cases hl : db.latest with
  | some l => rfl
  | none =>
    have hrevisions := latest_eq_none hl
    have hdeltas : db.deltaRevisions.rows = [] := by
      rw [List.eq_nil_iff_forall_not_mem]
      intro d hd
      obtain ⟨r, hr, -⟩ := hdb.deltaRevisions d hd
      rw [hrevisions] at hr
      cases hr
    simp [Valuations.storedAt, Valuations.fullAt, Valuations.deltasUpTo, hrevisions, hdeltas]

section Reprices

variable [RowDigest]

theorem appendRevision_ok (h : appendRevision r synced db.latest db = .ok (answer, db')) :
    Appends db db' db.nextRevision (Table.diff db.previous r.current) ∧
      answer = .appended db.nextRevision r.rows.length
        (Table.changed db.previous r.current).length
        (Table.removed db.previous r.current).length := by
  have h := Tx.ask_bind.mp h
  obtain ⟨_, db₁, h₁, h⟩ := Tx.bind_ok.mp h
  obtain ⟨revisions, hrevisions, rfl⟩ := insertRevision_ok h₁
  obtain ⟨_, db₂, h₂, h⟩ := Tx.bind_ok.mp h
  obtain ⟨deltaRevisions, hdeltaRevisions, rfl⟩ := insertDeltaRevision_ok h₂
  obtain ⟨_, db₃, h₃, h⟩ := Tx.bind_ok.mp h
  obtain ⟨sets, hsets, rfl⟩ := insertDeltas_ok h₃
  obtain ⟨_, db₄, h₄, h⟩ := Tx.bind_ok.mp h
  obtain ⟨deltas, hdeltas, rfl⟩ := insertDeltas_ok h₄
  have h := Tx.write_bind.mp h
  obtain ⟨rfl, rfl⟩ := Tx.pure_ok.mp h
  refine ⟨⟨rfl, ⟨_, rfl, (Table.insert?_eq_some hrevisions).2⟩,
    ⟨_, rfl, (Table.insert?_eq_some hdeltaRevisions).2⟩, ?_, rfl, rfl⟩, rfl⟩
  change deltas.rows = _
  rw [hdeltas, hsets, Table.diff, List.map_append, List.append_assoc]
  rfl

/-- **What a reprice can do.** It appends one revision, or it leaves all revisions alone. -/
theorem exec_cases (r : Reprice) (db : Valuations) :
    (KeepsRevisions db (r.exec db).2 ∧
      ∀ n entries changed removed, (r.exec db).1 ≠ .ok (.appended n entries changed removed)) ∨
    ∃ entries changed removed, (r.exec db).1 = .ok (.appended db.nextRevision entries changed
        removed) ∧
      Appends db (r.exec db).2 db.nextRevision (Table.diff db.previous r.current) := by
  obtain ⟨answer, db', hbody, hexec⟩ | ⟨e, -, hexec⟩ := Tx.commit_eq r.run db
  · rw [Reprice.exec, hexec]
    have hskip : ∀ {s : Repriced}, (∀ n a b c, s ≠ .appended n a b c) →
        (pure s : Accounting Repriced) db = .ok (answer, db') →
        KeepsRevisions db db' ∧ ∀ n entries changed removed,
          (Except.ok answer : Except String Repriced) ≠ .ok (.appended n entries changed removed) := by
      intro s hs h
      obtain ⟨rfl, rfl⟩ := Tx.pure_ok.mp h
      exact ⟨⟨db.inputs, rfl⟩, fun n a b c he => hs n a b c (by cases he; rfl)⟩
    unfold Reprice.run at hbody
    cases hsynced : r.synced with
    | none =>
      rw [hsynced] at hbody
      exact .inl (hskip (by simp) hbody)
    | some synced =>
      rw [hsynced] at hbody
      rcases Tx.ite_ok.mp hbody with ⟨-, hbody⟩ | ⟨-, hbody⟩
      · exact .inl (hskip (by simp) hbody)
      · have hbody := Tx.ask_bind.mp hbody
        rcases Tx.ite_ok.mp hbody with ⟨-, hbody⟩ | ⟨-, hbody⟩
        · exact .inl (hskip (by simp) hbody)
        · rcases Tx.ite_ok.mp hbody with ⟨-, hbody⟩ | ⟨-, hbody⟩
          · exact .inl (hskip (by simp) hbody)
          · have hbody := Tx.ask_bind.mp hbody
            cases hsame : db.latest.filter r.same with
            | some l =>
              rw [hsame] at hbody
              have hbody := Tx.write_bind.mp hbody
              obtain ⟨rfl, rfl⟩ := Tx.pure_ok.mp hbody
              exact .inl ⟨⟨_, rfl⟩, by simp⟩
            | none =>
              rw [hsame] at hbody
              obtain ⟨happends, rfl⟩ := appendRevision_ok hbody
              exact .inr ⟨_, _, _, rfl, happends⟩
  · rw [Reprice.exec, hexec]
    exact .inl ⟨⟨db.inputs, rfl⟩, by simp⟩

/-! ## Sequences of reprices -/

/-- The sidecar after a sequence of reprices. -/
def Valuations.after (db : Valuations) (reprices : List Reprice) : Valuations :=
  ((Run.start db).calls Reprice.exec reprices).state

theorem exec_wellFormed (r : Reprice) (hdb : db.WellFormed) : (r.exec db).2.WellFormed := by
  obtain ⟨⟨inputs, hkeep⟩, -⟩ | ⟨_, _, _, -, happends⟩ := exec_cases r db
  · rw [hkeep]
    exact ⟨hdb.deltaRevisions, hdb.deltas⟩
  · exact happends.wellFormed hdb

theorem after_wellFormed (hdb : db.WellFormed) (reprices : List Reprice) :
    (db.after reprices).WellFormed :=
  Run.invariant (I := fun run : Run Valuations Reprice (Except String Repriced) =>
    run.state.WellFormed) hdb fun _ r _ h => exec_wellFormed r h

/-- One reprice keeps what a known revision reads back as. -/
theorem exec_storedAt (r : Reprice) (hknown : db.Known revision) :
    (r.exec db).2.Known revision ∧ (r.exec db).2.storedAt revision = db.storedAt revision := by
  obtain ⟨⟨inputs, hkeep⟩, -⟩ | ⟨_, _, _, -, happends⟩ := exec_cases r db
  · rw [hkeep]
    exact ⟨hknown, rfl⟩
  · exact ⟨happends.known hknown, happends.storedAt_of_lt hknown.lt_next⟩

/-- A sequence of reprices keeps what a known revision reads back as. -/
theorem after_storedAt (hknown : db.Known revision) (reprices : List Reprice) :
    (db.after reprices).Known revision ∧
      (db.after reprices).storedAt revision = db.storedAt revision := by
  apply Run.invariant (I := fun run : Run Valuations Reprice (Except String Repriced) =>
    run.state.Known revision ∧ run.state.storedAt revision = db.storedAt revision)
  · exact ⟨hknown, rfl⟩
  · intro run r _ h
    obtain ⟨hk, hs⟩ := exec_storedAt r h.1
    exact ⟨hk, hs.trans h.2⟩

/-- **Valuation revisions are immutable.** From any sidecar, with full copies and deltas, and after
any sequence of reprices: a revision that a reprice appended reads back, at that moment and ever
after, as the rows that the reprice computed, entry by entry; and a full copy reads back as it was
copied. -/
theorem valuation_revisions_immutable (db : Valuations) (hdb : db.WellFormed) :
    (∀ pre r post n entries changed removed,
      (r.exec (db.after pre)).1 = .ok (.appended n entries changed removed) →
      ∀ id, ((db.after (pre ++ r :: post)).storedAt n).find id = r.current.find id) ∧
    ∀ v ∈ db.revisions.rows, (∀ d ∈ db.deltaRevisions.rows, d.revision ≠ v.revision) →
      ∀ reprices, (db.after reprices).storedAt v.revision = db.fullCopy v.revision := by
  constructor
  · intro pre r post n entries changed removed hanswer id
    have hwf := after_wellFormed hdb pre
    have hafter : db.after (pre ++ r :: post) = ((r.exec (db.after pre)).2).after post := by
      unfold Valuations.after
      rw [Run.calls_append, Run.calls_cons]
      exact Run.state_calls_congr rfl
    obtain ⟨-, hno⟩ | ⟨_, _, _, hyes, happends⟩ := exec_cases r (db.after pre)
    · exact absurd hanswer (hno _ _ _ _)
    · rw [hyes] at hanswer
      cases hanswer
      rw [hafter, (after_storedAt happends.known_self post).2, happends.storedAt_self hwf,
        ← previous_eq hwf]
      exact Table.find_patch_diff id
  · intro v hv hfull reprices
    rw [(after_storedAt ⟨v, hv, rfl⟩ reprices).2]
    exact storedAt_fullCopy ⟨v, hv, rfl⟩ hfull

end Reprices

/-! ## An entry that leaves the ledger and comes back -/

namespace Readded

/-- Stand-in digests: the entries of the rows. -/
@[reducible] def digests : RowDigest where
  digest policy rows := policy ++ String.join (rows.map (·.entryId))

def row (id : String) : ValuationRow :=
  ⟨id, "session", "primary", none, some "model", some (1, 2), some fallbackBasis, some (1, 2, 3, 4),
    none, some ("card", 1), some "USD", some "0.5", some [("input", "0.5")],
    some "provider_unverified"⟩

/-- One full copy of the entries `a` and `b`. -/
def sidecar : Valuations where
  revisions := ⟨[⟨1, legacyPolicy, 0, "full", 0⟩], by decide⟩
  valuations := ⟨[⟨1, (row "a").stored⟩, ⟨1, (row "b").stored⟩], by decide⟩
  bases := .empty
  deltaRevisions := .empty
  deltas := .empty
  inputs := none

def reprice (rows : List ValuationRow) : Reprice := ⟨some 0, [], "", 0, rows, none, 0⟩

def without : Reprice := reprice [row "a"]

def again : Reprice := reprice [row "a", row "b"]

end Readded

/-- The entry `b` is removed by revision 2 and added again by revision 3: revision 2 stays without
it. -/
theorem valuation_revisions_immutable_readded : letI := Readded.digests
    Readded.sidecar.WellFormed ∧
      ∀ id, ((Readded.sidecar.after [Readded.without, Readded.again]).storedAt 2).find id =
        Readded.without.current.find id := by
  let := Readded.digests
  have hwf : Readded.sidecar.WellFormed :=
    ⟨fun d hd => absurd hd List.not_mem_nil, fun d hd => absurd hd List.not_mem_nil⟩
  exact ⟨hwf, (valuation_revisions_immutable Readded.sidecar hwf).1 [] Readded.without
    [Readded.again] 2 1 1 1 (by decide +kernel)⟩

end Herdr
