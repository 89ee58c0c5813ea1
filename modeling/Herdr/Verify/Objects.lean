import Herdr.Lib.Log
import Herdr.Store.Objects

/-!
# Collection and references

`Move` lists what one step can do to objects, files and the lock. From it follow the two
invariants of the collector: a token that deletes or purges an object is that of its latest claim,
with no upload or pin since; and a referenced object is unclaimed with its bytes in place, as long
as no writer refers to an object that a later collector has claimed again after an earlier one
unlinked it and stopped.
-/

namespace Herdr.Objects

variable {db db' : Memory} {w w' : World} {h : ObjectId}

/-! ## Identities -/

theorem parse_of_names {raw : String} (hn : names raw h = true) : ObjectId.parse raw = .ok h := by
  have hhex : ObjectId.fromHex h.val = .ok h := by
    unfold ObjectId.fromHex
    rw [dif_pos h.valid]
  simp only [names, Bool.or_eq_true, decide_eq_true_eq] at hn
  unfold ObjectId.parse
  rcases hn with rfl | hn
  · have hbare : scheme.isPrefixOf h.val.toList = false := by
      -- no hexadecimal text starts with the scheme
      rw [Bool.eq_false_iff]
      intro hpre
      obtain ⟨rest, hrest⟩ := List.isPrefixOf_iff_prefix.mp hpre
      have hvalid := h.valid
      simp only [digest64, Bool.and_eq_true, List.all_eq_true] at hvalid
      have hs := hvalid.2 's' (by rw [← hrest]; simp [scheme])
      exact absurd hs (by decide)
    rw [hbare]
    exact hhex
  · have hpre : scheme.isPrefixOf raw.toList = true := by
      rw [hn]
      exact List.isPrefixOf_iff_prefix.mpr (List.prefix_append ..)
    rw [if_pos hpre, hn, List.drop_left, String.ofList_toList]
    exact hhex

/-! ## Retention -/

/-- The rows after the objects of `hs` were found usable and their claims cancelled. -/
structure Retains (db db' : Memory) (hs : List ObjectId) : Prop where
  frame : db' = { db with objects := db'.objects }
  usable : ∀ h ∈ hs, ∃ r, db.objects.find h = some r ∧ r.usable = true
  row : ∀ h, db'.objects.find h =
    (db.objects.find h).map fun r => if h ∈ hs then r.unclaim else r

theorem Retains.refl (db : Memory) : Retains db db [] := ⟨rfl, by simp, by simp⟩

theorem requireAvailable_ok {u : Unit} (hrun : requireAvailable h db = .ok (u, db')) :
    db = db' ∧ ∃ r, db.objects.find h = some r ∧ r.usable = true := by
  simp only [requireAvailable, Tx.ask_bind, Tx.require_ok] at hrun
  obtain ⟨hrow, rfl⟩ := hrun
  refine ⟨rfl, ?_⟩
  cases hfind : db.objects.find h with
  | none => simp [hfind] at hrow
  | some r => exact ⟨r, rfl, by simpa [hfind] using hrow⟩

theorem ObjectRow.usable_iff {r : ObjectRow} :
    r.usable = true ↔ r.availability = .available ∧ r.collection ≠ .gcDeleting := by
  simp [ObjectRow.usable]

/-- Cancelling the claim of a usable object leaves it unclaimed. -/
theorem Retains.cancel {u : Unit} {r : ObjectRow} (hrow : db.objects.find h = some r)
    (husable : r.usable = true) (hrun : cancelPending h db = .ok (u, db')) :
    Retains db db' [h] := by
  have hhash : r.hash = h := Table.find_key hrow
  have hsingle : ∀ k ∈ [h], ∃ r, db.objects.find k = some r ∧ r.usable = true := by
    intro k hk
    rw [List.mem_singleton.mp hk]
    exact ⟨r, hrow, husable⟩
  simp only [cancelPending, Tx.write_ok, hrow] at hrun
  subst hrun
  by_cases hpending : r.collection = .gcPending
  · rw [if_pos hpending]
    refine ⟨rfl, hsingle, ?_⟩
    intro k
    have hupdate := Table.find_update (t := db.objects) (a := r.unclaim) (k := k)
    rw [hupdate]
    by_cases hk : k = h
    · subst hk
      simp [hrow, show r.unclaim.hash = k from hhash]
    · have hne : r.unclaim.hash ≠ k := fun he => hk (he.symm.trans hhash)
      rw [if_neg hne]
      simp [hk]
  · rw [if_neg hpending]
    refine ⟨rfl, hsingle, ?_⟩
    intro k
    by_cases hk : k = h
    · subst hk
      have hsame : r.unclaim = r := by
        have hne := (ObjectRow.usable_iff.mp husable).2
        cases r with
        | mk _ _ _ collection => cases collection <;> simp_all [ObjectRow.unclaim]
      simp [hrow, hsame]
    · simp [hk]

/-- A usable object stays usable. -/
theorem Retains.keeps {hs : List ObjectId} (hr : Retains db db' hs) {r : ObjectRow}
    (hrow : db.objects.find h = some r) (husable : r.usable = true) :
    ∃ r', db'.objects.find h = some r' ∧ r'.usable = true := by
  refine ⟨_, by rw [hr.row, hrow]; rfl, ?_⟩
  split
  · rw [ObjectRow.usable_iff] at husable ⊢
    exact ⟨husable.1, by simp [ObjectRow.unclaim]⟩
  · exact husable

theorem Retains.trans {db₁ db₂ : Memory} {hs ks : List ObjectId} (h₁ : Retains db db₁ hs)
    (h₂ : Retains db₁ db₂ ks) : Retains db db₂ (hs ++ ks) := by
  refine ⟨by rw [h₂.frame, h₁.frame], ?_, ?_⟩
  · intro k hk
    rcases List.mem_append.mp hk with hk | hk
    · exact h₁.usable k hk
    · by_cases hks : k ∈ hs
      · exact h₁.usable k hks
      · obtain ⟨r, hrow, husable⟩ := h₂.usable k hk
        rw [h₁.row, Option.map_eq_some_iff] at hrow
        obtain ⟨r₀, hrow, heq⟩ := hrow
        rw [if_neg hks] at heq
        exact ⟨r₀, hrow, heq ▸ husable⟩
  · intro k
    rw [h₂.row, h₁.row, Option.map_map]
    congr 1
    funext r
    by_cases hk : k ∈ hs <;> by_cases hk' : k ∈ ks <;> simp [hk, hk', ObjectRow.unclaim]

/-- `require_available` and `cancel_pending`, one after the other. -/
theorem Retains.retainRaw {raw : String} {u : Unit} (hrun : retainRaw raw db = .ok (u, db')) :
    ∃ id, ObjectId.parse raw = .ok id ∧ Retains db db' [id] := by
  simp only [Objects.retainRaw, Tx.check_bind] at hrun
  obtain ⟨id, hparse, hrun⟩ := hrun
  obtain ⟨_, db₁, hreq, hcancel⟩ := Tx.bind_ok.mp hrun
  obtain ⟨rfl, r, hrow, husable⟩ := requireAvailable_ok hreq
  refine ⟨id, ?_, .cancel hrow husable hcancel⟩
  cases hp : ObjectId.parse raw with
  | error e => simp [hp, Except.mapError] at hparse
  | ok id' =>
    simp only [hp, Except.mapError] at hparse
    cases hparse
    rfl

/-- The objects that a list of texts names. -/
def parsed (raws : List String) : List ObjectId :=
  raws.filterMap fun raw => (ObjectId.parse raw).toOption

theorem Retains.forEach {raws : List String} {u : Unit}
    (hrun : Tx.forEach Objects.retainRaw raws db = .ok (u, db')) :
    Retains db db' (parsed raws) := by
  induction raws generalizing db with
  | nil =>
    obtain ⟨-, rfl⟩ := Tx.pure_ok.mp hrun
    exact .refl _
  | cons raw raws ih =>
    obtain ⟨_, db₁, hone, hrest⟩ := Tx.bind_ok.mp hrun
    obtain ⟨id, hparse, hr⟩ := Retains.retainRaw hone
    have hcons : parsed (raw :: raws) = [id] ++ parsed raws := by
      simp [parsed, hparse, Except.toOption]
    rw [hcons]
    exact hr.trans (ih hrest)

/-! ## What one step does -/

/-- The objects that a step would refer to or pin. -/
def Act.mentions : Act → List ObjectId
  | .pinObject hash => [hash]
  | .insertMemoryRevision _ next => [next.bodyHash, next.provenanceHash]
  | .insertProposal _ p =>
    if p.validated then parsed ((p.changes.getD []).flatMap (·.objects)) else []
  | .stageMemoryImport c => [c.bodyHash, c.provenanceHash]
  | _ => []

/-- What one step does to objects, files and the lock; `mentions` are the objects that it may come
to refer to. -/
inductive Move (mentions : List ObjectId) (w : World) : Effect → World → Prop
  | same : Move mentions w .none w
  | release : Move mentions w .none { w with lock := none }
  | publish (hash : ObjectId) (size : Nat) :
    Move mentions w .none
      { w with files := hash :: w.files, lock := some (.ingesting hash size) }
  | upload {hash : ObjectId} {size : Nat} {row : ObjectRow}
    (lock : w.lock = some (.ingesting hash size)) (found : w.db.objects.find hash = some row) :
    Move mentions w (.uploaded hash)
      { w with db := { w.db with objects := w.db.objects.update row.upload }, lock := none }
  | create {hash : ObjectId} {size : Nat} {objects : Table ObjectRow ObjectRow.hash}
    (lock : w.lock = some (.ingesting hash size))
    (inserted : w.db.objects.insert? ⟨hash, size, .available, .unclaimed, 0, 0⟩ = some objects) :
    Move mentions w (.uploaded hash) { w with db := { w.db with objects := objects }, lock := none }
  | claim (limit : Nat) {objects : Table ObjectRow ObjectRow.hash}
    (loop : Tx.forEach (fun row => setObject row.claim) (w.db.unreferenced.take limit) w.db =
      .ok ((), { w.db with objects := objects })) :
    Move mentions w
      (.claimed ((w.db.unreferenced.take limit).map fun row => (row.hash, row.fencingToken + 1)))
      { w with
        db := { w.db with objects := objects }
        lock := some (.collecting ((w.db.unreferenced.take limit).map
          fun row => (row.hash, row.fencingToken + 1)) .claimed) }
  | delete {hash : ObjectId} {token : Nat} {rest : List (ObjectId × Nat)} {row : ObjectRow}
    (found : w.db.objects.find hash = some row) (unreferenced : w.db.referenced hash = false)
    (pending : row.collection = .gcPending) (unpinned : row.pinCount = 0)
    (fence : row.fencingToken = token) :
    Move mentions w (.deleting hash token)
      { w with
        db := { w.db with objects := w.db.objects.update row.delete }
        lock := some (.collecting ((hash, token) :: rest) .deleting) }
  | skip {claims : List (ObjectId × Nat)} :
    Move mentions w .none { w with lock := some (.collecting claims .claimed) }
  | unlink {hash : ObjectId} {token : Nat} {rest : List (ObjectId × Nat)}
    (lock : w.lock = some (.collecting ((hash, token) :: rest) .deleting)) :
    Move mentions w .none
      { w with
        files := w.files.filter (· ≠ hash)
        lock := some (.collecting ((hash, token) :: rest) .unlinked) }
  | purge {hash : ObjectId} {token : Nat} {rest : List (ObjectId × Nat)} {row : ObjectRow}
    (found : w.db.objects.find hash = some row) (deleting : row.collection = .gcDeleting)
    (fence : row.fencingToken = token) :
    Move mentions w (.purged hash token)
      { w with
        db := { w.db with objects := w.db.objects.update row.purge }
        lock := some (.collecting rest .claimed) }
  | pin {hash : ObjectId} {row : ObjectRow} (mentioned : hash ∈ mentions)
    (found : w.db.objects.find hash = some row) (usable : row.usable = true) :
    Move mentions w (.pinned hash)
      { w with db := { w.db with objects := w.db.objects.update row.pin } }
  | refer {hs : List ObjectId} {db₁ db' : Memory} (mentioned : ∀ h ∈ hs, h ∈ mentions)
    (retained : Retains w.db db₁ hs) (objects : db'.objects = db₁.objects)
    (references : ∀ h, db'.referenced h = true → w.db.referenced h = true ∨ h ∈ hs) :
    Move mentions w .none { w with db := db' }

theorem setObject_ok {row : ObjectRow} {u : Unit} :
    setObject row db = .ok (u, db') ↔ { db with objects := db.objects.update row } = db' :=
  Tx.write_ok

variable {m : List ObjectId}

theorem transact_eq {α : Type} (w : World) (body : MemoryTx α) (effect : Effect) :
    (∃ a db, body w.db = .ok (a, db) ∧ w.transact body effect = (effect, { w with db := db })) ∨
      w.transact body effect = (.none, w) := by
  unfold World.transact
  cases body w.db with
  | error e => exact .inr rfl
  | ok p => exact .inl ⟨p.1, p.2, rfl, rfl⟩

theorem upsertAvailable_ok {size : Nat} {u : Unit}
    (hrun : upsertAvailable h size db = .ok (u, db')) :
    (∃ row, db.objects.find h = some row ∧
        db' = { db with objects := db.objects.update row.upload }) ∨
      ∃ objects, db.objects.insert? ⟨h, size, .available, .unclaimed, 0, 0⟩ = some objects ∧
        db' = { db with objects := objects } := by
  simp only [upsertAvailable, Tx.ask_bind] at hrun
  cases hfind : db.objects.find h with
  | some row =>
    simp only [hfind, Tx.require_bind, setObject_ok] at hrun
    exact .inl ⟨row, rfl, hrun.2.symm⟩
  | none =>
    simp only [hfind, Tx.insert_ok, Option.map_eq_some_iff] at hrun
    obtain ⟨objects, hins, rfl⟩ := hrun
    exact .inr ⟨objects, hins, rfl⟩

theorem upsertObject_move : Move m w w.upsertObject.1 w.upsertObject.2 := by
  unfold World.upsertObject
  split
  · next hash size hlock =>
    obtain ⟨_, db, hrun, heq⟩ | heq := transact_eq { w with lock := none }
      (upsertAvailable hash size) (.uploaded hash)
    · rw [heq]
      obtain ⟨row, hfind, rfl⟩ | ⟨objects, hins, rfl⟩ := upsertAvailable_ok hrun
      · exact .upload hlock hfind
      · exact .create hlock hins
    · rw [heq]
      exact .release
  · exact .same

theorem claimGc_move {limit : Nat} : Move m w (w.claimGc limit).1 (w.claimGc limit).2 := by
  unfold World.claimGc
  split
  · next hlock =>
    split
    · next claims db hrun =>
      simp only [claimUnreferenced, Tx.ask_bind] at hrun
      obtain ⟨_, db₁, hloop, hrun⟩ := Tx.bind_ok.mp hrun
      obtain ⟨rfl, rfl⟩ := Tx.pure_ok.mp hrun
      have hframe : db₁ = { w.db with objects := db₁.objects } := by
        refine Tx.forEach_preserves (R := fun a b : Memory => b = { a with objects := b.objects })
          (fun _ => rfl) (fun hab hbc => by rw [hbc, hab]) ?_ hloop
        intro row _ a b _ hset
        rw [← setObject_ok.mp hset]
      rw [hframe] at hloop ⊢
      exact .claim limit hloop
    · exact .same
  · exact .same

theorem beginDelete_ok {token : Nat} {began : Bool} (hrun : beginDelete h token db = .ok (began, db')) :
    (began = false ∧ db' = db) ∨
      ∃ row, began = true ∧ db.objects.find h = some row ∧ db.referenced h = false ∧
        row.collection = .gcPending ∧ row.pinCount = 0 ∧ row.fencingToken = token ∧
        db' = { db with objects := db.objects.update row.delete } := by
  simp only [beginDelete, Tx.ask_bind] at hrun
  cases hfind : db.objects.find h with
  | none =>
    simp only [hfind, Tx.pure_ok] at hrun
    exact .inl ⟨hrun.1.symm, hrun.2.symm⟩
  | some row =>
    simp only [hfind] at hrun
    rcases Tx.ite_ok.mp hrun with ⟨⟨href, -, hpending, hpin, htoken⟩, hrun⟩ | ⟨-, hrun⟩
    · obtain ⟨_, db₁, hset, hrun⟩ := Tx.bind_ok.mp hrun
      obtain ⟨rfl, rfl⟩ := Tx.pure_ok.mp hrun
      exact .inr ⟨row, rfl, rfl, href, hpending, hpin, htoken, (setObject_ok.mp hset).symm⟩
    · obtain ⟨rfl, rfl⟩ := Tx.pure_ok.mp hrun
      exact .inl ⟨rfl, rfl⟩

theorem beginGcDelete_move : Move m w w.beginGcDelete.1 w.beginGcDelete.2 := by
  unfold World.beginGcDelete
  split
  · split
    · next hrun =>
      obtain ⟨hfalse, -⟩ | ⟨row, -, hfind, href, hpending, hpin, htoken, rfl⟩ := beginDelete_ok hrun
      · cases hfalse
      · exact .delete hfind href hpending hpin htoken
    · next hrun =>
      obtain ⟨-, rfl⟩ | ⟨_, htrue, -⟩ := beginDelete_ok hrun
      · exact .skip
      · cases htrue
    · exact .release
  · exact .same

theorem finishPurge_ok {token : Nat} {changed : Bool}
    (hrun : finishPurge h token db = .ok (changed, db')) :
    (changed = false ∧ db' = db) ∨
      ∃ row, changed = true ∧ db.objects.find h = some row ∧ row.collection = .gcDeleting ∧
        row.fencingToken = token ∧ db' = { db with objects := db.objects.update row.purge } := by
  simp only [finishPurge, Tx.ask_bind] at hrun
  cases hfind : db.objects.find h with
  | none =>
    simp only [hfind, Tx.pure_ok] at hrun
    exact .inl ⟨hrun.1.symm, hrun.2.symm⟩
  | some row =>
    simp only [hfind] at hrun
    rcases Tx.ite_ok.mp hrun with ⟨⟨hdeleting, htoken⟩, hrun⟩ | ⟨-, hrun⟩
    · obtain ⟨_, db₁, hset, hrun⟩ := Tx.bind_ok.mp hrun
      obtain ⟨rfl, rfl⟩ := Tx.pure_ok.mp hrun
      exact .inr ⟨row, rfl, rfl, hdeleting, htoken, (setObject_ok.mp hset).symm⟩
    · obtain ⟨rfl, rfl⟩ := Tx.pure_ok.mp hrun
      exact .inl ⟨rfl, rfl⟩

theorem finishGcPurge_move : Move m w w.finishGcPurge.1 w.finishGcPurge.2 := by
  unfold World.finishGcPurge
  split
  · split
    · next hrun =>
      obtain ⟨rfl, rfl⟩ | ⟨row, rfl, hfind, hdeleting, htoken, rfl⟩ := finishPurge_ok hrun
      · exact .skip
      · exact .purge hfind hdeleting htoken
    · exact .release
  · exact .same

theorem pin_move (hm : h ∈ m) :
    Move m w (w.transact (pin h) (.pinned h)).1 (w.transact (pin h) (.pinned h)).2 := by
  obtain ⟨_, db, hrun, heq⟩ | heq := transact_eq w (pin h) (.pinned h)
  · rw [heq]
    obtain ⟨_, db₁, hreq, hwrite⟩ := Tx.bind_ok.mp hrun
    obtain ⟨rfl, row, hfind, husable⟩ := requireAvailable_ok hreq
    simp only [Tx.write_ok, hfind] at hwrite
    rw [← hwrite]
    exact .pin hm hfind husable
  · rw [heq]
    exact .same

/-! ### References -/

theorem referenced_iff : db.referenced h = true ↔
    (∃ r ∈ db.revisions.rows, r.bodyHash = h ∨ r.provenanceHash = h) ∨
    (∃ p ∈ db.proposals.rows, p.validated = true ∧
      ∃ raw ∈ p.changes.flatMap (·.objects), names raw h = true) ∨
    ∃ c ∈ db.candidates.rows, c.bodyHash = h ∨ c.provenanceHash = h := by
  simp only [Memory.referenced, Bool.or_eq_true, List.any_eq_true, Bool.and_eq_true,
    decide_eq_true_eq, List.mem_flatMap]
  constructor
  · rintro ((hr | ⟨p, hp, hv, c, hc, raw, hraw, hn⟩) | hc)
    · exact .inl hr
    · exact .inr (.inl ⟨p, hp, hv, raw, ⟨c, hc, hraw⟩, hn⟩)
    · exact .inr (.inr hc)
  · rintro (hr | ⟨p, hp, hv, raw, ⟨c, hc, hraw⟩, hn⟩ | hc)
    · exact .inl (.inl hr)
    · exact .inl (.inr ⟨p, hp, hv, c, hc, raw, hraw, hn⟩)
    · exact .inr hc

theorem admitRecord_ok {next : NewRevision} {u : Unit} (hrun : admitRecord next db = .ok (u, db')) :
    db' = { db with records := db'.records } := by
  simp only [admitRecord, Tx.ask_bind] at hrun
  cases hfind : db.records.find next.id with
  | some old =>
    simp only [hfind, Tx.require_ok] at hrun
    rw [hrun.2]
  | none =>
    simp only [hfind, Tx.insert_ok] at hrun
    split at hrun
    · cases hrun
    · obtain ⟨records, -, rfl⟩ := Option.map_eq_some_iff.mp hrun
      rfl

theorem writeHead_ok {head : MemoryHead} {fresh : Bool} {u : Unit}
    (hrun : writeHead head fresh db = .ok (u, db')) : db' = { db with heads := db'.heads } := by
  rcases Tx.ite_ok.mp hrun with ⟨-, hrun⟩ | ⟨-, hrun⟩
  · simp only [Tx.insert_ok, Option.map_eq_some_iff] at hrun
    obtain ⟨heads, -, rfl⟩ := hrun
    rfl
  · rw [← Tx.write_ok.mp hrun]

/-- `require_available` of two objects, then `cancel_pending` of both. -/
theorem Retains.pair {a b : ObjectId} {ra rb : ObjectRow} {db₁ db₂ : Memory} {u v : Unit}
    (ha : db.objects.find a = some ra) (hau : ra.usable = true)
    (hb : db.objects.find b = some rb) (hbu : rb.usable = true)
    (hcancel : cancelPending a db = .ok (u, db₁)) (hcancel' : cancelPending b db₁ = .ok (v, db₂)) :
    Retains db db₂ [a, b] := by
  have h₁ := Retains.cancel ha hau hcancel
  obtain ⟨rb', hb', hbu'⟩ := h₁.keeps hb hbu
  exact h₁.trans (.cancel hb' hbu' hcancel')

theorem applyMemoryRevision_ok {env : MemoryOutside} {next : NewRevision} {head : MemoryHead}
    (hrun : applyMemoryRevision env next db = .ok (head, db')) :
    ∃ db₁, Retains db db₁ [next.bodyHash, next.provenanceHash] ∧ db'.objects = db₁.objects ∧
      ∀ h, db'.referenced h = true →
        db.referenced h = true ∨ h ∈ [next.bodyHash, next.provenanceHash] := by
  simp only [applyMemoryRevision, expectedHead, Tx.bind_ok, Tx.require_ok, Tx.ask_ok, Tx.insert_ok,
    Tx.outside_ok, Tx.pure_ok, Option.map_eq_some_iff] at hrun
  obtain ⟨_, _, ⟨-, rfl⟩, _, _, ⟨-, rfl⟩, _, _, hreq, _, _, hreq', _, db₁, hcancel, _, db₂,
    hcancel', _, db₃, hrecord, current, _, ⟨_, _, ⟨-, rfl⟩, _, _, ⟨-, rfl⟩, rfl, rfl⟩, _, _,
    ⟨-, rfl⟩, _, _, ⟨revisions, hins, rfl⟩, _, db₄, hhead, _, _, ⟨-, rfl⟩, -, rfl⟩ := hrun
  obtain ⟨rfl, ra, ha, hau⟩ := requireAvailable_ok hreq
  obtain ⟨rfl, rb, hb, hbu⟩ := requireAvailable_ok hreq'
  have hr := Retains.pair ha hau hb hbu hcancel hcancel'
  have hrecord := admitRecord_ok hrecord
  have hhead := writeHead_ok hhead
  have hproposals : db₄.proposals = db.proposals := by rw [hhead, hrecord, hr.frame]
  have hcandidates : db₄.candidates = db.candidates := by rw [hhead, hrecord, hr.frame]
  have hrevisions : db₄.revisions = revisions := by rw [hhead]
  refine ⟨db₂, hr, by rw [hhead, hrecord], ?_⟩
  intro h href
  rcases referenced_iff.mp href with ⟨r, hmem, hr'⟩ | hp | hc
  · rw [hrevisions] at hmem
    rcases (Table.mem_insert? hins).mp hmem with hmem | rfl
    · rw [hrecord, hr.frame] at hmem
      exact .inl (referenced_iff.mpr (.inl ⟨r, hmem, hr'⟩))
    · right
      simpa [eq_comm] using hr'
  · rw [hproposals] at hp
    exact .inl (referenced_iff.mpr (.inr (.inl hp)))
  · rw [hcandidates] at hc
    exact .inl (referenced_iff.mpr (.inr (.inr hc)))

/-- A new proposal refers to the objects that it names. -/
theorem Retains.insertProposal {db₁ : Memory} {hs : List ObjectId} {row : Proposal}
    {proposals : Table Proposal Proposal.id} (hr : Retains db db₁ hs)
    (hins : db₁.proposals.insert? row = some proposals)
    (hnames : row.validated = true → ∀ raw ∈ row.changes.flatMap (·.objects), ∀ h,
      names raw h = true → h ∈ hs) (h : ObjectId)
    (href : ({ db₁ with proposals := proposals } : Memory).referenced h = true) :
    db.referenced h = true ∨ h ∈ hs := by
  have hrevisions : db₁.revisions = db.revisions := by rw [hr.frame]
  have hcandidates : db₁.candidates = db.candidates := by rw [hr.frame]
  have hproposals : db₁.proposals = db.proposals := by rw [hr.frame]
  rcases referenced_iff.mp href with hrev | ⟨p, hmem, hv, raw, hraw, hn⟩ | hc
  · exact .inl (referenced_iff.mpr (.inl (hrevisions ▸ hrev)))
  · rcases (Table.mem_insert? hins).mp hmem with hmem | rfl
    · exact .inl (referenced_iff.mpr (.inr (.inl ⟨p, hproposals ▸ hmem, hv, raw, hraw, hn⟩)))
    · exact .inr (hnames hv raw hraw h hn)
  · exact .inl (referenced_iff.mpr (.inr (.inr (hcandidates ▸ hc))))

theorem insertProposal_ok {env : MemoryOutside} {p : NewProposal} {reused : Bool}
    (hrun : insertProposal env p db = .ok (reused, db')) :
    db' = db ∨ ∃ db₁ hs, (∀ h ∈ hs, h ∈ Act.mentions (.insertProposal env p)) ∧
      Retains db db₁ hs ∧ db'.objects = db₁.objects ∧
      ∀ h, db'.referenced h = true → db.referenced h = true ∨ h ∈ hs := by
  simp only [insertProposal, Tx.require_bind, Tx.ask_bind] at hrun
  obtain ⟨-, hrun⟩ := hrun
  cases hfind : db.proposals.find p.id with
  | some old =>
    simp only [hfind, Tx.require_bind, Tx.pure_ok] at hrun
    exact .inl hrun.2.2.symm
  | none =>
    right
    simp only [hfind] at hrun
    rcases Tx.ite_ok.mp hrun with ⟨hvalidated, hrun⟩ | ⟨hrejected, hrun⟩
    · simp only [Tx.find_bind, Tx.require_bind] at hrun
      obtain ⟨changes, hchanges, -, hrun⟩ := hrun
      obtain ⟨_, db₁, hloop, hrun⟩ := Tx.bind_ok.mp hrun
      simp only [Tx.insert_bind, Tx.pure_ok, Option.map_eq_some_iff] at hrun
      obtain ⟨_, ⟨proposals, hins, rfl⟩, -, rfl⟩ := hrun
      have hr := Retains.forEach hloop
      refine ⟨db₁, _, ?_, hr, rfl, hr.insertProposal hins ?_⟩
      · intro h hh
        simp only [Act.mentions, hvalidated, if_true, hchanges, Option.getD_some]
        exact hh
      · intro _ raw hraw h hn
        simp only [hchanges, Option.getD_some] at hraw
        exact List.mem_filterMap.mpr ⟨raw, hraw, by rw [parse_of_names hn]; rfl⟩
    · simp only [Tx.insert_bind, Tx.pure_ok, Option.map_eq_some_iff] at hrun
      obtain ⟨_, ⟨proposals, hins, rfl⟩, -, rfl⟩ := hrun
      have hr := Retains.refl db
      refine ⟨db, [], by simp, hr, rfl, hr.insertProposal hins ?_⟩
      exact fun hvalidated => absurd hvalidated hrejected

theorem stageMemoryImport_ok {c : ImportCandidate} {u : Unit}
    (hrun : stageMemoryImport c db = .ok (u, db')) :
    db' = db ∨ ∃ db₁, Retains db db₁ [c.bodyHash, c.provenanceHash] ∧ db'.objects = db₁.objects ∧
      ∀ h, db'.referenced h = true → db.referenced h = true ∨ h ∈ [c.bodyHash, c.provenanceHash] := by
  simp only [stageMemoryImport, Tx.require_bind, Tx.ask_bind] at hrun
  obtain ⟨-, -, hrun⟩ := hrun
  cases hfind : db.candidates.find c.id with
  | some old =>
    simp only [hfind, Tx.require_ok] at hrun
    exact .inl hrun.2.symm
  | none =>
    right
    simp only [hfind, Tx.bind_ok, Tx.insert_ok, Option.map_eq_some_iff] at hrun
    obtain ⟨_, _, hreq, _, db₁, hcancel, _, _, hreq', _, db₂, hcancel', candidates, hins, rfl⟩ := hrun
    obtain ⟨rfl, ra, ha, hau⟩ := requireAvailable_ok hreq
    obtain ⟨rfl, rb, hb, hbu⟩ := requireAvailable_ok hreq'
    have hr : Retains db db₂ [c.bodyHash, c.provenanceHash] :=
      (Retains.cancel ha hau hcancel).trans (.cancel hb hbu hcancel')
    refine ⟨db₂, hr, rfl, ?_⟩
    intro h href
    rcases referenced_iff.mp href with hrev | hp | ⟨k, hmem, hk⟩
    · rw [show ({ db₂ with candidates := candidates } : Memory).revisions = db.revisions by
        rw [hr.frame]] at hrev
      exact .inl (referenced_iff.mpr (.inl hrev))
    · rw [show ({ db₂ with candidates := candidates } : Memory).proposals = db.proposals by
        rw [hr.frame]] at hp
      exact .inl (referenced_iff.mpr (.inr (.inl hp)))
    · rcases (Table.mem_insert? hins).mp hmem with hmem | rfl
      · rw [hr.frame] at hmem
        exact .inl (referenced_iff.mpr (.inr (.inr ⟨k, hmem, hk⟩)))
      · right
        simpa [eq_comm] using hk

/-- **Every step is one of the listed moves.** -/
theorem exec_move (a : Act) (w : World) : Move a.mentions w (exec a w).1 (exec a w).2 := by
  cases a with
  | publish hash size =>
    simp only [exec, World.publish]
    split
    · exact .publish hash size
    · exact .same
  | upsertObject => exact upsertObject_move
  | claimGc limit => exact claimGc_move
  | beginGcDelete => exact beginGcDelete_move
  | unlink =>
    simp only [exec, World.unlink]
    split
    · next hlock => exact .unlink hlock
    · exact .same
  | finishGcPurge => exact finishGcPurge_move
  | release => exact .release
  | pinObject hash => exact pin_move (by simp [Act.mentions])
  | insertMemoryRevision env next =>
    simp only [exec]
    obtain ⟨head, db, hrun, heq⟩ | heq := transact_eq w (applyMemoryRevision env next) .none
    · rw [heq]
      obtain ⟨db₁, hr, hobjects, hrefs⟩ := applyMemoryRevision_ok hrun
      exact .refer (fun _ hh => hh) hr hobjects hrefs
    · rw [heq]
      exact .same
  | insertProposal env p =>
    simp only [exec]
    obtain ⟨reused, db, hrun, heq⟩ | heq := transact_eq w (Objects.insertProposal env p) .none
    · rw [heq]
      obtain rfl | ⟨db₁, hs, hm, hr, hobjects, hrefs⟩ := insertProposal_ok hrun
      · exact .same
      · exact .refer hm hr hobjects hrefs
    · rw [heq]
      exact .same
  | stageMemoryImport c =>
    simp only [exec]
    obtain ⟨u, db, hrun, heq⟩ | heq := transact_eq w (Objects.stageMemoryImport c) .none
    · rw [heq]
      obtain rfl | ⟨db₁, hr, hobjects, hrefs⟩ := stageMemoryImport_ok hrun
      · exact .same
      · exact .refer (fun _ hh => hh) hr hobjects hrefs
    · rw [heq]
      exact .same

/-! ## Tokens -/

/-- What a step does to the tokens that may still delete: a claim hands them out, an upload and a
pin take that of their object away. -/
def Effect.advance (live : ObjectId → Option Nat) (e : Effect) (h : ObjectId) : Option Nat :=
  match e with
  | .claimed claims => ((claims.find? (·.1 = h)).map (·.2)).or (live h)
  | .uploaded k | .pinned k => if k = h then Option.none else live h
  | .none | .deleting .. | .purged .. => live h

/-- The token of the latest claim of each object, unless an upload or a pin came after it. -/
def liveTokens (log : List Effect) : ObjectId → Option Nat :=
  log.foldl Effect.advance fun _ => none

/-- A deletion or a purge takes effect only for the live token of its object. -/
def TokenGuard (pre : List (Act × Effect)) (entry : Act × Effect) : Prop :=
  ∀ h token, entry.2 = .deleting h token ∨ entry.2 = .purged h token →
    liveTokens (pre.map Prod.snd) h = some token

/-- The rows that are claimed carry the live token of their object. -/
def Tokens (objects : Table ObjectRow ObjectRow.hash) (live : ObjectId → Option Nat) : Prop :=
  ∀ h r, objects.find h = some r → r.collection ≠ .unclaimed → live h = some r.fencingToken

variable {objects objects' : Table ObjectRow ObjectRow.hash} {live live' : ObjectId → Option Nat}

theorem find_update_cases {new r : ObjectRow} (hfind : (objects.update new).find h = some r) :
    (new.hash = h ∧ r = new) ∨ (new.hash ≠ h ∧ objects.find h = some r) := by
  rw [Table.find_update] at hfind
  split at hfind
  · next he =>
    obtain ⟨_, -, rfl⟩ := Option.map_eq_some_iff.mp hfind
    exact .inl ⟨he, rfl⟩
  · next he => exact .inr ⟨he, hfind⟩

theorem Tokens.update (ht : Tokens objects live) {new : ObjectRow}
    (hnew : new.collection ≠ .unclaimed → live' new.hash = some new.fencingToken)
    (hlive : ∀ h, h ≠ new.hash → live' h = live h) : Tokens (objects.update new) live' := by
  intro h r hfind hcollection
  obtain ⟨rfl, rfl⟩ | ⟨hne, hfind⟩ := find_update_cases hfind
  · exact hnew hcollection
  · rw [hlive h (Ne.symm hne)]
    exact ht h r hfind hcollection

/-- The rows after the claims of a list: each claimed row carries its fresh token. -/
theorem claims_rows {rows : List ObjectRow} {u : Unit}
    (hloop : Tx.forEach (fun row => setObject row.claim) rows db = .ok (u, db')) {r : ObjectRow}
    (hfind : db'.objects.find h = some r) :
    (∃ row ∈ rows, row.hash = h ∧ r = row.claim) ∨
      (h ∉ rows.map (·.hash) ∧ db.objects.find h = some r) := by
  induction rows generalizing db with
  | nil =>
    obtain ⟨-, rfl⟩ := Tx.pure_ok.mp hloop
    exact .inr ⟨by simp, hfind⟩
  | cons row rows ih =>
    obtain ⟨_, db₁, hset, hrest⟩ := Tx.bind_ok.mp hloop
    obtain rfl := setObject_ok.mp hset
    obtain ⟨row', hmem, hh, hr⟩ | ⟨hnot, hfind⟩ := ih hrest
    · exact .inl ⟨row', List.mem_cons_of_mem _ hmem, hh, hr⟩
    · obtain ⟨he, rfl⟩ | ⟨hne, hfind⟩ := find_update_cases hfind
      · exact .inl ⟨row, List.mem_cons_self, he, rfl⟩
      · refine .inr ⟨?_, hfind⟩
        rw [List.map_cons, List.mem_cons, not_or]
        exact ⟨fun he => hne he.symm, hnot⟩

theorem unreferenced_mem {row : ObjectRow} (hmem : row ∈ db.unreferenced) :
    row ∈ db.objects.rows ∧ row.pinCount = 0 ∧ row.availability = .available ∧
      db.referenced row.hash = false := by
  unfold Memory.unreferenced at hmem
  rw [(List.perm_insertionSort _ _).mem_iff] at hmem
  simpa [and_assoc] using hmem

theorem unreferenced_nodup (limit : Nat) :
    ((db.unreferenced.take limit).map (·.hash)).Nodup := by
  refine ((List.take_sublist _ _).map _).nodup ?_
  unfold Memory.unreferenced
  rw [((List.perm_insertionSort _ _).map _).nodup_iff]
  exact (List.filter_sublist.map _).nodup db.objects.nodup

/-- The token that a claim hands out for one of its objects. -/
theorem advance_claimed {rows : List ObjectRow} (hnodup : (rows.map (·.hash)).Nodup)
    {row : ObjectRow} (hmem : row ∈ rows) :
    (Effect.claimed (rows.map fun row => (row.hash, row.fencingToken + 1))).advance live row.hash =
      some (row.fencingToken + 1) := by
  have hfind : (rows.map fun row => (row.hash, row.fencingToken + 1)).find?
      (fun c => c.1 = row.hash) = some (row.hash, row.fencingToken + 1) := by
    induction rows with
    | nil => cases hmem
    | cons head rows ih =>
      obtain ⟨hhead, hrest⟩ := List.nodup_cons.mp hnodup
      rcases List.mem_cons.mp hmem with rfl | hmem
      · simp
      · have hne : head.hash ≠ row.hash := by
          intro he
          have hin : row.hash ∈ rows.map (·.hash) := List.mem_map_of_mem hmem
          rw [← he] at hin
          exact hhead hin
        rw [List.map_cons, List.find?_cons_of_neg (by simpa using hne)]
        exact ih hrest hmem
  simp [Effect.advance, hfind]

theorem advance_unclaimed {rows : List ObjectRow} (hnot : h ∉ rows.map (·.hash)) :
    (Effect.claimed (rows.map fun row => (row.hash, row.fencingToken + 1))).advance live h =
      live h := by
  have hfind : (rows.map fun row => (row.hash, row.fencingToken + 1)).find?
      (fun c => c.1 = h) = none := by
    rw [List.find?_eq_none]
    intro c hc
    obtain ⟨row, hrow, rfl⟩ := List.mem_map.mp hc
    simp only [decide_eq_true_eq]
    exact fun he => hnot (he ▸ List.mem_map_of_mem hrow)
  simp [Effect.advance, hfind]

/-- Retention only takes claims away. -/
theorem Tokens.retains {hs : List ObjectId} (ht : Tokens db.objects live)
    (hr : Retains db db' hs) : Tokens db'.objects live := by
  intro h r hfind hcollection
  rw [hr.row, Option.map_eq_some_iff] at hfind
  obtain ⟨r₀, hfind, rfl⟩ := hfind
  split at hcollection
  · exact absurd rfl hcollection
  · next hnot =>
    rw [if_neg hnot]
    exact ht h r₀ hfind hcollection

/-- **One step keeps the tokens.** -/
theorem Tokens.step {e : Effect} (hmove : Move m w e w') (ht : Tokens w.db.objects live) :
    Tokens w'.db.objects (e.advance live) := by
  cases hmove with
  | same | release | publish | skip | unlink => exact ht
  | @upload _ _ row _ found =>
    have hhash := Table.find_key found
    refine ht.update (fun hne => absurd rfl hne) ?_
    intro h hne
    exact if_neg fun he => hne (he.symm.trans hhash.symm)
  | @create hash _ _ _ inserted =>
    intro h r hfind hcollection
    rw [Table.find_insert? inserted] at hfind
    split at hfind
    · cases hfind
      exact absurd rfl hcollection
    · next hne =>
      rw [show (Effect.uploaded hash).advance live h = live h from if_neg hne]
      exact ht h r hfind hcollection
  | claim limit loop =>
    intro h r hfind hcollection
    obtain ⟨row, hmem, rfl, rfl⟩ | ⟨hnot, hfind⟩ := claims_rows loop hfind
    · exact advance_claimed (unreferenced_nodup limit) hmem
    · rw [advance_unclaimed hnot]
      exact ht h r hfind hcollection
  | @delete _ _ _ row found _ pending =>
    refine ht.update (fun _ => ?_) fun _ _ => rfl
    change live row.hash = some row.fencingToken
    rw [Table.find_key found]
    exact ht _ row found (by simp [pending])
  | purge => exact ht.update (fun hne => absurd rfl hne) fun _ _ => rfl
  | @pin _ row _ found =>
    have hhash := Table.find_key found
    refine ht.update (fun hne => absurd rfl hne) ?_
    intro h hne
    exact if_neg fun he => hne (he.symm.trans hhash.symm)
  | refer _ retained objects =>
    rw [show ({ w with db := _ } : World).db.objects = _ from objects]
    exact ht.retains retained

theorem Tokens.guard {e : Effect} {pre : List (Act × Effect)} {a : Act} (hmove : Move m w e w')
    (ht : Tokens w.db.objects (liveTokens (pre.map Prod.snd))) : TokenGuard pre (a, e) := by
  intro h token he
  cases hmove with
  | delete found _ pending _ fence =>
    obtain he | he := he
    · cases he
      rw [ht _ _ found (by simp [pending]), fence]
    · cases he
  | purge found deleting fence =>
    obtain he | he := he
    · cases he
    · cases he
      rw [ht _ _ found (by simp [deleting]), fence]
  | _ => simp at he

/-! ## References and bytes -/

/-- What the rows and the files say of each other. -/
structure Kept (db : Memory) (files : List ObjectId) : Prop where
  /-- A referenced object is available and unclaimed. -/
  referenced : ∀ h, db.referenced h = true →
    ∃ r, db.objects.find h = some r ∧ r.availability = .available ∧ r.collection = .unclaimed
  pinned : ∀ h r, db.objects.find h = some r → 0 < r.pinCount →
    r.availability = .available ∧ r.collection = .unclaimed
  present : ∀ h r, db.objects.find h = some r → r.availability = .available →
    r.collection = .unclaimed → h ∈ files

/-- What the lock holder relies on: the bytes that it published are in place, and the object that
it unlinks stays marked. -/
def World.held (w : World) : Prop :=
  match w.lock with
  | some (.ingesting hash _) => hash ∈ w.files
  | some (.collecting ((hash, _) :: _) stage) =>
    stage ≠ .claimed → ∃ r, w.db.objects.find hash = some r ∧ r.collection = .gcDeleting
  | _ => True

/-- The system invariant. -/
structure Inv (w : World) : Prop where
  kept : Kept w.db w.files
  held : w.held

theorem Inv.empty : Inv .empty := by
  refine ⟨⟨?_, ?_, ?_⟩, trivial⟩
  · intro h href
    simp [World.empty, Memory.empty, Memory.referenced, Table.empty] at href
  · intro h r hfind
    cases hfind
  · intro h r hfind
    cases hfind

/-- References do not depend on the object rows. -/
theorem referenced_objects (db : Memory) (objects : Table ObjectRow ObjectRow.hash)
    (h : ObjectId) : ({ db with objects := objects } : Memory).referenced h = db.referenced h := rfl

variable {files : List ObjectId}

theorem Kept.update (hk : Kept db files) {new : ObjectRow}
    (href : db.referenced new.hash = true →
      new.availability = .available ∧ new.collection = .unclaimed)
    (hpin : 0 < new.pinCount → new.availability = .available ∧ new.collection = .unclaimed)
    (hpresent : new.availability = .available → new.collection = .unclaimed → new.hash ∈ files) :
    Kept { db with objects := db.objects.update new } files := by
  refine ⟨?_, ?_, ?_⟩
  · intro h hr
    rw [referenced_objects] at hr
    obtain ⟨r, hfind, hrow⟩ := hk.referenced h hr
    by_cases he : new.hash = h
    · subst he
      exact ⟨new, Table.find_update_self hfind, href hr⟩
    · exact ⟨r, (Table.find_update_ne he).trans hfind, hrow⟩
  · intro h r hfind hpos
    obtain ⟨rfl, rfl⟩ | ⟨-, hfind⟩ := find_update_cases hfind
    · exact hpin hpos
    · exact hk.pinned h r hfind hpos
  · intro h r hfind ha hu
    obtain ⟨rfl, rfl⟩ | ⟨-, hfind⟩ := find_update_cases hfind
    · exact hpresent ha hu
    · exact hk.present h r hfind ha hu

/-- A step that changes one row keeps what the lock holder relies on, unless the row is marked. -/
theorem World.held_update (hw : w.held) {old new : ObjectRow}
    (hold : w.db.objects.find new.hash = some old) (hne : old.collection ≠ .gcDeleting) :
    World.held { w with db := { w.db with objects := w.db.objects.update new } } := by
  unfold World.held at hw ⊢
  split
  · next heq =>
    rw [heq] at hw
    exact hw
  · next hash _ _ _ heq =>
    rw [heq] at hw
    intro hstage
    obtain ⟨r, hfind, hdeleting⟩ := hw hstage
    have hother : new.hash ≠ hash := by
      intro he
      rw [he, hfind] at hold
      cases hold
      exact hne hdeleting
    exact ⟨r, (Table.find_update_ne hother).trans hfind, hdeleting⟩
  · trivial

/-- The objects that a step mentions have their bytes unless they are unusable: none is claimed
with its bytes gone. -/
def FindsBytes (mentions : List ObjectId) (w : World) : Prop :=
  ∀ h ∈ mentions, ∀ r, w.db.objects.find h = some r → r.collection = .gcPending → h ∈ w.files

/-- A usable object that a writer refers to has its bytes. -/
theorem Inv.bytes (hinv : Inv w) (hbytes : FindsBytes m w) (hm : h ∈ m) {r : ObjectRow}
    (hfind : w.db.objects.find h = some r) (husable : r.usable = true) : h ∈ w.files := by
  obtain ⟨ha, hnd⟩ := ObjectRow.usable_iff.mp husable
  cases hc : r.collection with
  | unclaimed => exact hinv.kept.present h r hfind ha hc
  | gcPending => exact hbytes h hm r hfind hc
  | gcDeleting => exact absurd hc hnd

/-- A marked object is neither referenced nor pinned. -/
theorem Kept.unmarked (hk : Kept db files) {r : ObjectRow} (hfind : db.objects.find h = some r)
    (hcollection : r.collection ≠ .unclaimed) : db.referenced h = false ∧ r.pinCount = 0 := by
  constructor
  · rw [Bool.eq_false_iff]
    intro href
    obtain ⟨r', hfind', -, hu⟩ := hk.referenced h href
    rw [hfind] at hfind'
    cases hfind'
    exact hcollection hu
  · by_contra hpin
    exact hcollection (hk.pinned h r hfind (Nat.pos_of_ne_zero hpin)).2

theorem Kept.claims {rows : List ObjectRow} {u : Unit} (hk : Kept db files)
    (hrows : ∀ row ∈ rows, row.pinCount = 0 ∧ db.referenced row.hash = false)
    (hloop : Tx.forEach (fun row => setObject row.claim) rows db = .ok (u, db')) :
    Kept db' files := by
  induction rows generalizing db with
  | nil =>
    obtain ⟨-, rfl⟩ := Tx.pure_ok.mp hloop
    exact hk
  | cons row rows ih =>
    obtain ⟨_, db₁, hset, hrest⟩ := Tx.bind_ok.mp hloop
    obtain rfl := setObject_ok.mp hset
    obtain ⟨hpin, href⟩ := hrows row (by simp)
    refine ih (hk.update ?_ ?_ ?_) (fun r hr => hrows r (List.mem_cons_of_mem _ hr)) hrest
    · intro h
      rw [show db.referenced row.claim.hash = db.referenced row.hash from rfl, href] at h
      cases h
    · intro h
      rw [show row.claim.pinCount = row.pinCount from rfl, hpin] at h
      cases h
    · intro _ h
      cases h

theorem Kept.retains {hs : List ObjectId} {db₁ : Memory} (hk : Kept db files)
    (hr : Retains db db₁ hs) (hobjects : db'.objects = db₁.objects)
    (hrefs : ∀ h, db'.referenced h = true → db.referenced h = true ∨ h ∈ hs)
    (hbytes : ∀ h ∈ hs, h ∈ files) : Kept db' files := by
  -- the row of an object before the writer
  have hback : ∀ {h r}, db'.objects.find h = some r →
      ∃ r₀, db.objects.find h = some r₀ ∧ r = if h ∈ hs then r₀.unclaim else r₀ := by
    intro h r hfind
    rw [hobjects, hr.row, Option.map_eq_some_iff] at hfind
    obtain ⟨r₀, hfind, rfl⟩ := hfind
    exact ⟨r₀, hfind, rfl⟩
  refine ⟨?_, ?_, ?_⟩
  · intro h href
    by_cases hmem : h ∈ hs
    · obtain ⟨r, hfind, husable⟩ := hr.usable h hmem
      refine ⟨r.unclaim, ?_, (ObjectRow.usable_iff.mp husable).1, rfl⟩
      rw [hobjects, hr.row, hfind]
      simp [hmem]
    · obtain href | hin := hrefs h href
      · obtain ⟨r, hfind, hrow⟩ := hk.referenced h href
        refine ⟨r, ?_, hrow⟩
        rw [hobjects, hr.row, hfind]
        simp [hmem]
      · exact absurd hin hmem
  · intro h r hfind hpin
    obtain ⟨r₀, hfind₀, rfl⟩ := hback hfind
    by_cases hmem : h ∈ hs
    · rw [if_pos hmem] at hpin ⊢
      exact ⟨(hk.pinned h r₀ hfind₀ hpin).1, rfl⟩
    · rw [if_neg hmem] at hpin ⊢
      exact hk.pinned h r₀ hfind₀ hpin
  · intro h r hfind ha hu
    obtain ⟨r₀, hfind₀, rfl⟩ := hback hfind
    by_cases hmem : h ∈ hs
    · exact hbytes h hmem
    · rw [if_neg hmem] at ha hu
      exact hk.present h r₀ hfind₀ ha hu

theorem World.held_retains {hs : List ObjectId} {db₁ : Memory} (hw : w.held)
    (hr : Retains w.db db₁ hs) (hobjects : db'.objects = db₁.objects) :
    World.held { w with db := db' } := by
  unfold World.held at hw ⊢
  split
  · next heq =>
    rw [heq] at hw
    exact hw
  · next hash _ _ _ heq =>
    rw [heq] at hw
    intro hstage
    obtain ⟨r, hfind, hdeleting⟩ := hw hstage
    have hnot : hash ∉ hs := by
      intro hmem
      obtain ⟨r', hfind', husable⟩ := hr.usable hash hmem
      rw [hfind] at hfind'
      cases hfind'
      exact (ObjectRow.usable_iff.mp husable).2 hdeleting
    refine ⟨r, ?_, hdeleting⟩
    change db'.objects.find hash = some r
    rw [hobjects, hr.row, hfind]
    simp [hnot]
  · trivial

/-- **One step keeps the invariant**, if it mentions no claimed object whose bytes are gone. -/
theorem Inv.step {e : Effect} (hinv : Inv w) (hmove : Move m w e w') (hbytes : FindsBytes m w) :
    Inv w' := by
  obtain ⟨hk, hheld⟩ := hinv
  cases hmove with
  | same => exact ⟨hk, hheld⟩
  | release => exact ⟨hk, trivial⟩
  | publish hash size =>
    exact ⟨⟨hk.referenced, hk.pinned, fun h r hf ha hu =>
      List.mem_cons_of_mem _ (hk.present h r hf ha hu)⟩, List.mem_cons_self⟩
  | @upload hash size row lock found =>
    have hin : hash ∈ w.files := by
      unfold World.held at hheld
      rw [lock] at hheld
      exact hheld
    refine ⟨hk.update (fun _ => ⟨rfl, rfl⟩) (fun _ => ⟨rfl, rfl⟩) fun _ _ => ?_, trivial⟩
    rw [← Table.find_key found] at hin
    exact hin
  | @create hash size objects lock inserted =>
    have hin : hash ∈ w.files := by
      unfold World.held at hheld
      rw [lock] at hheld
      exact hheld
    refine ⟨⟨?_, ?_, ?_⟩, trivial⟩
    · intro h href
      obtain ⟨r, hfind, hrow⟩ := hk.referenced h href
      exact ⟨r, Table.find_insert?_of_some inserted hfind, hrow⟩
    · intro h r hfind hpin
      rw [Table.find_insert? inserted] at hfind
      split at hfind
      · cases hfind
        exact ⟨rfl, rfl⟩
      · exact hk.pinned h r hfind hpin
    · intro h r hfind ha hu
      rw [Table.find_insert? inserted] at hfind
      split at hfind
      · next he => exact he ▸ hin
      · exact hk.present h r hfind ha hu
  | claim limit loop =>
    refine ⟨hk.claims ?_ loop, ?_⟩
    · intro row hrow
      obtain ⟨-, hpin, -, href⟩ := unreferenced_mem (List.mem_of_mem_take hrow)
      exact ⟨hpin, href⟩
    · unfold World.held
      split <;> simp_all
  | @delete hash token rest row found unreferenced pending unpinned fence =>
    have hhash := Table.find_key found
    have hself : (w.db.objects.update row.delete).find hash = some row.delete := by
      rw [← hhash] at found ⊢
      exact Table.find_update_self (a := row.delete) found
    refine ⟨hk.update ?_ ?_ ?_, fun _ => ⟨row.delete, hself, rfl⟩⟩
    · intro href
      rw [show row.delete.hash = hash from hhash, unreferenced] at href
      cases href
    · intro hpin
      rw [show row.delete.pinCount = row.pinCount from rfl, unpinned] at hpin
      cases hpin
    · intro _ h
      cases h
  | skip =>
    refine ⟨hk, ?_⟩
    unfold World.held
    split <;> simp_all
  | @unlink hash token rest lock =>
    unfold World.held at hheld
    rw [lock] at hheld
    have hmarked := hheld (by simp)
    obtain ⟨r, hfind, hdeleting⟩ := hmarked
    refine ⟨⟨hk.referenced, hk.pinned, ?_⟩, fun _ => ⟨r, hfind, hdeleting⟩⟩
    intro h r' hfind' ha hu
    have hne : h ≠ hash := by
      rintro rfl
      rw [hfind] at hfind'
      cases hfind'
      rw [hdeleting] at hu
      cases hu
    exact List.mem_filter.mpr ⟨hk.present h r' hfind' ha hu, by simpa using hne⟩
  | @purge hash token rest row found deleting fence =>
    obtain ⟨href, hpin⟩ := hk.unmarked found (by simp [deleting])
    have hhash := Table.find_key found
    refine ⟨hk.update ?_ ?_ ?_, ?_⟩
    · intro h
      rw [show row.purge.hash = hash from hhash, href] at h
      cases h
    · intro h
      rw [show row.purge.pinCount = row.pinCount from rfl, hpin] at h
      cases h
    · intro h
      cases h
    · unfold World.held
      split <;> simp_all
  | @pin hash row mentioned found usable =>
    have hhash := Table.find_key found
    have hin : hash ∈ w.files := Inv.bytes ⟨hk, hheld⟩ hbytes mentioned found usable
    obtain ⟨ha, hnd⟩ := ObjectRow.usable_iff.mp usable
    refine ⟨hk.update (fun _ => ⟨ha, rfl⟩) (fun _ => ⟨ha, rfl⟩) fun _ _ => ?_, ?_⟩
    · rw [← hhash] at hin
      exact hin
    · rw [← hhash] at found
      have hrow : w.db.objects.find row.pin.hash = some row := found
      exact World.held_update hheld hrow hnd
  | @refer hs db₁ db' mentioned retained objects references =>
    refine ⟨hk.retains retained objects references ?_, World.held_retains hheld retained objects⟩
    intro h hmem
    obtain ⟨r, hfind, husable⟩ := retained.usable h hmem
    exact Inv.bytes ⟨hk, hheld⟩ hbytes (mentioned h hmem) hfind husable

/-! ## Runs -/

/-- Every referenced or pinned object is recorded available, is not being deleted, and has its
bytes. -/
def Safe (w : World) : Prop :=
  ∀ h, (w.db.referenced h = true ∨ ∃ r, w.db.objects.find h = some r ∧ 0 < r.pinCount) →
    ∃ r, w.db.objects.find h = some r ∧ r.availability = .available ∧
      r.collection ≠ .gcDeleting ∧ h ∈ w.files

theorem Inv.safe (hinv : Inv w) : Safe w := by
  intro h hneeded
  have hrow : ∃ r, w.db.objects.find h = some r ∧ r.availability = .available ∧
      r.collection = .unclaimed := by
    rcases hneeded with href | ⟨r, hfind, hpin⟩
    · exact hinv.kept.referenced h href
    · exact ⟨r, hfind, hinv.kept.pinned h r hfind hpin⟩
  obtain ⟨r, hfind, ha, hu⟩ := hrow
  exact ⟨r, hfind, ha, by simp [hu], hinv.kept.present h r hfind ha hu⟩

/-- No step of the run refers to or pins an object that is claimed and whose bytes are gone. -/
def FindsAllBytes (w : World) : List Act → Prop
  | [] => True
  | a :: acts => FindsBytes a.mentions w ∧ FindsAllBytes (exec a w).2 acts

abbrev ObjectRun := Run World Act Effect

/-- The run from an empty store. -/
def runActs (acts : List Act) : ObjectRun := (Run.start .empty).calls exec acts

theorem FindsAllBytes.inv {acts : List Act} {run : ObjectRun} (hinv : Inv run.state)
    (hfinds : FindsAllBytes run.state acts) : Inv (run.calls exec acts).state := by
  induction acts generalizing run with
  | nil => exact hinv
  | cons a acts ih =>
    obtain ⟨hone, hrest⟩ := hfinds
    have hnext : Inv (run.call exec a).state := hinv.step (exec_move a run.state) hone
    exact ih hnext hrest

theorem FindsAllBytes.of_append {acts more : List Act}
    (hfinds : FindsAllBytes w (acts ++ more)) : FindsAllBytes w acts := by
  induction acts generalizing w with
  | nil => trivial
  | cons a acts ih => exact ⟨hfinds.1, ih hfinds.2⟩

/-- Over any run, claimed rows carry live tokens and only those delete. -/
theorem tokens_calls (acts : List Act) :
    Tokens (runActs acts).state.db.objects (liveTokens ((runActs acts).log.map Prod.snd)) ∧
      Log.Guarded TokenGuard (runActs acts).log := by
  refine Run.invariant (I := fun run : ObjectRun =>
    Tokens run.state.db.objects (liveTokens (run.log.map Prod.snd)) ∧
      Log.Guarded TokenGuard run.log) ⟨?_, .nil⟩ ?_
  · intro h r hfind
    cases hfind
  · rintro run a - ⟨ht, hguard⟩
    have hmove := exec_move a run.state
    refine ⟨?_, hguard.snoc (Tokens.guard hmove ht)⟩
    have hnext := Tokens.step hmove ht
    simpa [liveTokens] using hnext

/-- **Collection and references.** In every run, a deletion and a purge take effect only for the
token of the latest claim of the object, with no upload or pin since. In every run that refers to
no object that is claimed and whose bytes are gone, every referenced or pinned object is available,
not being deleted, and present, in every state. -/
theorem collection_keeps_references (acts : List Act) :
    Log.Guarded TokenGuard (runActs acts).log ∧
      (FindsAllBytes .empty acts → ∀ pre, pre <+: acts → Safe (runActs pre).state) := by
  refine ⟨(tokens_calls acts).2, ?_⟩
  rintro hfinds pre ⟨more, rfl⟩
  exact (FindsAllBytes.inv Inv.empty hfinds.of_append).safe

/-! ### An interrupted deletion -/

namespace Interrupted

def hash : ObjectId := ⟨"00000000000000000000000000000000000000000000000000000000000000aa",
  by decide⟩

/-- An object is published, collected by a collector that stops after it unlinked the bytes, and
claimed again by the next one. -/
def acts : List Act :=
  [.publish hash 3, .upsertObject, .claimGc 128, .beginGcDelete, .unlink, .release, .claimGc 128]

end Interrupted

/-- A pin before the second collector begins to delete finds the object available. -/
theorem pinned_after_unlink :
    ¬Safe (runActs (Interrupted.acts ++ [.pinObject Interrupted.hash])).state := by
  intro hsafe
  have hpinned : ∃ r, (runActs (Interrupted.acts ++ [.pinObject Interrupted.hash])).state.db.objects.find
      Interrupted.hash = some r ∧ 0 < r.pinCount := by
    refine ⟨⟨Interrupted.hash, 3, .available, .unclaimed, 1, 2⟩, by decide +kernel, by decide⟩
  obtain ⟨r, -, -, -, hfile⟩ := hsafe _ (.inr hpinned)
  revert hfile
  decide +kernel

/-- A pin between a claim and its deletion finds the bytes and keeps them. -/
def Interrupted.contested : List Act :=
  [.publish hash 3, .upsertObject, .claimGc 128, .pinObject hash, .beginGcDelete, .unlink]

theorem collection_keeps_references_contested : Safe (runActs Interrupted.contested).state := by
  refine (collection_keeps_references Interrupted.contested).2 ?_ _ (List.prefix_refl _)
  refine ⟨nofun, nofun, nofun, ?_, nofun, nofun, trivial⟩
  intro h hm r _ _
  rw [List.mem_singleton.mp hm]
  decide +kernel

end Herdr.Objects
