import Herdr.Runtime.CopyQueue

/-!
# Exclusive admission

The copy queue holds one ticket or several with disjoint declared resources, and what is held is
out of the reach of offers, of expiry and of eviction until its completion is drained.
-/

namespace Herdr.CopyQueue

open Executor (Identity Instant Request ensure)
open FairAdmission (Cursor Key)

variable {outstanding : Nat} {q q' : Queue}

/-! ## Candidates -/

theorem find_of_minBy {order : Entry → Entry → Ordering} {p : Entry → Bool} {key : Key}
    (h : (minBy order (q.entries.rows.filter p)).map (·.key) = some key) :
    ∃ e, q.entries.find key = some e ∧ p e = true := by
  obtain ⟨e, he, rfl⟩ := Option.map_eq_some_iff.mp h
  obtain ⟨hmem, hp⟩ := List.mem_filter.mp (minBy_mem he)
  exact ⟨e, Table.find_of_mem hmem, hp⟩

/-! ## The invariant -/

/-- What holds between the tickets and the inventory. -/
structure Sound (outstanding : Nat) (q : Queue) : Prop where
  apart : q.pending.isSome = true → q.pendingSets.rows = []
  declared : ∀ p ∈ q.pendingSets.rows, exclusiveRoot p.identity = false
  disjoint : q.pendingSets.rows.Pairwise fun p r => ∀ x ∈ p.resources, x ∉ r.resources
  bounded : q.pendingSets.rows.length ≤ declaredLimit outstanding
  idle : ∀ key, q.held key = true → ∃ e, q.entries.find key = some e ∧ e.work = none
  inventory : q.entries.rows.length ≤ limit

theorem sound_new : Sound outstanding .new := by
  constructor <;> simp [Queue.new, Queue.held, Table.empty, Table.find]

theorem held_iff {key : Key} : q.held key = true ↔ ∃ p ∈ q.tickets, p.key = key := by
  simp only [Queue.held, Bool.or_eq_true, Option.any_eq_true, decide_eq_true_eq,
    Option.isSome_iff_exists, Queue.tickets, List.mem_append, Option.mem_toList]
  constructor
  · rintro (⟨p, hp, hk⟩ | ⟨p, hp⟩)
    · exact ⟨p, .inl hp, hk⟩
    · exact ⟨p, .inr (Table.mem_of_find hp), Table.find_key hp⟩
  · rintro ⟨p, hp | hp, rfl⟩
    · exact .inl ⟨p, hp, rfl⟩
    · exact .inr ⟨p, Table.find_of_mem hp⟩

/-- No two tickets have the same key. -/
theorem Sound.tickets_nodup (h : Sound outstanding q) : (q.tickets.map Pending.key).Nodup := by
  unfold Queue.tickets
  cases hp : q.pending with
  | none => exact q.pendingSets.nodup
  | some p =>
    rw [h.apart (by rw [hp]; rfl)]
    exact List.nodup_singleton _

/-- An entry with work is not held. -/
theorem Sound.free (h : Sound outstanding q) {key : Key} {e : Entry}
    (hfind : q.entries.find key = some e) (hwork : e.work ≠ none) : q.held key = false := by
  rw [← Bool.not_eq_true]
  intro hheld
  obtain ⟨e', hfind', hidle⟩ := h.idle key hheld
  rw [hfind] at hfind'
  cases hfind'
  exact hwork hidle

/-- Entries may change that are not held. -/
theorem Sound.entries (h : Sound outstanding q) (hp : q'.pending = q.pending)
    (hsets : q'.pendingSets = q.pendingSets)
    (hfind : ∀ key, q.held key = true → ∀ e, e.work = none → q.entries.find key = some e →
      ∃ e', q'.entries.find key = some e' ∧ e'.work = none)
    (hlen : q'.entries.rows.length ≤ limit) : Sound outstanding q' := by
  have hheld : ∀ key, q'.held key = q.held key := fun key => by simp only [Queue.held, hp, hsets]
  refine ⟨?_, ?_, ?_, ?_, ?_, hlen⟩
  · rw [hp, hsets]
    exact h.apart
  · rw [hsets]
    exact h.declared
  · rw [hsets]
    exact h.disjoint
  · rw [hsets]
    exact h.bounded
  · intro key hk
    rw [hheld] at hk
    obtain ⟨e, he, hidle⟩ := h.idle key hk
    exact hfind key hk e hidle he

/-! ## What offers and expiry leave alone -/

/-- Neither the tickets nor what they hold in the inventory changed. -/
structure Leaves (q q' : Queue) : Prop where
  pending : q'.pending = q.pending
  pendingSets : q'.pendingSets = q.pendingSets
  kept : ∀ key, q.held key = true → ∀ e, e.work = none → q.entries.find key = some e →
    q'.entries.find key = some e

namespace Leaves

theorem refl (q : Queue) : Leaves q q := ⟨rfl, rfl, fun _ _ _ _ => id⟩

theorem held (h : Leaves q q') (key : Key) : q'.held key = q.held key := by
  simp only [Queue.held, h.pending, h.pendingSets]

theorem trans {q'' : Queue} (h : Leaves q q') (h' : Leaves q' q'') : Leaves q q'' := by
  refine ⟨h'.pending.trans h.pending, h'.pendingSets.trans h.pendingSets, ?_⟩
  intro key hk e hidle he
  exact h'.kept key ((h.held key).trans hk) e hidle (h.kept key hk e hidle he)

theorem sound (h : Leaves q q') (hs : Sound outstanding q) (hlen : q'.entries.rows.length ≤ limit) :
    Sound outstanding q' :=
  hs.entries h.pending h.pendingSets
    (fun key hk e hidle he => ⟨e, h.kept key hk e hidle he, hidle⟩) hlen

/-- An entry that is not held is replaced. -/
theorem setEntry {e : Entry} (he : q.held e.key = false) : Leaves q (q.setEntry e) := by
  refine ⟨rfl, rfl, fun key hk e' _ hfind => ?_⟩
  have hne : e.key ≠ key := by
    rintro rfl
    rw [he] at hk
    cases hk
  exact (Table.find_upsert_ne hne).trans hfind

theorem retain {p : Entry → Bool} (hp : ∀ e, q.held e.key = true → p e = true) :
    Leaves q { q with entries := q.entries.retain p } := by
  refine ⟨rfl, rfl, fun key hk e _ hfind => ?_⟩
  have hkey : q.held e.key = true := by rwa [Table.find_key hfind]
  change (q.entries.retain p).find key = some e
  rw [Table.find_retain, hfind, Option.filter_some, if_pos (hp e hkey)]

theorem prune (q : Queue) (now : Instant) : Leaves q (q.prune now) := by
  refine ⟨rfl, rfl, fun key hk e hidle hfind => ?_⟩
  have hexpire : e.expire now = e := by simp [Entry.expire, hidle]
  have hkey : q.held e.key = true := by rwa [Table.find_key hfind]
  change ((q.entries.modify _ _).retain _).find key = some e
  rw [Table.find_retain, Table.find_modify, hfind, Option.map_some, hexpire, Option.filter_some,
    if_pos (by rw [hkey, Bool.true_or])]

theorem clear (q : Queue) (project id : String) : Leaves q (q.clear project id) := by
  unfold Queue.clear
  dsimp only
  split
  · exact .refl q
  · next hheld =>
    split
    · next e hfind =>
      refine .setEntry ?_
      change q.held e.key = false
      rw [Table.find_key hfind]
      exact Bool.eq_false_of_not_eq_true hheld
    · exact .refl q

theorem evict {key : Key} {now : Instant} (h : q.evict key now = .ok (some q')) : Leaves q q' := by
  unfold Queue.evict at h
  split at h
  · cases h
  · split at h
    · cases h
    · next victim hvictim =>
      split at h
      · cases h
      · cases h
        have hfree := (List.mem_filter.mp (maxBy_mem hvictim)).2
        refine .retain fun e he => decide_eq_true ?_
        intro hkey
        rw [hkey] at he
        simp [he] at hfree

theorem refresh {work : Request} {resources : List Resource} {now : Instant}
    (h : q.held work.identity.key = false) : Leaves q (q.refresh work resources now) := by
  refine .setEntry ?_
  change q.held ((q.entries.find work.identity.key).getD _).key = false
  cases hfind : q.entries.find work.identity.key with
  | none => exact h
  | some e =>
    rw [Option.getD_some, Table.find_key hfind]
    exact h

end Leaves

/-! ## The inventory -/

theorem prune_length (now : Instant) : (q.prune now).entries.rows.length ≤ q.entries.rows.length := by
  unfold Queue.prune
  rw [Table.rows_retain, Table.rows_modify]
  exact (List.length_filter_le _ _).trans (List.length_map ..).le

theorem setEntry_length {e d : Entry} {key : Key} (hfind : q.entries.find key = some d)
    (hkey : e.key = key) : (q.setEntry e).entries.rows.length = q.entries.rows.length := by
  subst hkey
  exact Table.length_upsert_of_some hfind

theorem clear_length (project id : String) :
    (q.clear project id).entries.rows.length ≤ q.entries.rows.length := by
  unfold Queue.clear
  dsimp only
  split
  · exact le_rfl
  · split
    · next e hfind =>
      have hkey : e.key = _ := Table.find_key hfind
      refine (setEntry_length hfind ?_).le
      exact hkey
    · exact le_rfl

theorem evict_length {key : Key} {now : Instant} (h : q.evict key now = .ok (some q')) :
    q'.entries.rows.length < q.entries.rows.length := by
  unfold Queue.evict at h
  split at h
  · cases h
  · split at h
    · cases h
    · next victim hvictim =>
      split at h
      · cases h
      · cases h
        have hmem := (List.mem_filter.mp (maxBy_mem hvictim)).1
        exact List.length_filter_lt_length_iff_exists.mpr ⟨victim, hmem, by simp⟩

theorem refresh_length (q : Queue) (work : Request) (resources : List Resource) (now : Instant) :
    (q.refresh work resources now).entries.rows.length ≤ q.entries.rows.length + 1 ∧
      ((q.entries.find work.identity.key).isSome = true →
        (q.refresh work resources now).entries.rows.length = q.entries.rows.length) := by
  cases hfind : q.entries.find work.identity.key with
  | none =>
    refine ⟨?_, nofun⟩
    unfold Queue.refresh Queue.setEntry
    dsimp only
    rw [hfind, Option.getD_none, Table.rows_upsert_of_none hfind, List.length_append]
    exact le_rfl
  | some e =>
    have hlen : (q.refresh work resources now).entries.rows.length = q.entries.rows.length := by
      unfold Queue.refresh
      dsimp only
      rw [hfind, Option.getD_some]
      have hkey : e.key = work.identity.key := Table.find_key hfind
      exact setEntry_length hfind hkey
    exact ⟨hlen ▸ Nat.le_succ _, fun _ => hlen⟩

/-- **Offers** leave the tickets alone, and the inventory stays within its bound. -/
theorem offer_leaves (h : q.entries.rows.length ≤ limit) (work : Request)
    (resources : List Resource) (times : OfferTimes) :
    Leaves q (q.offerScoped work resources times).2 ∧
      (q.offerScoped work resources times).2.entries.rows.length ≤ limit := by
  have hprune := Leaves.prune q times.prune
  have hlen : (q.prune times.prune).entries.rows.length ≤ limit := (prune_length _).trans h
  unfold Queue.offerScoped
  dsimp only
  split
  · exact ⟨.refl q, h⟩
  · split
    · exact ⟨hprune, hlen⟩
    · next hheld =>
      have hfree : (q.prune times.prune).held work.identity.key = false :=
        Bool.eq_false_of_not_eq_true hheld
      split
      · split
        · exact ⟨hprune, hlen⟩
        · exact ⟨hprune, hlen⟩
        · next q' hevict =>
          have hleaves := Leaves.evict hevict
          have hlt := evict_length hevict
          have hrefresh := (refresh_length q' work resources times.entry).1
          refine ⟨(hprune.trans hleaves).trans (.refresh ((hleaves.held _).trans hfree)), ?_⟩
          exact hrefresh.trans (Nat.le_trans hlt hlen)
      · next hroom =>
        refine ⟨hprune.trans (.refresh hfree), ?_⟩
        obtain ⟨hle, heq⟩ := refresh_length (q.prune times.prune) work resources times.entry
        cases hfind : (q.prune times.prune).entries.find work.identity.key with
        | none =>
          simp only [hfind, Option.isNone_none, true_and, not_le] at hroom
          exact hle.trans hroom
        | some e => exact (heq (by rw [hfind]; rfl)).trans_le hlen

/-- An offer of attempt tokens displaces no other offer: other keys only expire. -/
theorem offer_attempt {work : Request} {resources : List Resource} {times : OfferTimes} {key : Key}
    (hwork : attemptToken work.identity.key = true) (hkey : attemptToken key = false) :
    (q.offerScoped work resources times).2.entries.find key = q.entries.find key ∨
      (q.offerScoped work resources times).2.entries.find key =
        (q.prune times.prune).entries.find key := by
  have hrefresh : ((q.prune times.prune).refresh work resources times.entry).entries.find key =
      (q.prune times.prune).entries.find key := by
    have hne : work.identity.key ≠ key := by
      rintro rfl
      rw [hwork] at hkey
      cases hkey
    refine Table.find_upsert_ne ?_
    change ((_ : Option Entry).getD _).key ≠ key
    cases hfind : (q.prune times.prune).entries.find work.identity.key with
    | none => exact hne
    | some e =>
      rw [Option.getD_some, Table.find_key hfind]
      exact hne
  unfold Queue.offerScoped
  dsimp only
  split
  · exact .inl rfl
  · split
    · exact .inr rfl
    · split
      · rw [Queue.evict, if_pos hwork]
        exact .inr rfl
      · exact .inr hrefresh

/-! ## Admission -/

/-- What one admission can do. -/
inductive Admits (q : Queue) (key : Key) (declared : Bool) : Admission → Prop
  /-- The lane is full, or there is nothing to submit. -/
  | stops (errors : List String) : Admits q key declared ⟨false, q, errors⟩
  | accepts (e : Entry) (work : Request) (ticket : Nat) (hfind : q.entries.find key = some e)
    (hwork : e.work = some work) : Admits q key declared ⟨true, { q with
      entries := q.entries.upsert { e with
        work := none
        last := q.sequence + 1 }
      pending := if declared then q.pending else some ⟨key, work.identity, ticket, e.resources⟩
      pendingSets := if declared then
          q.pendingSets.upsert ⟨key, work.identity, ticket, e.resources⟩
        else q.pendingSets
      sequence := q.sequence + 1
      cursor := q.cursor.accepted key }, []⟩
  | refuses (e e' : Entry) (work : Request) (errors : List String)
    (hfind : q.entries.find key = some e) (hwork : e.work = some work) (hkey : e'.key = key)
    (hidle : e'.work = none) : Admits q key declared ⟨true, q.setEntry e', errors⟩

/-- The entry is still there when the executor has answered. -/
theorem admitOne_ok (q : Queue) (key : Key) (a : Attempt) (declared : Bool) :
    ∃ r, q.admitOne key a declared = some r ∧ Admits q key declared r := by
  unfold Queue.admitOne
  split
  · exact ⟨_, rfl, .stops _⟩
  · split
    · exact ⟨_, rfl, .stops _⟩
    · next e hfind =>
      split
      · exact ⟨_, rfl, .stops _⟩
      · next work hwork =>
        split
        · next ticket _ =>
          have haccepts : Admits q key declared _ := .accepts e work ticket hfind hwork
          refine ⟨_, ?_, haccepts⟩
          rw [hfind]
          cases declared <;> rfl
        · exact ⟨_, rfl, .stops _⟩
        · next error _ =>
          let refused : Entry := { e with
            work := none
            notBefore := a.refusedAt + failureDelay work.identity }
          have hkey : e.key = key := Table.find_key hfind
          let message := key.1 ++ " " ++ key.2 ++ ": background admission: " ++ error
          refine ⟨_, ?_, .refuses e refused work [message] hfind hwork hkey rfl⟩
          rw [hfind]
          rfl

/-- Tickets stay, with their entries. -/
structure Grows (q q' : Queue) : Prop where
  tickets : ∀ p ∈ q.tickets, p ∈ q'.tickets
  kept : ∀ key, q.held key = true → ∀ e, e.work = none → q.entries.find key = some e →
    q'.entries.find key = some e

theorem Leaves.grows (h : Leaves q q') : Grows q q' := by
  refine ⟨fun p hp => ?_, h.kept⟩
  unfold Queue.tickets
  rw [h.pending, h.pendingSets]
  exact hp

theorem Grows.held (h : Grows q q') {key : Key} (hk : q.held key = true) : q'.held key = true := by
  obtain ⟨p, hp, hkey⟩ := held_iff.mp hk
  exact held_iff.mpr ⟨p, h.tickets p hp, hkey⟩

theorem Grows.trans {q'' : Queue} (h : Grows q q') (h' : Grows q' q'') : Grows q q'' := by
  refine ⟨fun p hp => h'.tickets p (h.tickets p hp), fun key hk e hidle he => ?_⟩
  exact h'.kept key (h.held hk) e hidle (h.kept key hk e hidle he)

theorem find_upsert_held {e e' : Entry} {key : Key} (h : Sound outstanding q)
    (hfind : q.entries.find key = some e) (hwork : e.work ≠ none) (hkey : e'.key = key) {k : Key}
    (hk : q.held k = true) : (q.entries.upsert e').find k = q.entries.find k := by
  refine Table.find_upsert_ne ?_
  rintro rfl
  rw [← hkey] at hfind
  rw [h.free hfind hwork] at hk
  cases hk

theorem upsert_idle {e e' : Entry} {key : Key} (h : Sound outstanding q)
    (hfind : q.entries.find key = some e) (hkey : e'.key = key) (hidle : e'.work = none) {k : Key}
    (hk : q.held k = true ∨ k = key) :
    ∃ e, (q.entries.upsert e').find k = some e ∧ e.work = none := by
  by_cases he : e'.key = k
  · subst he
    exact ⟨e', Table.find_upsert_self, hidle⟩
  · rw [Table.find_upsert_ne he]
    rcases hk with hk | rfl
    · exact h.idle k hk
    · exact absurd hkey he

/-- The head of the order becomes the single ticket. -/
theorem Sound.admitsSingle (h : Sound outstanding q) (hnone : q.pending = none)
    (hsets : q.pendingSets.rows = []) {key : Key} {r : Admission} (hr : Admits q key false r) :
    Sound outstanding r.queue ∧ Grows q r.queue := by
  cases hr with
  | stops errors => exact ⟨h, (Leaves.refl q).grows⟩
  | accepts e work ticket hfind hwork =>
    have hnoheld : ∀ k, ¬q.held k = true := by
      intro k hk
      obtain ⟨p, hp, -⟩ := held_iff.mp hk
      simp [Queue.tickets, hnone, hsets] at hp
    refine ⟨⟨fun _ => hsets, h.declared, h.disjoint, h.bounded, fun k hk => ?_, ?_⟩, ?_⟩
    · refine upsert_idle h hfind ?_ ?_ (.inr ?_)
      · have hkey : e.key = key := Table.find_key hfind
        exact hkey
      · rfl
      obtain ⟨p, hp, rfl⟩ := held_iff.mp hk
      simp only [Queue.tickets, hsets, Option.toList, Bool.false_eq_true, if_false,
        List.append_nil, List.mem_singleton] at hp
      rw [hp]
    · rw [Table.length_upsert_of_some (b := e) (by rwa [Table.find_key hfind])]
      exact h.inventory
    · refine ⟨fun p hp => ?_, fun k hk => absurd hk (hnoheld k)⟩
      exact absurd (held_iff.mpr ⟨p, hp, rfl⟩) (hnoheld p.key)
  | refuses e e' work errors hfind hwork hkey hidle =>
    have hleaves : Leaves q (q.setEntry e') := by
      refine .setEntry ?_
      rw [hkey]
      exact h.free hfind (by rw [hwork]; exact Option.some_ne_none _)
    refine ⟨hleaves.sound h ?_, hleaves.grows⟩
    rw [setEntry_length hfind hkey]
    exact h.inventory

theorem nextDeclared_ok {allowed : Identity → Bool} {now : Instant} {key : Key}
    (h : q.nextDeclared allowed now = some key) : ∃ e work, q.entries.find key = some e ∧
      e.work = some work ∧ exclusiveRoot work.identity = false ∧
      ∀ x ∈ e.resources, x ∉ q.heldResources := by
  obtain ⟨e, hfind, hp⟩ := find_of_minBy h
  simp only [Bool.and_eq_true, Option.any_eq_true, Bool.not_eq_true', List.all_eq_true] at hp
  obtain ⟨⟨⟨work, hwork, -, hexclusive⟩, -⟩, hfree⟩ := hp
  refine ⟨e, work, hfind, hwork, hexclusive, fun x hx hmem => ?_⟩
  have hnot := hfree x hx
  rw [List.contains_iff_mem.mpr hmem] at hnot
  cases hnot

/-- One offer less waits. -/
theorem offers_upsert {e e' : Entry} {key : Key} {s : Nat} {c : Cursor} {p : Option Pending}
    {sets : Table Pending Pending.key} (hfind : q.entries.find key = some e) (hwork : e.work ≠ none)
    (hkey : e'.key = key) (hidle : e'.work = none) :
    Queue.offers ⟨q.entries.upsert e', p, sets, s, c⟩ < q.offers := by
  have hrows : (q.entries.upsert e').rows.countP (fun r => r.work.isSome) =
      ((q.entries.rows.filter fun r => r.work.isSome).filter fun r => r.key ≠ key).length := by
    have hinsert : q.entries.insert? e' = none := by
      rw [Table.insert?, dif_neg]
      rw [hkey, hfind]
      exact Option.some_ne_none e
    rw [Table.upsert, hinsert, Option.getD_none, Table.rows_update, List.countP_map,
      List.filter_filter, ← List.countP_eq_length_filter]
    refine List.countP_congr fun r _ => ?_
    simp only [Function.comp_apply, hkey]
    split
    · next he => simp [hidle, he]
    · next he => simp [he]
  have hmem : e ∈ q.entries.rows.filter fun r => r.work.isSome := by
    refine List.mem_filter.mpr ⟨Table.mem_of_find hfind, ?_⟩
    exact Option.isSome_iff_ne_none.mpr hwork
  unfold Queue.offers
  rw [hrows, List.countP_eq_length_filter]
  refine List.length_filter_lt_length_iff_exists.mpr ⟨e, hmem, ?_⟩
  simp [Table.find_key hfind]

/-- A declared offer joins the tickets. -/
theorem Sound.admitsDeclared (h : Sound outstanding q) (hnone : q.pending = none)
    (hroom : q.pendingSets.rows.length < declaredLimit outstanding) {allowed : Identity → Bool}
    {now : Instant} {key : Key} (hnext : q.nextDeclared allowed now = some key) {r : Admission}
    (hr : Admits q key true r) : (Sound outstanding r.queue ∧ Grows q r.queue) ∧
      r.queue.pending = none ∧ (r.more = true → r.queue.offers < q.offers) := by
  obtain ⟨d, declared, hdfind, hdwork, hexclusive, hfree⟩ := nextDeclared_ok hnext
  have hunheld : q.held key = false := h.free hdfind (by rw [hdwork]; nofun)
  cases hr with
  | stops errors => exact ⟨⟨h, (Leaves.refl q).grows⟩, hnone, nofun⟩
  | accepts e work ticket hfind hwork =>
    rw [hdfind] at hfind
    cases hfind
    rw [hdwork] at hwork
    cases hwork
    have hkey : d.key = key := Table.find_key hdfind
    have hnew : q.pendingSets.find key = none := by
      rw [Queue.held, Bool.or_eq_false_iff] at hunheld
      exact Option.not_isSome_iff_eq_none.mp (by rw [hunheld.2]; nofun)
    have hrows : (q.pendingSets.upsert ⟨key, declared.identity, ticket, d.resources⟩).rows =
        q.pendingSets.rows ++ [⟨key, declared.identity, ticket, d.resources⟩] :=
      Table.rows_upsert_of_none hnew
    refine ⟨⟨⟨?_, ?_, ?_, ?_, fun k hk => ?_, ?_⟩, fun p hp => ?_, fun k hk e hidle he => ?_⟩,
      hnone, fun _ => ?_⟩
    · intro hsome
      simp only [if_true, hnone] at hsome
      cases hsome
    · intro p hp
      simp only [if_true, hrows] at hp
      rcases List.mem_append.mp hp with hp | hp
      · exact h.declared p hp
      · rw [List.mem_singleton.mp hp]
        exact hexclusive
    · simp only [if_true, hrows]
      refine List.pairwise_append.mpr ⟨h.disjoint, List.pairwise_singleton _ _, ?_⟩
      intro p hp r hr x hx hxr
      obtain rfl := List.mem_singleton.mp hr
      exact hfree x hxr (List.mem_flatMap.mpr ⟨p, hp, hx⟩)
    · simp only [if_true, hrows, List.length_append, List.length_singleton]
      exact hroom
    · refine upsert_idle h hdfind ?_ ?_ ?_
      · exact hkey
      · rfl
      obtain ⟨p, hp, rfl⟩ := held_iff.mp hk
      simp only [Queue.tickets, if_true, hrows, ← List.append_assoc] at hp
      rcases List.mem_append.mp hp with hp | hp
      · exact .inl (held_iff.mpr ⟨p, hp, rfl⟩)
      · rw [List.mem_singleton.mp hp]
        exact .inr rfl
    · refine (Table.length_upsert_of_some (b := d) ?_).trans_le h.inventory
      exact hkey ▸ hdfind
    · simp only [Queue.tickets, if_true, hrows, ← List.append_assoc]
      exact List.mem_append_left _ hp
    · refine (find_upsert_held h hdfind ?_ ?_ hk).trans he
      · rw [hdwork]
        nofun
      · exact hkey
    · exact offers_upsert hdfind (by rw [hdwork]; nofun) hkey rfl
  | refuses e e' work errors hfind hwork hkey hidle =>
    have hleaves : Leaves q (q.setEntry e') := .setEntry (by rwa [hkey])
    have hlen := setEntry_length hfind hkey
    refine ⟨⟨hleaves.sound h (hlen ▸ h.inventory), hleaves.grows⟩, hnone, fun _ => ?_⟩
    exact offers_upsert hfind (by rw [hwork]; nofun) hkey hidle

/-- The loop admits declared offers alone, and keeps every ticket. -/
theorem admitDeclared_ok (allowed : Identity → Bool) (attempts : Nat → Attempt) (fuel : Nat)
    (h : Sound outstanding q) (hnone : q.pending = none) (turn : Nat) :
    ∃ r, q.admitDeclared outstanding allowed attempts turn fuel = some r ∧
      Sound outstanding r.1 ∧ Grows q r.1 := by
  induction fuel generalizing q turn with
  | zero => exact ⟨_, rfl, h, (Leaves.refl q).grows⟩
  | succ fuel ih =>
    unfold Queue.admitDeclared
    split
    · next hroom =>
      split
      · exact ⟨_, rfl, h, (Leaves.refl q).grows⟩
      · next key hnext =>
        obtain ⟨a, ha, hadmits⟩ := admitOne_ok q key (attempts turn) true
        obtain ⟨⟨hsound, hgrows⟩, hpending, -⟩ := h.admitsDeclared hnone hroom hnext hadmits
        rw [ha, Option.bind_eq_bind, Option.bind_some]
        split
        · obtain ⟨r, hr, hrsound, hrgrows⟩ := ih hsound hpending (turn + 1)
          rw [hr]
          exact ⟨_, rfl, hrsound, hgrows.trans hrgrows⟩
        · exact ⟨_, rfl, hsound, hgrows⟩
    · exact ⟨_, rfl, h, (Leaves.refl q).grows⟩

/-- The loop stops by itself: every turn that goes on takes an offer. -/
theorem admitDeclared_fuel (allowed : Identity → Bool) (attempts : Nat → Attempt) {fuel : Nat}
    (h : Sound outstanding q) (hnone : q.pending = none) (turn : Nat) (hfuel : q.offers < fuel) :
    q.admitDeclared outstanding allowed attempts turn (fuel + 1) =
      q.admitDeclared outstanding allowed attempts turn fuel := by
  induction fuel generalizing q turn with
  | zero => exact absurd hfuel (Nat.not_lt_zero _)
  | succ fuel ih =>
    rw [Queue.admitDeclared, Queue.admitDeclared]
    split
    · next hroom =>
      split
      · rfl
      · next key hnext =>
        obtain ⟨a, ha, hadmits⟩ := admitOne_ok q key (attempts turn) true
        obtain ⟨⟨hsound, -⟩, hpending, hless⟩ := h.admitsDeclared hnone hroom hnext hadmits
        rw [ha, Option.bind_eq_bind, Option.bind_some, Option.bind_some]
        split
        · next hmore =>
          have := hless hmore
          rw [ih hsound hpending (turn + 1) (by omega)]
        · rfl
    · rfl

/-- **Admission** keeps every ticket, and no `unwrap` fails. -/
theorem admitMatching_ok (h : Sound outstanding q) (allowed : Identity → Bool)
    (prune head : Instant) (attempts : Nat → Attempt) :
    ∃ r, q.admitMatching outstanding allowed prune head attempts = some r ∧
      Sound outstanding r.1 ∧ Grows q r.1 := by
  have hleaves := Leaves.prune q prune
  have hsound := hleaves.sound h ((prune_length prune).trans h.inventory)
  have hgrows := hleaves.grows
  unfold Queue.admitMatching
  dsimp only
  split
  · exact ⟨_, rfl, hsound, hgrows⟩
  · next hpending =>
    have hnone : (q.prune prune).pending = none := Option.not_isSome_iff_eq_none.mp hpending
    have hdeclared := admitDeclared_ok allowed attempts ((q.prune prune).offers + 1) hsound hnone 0
    obtain ⟨r, hr, hrsound, hrgrows⟩ := hdeclared
    split
    · exact ⟨r, hr, hrsound, hgrows.trans hrgrows⟩
    · next hempty =>
      have hsets : (q.prune prune).pendingSets.rows = [] := by
        simpa using hempty
      split
      · exact ⟨_, rfl, hsound, hgrows⟩
      · next key _ =>
        split
        · exact ⟨r, hr, hrsound, hgrows.trans hrgrows⟩
        · obtain ⟨a, ha, hadmits⟩ := admitOne_ok (q.prune prune) key (attempts 0) false
          obtain ⟨hasound, hagrows⟩ := hsound.admitsSingle hnone hsets hadmits
          rw [ha, Option.map_some]
          exact ⟨_, rfl, hasound, hgrows.trans hagrows⟩

/-! ## Completions -/

/-- The entry of a settled key has no work, and no other entry changed. -/
theorem settle_ok (p : Pending) (result : Except String Unit) (now : Instant) :
    (q.settle p result now).1.pending = q.pending ∧
      (q.settle p result now).1.pendingSets = q.pendingSets ∧
      (q.settle p result now).1.entries.rows.length = q.entries.rows.length ∧
      (∀ k, k ≠ p.key → (q.settle p result now).1.entries.find k = q.entries.find k) ∧
      ((q.entries.find p.key).isSome = true →
        ((q.settle p result now).1.entries.find p.key).isSome = true) := by
  unfold Queue.settle
  split
  · next e hfind =>
    have hkey : e.key = p.key := Table.find_key hfind
    refine ⟨rfl, rfl, ?_, fun k hk => ?_, fun _ => ?_⟩
    · exact setEntry_length hfind hkey
    · refine Table.find_upsert_ne ?_
      change e.key ≠ k
      rw [hkey]
      exact Ne.symm hk
    · dsimp only [Queue.setEntry]
      rw [Table.find_upsert, if_pos hkey]
      rfl
  · exact ⟨rfl, rfl, rfl, fun _ _ => rfl, id⟩

/-- One ticket left. -/
structure Finishes (q q' : Queue) (key : Key) : Prop where
  tickets : ∀ p, p ∈ q'.tickets ↔ p ∈ q.tickets ∧ p.key ≠ key
  pending : q'.pending = q.pending.filter fun p => p.key ≠ key
  sets : q'.pendingSets.rows = q.pendingSets.rows.filter fun p => p.key ≠ key
  others : ∀ k, k ≠ key → q'.entries.find k = q.entries.find k
  entry : (q.entries.find key).isSome = true → (q'.entries.find key).isSome = true
  length : q'.entries.rows.length = q.entries.rows.length

theorem finish_ok (h : Sound outstanding q) {key : Key} (hheld : q.held key = true)
    (result : Except String Unit) (now : Instant) :
    ∃ r, q.finish key result now = some r ∧ Finishes q r.1 key := by
  unfold Queue.finish
  split
  · next hany =>
    obtain ⟨p, hp, hkey⟩ := Option.any_eq_true _ _ |>.mp hany
    obtain rfl := of_decide_eq_true hkey
    have hsets := h.apart (by rw [hp]; rfl)
    rw [hp, Option.bind_eq_bind, Option.bind_some]
    refine ⟨_, rfl, ?_⟩
    obtain ⟨hpending, hpendingSets, hlen, hothers, hentry⟩ :=
      settle_ok (q := { q with pending := none }) p result now
    refine ⟨fun r => ?_, ?_, ?_, hothers, hentry, hlen⟩
    · simp only [Queue.tickets, hpending, hpendingSets, hp, hsets, Option.toList, List.append_nil,
        List.not_mem_nil, List.mem_singleton, false_iff, not_and, not_not]
      rintro rfl
      rfl
    · refine hpending.trans ?_
      rw [hp, Option.filter_some, if_neg (by simp)]
    · rw [hpendingSets]
      change q.pendingSets.rows = _
      rw [hsets, List.filter_nil]
  · next hany =>
    have hother : ∀ p, q.pending = some p → p.key ≠ key := by
      intro p hp hk
      rw [hp] at hany
      exact hany (decide_eq_true hk)
    have hfound : (q.pendingSets.find key).isSome = true := by
      rw [Queue.held, Bool.or_eq_true] at hheld
      exact hheld.resolve_left hany
    obtain ⟨p, hp⟩ := Option.isSome_iff_exists.mp hfound
    rw [hp, Option.bind_eq_bind, Option.bind_some]
    refine ⟨_, rfl, ?_⟩
    obtain rfl := Table.find_key hp
    obtain ⟨hpending, hpendingSets, hlen, hothers, hentry⟩ := settle_ok
      (q := { q with pendingSets := q.pendingSets.retain fun r => r.key ≠ p.key }) p result now
    refine ⟨fun r => ?_, ?_, ?_, hothers, hentry, hlen⟩
    · simp only [Queue.tickets, hpending, hpendingSets, Table.rows_retain, List.mem_append,
        Option.mem_toList, List.mem_filter, decide_eq_true_eq]
      constructor
      · rintro (hr | ⟨hr, hne⟩)
        · exact ⟨.inl hr, hother r hr⟩
        · exact ⟨.inr hr, hne⟩
      · rintro ⟨hr | hr, hne⟩
        · exact .inl hr
        · exact .inr ⟨hr, hne⟩
    · refine hpending.trans ?_
      change q.pending = _
      cases hq : q.pending with
      | none => rfl
      | some r => rw [Option.filter_some, if_pos (decide_eq_true (hother r hq))]
    · rw [hpendingSets]
      rfl

theorem Sound.finishes (h : Sound outstanding q) {key : Key} (hf : Finishes q q' key) :
    Sound outstanding q' := by
  have hsub : q'.pendingSets.rows.Sublist q.pendingSets.rows := by
    rw [hf.sets]
    exact List.filter_sublist
  refine ⟨fun hsome => ?_, fun p hp => h.declared p (hsub.subset hp), h.disjoint.sublist hsub,
    hsub.length_le.trans h.bounded, fun k hk => ?_, hf.length ▸ h.inventory⟩
  · rw [hf.sets, h.apart, List.filter_nil]
    rw [hf.pending] at hsome
    obtain ⟨p, hp⟩ := Option.isSome_iff_exists.mp hsome
    rw [(Option.filter_eq_some_iff.mp hp).1]
    rfl
  · obtain ⟨p, hp, rfl⟩ := held_iff.mp hk
    obtain ⟨hp, hne⟩ := (hf.tickets p).mp hp
    rw [hf.others _ hne]
    exact h.idle _ (held_iff.mpr ⟨p, hp, rfl⟩)

/-- The loop of a drain takes out the tickets of its list. -/
theorem finishAll_ok (h : Sound outstanding q) (now : Key → Instant)
    {l : List (Key × Except String Unit)} (hnodup : (l.map Prod.fst).Nodup)
    (hheld : ∀ e ∈ l, q.held e.1 = true) : ∃ r, q.finishAll now l = some r ∧
      Sound outstanding r.1 ∧ (∀ p, p ∈ r.1.tickets ↔ p ∈ q.tickets ∧ p.key ∉ l.map Prod.fst) ∧
      (∀ k, k ∉ l.map Prod.fst → r.1.entries.find k = q.entries.find k) ∧
      ∀ k, (q.entries.find k).isSome = true → (r.1.entries.find k).isSome = true := by
  induction l generalizing q with
  | nil => exact ⟨_, rfl, h, by simp, fun _ _ => rfl, fun _ => id⟩
  | cons e l ih =>
    obtain ⟨key, result⟩ := e
    rw [List.map_cons, List.nodup_cons] at hnodup
    obtain ⟨⟨q₁, errors⟩, hfinish, hf⟩ := finish_ok h (hheld _ List.mem_cons_self) result (now key)
    have hrest : ∀ e ∈ l, q₁.held e.1 = true := by
      intro e he
      obtain ⟨p, hp, hkey⟩ := held_iff.mp (hheld e (List.mem_cons_of_mem _ he))
      refine held_iff.mpr ⟨p, (hf.tickets p).mpr ⟨hp, ?_⟩, hkey⟩
      rintro rfl
      exact hnodup.1 (List.mem_map.mpr ⟨e, he, hkey.symm⟩)
    obtain ⟨⟨q₂, more⟩, hall, hsound, htickets, hothers, hentries⟩ := ih (h.finishes hf) hnodup.2 hrest
    refine ⟨(q₂, errors ++ more), ?_, hsound, fun p => ?_, fun k hk => ?_, fun k hk => ?_⟩
    · rw [Queue.finishAll, hfinish, Option.bind_eq_bind, Option.bind_some]
      dsimp only
      rw [hall]
      rfl
    · rw [htickets, hf.tickets, List.map_cons, List.mem_cons, not_or, and_assoc]
    · rw [List.map_cons, List.mem_cons, not_or] at hk
      rw [hothers k hk.2]
      exact hf.others k hk.1
    · refine hentries k ?_
      by_cases he : k = key
      · subst he
        exact hf.entry hk
      · rw [hf.others k he]
        exact hk

theorem mem_finished {receive : Nat → Received} {key : Key} :
    key ∈ (q.finished receive).map Prod.fst ↔
      ∃ p ∈ q.tickets, p.key = key ∧ (completionOf receive p).isSome = true := by
  simp only [Queue.finished, Queue.tickets, List.mem_map, List.mem_filterMap, List.mem_append,
    List.mem_insertionSort]
  constructor
  · rintro ⟨e, ⟨p, hp, he⟩, rfl⟩
    obtain ⟨result, hresult, rfl⟩ := Option.map_eq_some_iff.mp he
    exact ⟨p, hp, rfl, by rw [hresult]; rfl⟩
  · rintro ⟨p, hp, rfl, hsome⟩
    obtain ⟨result, hresult⟩ := Option.isSome_iff_exists.mp hsome
    exact ⟨(p.key, result), ⟨p, hp, by rw [hresult]; rfl⟩, rfl⟩

theorem finished_nodup (h : Sound outstanding q) (receive : Nat → Received) :
    ((q.finished receive).map Prod.fst).Nodup := by
  have hsublist : ∀ l : List Pending, ((l.filterMap fun p =>
      (completionOf receive p).map fun result => (p.key, result)).map Prod.fst).Sublist
        (l.map Pending.key) := by
    intro l
    induction l with
    | nil => exact .slnil
    | cons p l ih =>
      rw [List.filterMap_cons, List.map_cons]
      cases completionOf receive p with
      | none => exact ih.cons _
      | some result => exact ih.cons_cons _
  refine (List.Perm.nodup_iff ?_).mpr h.tickets_nodup |>.sublist (hsublist _)
  exact ((List.perm_insertionSort _ _).append_left _).map _

/-! ## Runs -/

/-- What one call does to the tickets and to the inventory. -/
structure Stable (q : Queue) (action : Action) (q' : Queue) : Prop where
  /-- A ticket stays until its own completion is drained. -/
  tickets : ∀ p ∈ q.tickets, p ∈ q'.tickets ∨ ∃ receive prune now,
    action = .drain receive prune now ∧ (completionOf receive p).isSome = true
  /-- What is held is neither evicted nor pruned. -/
  inventory : ∀ key, q.held key = true → (q'.entries.find key).isSome = true
  /-- Nor is it refreshed. -/
  kept : ∀ key, q.held key = true → q'.held key = true →
    q'.entries.find key = q.entries.find key
  /-- Attempt tokens displace no other offer: it can only expire. -/
  displaced : ∀ work resources times, action = .offer work resources times →
    attemptToken work.identity.key = true → ∀ key, attemptToken key = false →
      q'.entries.find key = q.entries.find key ∨
        q'.entries.find key = (q.prune times.prune).entries.find key

theorem Grows.stable (h : Grows q q') (hs : Sound outstanding q) {action : Action}
    (hoffer : ∀ work resources times, action = .offer work resources times →
      attemptToken work.identity.key = true → ∀ key, attemptToken key = false →
        q'.entries.find key = q.entries.find key ∨
          q'.entries.find key = (q.prune times.prune).entries.find key) : Stable q action q' := by
  have hkept : ∀ key, q.held key = true → ∃ e, q.entries.find key = some e ∧
      q'.entries.find key = some e := by
    intro key hk
    obtain ⟨e, he, hidle⟩ := hs.idle key hk
    exact ⟨e, he, h.kept key hk e hidle he⟩
  refine ⟨fun p hp => .inl (h.tickets p hp), fun key hk => ?_, fun key hk _ => ?_, hoffer⟩
  · obtain ⟨e, -, he⟩ := hkept key hk
    rw [he]
    rfl
  · obtain ⟨e, he, he'⟩ := hkept key hk
    rw [he, he']

/-- **One call.** -/
theorem Sound.step (h : Sound outstanding q) (action : Action) :
    ∃ q', step outstanding q action = some q' ∧ Sound outstanding q' ∧ Stable q action q' := by
  cases action with
  | offer work resources times =>
    obtain ⟨hleaves, hlen⟩ := offer_leaves h.inventory work resources times
    refine ⟨_, rfl, hleaves.sound h hlen, hleaves.grows.stable h ?_⟩
    rintro _ _ _ ⟨⟩ hwork key hkey
    exact offer_attempt hwork hkey
  | prune now =>
    have hleaves := Leaves.prune q now
    exact ⟨_, rfl, hleaves.sound h ((prune_length now).trans h.inventory),
      hleaves.grows.stable h nofun⟩
  | admitMatching allowed prune head attempts =>
    obtain ⟨r, hr, hsound, hgrows⟩ := admitMatching_ok h allowed prune head attempts
    refine ⟨r.1, ?_, hsound, hgrows.stable h nofun⟩
    simp only [CopyQueue.step, hr, Option.map_some]
  | drain receive prune now =>
    have hleaves := Leaves.prune q prune
    have hpruned := hleaves.sound h ((prune_length prune).trans h.inventory)
    have htickets : (q.prune prune).tickets = q.tickets := rfl
    obtain ⟨r, hr, hsound, hleft, hothers, hentries⟩ := finishAll_ok hpruned now
      (finished_nodup hpruned receive) (fun e he => by
        obtain ⟨p, hp, hkey, -⟩ := mem_finished.mp (List.mem_map_of_mem he)
        exact held_iff.mpr ⟨p, hp, hkey⟩)
    have hkept : ∀ key, q.held key = true → ∃ e, q.entries.find key = some e ∧
        (q.prune prune).entries.find key = some e := by
      intro key hk
      obtain ⟨e, he, hidle⟩ := h.idle key hk
      exact ⟨e, he, hleaves.kept key hk e hidle he⟩
    refine ⟨r.1, ?_, hsound, ⟨fun p hp => ?_, fun key hk => ?_, fun key hk hk' => ?_, nofun⟩⟩
    · simp only [CopyQueue.step, Queue.drain, hr, Option.map_some]
    · by_cases hmem : p.key ∈ ((q.prune prune).finished receive).map Prod.fst
      · obtain ⟨p', hp', hkey, hsome⟩ := mem_finished.mp hmem
        obtain rfl := List.inj_on_of_nodup_map h.tickets_nodup hp' hp hkey
        exact .inr ⟨receive, prune, now, rfl, hsome⟩
      · exact .inl ((hleft p).mpr ⟨hp, hmem⟩)
    · obtain ⟨e, -, he⟩ := hkept key hk
      exact hentries key (by rw [he]; rfl)
    · obtain ⟨e, he, he'⟩ := hkept key hk
      obtain ⟨p, hp, rfl⟩ := held_iff.mp hk'
      rw [hothers _ ((hleft p).mp hp).2, he, he']
  | clear project id =>
    have hleaves := Leaves.clear q project id
    exact ⟨_, rfl, hleaves.sound h ((clear_length project id).trans h.inventory),
      hleaves.grows.stable h nofun⟩

theorem Sound.run (h : Sound outstanding q) (actions : List Action) :
    ∃ q', run outstanding q actions = some q' ∧ Sound outstanding q' := by
  induction actions generalizing q with
  | nil => exact ⟨q, rfl, h⟩
  | cons action actions ih =>
    obtain ⟨q₁, hstep, hsound, -⟩ := h.step action
    obtain ⟨q₂, hrun, hend⟩ := ih hsound
    refine ⟨q₂, ?_, hend⟩
    rw [CopyQueue.run, hstep]
    exact hrun

/-- **Exclusive admission.** No sequence of calls panics; in every state the tickets are one or
declared ones with disjoint resources, each with an idle entry of its own; and every call keeps a
ticket with its entry until that ticket's completion is drained. -/
theorem admission_exclusive (outstanding : Nat) (actions : List Action) :
    ∃ q, run outstanding .new actions = some q ∧ Sound outstanding q ∧
      (q.tickets.map Pending.key).Nodup ∧ ∀ action, ∃ q', step outstanding q action = some q' ∧
        Sound outstanding q' ∧ Stable q action q' := by
  obtain ⟨q, hrun, hsound⟩ := sound_new.run actions
  exact ⟨q, hrun, hsound, hsound.tickets_nodup, hsound.step⟩

end Herdr.CopyQueue