import Herdr.Store.BarrierRelease
import Herdr.Verify.ContractGraph

/-!
# The releases that a release rests on

The search of `require_current_release_valid_until` answers `Ok` exactly when every release that the
members' results were reserved under, to any depth, passes its own check and was released before
the wave that consumed it, within the two limits. What it answers is the earliest instant at which
the memory of one of them expires, so the order of the search does not matter.
-/

namespace Herdr.Barriers

open Relation GraphSearch

/-! ## The earliest instant -/

section Earliest

variable {α : Type} {expiry : α → Option Int}

theorem earliestExpiry_eq (left right : Option Int) :
    BarrierStore.earliestExpiry left right = (left.toList ++ right.toList).min? := by
  cases left <;> cases right <;> rfl

/-- The instants of a search, one after the other. -/
theorem foldl_earliestExpiry (order : List α) (first : Option Int) :
    order.foldl (fun e a => BarrierStore.earliestExpiry e (expiry a)) first =
      (first.toList ++ order.filterMap expiry).min? := by
  induction order generalizing first with
  | nil => cases first <;> rfl
  | cons a order ih =>
    rw [List.foldl_cons, ih, List.filterMap_cons]
    cases first with
    | none => cases expiry a <;> rfl
    | some left =>
      cases expiry a with
      | none => rfl
      | some right =>
        simp only [BarrierStore.earliestExpiry, Option.toList_some, List.cons_append,
          List.nil_append, List.min?_cons', List.foldl_cons]

/-- The earliest instant of a list depends on its members only. -/
theorem min?_congr {left right : List Int} (h : ∀ t, t ∈ left ↔ t ∈ right) :
    left.min? = right.min? := by
  apply Option.ext
  intro t
  simp only [List.min?_eq_some_iff, h]

end Earliest

/-! ## What a release rests on -/

section Ancestry

variable [Documents]

namespace BarrierStore

variable (db : BarrierStore) (env : Outside) (now : Int)

/-- A result of a member of `a` was reserved under `b`. -/
def Prerequisite (a b : ResultBarrier) : Prop :=
  ∃ row ∈ db.memberRows a.reference.barrierId, db.resultBarrier env row = .ok (some b)

/-- The releases that a release rests on, itself among them. -/
def RestsOn (root a : ResultBarrier) : Prop := ReflTransGen (db.Prerequisite env) root a

/-- `authorization::require_current_release` accepts the release. -/
def Current (a : ResultBarrier) : Prop :=
  ∃ expires, db.requireCurrentRelease env a now = .ok expires

/-- The results of the members are bound to their reservations, and none was reserved under a
release that is not earlier. -/
def Descends (a : ResultBarrier) : Prop :=
  ∀ row ∈ db.memberRows a.reference.barrierId, ∃ answer, db.resultBarrier env row = .ok answer ∧
    ∀ b ∈ answer, b.reference.releaseSequence < a.reference.releaseSequence

/-- The instant at which the memory of a release expires. -/
def expiry (a : ResultBarrier) : Option Int :=
  (db.requireCurrentRelease env a now).toOption.join

/-- The releases that `root` rests on, each once, may all be consumed. -/
structure Consumable (root : ResultBarrier) (releases : List ResultBarrier) : Prop where
  nodup : releases.Nodup
  mem_iff : ∀ {a}, a ∈ releases ↔ db.RestsOn env root a
  current : ∀ a ∈ releases, db.Current env now a
  descends : ∀ a ∈ releases, db.Descends env a
  count : releases.length ≤ maxReleases
  members : (releases.map fun a => (db.memberRows a.reference.barrierId).length).sum ≤ 1000

/-- The prerequisite that the result of a member was reserved under. -/
def parentOf (row : MemberRow) : Option ResultBarrier := (db.resultBarrier env row).toOption.join

variable {db env now}

theorem parentOf_eq_some {row : MemberRow} {b : ResultBarrier} :
    db.parentOf env row = some b ↔ db.resultBarrier env row = .ok (some b) := by
  unfold parentOf
  cases db.resultBarrier env row with
  | error e => exact ⟨nofun, nofun⟩
  | ok answer => simp [Except.toOption]

/-! ### The loop over the members -/

/-- What the loop over the members checks, and what it answers. -/
theorem prerequisites_ok {required : ResultBarrier} {members members' : Nat}
    {rows : List MemberRow} {parents : List ResultBarrier} :
    db.prerequisites env required members rows = .ok (parents, members') ↔
      (∀ row ∈ rows, ∃ answer, db.resultBarrier env row = .ok answer ∧
        ∀ b ∈ answer, b.reference.releaseSequence < required.reference.releaseSequence) ∧
      (rows = [] ∨ members + rows.length ≤ 1000) ∧
      parents = rows.filterMap (db.parentOf env) ∧ members' = members + rows.length := by
  induction rows generalizing members members' parents with
  | nil =>
    simp only [prerequisites, Except.ok.injEq, Prod.mk.injEq]
    constructor
    · rintro ⟨rfl, rfl⟩
      exact ⟨by simp, by simp, rfl, rfl⟩
    · rintro ⟨-, -, rfl, rfl⟩
      exact ⟨rfl, rfl⟩
  | cons row rest ih =>
    have hroom : (rest = [] ∨ members + 1 + rest.length ≤ 1000) ∧ members + 1 ≤ 1000 ↔
        members + (row :: rest).length ≤ 1000 := by
      rw [List.length_cons]
      cases rest with
      | nil => simp
      | cons next rest =>
        simp only [List.length_cons, reduceCtorEq, false_or]
        omega
    have hcount : members + 1 + rest.length = members + (row :: rest).length := by
      rw [List.length_cons]
      omega
    simp only [List.forall_mem_cons, reduceCtorEq, false_or]
    rw [← hroom, ← hcount, prerequisites]
    by_cases hfull : 1000 < members + 1
    · rw [if_pos hfull]
      exact ⟨nofun, fun h => absurd h.2.1.2 (by omega)⟩
    rw [if_neg hfull]
    cases hrow : db.resultBarrier env row with
    | error e => exact ⟨nofun, by rintro ⟨⟨⟨_, h, -⟩, -⟩, -⟩; cases h⟩
    | ok answer =>
      cases answer with
      | none =>
        have hparent : db.parentOf env row = none := by rw [parentOf, hrow]; rfl
        dsimp only
        rw [ih, List.filterMap_cons_none hparent]
        constructor
        · rintro ⟨hrest, hbound, hparents, hmembers⟩
          exact ⟨⟨⟨none, rfl, nofun⟩, hrest⟩, ⟨hbound, by omega⟩, hparents, hmembers⟩
        · rintro ⟨⟨-, hrest⟩, ⟨hbound, -⟩, hparents, hmembers⟩
          exact ⟨hrest, hbound, hparents, hmembers⟩
      | some b =>
        have hparent : db.parentOf env row = some b := parentOf_eq_some.mpr hrow
        rw [List.filterMap_cons_some hparent]
        dsimp only
        by_cases hlate : required.reference.releaseSequence ≤ b.reference.releaseSequence
        · rw [if_pos hlate]
          refine ⟨nofun, ?_⟩
          rintro ⟨⟨⟨_, h, hearlier⟩, -⟩, -⟩
          cases h
          have := hearlier b rfl
          omega
        rw [if_neg hlate]
        cases hrest : db.prerequisites env required (members + 1) rest with
        | error e =>
          refine ⟨nofun, ?_⟩
          rintro ⟨⟨-, hchecked⟩, ⟨hbound, -⟩, -, -⟩
          rw [ih.mpr ⟨hchecked, hbound, rfl, rfl⟩] at hrest
          cases hrest
        | ok found =>
          obtain ⟨hchecked, hbound, hparents, hmembers⟩ := ih.mp hrest
          simp only [Except.ok.injEq, Prod.mk.injEq]
          constructor
          · rintro ⟨rfl, rfl⟩
            refine ⟨⟨⟨_, rfl, ?_⟩, hchecked⟩, ⟨hbound, by omega⟩, by rw [hparents], hmembers⟩
            rintro _ ⟨⟩
            omega
          · rintro ⟨-, -, rfl, rfl⟩
            exact ⟨by rw [hparents], hmembers⟩

/-! ### One turn, and the turns of an order -/

section Turns

variable {visit : List MemberRow → List MemberRow}

/-- The prerequisites in the order in which the members are read. -/
def parents (db : BarrierStore) (env : Outside) (visit : List MemberRow → List MemberRow)
    (a : ResultBarrier) : List ResultBarrier :=
  (visit (db.memberRows a.reference.barrierId)).filterMap (db.parentOf env)

variable (hvisit : ∀ rows, (visit rows).Perm rows)
include hvisit

theorem mem_parents {a b : ResultBarrier} :
    b ∈ db.parents env visit a ↔ db.Prerequisite env a b := by
  simp only [parents, List.mem_filterMap, (hvisit _).mem_iff, parentOf_eq_some, Prerequisite]

theorem restsOn_eq :
    db.RestsOn env = ReflTransGen fun a b => b ∈ db.parents env visit a := by
  have hsame : (fun a b => b ∈ db.parents env visit a) = db.Prerequisite env := by
    funext a b
    exact propext (mem_parents hvisit)
  rw [hsame]
  rfl

/-- What a turn of the search checks, and what it accumulates. -/
theorem ancestryTurn_ok {a : ResultBarrier} {acc acc' : Ancestry} {next : List ResultBarrier}
    (hmembers : acc.members ≤ 1000) :
    db.ancestryTurn env visit now a acc = .ok (next, acc') ↔
      db.Current env now a ∧ db.Descends env a ∧
        acc.members + (db.memberRows a.reference.barrierId).length ≤ 1000 ∧
        next = db.parents env visit a ∧
        acc' = ⟨acc.members + (db.memberRows a.reference.barrierId).length,
          earliestExpiry acc.expiresUnixMs (db.expiry env now a)⟩ := by
  unfold ancestryTurn Current Descends expiry parents
  cases hcurrent : db.requireCurrentRelease env a now with
  | error e => exact ⟨nofun, by rintro ⟨⟨_, h⟩, -⟩; cases h⟩
  | ok expires =>
    have hlength := (hvisit (db.memberRows a.reference.barrierId)).length_eq
    have hroom : (visit (db.memberRows a.reference.barrierId) = [] ∨
        acc.members + (visit (db.memberRows a.reference.barrierId)).length ≤ 1000) ↔
        acc.members + (db.memberRows a.reference.barrierId).length ≤ 1000 := by
      rw [← hlength]
      constructor
      · rintro (h | h)
        · rw [h]
          exact hmembers
        · exact h
      · exact .inr
    cases hrows : db.prerequisites env a acc.members
        (visit (db.memberRows a.reference.barrierId)) with
    | error e =>
      refine ⟨nofun, ?_⟩
      rintro ⟨-, hdescends, hbound, -⟩
      rw [prerequisites_ok.mpr ⟨fun row hrow => hdescends row ((hvisit _).mem_iff.mp hrow),
        hroom.mpr hbound, rfl, rfl⟩] at hrows
      cases hrows
    | ok found =>
      obtain ⟨hchecked, hbound, hparents, hcount⟩ := prerequisites_ok.mp hrows
      simp only [Except.ok.injEq, Prod.mk.injEq, Except.toOption, Option.join_some]
      rw [hparents, hcount, hlength]
      constructor
      · rintro ⟨rfl, rfl⟩
        exact ⟨⟨_, rfl⟩, fun row hrow => hchecked row ((hvisit _).mem_iff.mpr hrow),
          hroom.mp hbound, rfl, rfl⟩
      · rintro ⟨-, -, -, rfl, rfl⟩
        exact ⟨rfl, rfl⟩

omit hvisit in
theorem ancestryTurn_next (a : ResultBarrier) (acc : Ancestry) (next : List ResultBarrier)
    (acc' : Ancestry) (h : db.ancestryTurn env visit now a acc = .ok (next, acc')) :
    next = db.parents env visit a := by
  unfold ancestryTurn at h
  split at h
  · cases h
  · split at h
    · cases h
    · next hrows =>
      cases h
      exact (prerequisites_ok.mp hrows).2.2.1

/-- The turns for the releases of an order. -/
theorem sweep_ok {order : List ResultBarrier} {acc out : Ancestry} (hmembers : acc.members ≤ 1000) :
    sweep (db.ancestryTurn env visit now) order acc = .ok out ↔
      (∀ a ∈ order, db.Current env now a ∧ db.Descends env a) ∧
        acc.members +
          (order.map fun a => (db.memberRows a.reference.barrierId).length).sum ≤ 1000 ∧
        out = ⟨acc.members + (order.map fun a => (db.memberRows a.reference.barrierId).length).sum,
          order.foldl (fun e a => earliestExpiry e (db.expiry env now a)) acc.expiresUnixMs⟩ := by
  induction order generalizing acc with
  | nil =>
    constructor
    · intro h
      cases h
      exact ⟨by simp, by simpa, rfl⟩
    · rintro ⟨-, -, rfl⟩
      rfl
  | cons a order ih =>
    rw [sweep_cons_ok]
    simp only [List.map_cons, List.sum_cons, List.foldl_cons, List.forall_mem_cons]
    constructor
    · rintro ⟨next, mid, hturn, hrest⟩
      obtain ⟨hcurrent, hdescends, hroom, -, rfl⟩ := (ancestryTurn_ok hvisit hmembers).mp hturn
      obtain ⟨hall, hsum, rfl⟩ := (ih hroom).mp hrest
      dsimp only at hsum ⊢
      refine ⟨⟨⟨hcurrent, hdescends⟩, hall⟩, by omega, ?_⟩
      rw [Nat.add_assoc]
    · rintro ⟨⟨⟨hcurrent, hdescends⟩, hall⟩, hsum, rfl⟩
      have hroom : acc.members + (db.memberRows a.reference.barrierId).length ≤ 1000 := by omega
      refine ⟨_, _, (ancestryTurn_ok hvisit hmembers).mpr ⟨hcurrent, hdescends, hroom, rfl, rfl⟩,
        (ih hroom).mpr ⟨hall, ?_, ?_⟩⟩
      · dsimp only
        omega
      · rw [Nat.add_assoc]

end Turns

/-! ### Release identities -/

/-- The release that a result was reserved under is the one that its contract requires. -/
theorem resultBarrier_some {row : MemberRow} {b : ResultBarrier}
    (h : db.resultBarrier env row = .ok (some b)) :
    ∃ installed, db.contracts.find (row.task, row.revision) = some installed ∧
      installed.contract.requiredBarrier = some b.reference ∧
      installed.contract.authority = b.authority := by
  unfold resultBarrier at h
  split at h
  · cases h
  split at h
  · cases h
  next installed hfind =>
  dsimp only at h
  split at h
  · cases h
  obtain ⟨-, -, h⟩ := Except.bind_ok.mp h
  split at h
  · split at h <;> cases h
  next barrier hrequired =>
  have hreserved : ∀ {record config}, db.reservedBarrier env installed.contract.toPreparedContract
      barrier row record = .ok config → config.reference = barrier ∧
        config.authority = installed.contract.authority := by
    intro record config hconfig
    unfold reservedBarrier at hconfig
    split at hconfig
    · cases hconfig
    split at hconfig
    · cases hconfig
    split at hconfig
    · cases hconfig
    obtain ⟨current, -, hconfig⟩ := Except.bind_ok.mp hconfig
    split at hconfig
    · cases hconfig
    · cases hconfig
      exact ⟨rfl, rfl⟩
  cases hanswer : db.reservedBarrier env installed.contract.toPreparedContract barrier row
      (db.inputs.rows.find? (·.attempt = row.attempt)) with
  | error e =>
    rw [hanswer] at h
    cases h
  | ok config =>
    rw [hanswer] at h
    cases h
    obtain ⟨hreference, hauthority⟩ := hreserved hanswer
    exact ⟨installed, hfind, by rw [hreference]; exact hrequired, hauthority.symm⟩

omit [Documents] in
/-- The fields that are checked include the release that is required. -/
theorem checkFields_barrier {document : UntrustedContractDocument} {u : Unit}
    (h : document.checkFields = .ok u) {reference : BarrierReleaseReference}
    (hrequired : document.requiredBarrier = some reference) : reference.validate = .ok () := by
  simp only [UntrustedContractDocument.checkFields, Except.bind_ok] at h
  obtain ⟨_, -, _, hbarrier, -⟩ := h
  unfold UntrustedContractDocument.checkBarrier at hbarrier
  rw [hrequired] at hbarrier
  split at hbarrier
  · next hnone => cases hnone
  · next hnone => cases hnone
  · next hsome =>
    cases hsome
    exact hbarrier
  · next hsome =>
    cases hsome
    exact hbarrier
  · cases hbarrier

/-- A contract that was accepted requires a well-formed release. -/
theorem requiredBarrier_valid {contract : AcceptedContract} {reference : BarrierReleaseReference}
    (h : contract.requiredBarrier = some reference) : reference.validate = .ok () := by
  obtain ⟨raw, hparse⟩ := contract.accepted
  simp only [PreparedContract.parseVerified, Except.bind_ok] at hparse
  obtain ⟨-, -, hparse⟩ := hparse
  split at hparse
  · cases hparse
  next document _ =>
  simp only [UntrustedContractDocument.intoPrepared, Except.bind_ok] at hparse
  obtain ⟨_, hfields, -, -, _, -, -, -, -, -, -, -, -, -, _, -, _, -, _, -, _, -, hparse⟩ := hparse
  have hrequired : contract.requiredBarrier = document.requiredBarrier :=
    congrArg PreparedContract.requiredBarrier (Except.ok.inj hparse).symm
  exact checkFields_barrier hfields (hrequired ▸ h)

theorem Current.valid {a : ResultBarrier} (h : db.Current env now a) :
    a.reference.validate = .ok () := by
  obtain ⟨expires, h⟩ := h
  rw [requireCurrentRelease, Except.bind_ok] at h
  obtain ⟨u, h, -⟩ := h
  cases hvalid : a.reference.validate with
  | error e =>
    rw [hvalid] at h
    cases h
  | ok u => rfl

omit [Documents] in
/-- Well-formed releases that are visited once are the same. -/
theorem eq_of_visitKey {a b : ResultBarrier} (ha : a.reference.validate = .ok ())
    (hb : b.reference.validate = .ok ()) (h : visitKey a = visitKey b) : a = b := by
  have hversion : ∀ {r : BarrierReleaseReference}, r.validate = .ok () → r.schemaVersion = 1 := by
    intro r hr
    by_contra hne
    exact refuse_ok.mp hr (.inl hne)
  obtain ⟨⟨version, barrierId, sequence, digest⟩, authority, config⟩ := a
  obtain ⟨⟨version', barrierId', sequence', digest'⟩, authority', config'⟩ := b
  obtain rfl : version = 1 := hversion ha
  obtain rfl : version' = 1 := hversion hb
  simp only [visitKey, Prod.mk.injEq] at h
  obtain ⟨rfl, rfl, rfl, rfl, rfl⟩ := h
  rfl

/-- What a well-formed release rests on is well formed. -/
theorem RestsOn.valid {root a : ResultBarrier} (h : db.RestsOn env root a)
    (hroot : root.reference.validate = .ok ()) : a.reference.validate = .ok () := by
  induction h with
  | refl => exact hroot
  | tail _ hstep _ =>
    obtain ⟨row, -, hrow⟩ := hstep
    obtain ⟨installed, -, hrequired, -⟩ := resultBarrier_some hrow
    exact requiredBarrier_valid hrequired

/-- A release whose prerequisites are all earlier does not rest on itself. -/
theorem Consumable.acyclic {root : ResultBarrier} {releases : List ResultBarrier}
    (h : db.Consumable env now root releases) {a b : ResultBarrier} (ha : a ∈ releases)
    (hab : TransGen (db.Prerequisite env) a b) :
    b.reference.releaseSequence < a.reference.releaseSequence := by
  have hstep : ∀ {a b}, a ∈ releases → db.Prerequisite env a b →
      b.reference.releaseSequence < a.reference.releaseSequence := by
    rintro a b ha ⟨row, hrow, hanswer⟩
    obtain ⟨answer, hanswer', hearlier⟩ := h.descends a ha row hrow
    rw [hanswer, Except.ok.injEq] at hanswer'
    exact hearlier b hanswer'.symm
  induction hab with
  | single hab => exact hstep ha hab
  | tail hab hbc ih =>
    have hb := h.mem_iff.mpr ((h.mem_iff.mp ha).trans hab.to_reflTransGen)
    exact (hstep hb hbc).trans ih

/-! ### The search -/

section Search

variable {visit : List MemberRow → List MemberRow}
  {join : List ResultBarrier → List ResultBarrier → List ResultBarrier} {root : ResultBarrier}
  {e : Option Int}

/-- The releases that a search looks at, whatever its outcome. -/
def lookedAt (db : BarrierStore) (env : Outside) (visit : List MemberRow → List MemberRow)
    (join : List ResultBarrier → List ResultBarrier → List ResultBarrier) (root : ResultBarrier)
    (now : Int) : List ResultBarrier :=
  trail visitKey maxReleases join (db.ancestryTurn env visit now) [] {} [root]

theorem lookedAt_bounded :
    (db.lookedAt env visit join root now).length ≤ maxReleases ∧
      ((db.lookedAt env visit join root now).map visitKey).Nodup := by
  have h := @trail_bounded ResultBarrier _ Ancestry StoreError _ visitKey maxReleases join
    (db.ancestryTurn env visit now) [] {} [root] (Nat.zero_le _)
  simp only [List.length_nil, Nat.zero_add] at h
  exact ⟨h.1, h.2.1⟩

/-- A search that succeeds has accepted the release it started from. -/
theorem current_of_explore {out : Ancestry} {pending : List ResultBarrier}
    (h : explore visitKey maxReleases (.limit "barrier ancestry exceeds 64 releases") join
      (db.ancestryTurn env visit now) [] {} (root :: pending) = .ok out) :
    db.Current env now root := by
  rw [explore, if_neg List.not_mem_nil, if_neg (by decide)] at h
  unfold ancestryTurn at h
  cases hcurrent : db.requireCurrentRelease env root now with
  | error e =>
    rw [hcurrent] at h
    cases h
  | ok expires => exact ⟨expires, hcurrent⟩

variable (hvisit : ∀ rows, (visit rows).Perm rows)
  (hjoin : ∀ pending found b, b ∈ join pending found ↔ b ∈ pending ∨ b ∈ found)
include hvisit hjoin

/-- A search that succeeds has looked at everything that the release rests on. -/
theorem consumable_of_ancestry (h : db.ancestry env visit join root now = .ok e) :
    ∃ releases, db.Consumable env now root releases ∧
      e = (releases.filterMap (db.expiry env now)).min? := by
  unfold ancestry at h
  cases hsearch : explore visitKey maxReleases (.limit "barrier ancestry exceeds 64 releases") join
      (db.ancestryTurn env visit now) [] {} [root] with
  | error e =>
    rw [hsearch] at h
    cases h
  | ok out =>
    rw [hsearch] at h
    obtain rfl : out.expiresUnixMs = e := Except.ok.inj h
    obtain ⟨order, hswept, hcount, hout⟩ :=
      explore_sound hjoin ancestryTurn_next (Nat.zero_le _) hsearch
    obtain ⟨hall, hsum, rfl⟩ := (sweep_ok hvisit (Nat.zero_le _)).mp hout
    have hroot := (current_of_explore hsearch).valid
    have hmem : ∀ {a}, a ∈ order ↔ db.RestsOn env root a := by
      intro a
      rw [restsOn_eq hvisit]
      apply hswept.mem_iff
      intro a b ha hb
      rw [← restsOn_eq hvisit] at ha hb
      exact eq_of_visitKey (ha.valid hroot) (hb.valid hroot)
    refine ⟨order, ⟨hswept.nodup.of_map _, hmem, fun a ha => (hall a ha).1,
      fun a ha => (hall a ha).2, by simpa using hcount, by simpa using hsum⟩, ?_⟩
    exact foldl_earliestExpiry order none

/-- When the releases may be consumed the search succeeds, and answers the earliest instant. -/
theorem ancestry_of_consumable {releases : List ResultBarrier}
    (h : db.Consumable env now root releases) :
    db.ancestry env visit join root now =
      .ok (releases.filterMap (db.expiry env now)).min? := by
  have hreads : ∀ order : List ResultBarrier, (order.map visitKey).Nodup →
      (∀ a ∈ order, ∃ p ∈ [root], ReflTransGen (fun a b => b ∈ db.parents env visit a) p a) →
      order.length ≤ maxReleases ∧
        ∃ out, sweep (db.ancestryTurn env visit now) order {} = .ok out := by
    intro order hnodup hreached
    have hsub : order ⊆ releases := by
      intro a ha
      obtain ⟨p, hp, hpa⟩ := hreached a ha
      rw [List.mem_singleton.mp hp, ← restsOn_eq hvisit] at hpa
      exact h.mem_iff.mpr hpa
    obtain ⟨part, hperm, hpart⟩ := List.subperm_of_subset (hnodup.of_map _) hsub
    refine ⟨?_, _, (sweep_ok hvisit (Nat.zero_le _)).mpr ⟨fun a ha => ⟨h.current a (hsub ha),
      h.descends a (hsub ha)⟩, ?_, rfl⟩⟩
    · rw [← hperm.length_eq]
      exact hpart.length_le.trans h.count
    · have hsum := (hpart.map fun a =>
        (db.memberRows a.reference.barrierId).length).sum_le_sum fun _ _ => Nat.zero_le _
      rw [(hperm.map _).sum_eq] at hsum
      have := h.members
      dsimp only
      omega
  have hsearch : ∃ out, explore visitKey maxReleases
      (.limit "barrier ancestry exceeds 64 releases") join (db.ancestryTurn env visit now) [] {}
      [root] = .ok out :=
    explore_complete hjoin ancestryTurn_next hreads [] rfl List.nodup_nil rfl
      fun a ha => ⟨a, ha, .refl⟩
  obtain ⟨out, hout⟩ := hsearch
  have hanswer : db.ancestry env visit join root now = .ok out.expiresUnixMs := by
    rw [ancestry, hout]
    rfl
  obtain ⟨order, horder, hexpires⟩ := consumable_of_ancestry hvisit hjoin hanswer
  rw [hanswer, hexpires]
  congr 1
  apply min?_congr
  intro t
  simp only [List.mem_filterMap, horder.mem_iff, h.mem_iff]

/-- The answer of a search is determined by what the release rests on. -/
theorem ancestry_ok :
    db.ancestry env visit join root now = .ok e ↔ ∃ releases,
      db.Consumable env now root releases ∧
        e = (releases.filterMap (db.expiry env now)).min? := by
  constructor
  · exact consumable_of_ancestry hvisit hjoin
  · rintro ⟨releases, h, rfl⟩
    exact ancestry_of_consumable hvisit hjoin h

end Search

end BarrierStore

open BarrierStore in
/-- **Consuming a release.** The search looks at no more than 64 distinct releases. It answers `Ok`
exactly when every release that the given one rests on, to any depth, passes its own check and was
released before the wave that consumed it, within the two limits; the answer is the earliest
instant at which the memory of one of them expires. One release that does not pass refuses the
whole. In whatever order members are read and prerequisites are taken up, the answer is the same. -/
theorem barrier_ancestry_complete (db : BarrierStore) (env : Outside)
    (reference : BarrierReleaseReference) (authority : VersionedReference) (config : Option String)
    (now : Int) :
    (db.lookedAt env (fun rows => rows) pushAll ⟨reference, authority, config⟩ now).length ≤ 64 ∧
    ((db.lookedAt env (fun rows => rows) pushAll ⟨reference, authority, config⟩ now).map
      visitKey).Nodup ∧
    (∀ e, db.requireCurrentReleaseValidUntil env reference authority config now = .ok e ↔
      ∃ releases, db.Consumable env now ⟨reference, authority, config⟩ releases ∧
        e = (releases.filterMap (db.expiry env now)).min?) ∧
    (∀ a, db.RestsOn env ⟨reference, authority, config⟩ a → ¬db.Current env now a →
      ∃ error, db.requireCurrentReleaseValidUntil env reference authority config now =
        .error error) ∧
    ∀ (visit : List MemberRow → List MemberRow)
      (join : List ResultBarrier → List ResultBarrier → List ResultBarrier),
      (∀ rows, (visit rows).Perm rows) →
      (∀ pending found b, b ∈ join pending found ↔ b ∈ pending ∨ b ∈ found) →
      ∀ e, db.ancestry env visit join ⟨reference, authority, config⟩ now = .ok e ↔
        db.requireCurrentReleaseValidUntil env reference authority config now = .ok e := by
  have hvisit : ∀ rows : List MemberRow, rows.Perm rows := fun rows => .refl rows
  have hjoin : ∀ (pending found : List ResultBarrier) (b : ResultBarrier),
      b ∈ pushAll pending found ↔ b ∈ pending ∨ b ∈ found := by
    intro pending found b
    rw [pushAll, List.mem_append, List.mem_reverse, Or.comm]
  obtain ⟨hcount, hdistinct⟩ := @lookedAt_bounded _ db env now (fun rows => rows) pushAll
    ⟨reference, authority, config⟩
  refine ⟨hcount, hdistinct, fun e => ancestry_ok hvisit hjoin, ?_, ?_⟩
  · intro a ha hrefused
    cases hanswer : db.requireCurrentReleaseValidUntil env reference authority config now with
    | error error => exact ⟨error, rfl⟩
    | ok e =>
      obtain ⟨releases, hreleases, -⟩ := consumable_of_ancestry hvisit hjoin hanswer
      exact absurd (hreleases.current a (hreleases.mem_iff.mpr ha)) hrefused
  · intro visit join hvisit' hjoin' e
    rw [ancestry_ok hvisit' hjoin']
    exact (ancestry_ok hvisit hjoin).symm

end Ancestry

/-! ## Two members that rest on one release -/

namespace Shared

def digestOf (c : Char) : String := String.ofList (List.replicate 64 c)

def authority : VersionedReference := ⟨"owner-approval-policy", 1, digestOf 'b'⟩

/-- The release that both members were reserved under. -/
def earlier : BarrierReleaseReference := ⟨1, digestOf '1', 10, digestOf '3'⟩

def later : BarrierReleaseReference := ⟨1, digestOf '2', 20, digestOf '4'⟩

def contract (task : String) : UntrustedContractDocument :=
  { Scoped.document task "src/" 0 with
    version := 2
    requiredBarrier := some earlier
    authority := authority }

@[reducible] def documents : Documents where
  decode raw :=
    if raw = [1] then some (contract "left") else if raw = [2] then some (contract "right") else none
  sha256 raw :=
    if raw = [1] then digestOf '5' else if raw = [2] then digestOf '6'
    else if raw = [3] then digestOf '3' else digestOf '4'
  executionPolicy _ := .ok ()

def release (barrierId : String) : BarrierReleaseAuthorization where
  schemaVersion := 1
  action := "release_barrier"
  projectStore := "/state.db"
  storeIncarnation := digestOf '7'
  authority := authority
  configDigest := digestOf '8'
  controlRevision := 1
  controlEpoch := 1
  expectedHead := 0
  barrierId := barrierId
  memoryManifestVersion := 2
  memoryManifestDigest := digestOf '9'
  requiredSetGeneration := 0
  releasePolicy := "all_members_ready_v1"
  issuedUnixMs := 0
  expiresUnixMs := 1

/-- The memory of the earlier barrier expires at 50, that of the later one at 70. -/
def outside : Outside where
  decode raw :=
    if raw = [3] then some (release (digestOf '1'))
    else if raw = [4] then some (release (digestOf '2')) else none
  canonicalPath path := .ok path
  configReference path := .ok ⟨path, some (digestOf '8')⟩
  ready barrier _ := .ok (some (if barrier.barrierId = digestOf '1' then 50 else 70))

def member (task attempt : String) : BarrierMember :=
  ⟨⟨task⟩, 1, ⟨attempt⟩, "result", "verification", none, []⟩

def inputs (task attempt digest : String) : AttemptInputRecord :=
  ⟨⟨attempt⟩, ⟨attempt⟩, { Sample.inputs with
    version := 2
    projectStore := "/state.db"
    task := ⟨task⟩
    taskContract := some ⟨task, 1, digest⟩
    config := ⟨"/config", some (digestOf '8')⟩ }⟩

section

attribute [local instance] documents

def install (raw : List UInt8) (contracts : Table InstalledContract InstalledContract.key) :
    Table InstalledContract InstalledContract.key :=
  match acceptContract raw with
  | .ok accepted => contracts.upsert ⟨accepted, 1⟩
  | .error _ => contracts

def db : BarrierStore where
  toStore := { Store.created "/state.db" with
    control := ⟨1, 1, .active, false, some (digestOf '8')⟩
    inputs := ⟨[inputs "left" "a" (digestOf '5'), inputs "right" "b" (digestOf '6')], by decide⟩ }
  contracts := install [2] (install [1] .empty)
  barriers := ⟨[⟨digestOf '1', 2, 0, digestOf '9', some 10, none, []⟩,
    ⟨digestOf '2', 2, 0, digestOf '9', some 20, none, [member "left" "a", member "right" "b"]⟩],
    by decide⟩
  authorizations := [⟨digestOf '1', digestOf '3', 10, [3]⟩, ⟨digestOf '2', digestOf '4', 20, [4]⟩]
  releases := [⟨10, digestOf '1', digestOf '3'⟩, ⟨20, digestOf '2', digestOf '4'⟩]
  requiredReleases := [⟨"a"⟩, ⟨"b"⟩]
  invalidations := []
  incarnation := digestOf '7'

/-- The later release is looked at first, then the one that both members rest on. -/
theorem db_valid_until :
    db.requireCurrentReleaseValidUntil outside later authority (some (digestOf '8')) 0 =
      .ok (some 50) := by
  have hlater : db.ancestryTurn outside (fun rows => rows) 0
      ⟨later, authority, some (digestOf '8')⟩ {} =
      .ok ([⟨earlier, authority, some (digestOf '8')⟩, ⟨earlier, authority, some (digestOf '8')⟩],
        ⟨2, some 70⟩) := by decide +kernel
  have hearlier : db.ancestryTurn outside (fun rows => rows) 0
      ⟨earlier, authority, some (digestOf '8')⟩ ⟨2, some 70⟩ = .ok ([], ⟨2, some 50⟩) := by
    decide +kernel
  have hne : BarrierStore.visitKey ⟨earlier, authority, some (digestOf '8')⟩ ≠
      BarrierStore.visitKey ⟨later, authority, some (digestOf '8')⟩ := by decide
  simp [BarrierStore.requireCurrentReleaseValidUntil, BarrierStore.ancestry, explore, hlater,
    hearlier, hne, BarrierStore.maxReleases, BarrierStore.pushAll, Except.map]

end

end Shared

/-- The theorem at two members that rest on one release, the prerequisites taken up last come
last. -/
theorem barrier_ancestry_complete_shared :
    letI := Shared.documents
    Shared.db.ancestry Shared.outside List.reverse (fun pending found => pending ++ found)
      ⟨Shared.later, Shared.authority, some (Shared.digestOf '8')⟩ 0 = .ok (some 50) := by
  let _ := Shared.documents
  obtain ⟨-, -, -, -, horder⟩ := barrier_ancestry_complete Shared.db Shared.outside Shared.later
    Shared.authority (some (Shared.digestOf '8')) 0
  exact (horder List.reverse (fun pending found => pending ++ found) List.reverse_perm
    (fun _ _ _ => List.mem_append) (some 50)).mpr Shared.db_valid_until

end Herdr.Barriers
