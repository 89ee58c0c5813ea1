import Herdr.Runtime.FairAdmission

/-!
# Project rounds are fair

While a project waits in the served set, the set is not cleared twice: after the first clearing the
project is not in it, and it stays eligible, so the next time that everything eligible was served
is after its own turn.
-/

namespace Herdr.FairAdmission

/-- One call of `select`: the served set it found, its argument and its answer. -/
structure RoundTurn where
  served : List String
  eligible : List (Nat × String)
  index : Option Nat

/-- The turns of a run of `select`. -/
def ProjectRound.turns (served : List String) : List (List (Nat × String)) → List RoundTurn
  | [] => []
  | eligible :: rest =>
    match select served eligible with
    | none => ⟨served, eligible, none⟩ :: turns served rest
    | some (index, served') => ⟨served, eligible, some index⟩ :: turns served' rest

namespace RoundTurn

variable (t : RoundTurn)

/-- The turn clears the served set: all that is eligible was served. -/
def clears : Bool := !t.eligible.isEmpty && t.eligible.all fun e => t.served.contains e.2

/-- The turn selects a project: the index it answers is one of the project's. -/
def selects (project : String) : Bool :=
  t.index.any fun index => t.eligible.contains (index, project)

end RoundTurn

namespace ProjectRound

variable {served : List String} {eligible : List (Nat × String)} {p q : String}

/-- What a call does: nothing, or it serves the first project that was not served since the last
clearing. -/
theorem select_cases (served : List String) (eligible : List (Nat × String)) :
    (eligible = [] ∧ select served eligible = none) ∨
    ∃ e ∈ eligible, ∃ kept,
      ((kept = [] ∧ ∀ e ∈ eligible, e.2 ∈ served) ∨ (kept = served ∧ ∃ e ∈ eligible, e.2 ∉ served)) ∧
      e.2 ∉ kept ∧ select served eligible = some (e.1, kept ++ [e.2]) := by
  by_cases hempty : eligible = []
  · exact .inl ⟨hempty, by rw [hempty]; rfl⟩
  right
  have hselect : ∀ kept : List String,
      (if eligible.all fun e => served.contains e.2 then [] else served) = kept →
      (∃ e ∈ eligible, e.2 ∉ kept) →
      ∃ e ∈ eligible, e.2 ∉ kept ∧ select served eligible = some (e.1, kept ++ [e.2]) := by
    intro kept hkept ⟨a, ha, hnot⟩
    cases hmin : (eligible.filter fun e => !kept.contains e.2).argmin Prod.fst with
    | none =>
      rw [List.argmin_eq_none, List.filter_eq_nil_iff] at hmin
      exact absurd (by simpa using hnot) (hmin a ha)
    | some e =>
      obtain ⟨he, hfresh⟩ := List.mem_filter.mp (List.argmin_mem hmin)
      refine ⟨e, he, by simpa using hfresh, ?_⟩
      rw [select, if_neg (by simpa using hempty)]
      dsimp only
      rw [hkept, hmin]
      rfl
  by_cases hall : ∀ e ∈ eligible, e.2 ∈ served
  · obtain ⟨a, ha⟩ := List.exists_mem_of_ne_nil _ hempty
    obtain ⟨e, he, hfresh, heq⟩ :=
      hselect [] (if_pos (by simpa using hall)) ⟨a, ha, List.not_mem_nil⟩
    exact ⟨e, he, [], .inl ⟨rfl, hall⟩, hfresh, heq⟩
  · have hsome : ∃ e ∈ eligible, e.2 ∉ served := by simpa using hall
    obtain ⟨e, he, hfresh, heq⟩ := hselect served (if_neg (by simpa using hsome)) hsome
    exact ⟨e, he, served, .inr ⟨rfl, hsome⟩, hfresh, heq⟩

/-- The run of a call and the calls after it. -/
theorem turns_cons (served : List String) (eligible : List (Nat × String)) :
    ∃ index served', (∀ rest, turns served (eligible :: rest) =
        ⟨served, eligible, index⟩ :: turns served' rest) ∧
      ((eligible = [] ∧ index = none ∧ served' = served) ∨
        ∃ e ∈ eligible, index = some e.1 ∧ ∃ kept, served' = kept ++ [e.2] ∧ e.2 ∉ kept ∧
          ((kept = [] ∧ ∀ e ∈ eligible, e.2 ∈ served) ∨
            (kept = served ∧ ∃ e ∈ eligible, e.2 ∉ served))) := by
  rcases select_cases served eligible with ⟨hempty, hselect⟩ | ⟨e, he, kept, hkept, hfresh, hselect⟩
  · refine ⟨none, served, fun rest => ?_, .inl ⟨hempty, rfl, rfl⟩⟩
    rw [turns, hselect]
  · refine ⟨some e.1, kept ++ [e.2], fun rest => ?_, .inr ⟨e, he, rfl, kept, rfl, hfresh, hkept⟩⟩
    rw [turns, hselect]

/-- With distinct indices the answer names one project. -/
theorem selects_iff (hdistinct : (eligible.map Prod.fst).Nodup) {e : Nat × String}
    (he : e ∈ eligible) : (⟨served, eligible, some e.1⟩ : RoundTurn).selects p = true ↔ e.2 = p := by
  simp only [RoundTurn.selects, Option.any_some, List.contains_iff_mem]
  constructor
  · intro hp
    have heq := List.inj_on_of_nodup_map hdistinct he hp rfl
    rw [heq]
  · rintro rfl
    exact he

/-- A turn on served projects only is a clearing. -/
theorem clears_of_all {index : Option Nat} (hne : eligible ≠ [])
    (hall : ∀ e ∈ eligible, e.2 ∈ served) :
    (⟨served, eligible, index⟩ : RoundTurn).clears = true := by
  rw [RoundTurn.clears, Bool.and_eq_true]
  exact ⟨by simpa using hne, by simpa using hall⟩

/-- How often `p` may still be served before a project that was `waiting` is. -/
def allowance (served : List String) (p q : String) : Nat :=
  (if q ∈ served then 1 else 0) + if p ∈ served then 0 else 1

/-- **The bound.** The clearing that ends `q`'s wait lets `p` be served once more, and each turn of
`q` starts the count again. -/
theorem count_le (hne : p ≠ q) {calls : List (List (Nat × String))}
    (hdistinct : ∀ eligible ∈ calls, (eligible.map Prod.fst).Nodup)
    (hq : ∀ eligible ∈ calls, ∃ e ∈ eligible, e.2 = q) :
    (turns served calls).countP (·.selects p) ≤
      2 * (turns served calls).countP (·.selects q) + allowance served p q := by
  induction calls generalizing served with
  | nil => exact Nat.zero_le _
  | cons eligible rest ih =>
    obtain ⟨index, served', hturns, hcase⟩ := turns_cons served eligible
    have hdis := hdistinct eligible List.mem_cons_self
    have hrest := @ih served' (fun l hl => hdistinct l (List.mem_cons_of_mem _ hl))
      fun l hl => hq l (List.mem_cons_of_mem _ hl)
    obtain ⟨a, ha, rfl⟩ := hq eligible List.mem_cons_self
    obtain ⟨hempty, -, -⟩ | ⟨e, he, rfl, kept, rfl, hfresh, hkept⟩ := hcase
    · rw [hempty] at ha
      cases ha
    rw [hturns, List.countP_cons, List.countP_cons]
    simp only [selects_iff hdis he]
    unfold allowance at hrest ⊢
    -- the set is cleared only when the waiting project is in it
    rcases hkept with ⟨rfl, hall⟩ | ⟨rfl, -⟩
    · have hserved := hall a ha
      simp only [List.nil_append, List.mem_singleton, hserved, if_true] at hrest ⊢
      by_cases hp : e.2 = p
      · subst hp
        simp only [if_true, if_neg hne, if_neg (Ne.symm hne)] at hrest ⊢
        omega
      · by_cases hq : e.2 = a.2
        · simp only [hq, if_true, if_neg hne, if_neg (Ne.symm hne)] at hrest ⊢
          omega
        · simp only [if_neg hp, if_neg hq, if_neg (Ne.symm hp), if_neg (Ne.symm hq)] at hrest ⊢
          omega
    · simp only [List.mem_append, List.mem_singleton] at hrest
      by_cases hp : e.2 = p
      · subst hp
        simp only [if_true, if_neg hne, if_neg hfresh, or_true, Ne.symm hne, or_false] at hrest ⊢
        omega
      · by_cases hq : e.2 = a.2
        · rw [hq] at hfresh
          simp only [hq, if_true, if_neg (Ne.symm hne), if_neg hfresh, or_true, hne,
            or_false] at hrest ⊢
          omega
        · simp only [if_neg hp, if_neg hq, Ne.symm hp, Ne.symm hq, or_false] at hrest ⊢
          omega

/-- A project in the served set is not selected until the set is cleared. -/
theorem not_selected {calls : List (List (Nat × String))} (hp : p ∈ served)
    (hdistinct : ∀ eligible ∈ calls, (eligible.map Prod.fst).Nodup)
    (hkept : ∀ t ∈ turns served calls, t.clears = false) :
    ∀ t ∈ turns served calls, t.selects p = false := by
  induction calls generalizing served with
  | nil => exact nofun
  | cons eligible rest ih =>
    obtain ⟨index, served', hturns, hcase⟩ := turns_cons served eligible
    rw [hturns] at hkept ⊢
    have hrest : p ∈ served' → ∀ t ∈ turns served' rest, t.selects p = false := fun hp' =>
      ih hp' (fun l hl => hdistinct l (List.mem_cons_of_mem _ hl))
        fun t ht => hkept t (List.mem_cons_of_mem _ ht)
    obtain ⟨-, rfl, rfl⟩ | ⟨e, he, rfl, kept, rfl, hfresh, hcase⟩ := hcase
    · exact List.forall_mem_cons.mpr ⟨rfl, hrest hp⟩
    have hkept : kept = served := by
      rcases hcase with ⟨-, hall⟩ | ⟨hkept, -⟩
      · have hno := hkept _ List.mem_cons_self
        rw [clears_of_all (List.ne_nil_of_mem he) hall] at hno
        cases hno
      · exact hkept
    subst hkept
    refine List.forall_mem_cons.mpr ⟨?_, hrest (List.mem_append_left _ hp)⟩
    rw [Bool.eq_false_iff, Ne, selects_iff (hdistinct eligible List.mem_cons_self) he]
    rintro rfl
    exact hfresh hp

/-- Every call has its turn. -/
theorem exists_turn {calls : List (List (Nat × String))} (h : eligible ∈ calls) :
    ∃ t ∈ turns served calls, t.eligible = eligible := by
  induction calls generalizing served with
  | nil => cases h
  | cons first rest ih =>
    obtain ⟨index, served', hturns, -⟩ := turns_cons served first
    rw [hturns]
    rcases List.mem_cons.mp h with rfl | h
    · exact ⟨_, List.mem_cons_self, rfl⟩
    · obtain ⟨t, ht, he⟩ := @ih served' h
      exact ⟨t, List.mem_cons_of_mem _ ht, he⟩

/-- A part of a run is a run. -/
theorem turns_eq_append {calls : List (List (Nat × String))} {pre post : List RoundTurn}
    (h : turns served calls = pre ++ post) : ∃ first rest served', calls = first ++ rest ∧
      turns served first = pre ∧ turns served' rest = post := by
  induction pre generalizing served calls with
  | nil => exact ⟨[], calls, served, rfl, rfl, h⟩
  | cons t pre ih =>
    cases calls with
    | nil => cases h
    | cons eligible rest =>
      obtain ⟨index, served', hturns, -⟩ := turns_cons served eligible
      rw [hturns, List.cons_append] at h
      obtain ⟨ht, h⟩ := List.cons.inj h
      obtain ⟨first, rest', served'', rfl, hfirst, hrest⟩ := ih h
      exact ⟨eligible :: first, rest', served'', rfl, by rw [hturns, hfirst, ht], hrest⟩

/-- **A round.** A call on a nonempty list answers an index of the list. A project that is selected
again was cleared from the served set since; and while it waits with its project eligible in every
call, no other project is selected more than twice. -/
theorem project_rounds_fair (served : List String) {calls : List (List (Nat × String))}
    (hdistinct : ∀ eligible ∈ calls, (eligible.map Prod.fst).Nodup) :
    (∀ t ∈ turns served calls, (t.index = none ↔ t.eligible = []) ∧
      ∀ i, t.index = some i → ∃ p, (i, p) ∈ t.eligible ∧ t.selects p = true ∧
        (t.clears = true ∨ p ∉ t.served)) ∧
    ∀ pre a mid b post q, turns served calls = pre ++ a :: (mid ++ b :: post) →
      a.selects q = true → b.selects q = true →
      (∃ t ∈ mid ++ [b], t.clears = true) ∧
      ((∀ t ∈ mid, ∃ e ∈ t.eligible, e.2 = q) → ∀ p ≠ q,
        ((∀ t ∈ mid, t.selects q = false) → mid.countP (·.selects p) ≤ 2) ∧
        mid.countP (·.selects p) ≤ 2 * (mid.countP (·.selects q) + 1)) := by
  constructor
  · induction calls generalizing served with
    | nil => exact nofun
    | cons eligible rest ih =>
      obtain ⟨index, served', hturns, hcase⟩ := turns_cons served eligible
      rw [hturns]
      refine List.forall_mem_cons.mpr
        ⟨?_, ih served' fun l hl => hdistinct l (List.mem_cons_of_mem _ hl)⟩
      obtain ⟨rfl, rfl, -⟩ | ⟨e, he, rfl, kept, -, hfresh, hkept⟩ := hcase
      · exact ⟨by simp, nofun⟩
      · refine ⟨by simpa using List.ne_nil_of_mem he, fun i hi => ?_⟩
        cases hi
        refine ⟨e.2, he, (selects_iff (hdistinct eligible List.mem_cons_self) he).mpr rfl, ?_⟩
        rcases hkept with ⟨-, hall⟩ | ⟨rfl, -⟩
        · exact .inl (clears_of_all (List.ne_nil_of_mem he) hall)
        · exact .inr hfresh
  · intro pre a mid b post q hrun ha hb
    obtain ⟨first, rest, served₁, rfl, -, hrest⟩ := turns_eq_append hrun
    cases rest with
    | nil => cases hrest
    | cons eligible rest =>
      have hdis : ∀ l ∈ eligible :: rest, (l.map Prod.fst).Nodup := fun l hl =>
        hdistinct l (List.mem_append_right _ hl)
      obtain ⟨index, served₂, hturns, hcase⟩ := turns_cons served₁ eligible
      rw [hturns] at hrest
      obtain ⟨rfl, htail⟩ := List.cons.inj hrest
      obtain ⟨calls, last, served₃, rfl, hmid, -⟩ := turns_eq_append htail
      have hdis' : ∀ l ∈ calls ++ last, (l.map Prod.fst).Nodup := fun l hl =>
        hdis l (List.mem_cons_of_mem _ hl)
      refine ⟨?_, fun hq p hp => ?_⟩
      · -- the project that was selected stays served until a clearing
        have hserved : q ∈ served₂ := by
          obtain ⟨-, rfl, -⟩ | ⟨e, he, rfl, kept, rfl, -⟩ := hcase
          · cases ha
          · rw [selects_iff (hdis _ List.mem_cons_self) he] at ha
            exact List.mem_append_right _ (List.mem_singleton.mpr ha.symm)
        by_contra hno
        have hprefix : turns served₂ (calls ++ last) = (mid ++ [b]) ++ post := by
          rw [htail, List.append_assoc, List.singleton_append]
        obtain ⟨calls', last', _, hcalls, hpart, -⟩ := turns_eq_append hprefix
        have hkept : ∀ t ∈ turns served₂ calls', t.clears = false := by
          intro t ht
          rw [hpart] at ht
          exact Bool.eq_false_iff.mpr fun hclears => hno ⟨t, ht, hclears⟩
        have hnot := not_selected hserved
          (fun l hl => hdis' l (hcalls ▸ List.mem_append_left _ hl)) hkept b
          (by rw [hpart]; exact List.mem_append_right _ (List.mem_singleton_self b))
        rw [hb] at hnot
        cases hnot
      · have hle := @count_le served₂ p q hp calls
          (fun l hl => hdis' l (List.mem_append_left _ hl)) ?_
        · rw [hmid] at hle
          have hallowed : allowance served₂ p q ≤ 2 := by
            unfold allowance
            split <;> split <;> omega
          refine ⟨fun hnone => ?_, by omega⟩
          have hzero : mid.countP (·.selects q) = 0 :=
            List.countP_eq_zero.mpr fun t ht => by simp [hnone t ht]
          omega
        · intro l hl
          obtain ⟨t, ht, rfl⟩ : ∃ t ∈ mid, t.eligible = l := by
            rw [← hmid]
            exact exists_turn hl
          exact hq t ht

/-- The first project waits while the second is served once. -/
theorem project_rounds_fair_two :
    let calls := [[(0, "left"), (1, "right")], [(0, "left"), (1, "right")],
      [(0, "left"), (1, "right")]]
    (turns [] calls).map (·.index) = [some 0, some 1, some 0] ∧
      ∀ t ∈ turns [] calls, t.index = none ↔ t.eligible = [] := by
  refine ⟨by decide +kernel, fun t ht => ?_⟩
  exact ((project_rounds_fair [] (by decide)).1 t ht).1

end ProjectRound

end Herdr.FairAdmission
