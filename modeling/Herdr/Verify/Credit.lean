import Herdr.Lib.Fraction
import Herdr.Verify.Resolutions
import Mathlib.Tactic.IntervalCases

/-!
# Role credit is exact

`shares` accepts fractions whose denominators divide the credit unit, each contributor once, and
together at most one. The share rows of a history row are those of one accepted request, so every
role of every replayed finding splits one exactly into what is allocated and what is not.
-/

namespace Herdr.Findings

open Watermark

variable {db db' : Ledgers} {specs : List CreditShareSpec} {total units : Nat}

/-! ## Accepted shares -/

/-- A fraction in (0, 1] with a denominator of 1 to 16. -/
structure CreditShareSpec.Valid (s : CreditShareSpec) : Prop where
  den_pos : 1 ≤ s.den
  den_le : s.den ≤ 16
  num_pos : 0 < s.num
  num_le : s.num ≤ s.den

/-- Every admitted denominator divides the credit unit. -/
theorem den_dvd_creditUnit {n : Nat} (hpos : 1 ≤ n) (hle : n ≤ 16) : n ∣ creditUnit := by
  interval_cases n <;> decide

theorem CreditShareSpec.Valid.units_eq {s : CreditShareSpec} (h : s.Valid) :
    (s.units : ℚ) / creditUnit = s.num / s.den := by
  obtain ⟨k, hk⟩ := den_dvd_creditUnit h.den_pos h.den_le
  have hden : (s.den : ℚ) ≠ 0 := Nat.cast_ne_zero.mpr (Nat.ne_of_gt h.den_pos)
  have hunit : ((creditUnit : ℕ) : ℚ) ≠ 0 := Nat.cast_ne_zero.mpr (by decide)
  have hmul : s.units * s.den = s.num * creditUnit := by
    rw [CreditShareSpec.units, hk, Nat.mul_div_cancel_left k h.den_pos]
    ring
  rw [div_eq_div_iff hunit hden]
  exact_mod_cast hmul

theorem CreditShareSpec.Valid.units_le {s : CreditShareSpec} (h : s.Valid) :
    s.units ≤ creditUnit :=
  (Nat.mul_le_mul_right _ h.num_le).trans (Nat.mul_div_le _ _)

/-- What the loop has checked when it ends. -/
theorem sharesFrom_ok {seen : List String} {start : Nat}
    (h : sharesFrom seen start specs = .ok total) :
    total = start + (specs.map (·.units)).sum ∧ total ≤ creditUnit ∧
      (∀ s ∈ specs, s.Valid) ∧ (specs.map (·.attemptId)).Nodup ∧
        ∀ s ∈ specs, s.attemptId ∉ seen := by
  induction specs generalizing seen start with
  | nil =>
    rw [sharesFrom] at h
    split at h
    · cases h
    · next hle =>
      cases h
      exact ⟨rfl, Nat.not_lt.mp hle, by simp, List.nodup_nil, by simp⟩
  | cons s rest ih =>
    rw [sharesFrom] at h
    split at h
    · cases h
    · next hseen =>
      split at h
      · cases h
      · next hrange =>
        simp only [not_or, not_not, not_lt] at hrange
        obtain ⟨⟨hpos, hle⟩, hnum, hfraction⟩ := hrange
        obtain ⟨hsum, hbound, hvalid, hnodup, hnew⟩ := ih h
        refine ⟨?_, hbound, ?_, ?_, ?_⟩
        · rw [hsum, List.map_cons, List.sum_cons, Nat.add_assoc]
        · intro t ht
          rcases List.mem_cons.mp ht with rfl | ht
          · exact ⟨hpos, hle, Nat.pos_of_ne_zero hnum, hfraction⟩
          · exact hvalid t ht
        · refine List.nodup_cons.mpr ⟨fun hmem => ?_, hnodup⟩
          obtain ⟨t, ht, hid⟩ := List.mem_map.mp hmem
          exact hnew t ht (hid ▸ List.mem_cons_self)
        · intro t ht
          rcases List.mem_cons.mp ht with rfl | ht
          · exact hseen
          · exact fun hold => hnew t ht (List.mem_cons_of_mem _ hold)

/-- What `shares` accepts. -/
theorem shares_ok (h : shares specs = .ok total) :
    total = (specs.map (·.units)).sum ∧ total ≤ creditUnit ∧ (∀ s ∈ specs, s.Valid) ∧
      (specs.map (·.attemptId)).Nodup := by
  rw [shares] at h
  split at h
  · cases h
  · obtain ⟨hsum, hbound, hvalid, hnodup, -⟩ := sharesFrom_ok h
    exact ⟨by rw [hsum, Nat.zero_add], hbound, hvalid, hnodup⟩

/-- The running total of an accepted request fits in an unsigned word at every turn. -/
theorem running_total_fits (h : shares specs = .ok total) (turns : Nat) :
    ((specs.take turns).map (·.units)).sum < 2 ^ 64 := by
  obtain ⟨hsum, hbound, -, -⟩ := shares_ok h
  have hsplit : ((specs.take turns).map (·.units)).sum + ((specs.drop turns).map (·.units)).sum =
      (specs.map (·.units)).sum := by
    rw [← List.sum_append, ← List.map_append, List.take_append_drop]
  have hfits : creditUnit < 2 ^ 64 := by decide
  omega

theorem Accepted.nil : Accepted [] := ⟨0, by decide⟩

/-! ## The text of a credit -/

theorem creditText_eq (units : Nat) :
    creditText units = Fraction.text ((units : ℚ) / creditUnit) := by
  have hpos : 0 < units.gcd creditUnit := Nat.gcd_pos_of_pos_right _ (by decide)
  have hunit : creditUnit ≠ 0 := by decide
  rw [creditText, Nat.max_eq_left hpos, Fraction.text_div hunit]

theorem read_creditText (units : Nat) :
    Fraction.read (creditText units) = (units : ℚ) / creditUnit := by
  rw [creditText_eq]
  exact Fraction.read_text (div_nonneg (Nat.cast_nonneg _) (Nat.cast_nonneg _))

/-! ## A role -/

/-- A share's text is the exact fraction of the unit. -/
def CreditShare.Exact (s : CreditShare) : Prop :=
  s.share = Fraction.text ((s.units : ℚ) / creditUnit)

/-- The credit of a role is split exactly, and each contributor appears once. -/
structure RoleCredit.Exact (r : RoleCredit) : Prop where
  bounded : r.allocatedUnits ≤ creditUnit
  sum : r.allocatedUnits = (r.shares.map (·.units)).sum
  shares : ∀ s ∈ r.shares, s.Exact
  contributors : (r.shares.map (·.contributor)).Nodup
  allocated : r.allocated = Fraction.text ((r.allocatedUnits : ℚ) / creditUnit)
  whole : Fraction.read r.allocated + Fraction.read r.unallocated = 1

theorem roleCredit_exact {policy : String} {source : Option Int} {list : List CreditShare}
    {reason : Option String} (hbound : (list.map (·.units)).sum ≤ creditUnit)
    (hexact : ∀ s ∈ list, s.Exact) (hnodup : (list.map (·.contributor)).Nodup) :
    (roleCredit policy source list reason).Exact := by
  refine ⟨hbound, rfl, hexact, hnodup, creditText_eq _, ?_⟩
  have hunit : ((creditUnit : ℕ) : ℚ) ≠ 0 := Nat.cast_ne_zero.mpr (by decide)
  change Fraction.read (creditText _) + Fraction.read (creditText _) = 1
  rw [read_creditText, read_creditText, Nat.cast_sub hbound, ← add_div, add_sub_cancel,
    div_self hunit]

/-- One contributor holds the whole credit. -/
theorem whole_exact {policy : String} {source : Option Int} {reason : Option String}
    (contributor : String) (attempt : Option String) :
    (roleCredit policy source [db.whole contributor attempt] reason).Exact := by
  refine roleCredit_exact le_rfl (fun s hs => ?_) (List.nodup_singleton _)
  obtain rfl := List.mem_singleton.mp hs
  change "1" = Fraction.text ((creditUnit : ℚ) / creditUnit)
  rw [← creditText_eq]
  decide

/-- No contributor holds any. -/
theorem none_exact {policy : String} {source : Option Int} {reason : Option String} :
    (roleCredit policy source [] reason).Exact :=
  roleCredit_exact (Nat.zero_le _) (by simp) List.nodup_nil

/-! ## The share rows of a history row -/

/-- The share rows of every history row are those of an accepted request. -/
structure FairShares (db : Ledgers) : Prop where
  accepted : ∀ seq, Accepted (db.shares.filter (·.seq = seq))
  logged : ∀ s ∈ db.shares, s.seq ≤ db.head

theorem FairShares.empty : FairShares .empty := ⟨fun _ => .nil, by simp [Ledgers.empty]⟩

/-- Neither the share rows nor any sequence number of an older one moves. -/
theorem FairShares.kept (hf : FairShares db) (g : Grows db db') (hsame : db'.shares = db.shares) :
    FairShares db' := by
  refine ⟨fun seq => ?_, fun s hs => ?_⟩
  · rw [hsame]
    exact hf.accepted seq
  · rw [hsame] at hs
    exact (hf.logged s hs).trans g.head_le

/-- The rows of a new history row are added. -/
theorem FairShares.add (hf : FairShares db) (g : Grows db db') {rows : List ShareRow} {seq : Int}
    (hadd : db'.shares = db.shares ++ rows) (hseq : seq = db.head + 1) (hhead : seq ≤ db'.head)
    (hrows : ∀ s ∈ rows, s.seq = seq) (haccepted : Accepted rows) : FairShares db' := by
  refine ⟨fun k => ?_, fun s hs => ?_⟩
  · rw [hadd, List.filter_append]
    by_cases hk : k = seq
    · -- no older row has the new sequence number
      have hold : db.shares.filter (·.seq = k) = [] := by
        refine List.filter_eq_nil_iff.mpr fun s hs => ?_
        have := hf.logged s hs
        simp only [decide_eq_true_eq]
        omega
      have hnew : rows.filter (·.seq = k) = rows :=
        List.filter_eq_self.mpr fun s hs => decide_eq_true ((hrows s hs).trans hk.symm)
      rw [hold, hnew, List.nil_append]
      exact haccepted
    · have hnew : rows.filter (·.seq = k) = [] := by
        refine List.filter_eq_nil_iff.mpr fun s hs hsk => hk ?_
        rw [← of_decide_eq_true hsk, hrows s hs]
      rw [hnew, List.append_nil]
      exact hf.accepted k
  · rw [hadd] at hs
    rcases List.mem_append.mp hs with hs | hs
    · exact (hf.logged s hs).trans g.head_le
    · exact (hrows s hs).trans_le hhead

/-- A row of `fix_log` is not above the head. -/
theorem fixLog_le_head {l : LedgerRow FixKind} (hl : l ∈ db.fixLog) : l.seq ≤ db.head := by
  have hle := le_maxOf (List.mem_map_of_mem (f := fun l : LedgerRow FixKind => l.seq) hl)
  unfold Ledgers.head
  omega

theorem Effect.fairShares (e : Effect db db') (hf : FairShares db) : FairShares db' := by
  have g := e.grows
  cases e with
  | introduced hrow _ _ hshares _ haccepted =>
    exact hf.add g rfl hrow (fixLog_le_head (List.mem_append_right _ (List.mem_singleton_self _)))
      hshares haccepted
  | credited hrow _ _ hshares _ haccepted =>
    exact hf.add g rfl hrow (fixLog_le_head (List.mem_append_right _ (List.mem_singleton_self _)))
      hshares haccepted
  | _ => exact hf.kept g rfl

theorem Effects.fairShares (e : Effects db db') (hf : FairShares db) : FairShares db' := by
  induction e with
  | refl => exact hf
  | tail _ e ih => exact e.fairShares ih

/-- The shares that a history row gives are exact and sum to at most the unit. -/
theorem loadShares_exact (hf : FairShares db) (seq : Int) {policy : String} {source : Option Int}
    {reason : Option String} : (roleCredit policy source (db.loadShares seq) reason).Exact := by
  obtain ⟨total, htotal⟩ := hf.accepted seq
  obtain ⟨hsum, hbound, hvalid, hnodup⟩ := shares_ok htotal
  set rows := (db.shares.filter (·.seq = seq)).insertionSort fun a b => a.attemptId ≤ b.attemptId
    with hrows
  have hperm : rows.Perm (db.shares.filter (·.seq = seq)) := List.perm_insertionSort _ _
  have hunits : ∀ s ∈ rows, s.shareNum * (creditUnit / max s.shareDen 1) = s.spec.units := by
    intro s hs
    have hv := hvalid _ (List.mem_map_of_mem (hperm.mem_iff.mp hs))
    have hmax : max s.shareDen 1 = s.shareDen := Nat.max_eq_left hv.den_pos
    rw [hmax]
    rfl
  refine roleCredit_exact ?_ ?_ ?_
  · have hmap : (db.loadShares seq).map (·.units) = rows.map fun s => s.spec.units := by
      rw [Ledgers.loadShares, List.map_map]
      exact List.map_congr_left hunits
    rw [hmap, (hperm.map _).sum_eq]
    rw [hsum, List.map_map] at hbound
    exact hbound
  · intro s hs
    obtain ⟨row, -, rfl⟩ := List.mem_map.mp hs
    exact creditText_eq _
  · have hmap : (db.loadShares seq).map (·.contributor) =
        (rows.map (·.attemptId)).map fun attempt => s!"attempt:{attempt}" := by
      rw [Ledgers.loadShares, List.map_map, List.map_map]
      rfl
    rw [hmap]
    refine List.Nodup.map (fun a b hab => ?_) ?_
    · exact (String.append_right_inj _).mp hab
    · rw [(hperm.map _).nodup_iff]
      rw [List.map_map] at hnodup
      exact hnodup

/-! ## A finding -/

/-- The role credits of a finding. -/
def FindingFixState.credits (f : FindingFixState) : List RoleCredit :=
  f.discovery.toList ++ f.validation.toList ++ f.implementation.toList ++
    f.verification.toList ++ f.integration.toList ++ (f.introduction.map (·.credit)).toList

theorem discoveryCredit_exact (hf : FairShares db) (mark : Int) (id : String)
    (s : SubmissionState) : (db.discoveryCredit mark id s).Exact := by
  rw [Ledgers.discoveryCredit]
  split
  · exact loadShares_exact hf _
  · exact whole_exact _ _

theorem validationCredit_exact (triage : FindingState) (claim : Int) (s : SubmissionState) :
    (db.validationCredit triage claim s).Exact := whole_exact _ _

theorem implementationCredit_exact (hf : FairShares db) (mark : Int) (id : String)
    (repair : RepairState) (proposal : ProposalState) :
    (db.implementationCredit mark id repair proposal).Exact := by
  rw [Ledgers.implementationCredit]
  split
  · exact loadShares_exact hf _
  · split
    · split
      · exact whole_exact _ _
      · exact none_exact
    · exact none_exact

theorem introductionCredit_exact (hf : FairShares db) (mark : Int) (id : String)
    (detection : Option String) : (db.introductionCredit mark id detection).credit.Exact := by
  rw [Ledgers.introductionCredit]
  split
  · exact none_exact
  · exact loadShares_exact hf _

theorem findingFixState_exact (hf : FairShares db) (mark : Int) (triage : FindingState)
    (repairs : List RepairState) (group : FindingGroupState) :
    ∀ r ∈ (db.findingFixState mark triage repairs group).credits, r.Exact := by
  intro r hr
  simp only [FindingFixState.credits, Ledgers.findingFixState, List.mem_append,
    Option.mem_toList, Option.map_eq_some_iff, Option.bind_eq_some_iff] at hr
  rcases hr with ((((hr | hr) | hr) | hr) | hr) | hr
  · obtain ⟨d, -, rfl⟩ := hr
    exact discoveryCredit_exact hf ..
  · obtain ⟨d, -, rfl⟩ := hr
    exact validationCredit_exact ..
  · obtain ⟨p, -, rfl⟩ := hr
    exact implementationCredit_exact hf ..
  · obtain ⟨p, -, v, -, rfl⟩ := hr
    exact whole_exact _ _
  · obtain ⟨p, -, i, -, rfl⟩ := hr
    exact whole_exact _ _
  · obtain ⟨i, hi, rfl⟩ := hr
    split at hi
    · cases hi
      exact introductionCredit_exact hf ..
    · cases hi

theorem fixState_exact (hf : FairShares db) {asOf : Option Int} {state : FixState}
    (h : db.fixState asOf = .ok state) : ∀ f ∈ state.findings, ∀ r ∈ f.credits, r.Exact := by
  obtain ⟨triage, -, hstate⟩ := Except.bind_ok.mp h
  obtain ⟨history, -, hstate⟩ := Except.bind_ok.mp hstate
  cases hstate
  intro f hmem
  obtain ⟨group, -, rfl⟩ := List.mem_map.mp hmem
  exact findingFixState_exact hf _ _ _ _

/-- **Role credit is exact and never exceeds one.** Accepted shares are exact fractions of the
credit unit with a running total that fits; the text of a credit is its reduced fraction; and after
every history of calls, at every watermark, every role of every finding splits one exactly, with
each contributor once. -/
theorem role_credit_exact [TitleExcerpt] :
    (∀ specs total, shares specs = .ok total →
      (∀ s ∈ specs, (s.units : ℚ) / creditUnit = s.num / s.den) ∧
        total = (specs.map (·.units)).sum ∧ total ≤ creditUnit ∧
          ∀ turns, ((specs.take turns).map (·.units)).sum < 2 ^ 64) ∧
    (∀ units, creditText units = Fraction.text ((units : ℚ) / creditUnit) ∧
      Fraction.read (creditText units) = (units : ℚ) / creditUnit) ∧
    ∀ (calls : List Call) (asOf : Option Int) (state : FixState),
      (after calls .empty).fixState asOf = .ok state →
        ∀ f ∈ state.findings, ∀ r ∈ f.credits, r.Exact := by
  refine ⟨fun specs total h => ?_, fun units => ?_, fun calls asOf state h => ?_⟩
  · obtain ⟨hsum, hbound, hvalid, -⟩ := shares_ok h
    exact ⟨fun s hs => (hvalid s hs).units_eq, hsum, hbound, running_total_fits h⟩
  · exact ⟨creditText_eq units, read_creditText units⟩
  · exact fixState_exact ((after_effects calls .empty).fairShares .empty) h

end Herdr.Findings
