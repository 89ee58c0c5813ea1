import Mathlib
import Mathlib.Algebra.Order.BigOperators.Group.Finset
import Mathlib.Tactic.Ring
import Herdr.Runtime.FairAdmission

/-!
# Bounded waiting of the admission cursor

A key that waits has a position among the projects and one among the threads of its project. Work
of another project that is taken first moves the project forward; work of its own project moves
the thread forward, at the price of one full round of the projects.
-/

namespace Herdr.FairAdmission

variable {c : Cursor} {a b k : Key}

/-! ## The order -/

theorem Cursor.rank_injective (c : Cursor) : Function.Injective c.rank := by
  intro a b h
  have hpair := congrArg ofLex h
  have hproject : a.1 = b.1 := Rotation.rank_injective _ (congrArg Prod.fst hpair)
  have hthread := congrArg Prod.snd hpair
  simp only [Cursor.rank, hproject, ofLex_toLex] at hthread
  exact Prod.ext hproject (Rotation.rank_injective _ hthread)

theorem Cursor.pairRank_injective (c : Cursor) : Function.Injective c.pairRank := by
  intro a b h
  exact toLex.injective (Rotation.rank_injective _ h)

/-- An order that compares keys by an injective rank is total. -/
theorem cmp_total {α : Type} {β : Type} [LinearOrder β] {f : α → β} (hf : Function.Injective f) :
    (∀ a b, cmp (f a) (f b) = .eq ↔ a = b) ∧ (∀ a b, cmp (f b) (f a) = (cmp (f a) (f b)).swap) ∧
      ∀ a b d, cmp (f a) (f b) ≠ .gt → cmp (f b) (f d) ≠ .gt → cmp (f a) (f d) ≠ .gt := by
  refine ⟨fun a b => ?_, fun a b => (cmp_swap _ _).symm, fun a b d hab hbd => ?_⟩
  · rw [cmp_eq_eq_iff]
    exact hf.eq_iff
  · simp only [ne_eq, cmp_eq_gt_iff, not_lt] at hab hbd ⊢
    exact hab.trans hbd

/-- `compare` is a total order on keys. -/
theorem Cursor.compare_total (c : Cursor) :
    (∀ a b, c.compare a b = .eq ↔ a = b) ∧ (∀ a b, c.compare b a = (c.compare a b).swap) ∧
      ∀ a b d, c.compare a b ≠ .gt → c.compare b d ≠ .gt → c.compare a d ≠ .gt := by
  unfold Cursor.compare
  cases c.overflow with
  | true => exact cmp_total c.pairRank_injective
  | false => exact cmp_total c.rank_injective

/-- The first of the eligible keys comes before every other. -/
theorem Cursor.compare_first (h : c.compare a b ≠ .gt) (hne : a ≠ b) :
    if c.overflow then c.pairRank a < c.pairRank b else c.rank a < c.rank b := by
  unfold Cursor.compare at h
  split
  · next ho =>
    rw [if_pos ho, Ne, cmp_eq_gt_iff, not_lt] at h
    exact lt_of_le_of_ne h fun he => hne (c.pairRank_injective he)
  · next ho =>
    rw [if_neg ho, Ne, cmp_eq_gt_iff, not_lt] at h
    exact lt_of_le_of_ne h fun he => hne (c.rank_injective he)

/-! ## One acceptance -/

theorem Cursor.accepted_overflow (h : c.overflow = true) : (c.accepted a).overflow = true := by
  simp [Cursor.accepted, h]

@[simp] theorem Cursor.accepted_lastPair : (c.accepted a).lastPair = some a := rfl

@[simp] theorem Cursor.accepted_lastProject : (c.accepted a).lastProject = some a.1 := rfl

/-- While the history is kept it records the last thread of each project. -/
theorem Cursor.accepted_thread (h : (c.accepted a).overflow = false) (project : String) :
    (c.accepted a).thread project = if a.1 = project then some a.2 else c.thread project := by
  have hkept : (c.accepted a).threads = c.threads.upsert a := by
    unfold Cursor.accepted at h ⊢
    split
    · next hfull => simp [hfull] at h
    · next hfits =>
      simp only [if_neg hfits] at h
      simp [h]
  unfold Cursor.thread
  rw [hkept, Table.find_upsert]
  split <;> rfl

/-! ## Waiting -/

def projects (U : Finset Key) : Finset String := U.image Prod.fst

def threadsOf (U : Finset Key) (project : String) : Finset String :=
  (U.filter fun k => k.1 = project).image Prod.snd

variable {U : Finset Key} {T : Nat}

theorem mem_projects (h : k ∈ U) : k.1 ∈ projects U := Finset.mem_image_of_mem _ h

theorem mem_threadsOf (h : k ∈ U) : k.2 ∈ threadsOf U k.1 :=
  Finset.mem_image_of_mem _ (Finset.mem_filter.mpr ⟨h, rfl⟩)

/-- How many turns a key can wait: full rounds for the threads before it, and the projects before
its own; after an overflow, the pairs before it. -/
def Cursor.wait (c : Cursor) (U : Finset Key) (k : Key) : Nat :=
  if c.overflow then Rotation.position (c.lastPair.map toLex) (U.image toLex) (toLex k)
  else (Rotation.position (c.thread k.1) (threadsOf U k.1) k.2 - 1) * (projects U).card +
    Rotation.position c.lastProject (projects U) k.1

theorem Cursor.wait_pos (c : Cursor) (hk : k ∈ U) : 0 < c.wait U k := by
  unfold Cursor.wait
  split
  · exact Rotation.position_pos (Finset.mem_image_of_mem _ hk)
  · have hproject : 0 < Rotation.position c.lastProject (projects U) k.1 :=
      Rotation.position_pos (mem_projects hk)
    omega

theorem Cursor.wait_le (c : Cursor) (hT : ∀ p, (U.filter fun k => k.1 = p).card ≤ T) (hk : k ∈ U) :
    c.wait U k ≤ (projects U).card * T := by
  unfold Cursor.wait
  split
  · calc
      _ ≤ (U.image toLex).card := Rotation.position_le
      _ ≤ U.card := Finset.card_image_le
      _ ≤ T * (projects U).card := Finset.card_le_mul_card_image U T fun p _ => hT p
      _ = (projects U).card * T := Nat.mul_comm ..
  · have hthread : Rotation.position (c.thread k.1) (threadsOf U k.1) k.2 ≤ T :=
      Rotation.position_le.trans (Finset.card_image_le.trans (hT k.1))
    have hpos : 0 < Rotation.position (c.thread k.1) (threadsOf U k.1) k.2 :=
      Rotation.position_pos (mem_threadsOf hk)
    have hproject : Rotation.position c.lastProject (projects U) k.1 ≤ (projects U).card :=
      Rotation.position_le
    calc
      _ ≤ (T - 1) * (projects U).card + (projects U).card :=
        Nat.add_le_add (Nat.mul_le_mul_right _ (by omega)) hproject
      _ = (T - 1 + 1) * (projects U).card := by ring
      _ = (projects U).card * T := by rw [Nat.sub_add_cancel (by omega), Nat.mul_comm]

/-- **One turn.** Whatever is accepted before a key brings the key closer. -/
theorem Cursor.wait_accepted (ha : a ∈ U) (hk : k ∈ U) (hfirst : c.compare a k ≠ .gt)
    (hne : a ≠ k) (hmode : (c.accepted a).overflow = c.overflow) :
    (c.accepted a).wait U k < c.wait U k := by
  have hlt := Cursor.compare_first hfirst hne
  unfold Cursor.wait
  rw [hmode]
  split
  · next ho =>
    rw [if_pos ho] at hlt
    exact Rotation.position_served (Finset.mem_image_of_mem _ ha) hlt
  · next ho =>
    rw [if_neg ho] at hlt
    have hkept : (c.accepted a).overflow = false := by simpa [hmode] using ho
    rw [Cursor.accepted_thread hkept, Cursor.accepted_lastProject]
    rcases Prod.Lex.toLex_lt_toLex.mp hlt with hproject | ⟨hproject, hthread⟩
    · have hother : a.1 ≠ k.1 := fun he => by simp [he] at hproject
      rw [if_neg hother]
      have := Rotation.position_served (mem_projects ha) hproject
      omega
    · have hsame : a.1 = k.1 := Rotation.rank_injective _ hproject
      have hmem : a.2 ∈ threadsOf U k.1 := hsame ▸ mem_threadsOf ha
      rw [hsame] at hthread
      rw [if_pos hsame]
      have hcloser := Rotation.position_served hmem hthread
      have hround : Rotation.position (some a.1) (projects U) k.1 ≤ (projects U).card :=
        Rotation.position_le
      have hpos : 0 < Rotation.position c.lastProject (projects U) k.1 :=
        Rotation.position_pos (mem_projects hk)
      have hthreads : 0 < Rotation.position (some a.2) (threadsOf U k.1) k.2 :=
        Rotation.position_pos (mem_threadsOf hk)
      generalize Rotation.position (some a.2) (threadsOf U k.1) k.2 = n at hcloser hthreads ⊢
      generalize Rotation.position (c.thread k.1) (threadsOf U k.1) k.2 = m at hcloser ⊢
      calc
        _ ≤ (n - 1) * (projects U).card + (projects U).card := Nat.add_le_add_left hround _
        _ = (n - 1 + 1) * (projects U).card := by ring
        _ ≤ (m - 1) * (projects U).card := Nat.mul_le_mul_right _ (by omega)
        _ < _ := by omega

/-! ## Runs -/

/-- One step: some keys are eligible and one is accepted. -/
structure Turn where
  eligible : Finset Key
  key : Key

/-- A run in which each turn accepts the first of its eligible keys. -/
inductive Serves (U : Finset Key) : Cursor → List Turn → Prop
  | nil (c : Cursor) : Serves U c []
  | cons {c : Cursor} {turn : Turn} {turns : List Turn} (subset : turn.eligible ⊆ U)
    (mem : turn.key ∈ turn.eligible)
    (first : ∀ k ∈ turn.eligible, c.compare turn.key k ≠ .gt)
    (rest : Serves U (c.accepted turn.key) turns) : Serves U c (turn :: turns)

/-- The cursor after a list of keys was accepted. -/
def Cursor.after (c : Cursor) (keys : List Key) : Cursor := keys.foldl .accepted c

theorem Cursor.after_overflow {keys : List Key} (h : c.overflow = true) :
    (c.after keys).overflow = true := by
  induction keys generalizing c with
  | nil => exact h
  | cons key keys ih => exact ih (Cursor.accepted_overflow h)

/-- How often the history is dropped. -/
def Cursor.switches (c : Cursor) : List Key → Nat
  | [] => 0
  | key :: keys =>
    (if c.overflow = false ∧ (c.accepted key).overflow = true then 1 else 0) +
      (c.accepted key).switches keys

theorem Cursor.switches_overflow {keys : List Key} (h : c.overflow = true) :
    c.switches keys = 0 := by
  induction keys generalizing c with
  | nil => rfl
  | cons key keys ih => simp [Cursor.switches, h, ih (Cursor.accepted_overflow h)]

theorem Cursor.switches_le (c : Cursor) (keys : List Key) : c.switches keys ≤ 1 := by
  induction keys generalizing c with
  | nil => exact Nat.zero_le _
  | cons key keys ih =>
    unfold Cursor.switches
    split
    · next h => simp [Cursor.switches_overflow h.2]
    · simpa using ih _

/-- A run that begins and ends in one mode is in that mode throughout. -/
theorem Cursor.mode_accepted {keys : List Key} (h : (c.after (a :: keys)).overflow = c.overflow) :
    (c.accepted a).overflow = c.overflow := by
  cases hc : c.overflow with
  | true => exact Cursor.accepted_overflow hc
  | false =>
    rw [hc] at h
    rw [Bool.eq_false_iff]
    intro hover
    have hafter : ((c.accepted a).after keys).overflow = true := Cursor.after_overflow hover
    change ((c.accepted a).after keys).overflow = false at h
    rw [h] at hafter
    cases hafter

theorem Serves.served {turns : List Turn} {n : Nat} (h : Serves U c turns) (hk : k ∈ U)
    (heligible : ∀ turn ∈ turns, k ∈ turn.eligible)
    (hmode : (c.after (turns.map (·.key))).overflow = c.overflow) (hwait : c.wait U k ≤ n)
    (hlength : n ≤ turns.length) : ∃ turn ∈ turns.take n, turn.key = k := by
  induction h generalizing n with
  | nil c =>
    have := c.wait_pos hk
    simp only [List.length_nil, Nat.le_zero_eq] at hlength
    omega
  | @cons c turn turns hsubset hmem hfirst _ ih =>
    obtain ⟨n, rfl⟩ : ∃ m, n = m + 1 := by
      have := c.wait_pos hk
      exact ⟨n - 1, by omega⟩
    rw [List.take_succ_cons]
    by_cases hkey : turn.key = k
    · exact ⟨turn, List.mem_cons_self, hkey⟩
    · have hsame := Cursor.mode_accepted hmode
      have hcloser := Cursor.wait_accepted (hsubset hmem) hk
        (hfirst k (heligible turn List.mem_cons_self)) hkey hsame
      obtain ⟨served, hserved, he⟩ := ih (fun t ht => heligible t (List.mem_cons_of_mem _ ht))
        (hmode.trans hsame.symm) (by omega) (Nat.le_of_succ_le_succ hlength)
      exact ⟨served, List.mem_cons_of_mem _ hserved, he⟩

/-- **Bounded waiting.** In every state `compare` is a total order; a key that stays eligible is
accepted within as many turns as there are projects times threads, as long as the history is kept
throughout or was dropped before; and the history is dropped at most once. -/
theorem bounded_waiting (c : Cursor) :
    ((∀ a b, c.compare a b = .eq ↔ a = b) ∧ (∀ a b, c.compare b a = (c.compare a b).swap) ∧
      ∀ a b d, c.compare a b ≠ .gt → c.compare b d ≠ .gt → c.compare a d ≠ .gt) ∧
    (∀ (U : Finset Key) (T : Nat) (k : Key) (turns : List Turn),
      (∀ p, (U.filter fun k => k.1 = p).card ≤ T) → k ∈ U → Serves U c turns →
      (∀ turn ∈ turns, k ∈ turn.eligible) → (projects U).card * T ≤ turns.length →
      (c.overflow = true ∨ (c.after (turns.map (·.key))).overflow = false) →
      ∃ turn ∈ turns.take ((projects U).card * T), turn.key = k) ∧
    ∀ keys, c.switches keys ≤ 1 := by
  refine ⟨c.compare_total, ?_, c.switches_le⟩
  intro U T k turns hT hk hserves heligible hlength hmode
  refine hserves.served hk heligible ?_ (c.wait_le hT hk) hlength
  rcases hmode with hover | hkept
  · rw [hover]
    exact Cursor.after_overflow hover
  · rw [hkept, eq_comm, Bool.eq_false_iff]
    intro hover
    rw [Cursor.after_overflow hover] at hkept
    cases hkept

/-- A thread in each of two projects. -/
def twoProjects : Finset Key := {("left", "a"), ("right", "b")}

/-- The two projects take turns. -/
theorem bounded_waiting_twoProjects :
    ∃ turn ∈ [Turn.mk twoProjects ("left", "a"), Turn.mk twoProjects ("right", "b")].take
      ((projects twoProjects).card * 1), turn.key = ("right", "b") := by
  have hserves :
      Serves twoProjects {} [⟨twoProjects, ("left", "a")⟩, ⟨twoProjects, ("right", "b")⟩] :=
    .cons subset_rfl (by decide) (by decide +kernel)
      (.cons subset_rfl (by decide) (by decide +kernel) (.nil _))
  have hT : ∀ p, (twoProjects.filter fun k => k.1 = p).card ≤ 1 := by
    intro p
    rw [Finset.card_le_one]
    have hdistinct : ∀ a ∈ twoProjects, ∀ b ∈ twoProjects, a.1 = b.1 → a = b := by decide
    intro a ha b hb
    obtain ⟨ha, hpa⟩ := Finset.mem_filter.mp ha
    obtain ⟨hb, hpb⟩ := Finset.mem_filter.mp hb
    exact hdistinct a ha b hb (hpa.trans hpb.symm)
  exact (bounded_waiting {}).2.1 twoProjects 1 ("right", "b") _ hT (by decide) hserves
    (by simp [twoProjects]) (by decide) (.inr (by decide +kernel))

end Herdr.FairAdmission
