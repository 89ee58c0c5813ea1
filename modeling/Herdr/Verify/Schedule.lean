import Mathlib.Tactic.Ring
import Herdr.Lib.Windows
import Herdr.Runtime.Schedule

/-!
# Due windows are exact

An interval schedule has a slot for each number `k ≥ 0`; a daily schedule has one for each civil
date. A window is exact when it names the first and the last instant due and counts the slots.
-/

namespace Herdr.Routine

open Windows

variable {zone : Zone} {seconds start after now hour minute : Int}

/-- The answer of `due_window` says what is due. -/
def Matches {ι : Type} (f : ι → ℤ) (after now : Int) : Option DueWindow → Prop
  | none => due f after now = ∅
  | some w => Exact f after now w.firstUnixMs w.lastUnixMs w.slots

theorem check_ok {p : Prop} [Decidable p] {e : ScheduleError} (h : p) : check p e = .ok () :=
  if_pos h

theorem check_iff {p : Prop} [Decidable p] {e : ScheduleError} {u : Unit} :
    check p e = .ok u ↔ p := by
  unfold check
  split
  · next h => exact ⟨fun _ => h, fun _ => rfl⟩
  · next h => exact ⟨nofun, fun hp => absurd hp h⟩

theorem except_bind_ok {ε α β : Type} {x : Except ε α} {f : α → Except ε β} {b : β} :
    (x >>= f) = .ok b ↔ ∃ a, x = .ok a ∧ f a = .ok b := by
  cases x with
  | error e => exact ⟨nofun, fun ⟨_, h, _⟩ => nomatch h⟩
  | ok a => exact ⟨fun h => ⟨a, rfl, h⟩, fun ⟨_, h, hf⟩ => by cases h; exact hf⟩

/-! ## Intervals -/

/-- The instants of an interval schedule. -/
def everySlot (seconds start : Int) (k : {k : ℤ | 0 ≤ k}) : ℤ := start + 1000 * seconds * k

theorem le_everySlot (hs : 0 < seconds) (k : {k : ℤ | 0 ≤ k}) : start ≤ everySlot seconds start k := by
  have hk : 0 ≤ (1000 * seconds) * k.1 := mul_nonneg (by omega) k.2
  unfold everySlot
  omega

/-- Ceiling division by a positive step. -/
theorem ceil_le_iff {x step k : Int} (hstep : 0 < step) :
    (x + step - 1) / step ≤ k ↔ x ≤ k * step := by
  rw [← Int.lt_add_one_iff, Int.ediv_lt_iff_lt_mul hstep, Int.add_mul, Int.one_mul]
  omega

/-- The slots that are due are those between a ceiling and a floor. -/
theorem due_everySlot (hs : 0 < seconds) :
    due (everySlot seconds start) after now = {k | (max after (start - 1) + 1 - start +
      seconds * 1000 - 1) / (seconds * 1000) ≤ k.1 ∧ k.1 ≤ (now - start) / (seconds * 1000)} := by
  have hstep : 0 < seconds * 1000 := by omega
  ext k
  have hle : start ≤ everySlot seconds start k := le_everySlot hs k
  have hslot : everySlot seconds start k = start + k.1 * (seconds * 1000) := by
    unfold everySlot
    ring
  simp only [due, Set.mem_ofPred_eq, ceil_le_iff hstep, Int.le_ediv_iff_mul_le hstep]
  omega

theorem toI64_ok {n : Int} (h : -i64Max - 1 ≤ n ∧ n ≤ i64Max) : toI64 n = .ok n := if_pos h

theorem toU64_ok {n : Int} (h : 0 ≤ n ∧ n < 2 ^ 64) : toU64 n = .ok n.toNat := if_pos h

/-- **An interval's window is exact**, and none of its conversions fails. -/
theorem everyWindow_ok (hs : 0 < seconds) (hstart : 0 ≤ start) (hle : start ≤ now)
    (hmax : now ≤ i64Max) : ∃ r, everyWindow seconds start after now = .ok r ∧
      Matches (everySlot seconds start) after now r := by
  have hstep : 0 < seconds * 1000 := by omega
  have hdue : due (everySlot seconds start) after now = _ := due_everySlot hs
  simp only [everyWindow]
  rw [Int.tdiv_eq_ediv_of_nonneg (by omega), Int.tdiv_eq_ediv_of_nonneg (by omega)]
  generalize ha : (max after (start - 1) + 1 - start + seconds * 1000 - 1) / (seconds * 1000) = a
    at hdue ⊢
  generalize hb : (now - start) / (seconds * 1000) = b at hdue ⊢
  have ha0 : 0 ≤ a := ha ▸ Int.ediv_nonneg (by omega) hstep.le
  have hb0 : 0 ≤ b := hb ▸ Int.ediv_nonneg (by omega) hstep.le
  have hbnow : b * (seconds * 1000) ≤ now - start :=
    (Int.le_ediv_iff_mul_le hstep).mp (hb ▸ le_rfl)
  have hbb : b ≤ b * (seconds * 1000) := le_mul_of_one_le_right hb0 (by omega)
  have hspan : ∀ x y : Int, x * (seconds * 1000) < y * (seconds * 1000) ↔ x < y := fun x y =>
    mul_lt_mul_iff_left₀ hstep
  rw [check_ok hs]
  by_cases hlt : b < a
  · refine ⟨none, ?_, ?_⟩
    · have := (hspan b a).mpr hlt
      exact if_pos (by omega)
    · change due _ _ _ = ∅
      rw [hdue, Set.eq_empty_iff_forall_notMem]
      rintro k ⟨hak, hkb⟩
      omega
  · have hab : a * (seconds * 1000) ≤ b * (seconds * 1000) :=
      mul_le_mul_of_nonneg_right (by omega) hstep.le
    have haa : 0 ≤ a * (seconds * 1000) := mul_nonneg ha0 hstep.le
    have hdiv : (start + b * (seconds * 1000) - (start + a * (seconds * 1000))).tdiv
        (seconds * 1000) = b - a := by
      rw [show start + b * (seconds * 1000) - (start + a * (seconds * 1000)) =
        (b - a) * (seconds * 1000) by ring, Int.mul_tdiv_cancel _ hstep.ne']
    refine ⟨some ⟨start + a * (seconds * 1000), start + b * (seconds * 1000), (b - a + 1).toNat⟩,
      ?_, ?_⟩
    · have hnot : ¬start + b * (seconds * 1000) < start + a * (seconds * 1000) := by omega
      have hi : i64Max = 9223372036854775807 := rfl
      simp only [hdiv]
      rw [if_neg hnot, toI64_ok (by omega), toI64_ok (by omega), toU64_ok (by omega)]
      rfl
    · have hmono : Monotone fun k : ℤ => start + k * (seconds * 1000) := fun x y hxy =>
        Int.add_le_add_left (mul_le_mul_of_nonneg_right hxy hstep.le) start
      refine exact_Icc hmono (not_lt.mp hlt) (fun k => ?_) (fun k hk => ha0.trans hk.1) hdue
      unfold everySlot
      ring

/-- The guards of `due_window` on its start, and on a reading of its clock, an `i64`. -/
structure Accepts (zone : Zone) (t : Int) : Prop where
  nonneg : 0 ≤ t
  le_max : t ≤ i64Max
  timestamp : zone.timestamp t = true

theorem dueWindow_eq {schedule : Schedule} (hstart : Accepts zone start) (hafter : -1 ≤ after)
    (hnow : Accepts zone now) : dueWindow zone schedule start after now =
      if now < start ∨ now ≤ after then .ok none
      else match schedule with
        | .every seconds => everyWindow seconds start after now
        | .daily hour minute => dailyWindow zone hour minute start after now := by
  unfold dueWindow
  rw [check_ok ⟨hstart.nonneg, hafter, hnow.nonneg⟩, check_ok hstart.timestamp,
    check_ok hnow.timestamp]
  rfl

theorem dueWindow_every (hs : 0 < seconds) (hstart : Accepts zone start) (hafter : -1 ≤ after)
    (hnow : Accepts zone now) : ∃ r, dueWindow zone (.every seconds) start after now = .ok r ∧
      Matches (everySlot seconds start) after now r := by
  rw [dueWindow_eq hstart hafter hnow]
  split
  · next hearly =>
    refine ⟨none, rfl, ?_⟩
    change due _ _ _ = ∅
    rw [Set.eq_empty_iff_forall_notMem]
    rintro k ⟨hk, hknow⟩
    have hle : start ≤ everySlot seconds start k := le_everySlot hs k
    omega
  · next hlate => exact everyWindow_ok hs hstart.nonneg (by omega) hnow.le_max

/-- What windows say of the slots that they were asked for. -/
structure Partition {ι : Type} (f : ι → ℤ) (after : Int) (nows : List Int)
    (windows : List DueWindow) : Prop where
  later : ∀ w ∈ windows, after < w.firstUnixMs ∧ w.firstUnixMs ≤ w.lastUnixMs
  disjoint : windows.Pairwise fun v w => v.lastUnixMs < w.firstUnixMs
  covers : ∀ i, after < f i → (∃ now ∈ nows, f i ≤ now) →
    ∃ w ∈ windows, w.firstUnixMs ≤ f i ∧ f i ≤ w.lastUnixMs

/-- The instants of a window. -/
def DueWindow.span (w : DueWindow) : ℤ × ℤ := (w.firstUnixMs, w.lastUnixMs)

theorem Partition.of_chain {ι : Type} {f : ι → ℤ} {nows : List Int} {windows : List DueWindow}
    (h : Chain f after nows (windows.map DueWindow.span)) : Partition f after nows windows := by
  refine ⟨fun w hw => h.after_lt w.span (List.mem_map_of_mem hw), List.pairwise_map.mp h.disjoint,
    fun i hafter hnow => ?_⟩
  obtain ⟨_, hspan, hin⟩ := h.covers hafter hnow
  obtain ⟨w, hw, rfl⟩ := List.mem_map.mp hspan
  exact ⟨w, hw, hin⟩

theorem dueWindows_every (hs : 0 < seconds) (hstart : Accepts zone start) {nows : List Int}
    (hafter : -1 ≤ after) (hnows : ∀ now ∈ nows, Accepts zone now) :
    ∃ windows, dueWindows zone (.every seconds) start after nows = .ok windows ∧
      Chain (everySlot seconds start) after nows (windows.map DueWindow.span) := by
  induction nows generalizing after with
  | nil => exact ⟨[], rfl, .nil _⟩
  | cons now nows ih =>
    obtain ⟨hnow, hrest⟩ := List.forall_mem_cons.mp hnows
    obtain ⟨r, hr, hmatches⟩ := dueWindow_every hs hstart hafter hnow
    unfold dueWindows
    rw [hr]
    cases r with
    | none =>
      obtain ⟨windows, hwindows, hchain⟩ := ih hafter hrest
      exact ⟨windows, hwindows, .none hmatches hchain⟩
    | some w =>
      have hexact : Exact (everySlot seconds start) after now w.firstUnixMs w.lastUnixMs w.slots :=
        hmatches
      have hbounds := hexact.bounds
      obtain ⟨windows, hwindows, hchain⟩ := @ih w.lastUnixMs (by omega) hrest
      refine ⟨w :: windows, ?_, .some hexact hchain⟩
      change (dueWindows zone (.every seconds) start w.lastUnixMs nows >>= fun more =>
        Except.ok (w :: more)) = _
      rw [hwindows]
      rfl

/-- **Intervals produce every slot exactly once.** A window is `none` when nothing is due, and
otherwise it names the first and the last instant and counts the slots; and the windows of a
cursor share no slot and leave none out, up to the last reading. -/
theorem interval_windows_exact (hs : 0 < seconds) (hstart : Accepts zone start) :
    (∀ after now, -1 ≤ after → Accepts zone now →
      ∃ r, dueWindow zone (.every seconds) start after now = .ok r ∧
        Matches (everySlot seconds start) after now r) ∧
    ∀ after nows, -1 ≤ after → (∀ now ∈ nows, Accepts zone now) →
      ∃ windows, dueWindows zone (.every seconds) start after nows = .ok windows ∧
        Partition (everySlot seconds start) after nows windows := by
  refine ⟨fun after now hafter hnow => dueWindow_every hs hstart hafter hnow,
    fun after nows hafter hnows => ?_⟩
  obtain ⟨windows, hwindows, hchain⟩ := dueWindows_every hs hstart hafter hnows
  exact ⟨windows, hwindows, .of_chain hchain⟩

/-- A zone whose dates are those of universal time. -/
def utc : Zone where
  timestamp t := -377705023201000 ≤ t ∧ t ≤ 253402207200999
  minDate := -4371587
  maxDate := 2932896
  dateOf t := max (-4371587) (min 2932896 (t / 86400000))
  dateOf_mem t := by omega
  instant hour minute d := d * 86400000 + (hour * 60 + minute) * 60000
  instant_mono hour minute d e h := by omega

theorem interval_windows_exact_hourly :
    ∃ windows, dueWindows utc (.every 3600) 0 (-1) [0, 3600000, 9000000] = .ok windows ∧
      Partition (everySlot 3600 0) (-1) [0, 3600000, 9000000] windows :=
  (interval_windows_exact (by decide) ⟨by decide, by decide, by decide⟩).2 (-1) _ (by decide)
    (by
      intro now hnow
      simp only [List.mem_cons, List.not_mem_nil, or_false] at hnow
      rcases hnow with rfl | rfl | rfl <;> exact ⟨by decide, by decide, by decide⟩)

/-! ## Daily schedules -/

/-- The civil dates there are. -/
abbrev Zone.Date (zone : Zone) : Set ℤ := {d | zone.minDate ≤ d ∧ d ≤ zone.maxDate}

/-- The instants of a daily schedule. -/
def dailySlot (zone : Zone) (hour minute : Int) (d : zone.Date) : ℤ := zone.instant hour minute d

theorem yesterday_ok {date previous : Int} (h : zone.yesterday date = .ok previous) :
    zone.minDate < date ∧ previous = date - 1 := by
  unfold Zone.yesterday at h
  split at h
  · next hlt =>
    cases h
    exact ⟨hlt, rfl⟩
  · cases h

theorem tomorrow_ok {date next : Int} (h : zone.tomorrow date = .ok next) :
    date < zone.maxDate ∧ next = date + 1 := by
  unfold Zone.tomorrow at h
  split at h
  · next hlt =>
    cases h
    exact ⟨hlt, rfl⟩
  · cases h

section Searches

variable {at_ : Int → Int} {lower : Int} {n : Nat} {date found : Int}

theorem searchBack_mem (h : searchBack zone at_ lower n date = .ok found)
    (hdate : date ∈ zone.Date) : found ∈ zone.Date := by
  induction n generalizing date with
  | zero =>
    cases h
    exact hdate
  | succ n ih =>
    obtain ⟨previous, hprevious, h⟩ := except_bind_ok.mp h
    obtain ⟨hlt, rfl⟩ := yesterday_ok hprevious
    split at h
    · cases h
      exact hdate
    · exact ih h ⟨by omega, by have := hdate.2; omega⟩

theorem searchForward_mem (h : searchForward zone at_ lower n date = .ok found)
    (hdate : date ∈ zone.Date) : found ∈ zone.Date := by
  induction n generalizing date with
  | zero =>
    cases h
    exact hdate
  | succ n ih =>
    unfold searchForward at h
    split at h
    · cases h
      exact hdate
    · obtain ⟨next, hnext, h⟩ := except_bind_ok.mp h
      obtain ⟨hlt, rfl⟩ := tomorrow_ok hnext
      exact ih h ⟨by have := hdate.1; omega, by omega⟩

/-- The last search passes over dates in the future alone. -/
theorem searchLast_ok
    (h : searchLast zone at_ now n date = .ok found) (hdate : date ∈ zone.Date) :
    found ∈ zone.Date ∧ found ≤ date ∧ ∀ d, found < d → d ≤ date → now < at_ d := by
  induction n generalizing date with
  | zero =>
    cases h
    exact ⟨hdate, le_rfl, fun d hlt hle => absurd hle (by omega)⟩
  | succ n ih =>
    unfold searchLast at h
    split at h
    · cases h
      exact ⟨hdate, le_rfl, fun d hlt hle => absurd hle (by omega)⟩
    · next hfuture =>
      obtain ⟨previous, hprevious, h⟩ := except_bind_ok.mp h
      obtain ⟨hlt, rfl⟩ := yesterday_ok hprevious
      obtain ⟨hmem, hle, hpassed⟩ := ih h ⟨by omega, by have := hdate.2; omega⟩
      refine ⟨hmem, by omega, fun d hd hdate => ?_⟩
      rcases Int.lt_or_eq_of_le hdate with hlt | rfl
      · exact hpassed d hd (by omega)
      · omega

end Searches

/-- What the searches of the daily arm found. -/
structure DailyDates (zone : Zone) (hour minute start after now first last : Int) : Prop where
  first_mem : first ∈ zone.Date
  last_mem : last ∈ zone.Date
  first_due : max start (after + 1) ≤ zone.instant hour minute first
  first_least : zone.instant hour minute (first - 1) < max start (after + 1)
  last_due : zone.instant hour minute last ≤ now
  last_le : last ≤ zone.dateOf now
  last_greatest : ∀ d, last < d → d ≤ zone.dateOf now → now < zone.instant hour minute d

theorem dailyWindow_ok {r : Option DueWindow}
    (h : dailyWindow zone hour minute start after now = .ok r) : ∃ first last,
      DailyDates zone hour minute start after now first last ∧
      ((last < first ∧ r = none) ∨ (first ≤ last ∧ r = some ⟨zone.instant hour minute first,
        zone.instant hour minute last, (last - first + 1).toNat⟩)) := by
  simp only [dailyWindow, except_bind_ok, check_iff] at h
  obtain ⟨_, -, _, -, _, -, back, hback, first, hfirst, last, hlast, previous, hprevious, _,
    ⟨hdue, hleast, hlate⟩, h⟩ := h
  obtain ⟨hmin, rfl⟩ := yesterday_ok hprevious
  have hback := searchBack_mem hback (zone.dateOf_mem _)
  have hfirst := searchForward_mem hfirst hback
  obtain ⟨hmem, hle, hpassed⟩ := searchLast_ok hlast
    (zone.dateOf_mem now)
  refine ⟨first, last, ⟨hfirst, hmem, hdue, hleast, hlate, hle, hpassed⟩, ?_⟩
  split at h
  · next hlt =>
    cases h
    exact .inl ⟨hlt, rfl⟩
  · next hge =>
    have hge : first ≤ last := by omega
    have hmono := zone.instant_mono hour minute hge
    have hnot : ¬(now < zone.instant hour minute first ∨ zone.instant hour minute last < start ∨
        zone.instant hour minute last < zone.instant hour minute first) := by omega
    rw [if_neg hnot] at h
    obtain ⟨days, hdays, h⟩ := except_bind_ok.mp h
    unfold toU64 at hdays
    split at hdays
    · cases hdays
      cases h
      refine .inr ⟨hge, ?_⟩
      have hcount : (last - first).toNat + 1 = (last - first + 1).toNat := by omega
      rw [hcount]
    · cases hdays

/-- No date after the civil date of the reading is due. -/
def NoLaterDate (zone : Zone) (hour minute start after now : Int) : Prop :=
  ∀ d ∈ zone.Date, zone.dateOf now < d → max start (after + 1) ≤ zone.instant hour minute d →
    now < zone.instant hour minute d

section Dates

variable {first last : Int}

theorem DailyDates.due_iff (h : DailyDates zone hour minute start after now first last)
    (d : zone.Date) : d ∈ due (dailySlot zone hour minute) (max (start - 1) after) now ↔
      first ≤ d.1 ∧ zone.instant hour minute d ≤ now := by
  have hlower : ∀ t : ℤ, max (start - 1) after < t ↔ max start (after + 1) ≤ t := by
    intro t
    omega
  change max (start - 1) after < zone.instant hour minute d ∧ _ ↔ _
  rw [hlower]
  constructor
  · rintro ⟨hdue, hnow⟩
    refine ⟨?_, hnow⟩
    by_contra hlt
    have := zone.instant_mono hour minute (show d.1 ≤ first - 1 by omega)
    have := h.first_least
    omega
  · rintro ⟨hle, hnow⟩
    exact ⟨h.first_due.trans (zone.instant_mono hour minute hle), hnow⟩

/-- With no later date due, what is due is what the searches found. -/
theorem DailyDates.due_eq (h : DailyDates zone hour minute start after now first last)
    (hcond : NoLaterDate zone hour minute start after now) :
    due (dailySlot zone hour minute) (max (start - 1) after) now =
      {d | first ≤ d.1 ∧ d.1 ≤ last} := by
  ext d
  rw [h.due_iff]
  constructor
  · rintro ⟨hle, hnow⟩
    refine ⟨hle, ?_⟩
    by_contra hlt
    by_cases hdate : d.1 ≤ zone.dateOf now
    · have := h.last_greatest d.1 (by omega) hdate
      omega
    · have := hcond d.1 d.2 (by omega)
        (h.first_due.trans (zone.instant_mono hour minute hle))
      omega
  · rintro ⟨hle, hlast⟩
    exact ⟨hle, (zone.instant_mono hour minute hlast).trans h.last_due⟩

/-- A later date that is due makes more slots than the searches found. -/
theorem DailyDates.missed (h : DailyDates zone hour minute start after now first last)
    (hcond : ¬NoLaterDate zone hour minute start after now) : ∃ d : zone.Date, last < d.1 ∧
      {e : zone.Date | first ≤ e.1 ∧ e.1 ≤ d.1} ⊆
        due (dailySlot zone hour minute) (max (start - 1) after) now ∧ first ≤ d.1 := by
  unfold NoLaterDate at hcond
  push Not at hcond
  obtain ⟨d, hd, hlate, hdue, hnow⟩ := hcond
  have hfirst : first ≤ d := by
    by_contra hlt
    have := zone.instant_mono hour minute (show d ≤ first - 1 by omega)
    have := h.first_least
    omega
  have := h.last_le
  refine ⟨⟨d, hd⟩, by change last < d; omega, ?_, hfirst⟩
  rintro e ⟨hle, hed⟩
  exact (h.due_iff e).mpr ⟨hle, (zone.instant_mono hour minute hed).trans hnow⟩

/-- What is between two civil dates is a civil date. -/
theorem Icc_subset_date {d e : Int} (hd : d ∈ zone.Date) (he : e ∈ zone.Date) :
    Set.Icc d e ⊆ zone.Date :=
  fun _ hx => ⟨hd.1.trans hx.1, hx.2.trans he.2⟩

theorem date_finite (D : Set zone.Date) : D.Finite := by
  have : Finite zone.Date := (Set.finite_Icc zone.minDate zone.maxDate).to_subtype
  exact Set.toFinite D

theorem DailyDates.matches_iff (h : DailyDates zone hour minute start after now first last)
    {r : Option DueWindow} (hr : (last < first ∧ r = none) ∨ (first ≤ last ∧
      r = some ⟨zone.instant hour minute first, zone.instant hour minute last,
        (last - first + 1).toNat⟩)) :
    Matches (dailySlot zone hour minute) (max (start - 1) after) now r ↔
      NoLaterDate zone hour minute start after now := by
  constructor
  · intro hmatches
    by_contra hcond
    obtain ⟨d, hlast, hmissed, hfirst⟩ := h.missed hcond
    rcases hr with ⟨-, rfl⟩ | ⟨hle, rfl⟩
    · have hmem := hmissed ⟨hfirst, le_rfl⟩
      have hempty : due (dailySlot zone hour minute) (max (start - 1) after) now = ∅ := hmatches
      rw [hempty] at hmem
      exact hmem
    · have hexact : Exact (dailySlot zone hour minute) (max (start - 1) after) now _ _
        (last - first + 1).toNat := hmatches
      have hcard := Set.ncard_le_ncard hmissed (date_finite _)
      rw [ncard_Icc (Icc_subset_date h.first_mem d.2), hexact.count] at hcard
      omega
  · intro hcond
    have hdue := h.due_eq hcond
    rcases hr with ⟨hlt, rfl⟩ | ⟨hle, rfl⟩
    · change due _ _ _ = ∅
      rw [hdue, Set.eq_empty_iff_forall_notMem]
      rintro d ⟨hd, hd'⟩
      omega
    · exact exact_Icc (fun d e hde => zone.instant_mono hour minute hde) hle (fun _ => rfl)
        (Icc_subset_date h.first_mem h.last_mem) hdue

end Dates

/-- The daily arm is reached when the reading is neither before the start nor passed. -/
theorem dueWindow_daily_ok {r : Option DueWindow}
    (h : dueWindow zone (.daily hour minute) start after now = .ok r) :
    (r = none ∧ now < max start (after + 1)) ∨
      dailyWindow zone hour minute start after now = .ok r := by
  simp only [dueWindow, except_bind_ok, check_iff] at h
  obtain ⟨_, -, _, -, _, -, h⟩ := h
  split at h
  · next hearly =>
    cases h
    exact .inl ⟨rfl, by omega⟩
  · exact .inr h

/-- **Daily windows.** A window says what is due exactly when no date after the civil date of the
reading is due. -/
theorem dueWindow_daily_iff {r : Option DueWindow}
    (h : dueWindow zone (.daily hour minute) start after now = .ok r) :
    Matches (dailySlot zone hour minute) (max (start - 1) after) now r ↔
      NoLaterDate zone hour minute start after now := by
  rcases dueWindow_daily_ok h with ⟨rfl, hearly⟩ | h
  · refine iff_of_true ?_ fun d _ _ hdue => by omega
    change due _ _ _ = ∅
    rw [Set.eq_empty_iff_forall_notMem]
    rintro d ⟨hd, hnow⟩
    omega
  · obtain ⟨first, last, hdates, hr⟩ := dailyWindow_ok h
    exact hdates.matches_iff hr

/-- A window starts with the first instant due, whatever it ends with. -/
theorem dueWindow_daily_first {w : DueWindow}
    (h : dueWindow zone (.daily hour minute) start after now = .ok (some w)) :
    max (start - 1) after < w.firstUnixMs ∧ w.firstUnixMs ≤ w.lastUnixMs ∧
      ∀ d, max (start - 1) after < dailySlot zone hour minute d →
        w.firstUnixMs ≤ dailySlot zone hour minute d := by
  rcases dueWindow_daily_ok h with ⟨hnone, -⟩ | h
  · cases hnone
  · obtain ⟨first, last, hdates, ⟨-, hnone⟩ | ⟨hle, hw⟩⟩ := dailyWindow_ok h
    · cases hnone
    · cases hw
      have hdue := hdates.first_due
      refine ⟨by change _ < zone.instant hour minute first; omega,
        zone.instant_mono hour minute hle, fun d hd => ?_⟩
      refine zone.instant_mono hour minute ?_
      by_contra hlt
      have := zone.instant_mono hour minute (show d.1 ≤ first - 1 by omega)
      have := hdates.first_least
      change _ < zone.instant hour minute d at hd
      omega

/-- What the windows of a cursor say, whatever the zone does: no instant is in two of them, and
none is left out before the last one. -/
structure Succession {ι : Type} (f : ι → ℤ) (after : Int) (windows : List DueWindow) : Prop where
  later : ∀ w ∈ windows, after < w.firstUnixMs ∧ w.firstUnixMs ≤ w.lastUnixMs
  disjoint : windows.Pairwise fun v w => v.lastUnixMs < w.firstUnixMs
  covers : ∀ i, after < f i → (∃ w ∈ windows, f i ≤ w.lastUnixMs) →
    ∃ w ∈ windows, w.firstUnixMs ≤ f i ∧ f i ≤ w.lastUnixMs

theorem dueWindows_daily {nows : List Int} {windows : List DueWindow}
    (h : dueWindows zone (.daily hour minute) start after nows = .ok windows) :
    Succession (dailySlot zone hour minute) (max (start - 1) after) windows := by
  induction nows generalizing after windows with
  | nil =>
    cases h
    exact ⟨by simp, .nil, by simp⟩
  | cons now nows ih =>
    obtain ⟨r, hr, h⟩ := except_bind_ok.mp h
    cases r with
    | none => exact ih h
    | some w =>
      obtain ⟨more, hmore, h⟩ := except_bind_ok.mp h
      cases h
      obtain ⟨hlt, hle, hfirst⟩ := dueWindow_daily_first hr
      have hrest := ih hmore
      have hcursor : max (start - 1) w.lastUnixMs = w.lastUnixMs := by omega
      rw [hcursor] at hrest
      refine ⟨List.forall_mem_cons.mpr ⟨⟨hlt, hle⟩, fun v hv => ?_⟩,
        .cons (fun v hv => (hrest.later v hv).1) hrest.disjoint, fun d hd hcovered => ?_⟩
      · obtain ⟨hafter, hv⟩ := hrest.later v hv
        exact ⟨by omega, hv⟩
      · by_cases hin : dailySlot zone hour minute d ≤ w.lastUnixMs
        · exact ⟨w, List.mem_cons_self, hfirst d hd, hin⟩
        · obtain ⟨v, hv, hdv⟩ := hcovered
          rcases List.mem_cons.mp hv with rfl | hv
          · exact absurd hdv hin
          · obtain ⟨u, hu, hin⟩ := hrest.covers d (by omega) ⟨v, hv, hdv⟩
            exact ⟨u, List.mem_cons_of_mem _ hu, hin⟩

/-- **Daily windows equal enumerated slots** exactly where no date after the civil date of the
reading is due; and the windows of a cursor never name an instant twice and leave none out before
the last of them. -/
theorem daily_windows_exact (zone : Zone) (hour minute start : Int) :
    (∀ after now r, dueWindow zone (.daily hour minute) start after now = .ok r →
      (Matches (dailySlot zone hour minute) (max (start - 1) after) now r ↔
        NoLaterDate zone hour minute start after now)) ∧
    ∀ after nows windows, dueWindows zone (.daily hour minute) start after nows = .ok windows →
      Succession (dailySlot zone hour minute) (max (start - 1) after) windows :=
  ⟨fun _ _ _ h => dueWindow_daily_iff h, fun _ _ _ h => dueWindows_daily h⟩

/-- Half past two on the first two days. -/
theorem daily_windows_exact_utc :
    Matches (dailySlot utc 2 30) (max (0 - 1) (-1)) 100000000 (some ⟨9000000, 95400000, 2⟩) :=
  ((daily_windows_exact utc 2 30 0).1 (-1) 100000000 _ (by decide)).mpr fun d _ hlater _ => by
    have hdate : utc.dateOf 100000000 = 1 := by decide
    change 100000000 < d * 86400000 + (2 * 60 + 30) * 60000
    omega

/-! ### A fold over midnight -/

/-- St. John's in 2010: on 7 November at 00:01 the clock steps back to 23:01 of the day before. -/
def fallBack : Int := 1289097060000

/-- St. John's around that transition, at 2:30 and then 3:30 hours behind. -/
def stJohns : Zone where
  timestamp t := -377705023201000 ≤ t ∧ t ≤ 253402207200999
  minDate := -4371587
  maxDate := 2932896
  dateOf t := max (-4371587) (min 2932896
    (if t < fallBack then (t - 9000000) / 86400000 else (t - 12600000) / 86400000))
  dateOf_mem t := by omega
  instant hour minute d :=
    let civil := d * 86400000 + (hour * 60 + minute) * 60000
    if civil + 9000000 < fallBack then civil + 9000000 else civil + 12600000
  instant_mono hour minute d e h := by
    dsimp only
    split <;> split <;> omega

/-- Midnight of 6 November. -/
def lastMidnight : Int := 1289010600000

/-- A quarter to three on 7 November, universal time: a quarter past eleven the evening before. -/
def secondEvening : Int := 1289097900000

/-- Midnight of 7 November has passed, and its slot is not due until it passes again. -/
theorem midnight_slot_missed : ∃ r,
    dueWindow stJohns (.daily 0 0) 0 lastMidnight secondEvening = .ok r ∧
      ¬Matches (dailySlot stJohns 0 0) (max (0 - 1) lastMidnight) secondEvening r := by
  have hmissed : dueWindow stJohns (.daily 0 0) 0 lastMidnight secondEvening = .ok none := by decide
  refine ⟨none, hmissed, fun hempty => ?_⟩
  have hmem : (⟨14920, by decide⟩ : stJohns.Date) ∈
      due (dailySlot stJohns 0 0) (max (0 - 1) lastMidnight) secondEvening := by
    change _ < dailySlot stJohns 0 0 _ ∧ dailySlot stJohns 0 0 _ ≤ _
    decide
  have hnone : due (dailySlot stJohns 0 0) (max (0 - 1) lastMidnight) secondEvening = ∅ := hempty
  rw [hnone] at hmem
  exact hmem

end Herdr.Routine
