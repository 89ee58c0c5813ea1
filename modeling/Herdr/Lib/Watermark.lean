import Mathlib.Data.List.Sort
import Mathlib.Data.List.Nodup

/-!
# Ledgers and watermarks

Rows of an append-only ledger carry the sequence number at which they were written. A replay to a
watermark reads the rows up to it, so what was appended above the head of the ledger since is not
read. Several ledgers may share one ordering.
-/

/-- Rows with a sequence number. -/
class Stamped (α : Type) where
  seq : α → Int

namespace Watermark

variable {α β γ : Type} [Stamped α]

/-- `SELECT .. WHERE seq<=?1`. -/
def upTo (mark : Int) (rows : List α) : List α := rows.filter fun r => Stamped.seq r ≤ mark

/-- `SELECT .. ORDER BY` an integer column. -/
def orderBy {α : Type} (column : α → Int) (rows : List α) : List α :=
  rows.insertionSort fun a b => column a ≤ column b

/-- `SELECT .. WHERE seq<=?1 ORDER BY seq`. -/
def replay (mark : Int) (rows : List α) : List α := orderBy Stamped.seq (upTo mark rows)

/-- `SELECT .. WHERE seq=?1`. -/
def rowAt (rows : List α) (k : Int) : Option α := rows.find? fun r => Stamped.seq r = k

/-- The rows grew above `head` only. -/
def Appended (head : Int) (rows rows' : List α) : Prop :=
  ∃ more, rows' = rows ++ more ∧ ∀ r ∈ more, head < Stamped.seq r

variable {head head' mark k : Int} {rows rows' rows'' : List α} {r : α}

theorem mem_upTo : r ∈ upTo mark rows ↔ r ∈ rows ∧ Stamped.seq r ≤ mark := by
  simp [upTo]

theorem mem_orderBy {α : Type} {column : α → Int} {rows : List α} {r : α} :
    r ∈ orderBy column rows ↔ r ∈ rows :=
  (List.perm_insertionSort _ rows).mem_iff

theorem mem_replay : r ∈ replay mark rows ↔ r ∈ rows ∧ Stamped.seq r ≤ mark := by
  rw [replay, mem_orderBy, mem_upTo]

theorem upTo_eq_self (h : ∀ r ∈ rows, Stamped.seq r ≤ mark) : upTo mark rows = rows :=
  List.filter_eq_self.mpr fun r hr => decide_eq_true (h r hr)

/-- Rows that are in order are replayed in their order. -/
theorem replay_eq_upTo (h : (rows.map Stamped.seq).Pairwise (· < ·)) :
    replay mark rows = upTo mark rows := by
  have hsorted : rows.Pairwise fun a b => Stamped.seq a ≤ Stamped.seq b :=
    (List.pairwise_map.mp h).imp Int.le_of_lt
  exact (hsorted.sublist List.filter_sublist).insertionSort_eq

theorem rowAt_mem (h : rowAt rows k = some r) : r ∈ rows ∧ Stamped.seq r = k :=
  ⟨List.mem_of_find?_eq_some h, by simpa using List.find?_some h⟩

theorem rowAt_isSome : (rowAt rows k).isSome ↔ ∃ r ∈ rows, Stamped.seq r = k := by
  simp [rowAt, List.find?_isSome]

/-- Ordering by a column whose values differ gives strictly increasing values. -/
theorem sorted_orderBy {α : Type} {column : α → Int} {rows : List α}
    (h : (rows.map column).Nodup) : (orderBy column rows).Pairwise (column · < column ·) := by
  have hle : (orderBy column rows).Pairwise (column · ≤ column ·) := by
    have htotal : Std.Total fun a b : α => column a ≤ column b :=
      ⟨fun a b => Int.le_total (column a) (column b)⟩
    have htrans : IsTrans α fun a b => column a ≤ column b := ⟨fun _ _ _ => Int.le_trans⟩
    exact List.pairwise_insertionSort _ rows
  have hne : (orderBy column rows).Pairwise (column · ≠ column ·) := by
    have hperm := (List.perm_insertionSort (fun a b => column a ≤ column b) rows).map column
    exact List.pairwise_map.mp (hperm.nodup_iff.mpr h)
  exact (hle.and hne).imp fun hab => Int.lt_iff_le_and_ne.mpr hab

/-- A query for each row of a list depends on the rows of the list only. -/
theorem mapM_congr {ε : Type} {f g : β → Except ε γ} {l : List β} (h : ∀ a ∈ l, f a = g a) :
    l.mapM f = l.mapM g := by
  induction l with
  | nil => rfl
  | cons a l ih =>
    rw [List.mapM_cons, List.mapM_cons, h a (by simp), ih fun b hb => h b (List.mem_cons_of_mem a hb)]

/-- Every answer is the answer for a row of the list. -/
theorem mem_of_mapM {ε : Type} {f : β → Except ε γ} {l : List β} {cs : List γ}
    (h : l.mapM f = .ok cs) : ∀ c ∈ cs, ∃ a ∈ l, f a = .ok c := by
  induction l generalizing cs with
  | nil =>
    cases h
    simp
  | cons a l ih =>
    rw [List.mapM_cons] at h
    cases ha : f a with
    | error e =>
      rw [ha] at h
      cases h
    | ok b =>
      cases hl : l.mapM f with
      | error e =>
        rw [ha, hl] at h
        cases h
      | ok bs =>
        rw [ha, hl] at h
        cases h
        intro c hc
        rcases List.mem_cons.mp hc with rfl | hc
        · exact ⟨a, by simp, ha⟩
        · obtain ⟨d, hd, hfd⟩ := ih hl c hc
          exact ⟨d, List.mem_cons_of_mem a hd, hfd⟩

/-- Every row of the list has an answer among those given. -/
theorem exists_of_mapM {ε : Type} {f : β → Except ε γ} {l : List β} {cs : List γ}
    (h : l.mapM f = .ok cs) : ∀ a ∈ l, ∃ c ∈ cs, f a = .ok c := by
  induction l generalizing cs with
  | nil => simp
  | cons a l ih =>
    rw [List.mapM_cons] at h
    cases ha : f a with
    | error e =>
      rw [ha] at h
      cases h
    | ok b =>
      cases hl : l.mapM f with
      | error e =>
        rw [ha, hl] at h
        cases h
      | ok bs =>
        rw [ha, hl] at h
        cases h
        refine List.forall_mem_cons.mpr ⟨⟨b, by simp, ha⟩, fun d hd => ?_⟩
        obtain ⟨c, hc, hfd⟩ := ih hl d hd
        exact ⟨c, List.mem_cons_of_mem b hc, hfd⟩

/-- What each answer says about its row, read over the whole list. -/
theorem map_of_mapM {δ ε : Type} {f : β → Except ε γ} {g : γ → δ} {g' : β → δ} {l : List β}
    {cs : List γ} (h : l.mapM f = .ok cs) (hg : ∀ a c, f a = .ok c → g c = g' a) :
    cs.map g = l.map g' := by
  induction l generalizing cs with
  | nil =>
    cases h
    rfl
  | cons a l ih =>
    rw [List.mapM_cons] at h
    cases ha : f a with
    | error e =>
      rw [ha] at h
      cases h
    | ok b =>
      cases hl : l.mapM f with
      | error e =>
        rw [ha, hl] at h
        cases h
      | ok bs =>
        rw [ha, hl] at h
        cases h
        rw [List.map_cons, List.map_cons, hg a b ha, ih hl]

/-- Queries that all have an answer. -/
theorem mapM_isOk {ε : Type} {f : β → Except ε γ} {l : List β} (h : ∀ a ∈ l, ∃ c, f a = .ok c) :
    ∃ cs, l.mapM f = .ok cs := by
  induction l with
  | nil => exact ⟨[], rfl⟩
  | cons a l ih =>
    obtain ⟨c, hc⟩ := h a (by simp)
    obtain ⟨cs, hcs⟩ := ih fun b hb => h b (List.mem_cons_of_mem a hb)
    exact ⟨c :: cs, by rw [List.mapM_cons, hc, hcs]; rfl⟩

namespace Appended

theorem refl (head : Int) (rows : List α) : Appended head rows rows := ⟨[], by simp, by simp⟩

theorem one (h : head < Stamped.seq r) : Appended head rows (rows ++ [r]) :=
  ⟨[r], rfl, by simpa using h⟩

theorem all {more : List α} (h : ∀ r ∈ more, head < Stamped.seq r) :
    Appended head rows (rows ++ more) := ⟨more, rfl, h⟩

theorem trans (h : Appended head rows rows') (h' : Appended head' rows' rows'')
    (hle : head ≤ head') : Appended head rows rows'' := by
  obtain ⟨more, rfl, hmore⟩ := h
  obtain ⟨more', rfl, hmore'⟩ := h'
  refine ⟨more ++ more', List.append_assoc .., fun r hr => ?_⟩
  rcases List.mem_append.mp hr with hr | hr
  · exact hmore r hr
  · exact lt_of_le_of_lt hle (hmore' r hr)

theorem mem (h : Appended head rows rows') (hr : r ∈ rows) : r ∈ rows' := by
  obtain ⟨more, rfl, -⟩ := h
  exact List.mem_append_left _ hr

/-- A row below the old head is an old row. -/
theorem mem_of_le (h : Appended head rows rows') (hr : r ∈ rows') (hle : Stamped.seq r ≤ head) :
    r ∈ rows := by
  obtain ⟨more, rfl, hmore⟩ := h
  rcases List.mem_append.mp hr with hr | hr
  · exact hr
  · exact absurd (hmore r hr) (Int.not_lt.mpr hle)

/-- **The watermark rule.** A replay to a watermark at or below the old head reads the old rows. -/
theorem upTo_eq (h : Appended head rows rows') (hle : mark ≤ head) :
    upTo mark rows' = upTo mark rows := by
  obtain ⟨more, rfl, hmore⟩ := h
  have hnone : upTo mark more = [] := by
    refine List.filter_eq_nil_iff.mpr fun r hr => ?_
    have := hmore r hr
    simp only [decide_eq_true_eq]
    omega
  rw [upTo, List.filter_append]
  exact (congrArg (_ ++ ·) hnone).trans (List.append_nil _)

theorem replay_eq (h : Appended head rows rows') (hle : mark ≤ head) :
    replay mark rows' = replay mark rows := by
  rw [replay, h.upTo_eq hle, ← replay]

/-- A lookup by an old sequence number, whatever else the lookup asks for. -/
theorem filter_eq (h : Appended head rows rows') {p : α → Bool}
    (hp : ∀ r, p r = true → Stamped.seq r ≤ head) : rows'.filter p = rows.filter p := by
  obtain ⟨more, rfl, hmore⟩ := h
  have hnone : more.filter p = [] := by
    refine List.filter_eq_nil_iff.mpr fun r hr hpr => ?_
    exact Int.not_lt.mpr (hp r hpr) (hmore r hr)
  rw [List.filter_append, hnone, List.append_nil]

theorem rowAt_eq (h : Appended head rows rows') (hle : k ≤ head) : rowAt rows' k = rowAt rows k := by
  obtain ⟨more, rfl, hmore⟩ := h
  have hnone : more.find? (fun r => Stamped.seq r = k) = none := by
    refine List.find?_eq_none.mpr fun r hr => ?_
    have := hmore r hr
    simp only [decide_eq_true_eq]
    omega
  rw [rowAt, List.find?_append, hnone, Option.or_none, ← rowAt]

end Appended

end Watermark
