import Mathlib.Data.List.Sort

/-!
# Consumers of an ordered log

The entries of an append-only log carry increasing sequence numbers. A consumer keeps the number of
the last entry it has read and reads the log page by page from there. However the log grows between
two pages, the pages read so far are the entries of the log between the first cursor and the last
one, each once.
-/

namespace Cursor

variable {α : Type} (seq : α → Nat)

/-- Sequence numbers increase along the log. -/
def Ordered (log : List α) : Prop := log.Pairwise (seq · < seq ·)

/-- The number of the last entry. -/
def head (log : List α) : Nat := (log.getLast?.map seq).getD 0

/-- The entries after `lo`, up to `hi`. -/
def between (lo hi : Nat) (log : List α) : List α :=
  log.filter fun e => lo < seq e && seq e ≤ hi

/-- `SELECT .. WHERE sequence > ?1 ORDER BY sequence LIMIT n`. -/
def page (n lo : Nat) (log : List α) : List α := (log.filter fun e => lo < seq e).take n

/-- Where a consumer at `lo` stands after a page. -/
def advance (lo : Nat) (read : List α) : Nat := (read.getLast?.map seq).getD lo

variable {seq} {log more read : List α} {e : α} {n lo mid hi : Nat}

theorem mem_between : e ∈ between seq lo hi log ↔ e ∈ log ∧ lo < seq e ∧ seq e ≤ hi := by
  simp [between]

@[simp] theorem advance_nil : advance seq lo [] = lo := rfl

@[simp] theorem advance_concat : advance seq lo (read ++ [e]) = seq e := by simp [advance]

@[simp] theorem head_concat : head seq (log ++ [e]) = seq e := by simp [head]

namespace Ordered

theorem nil : Ordered seq ([] : List α) := List.Pairwise.nil

theorem lt_of_mem_init (h : Ordered seq (log ++ [e])) {a : α} (ha : a ∈ log) : seq a < seq e :=
  (List.pairwise_append.mp h).2.2 a ha e (by simp)

/-- No entry is above the head. -/
theorem le_head (h : Ordered seq log) (he : e ∈ log) : seq e ≤ head seq log := by
  rcases List.eq_nil_or_concat log with rfl | ⟨init, last, rfl⟩
  · cases he
  · rw [List.concat_eq_append] at h he ⊢
    rw [head_concat]
    rcases List.mem_append.mp he with he | he
    · exact (h.lt_of_mem_init he).le
    · rw [List.mem_singleton.mp he]

/-- Entries with increasing numbers above the head. -/
theorem append (h : Ordered seq log) (hmore : Ordered seq more)
    (hnew : ∀ e ∈ more, head seq log < seq e) : Ordered seq (log ++ more) :=
  List.pairwise_append.mpr
    ⟨h, hmore, fun _ ha b hb => (h.le_head ha).trans_lt (hnew b hb)⟩

theorem snoc (h : Ordered seq log) (hnew : head seq log < seq e) : Ordered seq (log ++ [e]) :=
  h.append (List.pairwise_singleton ..) (by simpa using hnew)

theorem between (h : Ordered seq log) : Ordered seq (between seq lo hi log) :=
  List.Pairwise.sublist List.filter_sublist h

/-- The numbers of an ordered log are distinct. -/
theorem nodup (h : Ordered seq log) : (log.map seq).Nodup :=
  List.pairwise_map.mpr (h.imp Nat.ne_of_lt)

end Ordered

/-- New entries above `hi` are not read by a consumer that stops at `hi`. -/
theorem between_append_left (hmore : ∀ e ∈ more, hi < seq e) :
    between seq lo hi (log ++ more) = between seq lo hi log := by
  have hnone : between seq lo hi more = [] := by
    refine List.filter_eq_nil_iff.mpr fun e he => ?_
    have := hmore e he
    simp only [Bool.and_eq_true, decide_eq_true_eq]
    omega
  rw [between, List.filter_append]
  exact (congrArg (_ ++ ·) hnone).trans (List.append_nil _)

theorem between_self : between seq lo lo log = [] := by
  refine List.filter_eq_nil_iff.mpr fun e _ => ?_
  simp only [Bool.and_eq_true, decide_eq_true_eq]
  omega

/-- Reading on from where one stopped. -/
theorem between_append_between (h : Ordered seq log) (hlo : lo ≤ mid) (hhi : mid ≤ hi) :
    between seq lo mid log ++ between seq mid hi log = between seq lo hi log := by
  induction log with
  | nil => rfl
  | cons a log ih =>
    obtain ⟨ha, hlog⟩ := List.pairwise_cons.mp h
    by_cases hmid : seq a ≤ mid
    · have hright : between seq mid hi (a :: log) = between seq mid hi log :=
        List.filter_cons_of_neg (by simp [hmid])
      rw [hright]
      by_cases hla : lo < seq a
      · have hcons (k) (hk : seq a ≤ k) :
            between seq lo k (a :: log) = a :: between seq lo k log :=
          List.filter_cons_of_pos (by simp [hla, hk])
        rw [hcons mid hmid, hcons hi (hmid.trans hhi), List.cons_append, ih hlog]
      · have hskip (k) : between seq lo k (a :: log) = between seq lo k log :=
          List.filter_cons_of_neg (by simp [hla])
        rw [hskip, hskip, ih hlog]
    · -- from an entry above `mid` on there is nothing left on the left
      have hempty : between seq lo mid (a :: log) = [] := by
        refine List.filter_eq_nil_iff.mpr fun b hb => ?_
        have : mid < seq b := by
          rcases List.mem_cons.mp hb with rfl | hb
          · omega
          · have := ha b hb
            omega
        simp only [Bool.and_eq_true, decide_eq_true_eq]
        omega
      rw [hempty, List.nil_append]
      refine List.filter_congr fun b hb => ?_
      have : mid < seq b := by
        rcases List.mem_cons.mp hb with rfl | hb
        · omega
        · have := ha b hb
          omega
      rw [decide_eq_true this, decide_eq_true (hlo.trans_lt this)]

theorem lt_of_mem_page (he : e ∈ page seq n lo log) : lo < seq e := by
  simpa using (List.mem_filter.mp (List.mem_of_mem_take he)).2

theorem mem_of_mem_page (he : e ∈ page seq n lo log) : e ∈ log :=
  (List.mem_filter.mp (List.mem_of_mem_take he)).1

/-- A page never moves the consumer back. -/
theorem le_advance : lo ≤ advance seq lo (page seq n lo log) := by
  rcases List.eq_nil_or_concat (page seq n lo log) with hp | ⟨init, last, hp⟩
  · rw [hp, advance_nil]
  · rw [List.concat_eq_append] at hp
    have hlast : last ∈ page seq n lo log := by simp [hp]
    rw [hp, advance_concat]
    exact (lt_of_mem_page hlast).le

/-- A page is what lies between the old and the new position. -/
theorem page_eq_between (h : Ordered seq log) :
    page seq n lo log = between seq lo (advance seq lo (page seq n lo log)) log := by
  have hrest : Ordered seq (log.filter fun e => lo < seq e) := h.sublist List.filter_sublist
  have hsplit := List.take_append_drop n (log.filter fun e => lo < seq e)
  have hbetween (k : Nat) : between seq lo k log =
      (log.filter fun e => lo < seq e).filter fun e => seq e ≤ k := by
    rw [List.filter_filter]
    exact List.filter_congr fun e _ => Bool.and_comm ..
  rw [hbetween]
  rcases List.eq_nil_or_concat (page seq n lo log) with hp | ⟨init, last, hp⟩
  · rw [hp, advance_nil, eq_comm]
    refine List.filter_eq_nil_iff.mpr fun e he => ?_
    have := (List.mem_filter.mp he).2
    simp_all
  · rw [List.concat_eq_append] at hp
    rw [hp, advance_concat]
    have hpage : (log.filter fun e => lo < seq e).take n = init ++ [last] := hp
    rw [hpage] at hsplit
    rw [← hsplit] at hrest ⊢
    obtain ⟨hleft, -, hcross⟩ := List.pairwise_append.mp hrest
    have hkeep : (init ++ [last]).filter (fun e => seq e ≤ seq last) = init ++ [last] := by
      refine List.filter_eq_self.mpr fun e he => ?_
      rcases List.mem_append.mp he with he | he
      · simpa using (Ordered.lt_of_mem_init hleft he).le
      · simp [List.mem_singleton.mp he]
    have hdrop : ((log.filter fun e => lo < seq e).drop n).filter
        (fun e => seq e ≤ seq last) = [] := by
      refine List.filter_eq_nil_iff.mpr fun e he => ?_
      simpa using hcross last (by simp) e he
    rw [List.filter_append, hkeep, hdrop, List.append_nil]

/-- The consumer stays at or below the head. -/
theorem advance_le_head (h : Ordered seq log) (hlo : lo ≤ head seq log) :
    advance seq lo (page seq n lo log) ≤ head seq log := by
  rcases List.eq_nil_or_concat (page seq n lo log) with hp | ⟨init, last, hp⟩
  · rwa [hp, advance_nil]
  · rw [List.concat_eq_append] at hp
    have hlast : last ∈ page seq n lo log := by simp [hp]
    rw [hp, advance_concat]
    exact h.le_head (mem_of_mem_page hlast)

/-! ## Growth -/

variable (seq) in
/-- The log grew above its head. -/
def Grows (log log' : List α) : Prop :=
  ∃ more, log' = log ++ more ∧ Ordered seq more ∧ ∀ e ∈ more, head seq log < seq e

namespace Grows

variable {log' log'' : List α}

theorem refl (log : List α) : Grows seq log log := ⟨[], by simp, .nil, by simp⟩

theorem one (h : head seq log < seq e) : Grows seq log (log ++ [e]) :=
  ⟨[e], rfl, List.pairwise_singleton .., by simpa using h⟩

theorem head_le (h : Grows seq log log') : head seq log ≤ head seq log' := by
  obtain ⟨more, rfl, -, hnew⟩ := h
  rcases List.eq_nil_or_concat more with rfl | ⟨init, last, rfl⟩
  · simp
  · rw [List.concat_eq_append] at hnew ⊢
    rw [← List.append_assoc, head_concat]
    exact (hnew last (by simp)).le

theorem ordered (h : Grows seq log log') (hlog : Ordered seq log) : Ordered seq log' := by
  obtain ⟨more, rfl, hmore, hnew⟩ := h
  exact hlog.append hmore hnew

theorem trans (h : Grows seq log log') (h' : Grows seq log' log'') : Grows seq log log'' := by
  have hle := h.head_le
  obtain ⟨more, rfl, hmore, hnew⟩ := h
  obtain ⟨more', rfl, hmore', hnew'⟩ := h'
  refine ⟨more ++ more', List.append_assoc .., ?_, fun e he => ?_⟩
  · refine List.pairwise_append.mpr ⟨hmore, hmore', fun a ha b hb => ?_⟩
    have hab : head seq (log ++ more) < seq b := hnew' b hb
    have : seq a ≤ head seq more := hmore.le_head ha
    rcases List.eq_nil_or_concat more with rfl | ⟨init, last, rfl⟩
    · cases ha
    · rw [List.concat_eq_append] at hab this
      rw [← List.append_assoc, head_concat] at hab
      rw [head_concat] at this
      omega
  · rcases List.mem_append.mp he with he | he
    · exact hnew e he
    · exact hle.trans_lt (hnew' e he)

/-- What was read up to a position is still what lies there. -/
theorem between_eq (h : Grows seq log log') (hhi : hi ≤ head seq log) :
    between seq lo hi log' = between seq lo hi log := by
  obtain ⟨more, rfl, -, hnew⟩ := h
  exact between_append_left fun e he => hhi.trans_lt (hnew e he)

end Grows

end Cursor
