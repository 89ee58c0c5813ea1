import Mathlib.Data.List.Sort
import Mathlib.Data.Finset.Card
import Mathlib.Data.Finset.Image

/-!
# Keyset pagination

A table that may change between two reads is scanned page by page in the order of a key. A page
fetches one row more than it gives out: if there is one, the scan goes on behind the last row it
gave out. Whatever happens to the table, the rows of a scan come in strictly increasing order, and
a row that stays in the table cannot be missed.
-/

namespace Keyset

variable {α κ : Type*} [LinearOrder κ] (key : α → κ) (n : Nat)

/-- The row is behind the position that the scan has reached. -/
def Behind (last : Option κ) (a : α) : Prop := ∀ k ∈ last, k < key a

instance (last : Option κ) : DecidablePred (Behind key last) := fun a => by
  unfold Behind
  infer_instance

/-- `WHERE last < key ORDER BY key LIMIT limit`. -/
def fetch (limit : Nat) (last : Option κ) (rows : List α) : List α :=
  ((rows.filter fun a => Behind key last a).insertionSort fun a b => key a ≤ key b).take limit

/-- What a page gives out of the rows it fetched, and the row to go on behind. -/
def split (fetched : List α) : List α × Option α :=
  if n < fetched.length then (fetched.dropLast, fetched.dropLast.getLast?) else (fetched, none)

def page (last : Option κ) (rows : List α) : List α × Option α :=
  split n (fetch key (n + 1) last rows)

/-- A run of pages over the states of a table, from a position to a position. -/
inductive Scan : Option κ → List (List α × List α) → Option α → Prop
  | page {last : Option κ} {rows read : List α} {next : Option α}
    (h : page key n last rows = (read, next)) : Scan last [(rows, read)] next
  | more {last : Option κ} {rows read : List α} {c : α} {pages : List (List α × List α)}
    {next : Option α} (h : Keyset.page key n last rows = (read, some c))
    (rest : Scan (some (key c)) pages next) : Scan last ((rows, read) :: pages) next

variable {key n} {last : Option κ} {rows read : List α} {a c : α} {next : Option α}

theorem behind_none : Behind key none a := nofun

theorem behind_some {k : κ} : Behind key (some k) a ↔ k < key a := by simp [Behind]

theorem Behind.trans (hc : Behind key last c) (ha : key c < key a) : Behind key last a :=
  fun k hk => (hc k hk).trans ha

/-! ## One page -/

theorem mem_fetch {limit : Nat} (h : a ∈ fetch key limit last rows) :
    a ∈ rows ∧ Behind key last a := by
  have hsorted := List.mem_of_mem_take h
  rw [List.mem_insertionSort, List.mem_filter, decide_eq_true_eq] at hsorted
  exact hsorted

theorem fetch_sorted {limit : Nat} (hkeys : (rows.map key).Nodup) :
    (fetch key limit last rows).Pairwise fun a b => key a < key b := by
  apply List.Pairwise.sublist (List.take_sublist _ _)
  have hle := List.pairwise_insertionSort (fun a b => key a ≤ key b)
    (rows.filter fun a => Behind key last a)
  have hne : ((rows.filter fun a => Behind key last a).insertionSort
      fun a b => key a ≤ key b).Pairwise fun a b => key a ≠ key b := by
    rw [← List.pairwise_map (f := key) (R := (· ≠ ·))]
    apply (List.Perm.nodup_iff ((List.perm_insertionSort _ _).map key)).mpr
    exact hkeys.sublist (List.filter_sublist.map key)
  exact (hle.and hne).imp fun h => lt_of_le_of_ne h.1 h.2

/-- What the limit cuts off comes after all that is fetched. -/
theorem fetch_cut {limit : Nat} (ha : a ∈ rows) (hbehind : Behind key last a) :
    a ∈ fetch key limit last rows ∨
      (limit = (fetch key limit last rows).length ∧
        ∀ b ∈ fetch key limit last rows, key b ≤ key a) := by
  unfold fetch
  generalize hsorted : ((rows.filter fun a => Behind key last a).insertionSort
    fun a b => key a ≤ key b) = sorted
  have hmem : a ∈ sorted := by
    rw [← hsorted, List.mem_insertionSort, List.mem_filter, decide_eq_true_eq]
    exact ⟨ha, hbehind⟩
  have hle : sorted.Pairwise fun a b => key a ≤ key b := hsorted ▸ List.pairwise_insertionSort _ _
  rw [← List.take_append_drop limit sorted] at hmem hle
  rcases List.mem_append.mp hmem with h | h
  · exact .inl h
  · right
    constructor
    · have hlt : limit < sorted.length := List.length_lt_of_drop_ne_nil (List.ne_nil_of_mem h)
      rw [List.length_take, Nat.min_eq_left hlt.le]
    · intro b hb
      exact (List.pairwise_append.mp hle).2.2 b hb a h

/-- What one page gives out. -/
structure Reads (key : α → κ) (n : Nat) (last : Option κ) (rows read : List α) (next : Option α) :
    Prop where
  sorted : read.Pairwise fun a b => key a < key b
  sound : ∀ a ∈ read, a ∈ rows ∧ Behind key last a
  /-- A row is given out, or the scan goes on before it. -/
  complete : ∀ a ∈ rows, Behind key last a → a ∈ read ∨ ∃ c ∈ next, key c < key a
  /-- A page that is not the last one is full, and the scan goes on behind its last row. -/
  full : ∀ c ∈ next, read.length = n ∧ c ∈ read ∧ ∀ a ∈ read, key a ≤ key c

theorem page_reads (hn : 0 < n) (hkeys : (rows.map key).Nodup)
    (h : page key n last rows = (read, next)) : Reads key n last rows read next := by
  have hsorted : (fetch key (n + 1) last rows).Pairwise fun a b => key a < key b :=
    fetch_sorted hkeys
  have hmem : ∀ a ∈ fetch key (n + 1) last rows, a ∈ rows ∧ Behind key last a := fun a => mem_fetch
  have hcut : ∀ a ∈ rows, Behind key last a → a ∈ fetch key (n + 1) last rows ∨
      (n + 1 = (fetch key (n + 1) last rows).length ∧
        ∀ b ∈ fetch key (n + 1) last rows, key b ≤ key a) := fun a => fetch_cut
  have hlen : (fetch key (n + 1) last rows).length ≤ n + 1 := List.length_take_le _ _
  unfold page split at h
  generalize fetch key (n + 1) last rows = fetched at h hsorted hmem hcut hlen
  split at h
  · next hmore =>
    obtain ⟨init, extra, rfl⟩ : ∃ init extra, fetched = init ++ [extra] := by
      rcases List.eq_nil_or_concat fetched with rfl | ⟨init, extra, rfl⟩
      · exact absurd hmore (Nat.not_lt_zero _)
      · exact ⟨init, extra, List.concat_eq_append⟩
    rw [List.dropLast_concat] at h
    cases h
    rw [List.length_append, List.length_singleton] at hmore hlen
    obtain ⟨hinit, -, hbefore⟩ := List.pairwise_append.mp hsorted
    obtain ⟨front, c, rfl⟩ : ∃ front c, read = front ++ [c] := by
      rcases List.eq_nil_or_concat read with rfl | ⟨front, c, rfl⟩
      · rw [List.length_nil] at hmore
        omega
      · exact ⟨front, c, List.concat_eq_append⟩
    have hc : key c < key extra := hbefore c (by simp) extra (by simp)
    rw [List.getLast?_concat]
    refine ⟨hinit, fun a ha => hmem a (List.mem_append_left _ ha), fun a ha hbehind => ?_, ?_⟩
    · rcases hcut a ha hbehind with hin | ⟨-, hafter⟩
      · rcases List.mem_append.mp hin with hin | hin
        · exact .inl hin
        · rw [List.mem_singleton.mp hin]
          exact .inr ⟨c, rfl, hc⟩
      · exact .inr ⟨c, rfl, hc.trans_le (hafter extra (by simp))⟩
    · rintro _ ⟨⟩
      refine ⟨by omega, by simp, fun a ha => ?_⟩
      rcases List.mem_append.mp ha with ha | ha
      · exact ((List.pairwise_append.mp hinit).2.2 a ha c (by simp)).le
      · rw [List.mem_singleton.mp ha]
  · next hmore =>
    cases h
    refine ⟨hsorted, hmem, fun a ha hbehind => ?_, nofun⟩
    rcases hcut a ha hbehind with hin | ⟨hfull, -⟩
    · exact .inl hin
    · omega

/-! ## A scan -/

variable {pages : List (List α × List α)}

/-- The rows that a scan gave out, in order. -/
def given (pages : List (List α × List α)) : List α := pages.flatMap Prod.snd

/-- In every state of the table the keys are distinct. -/
def Keyed (key : α → κ) (pages : List (List α × List α)) : Prop :=
  ∀ p ∈ pages, (p.1.map key).Nodup

/-- **Order.** The rows of a scan come in strictly increasing order, behind its start and up to
the row where it stands. -/
theorem Scan.sorted (hn : 0 < n) (h : Scan key n last pages next) (hkeys : Keyed key pages) :
    (given pages).Pairwise (fun a b => key a < key b) ∧ (∀ a ∈ given pages, Behind key last a) ∧
      ∀ c ∈ next, c ∈ given pages ∧ ∀ a ∈ given pages, key a ≤ key c := by
  induction h with
  | page h =>
    have hr := page_reads hn (hkeys _ List.mem_cons_self) h
    simp only [given, List.flatMap_cons, List.flatMap_nil, List.append_nil]
    exact ⟨hr.sorted, fun a ha => (hr.sound a ha).2, fun c hc => (hr.full c hc).2⟩
  | @more last rows read c pages next h rest ih =>
    have hr := page_reads hn (hkeys _ List.mem_cons_self) h
    obtain ⟨hsorted, hbehind, hnext⟩ := ih fun p hp => hkeys p (List.mem_cons_of_mem _ hp)
    obtain ⟨-, hc, hle⟩ := hr.full c rfl
    have hlt : ∀ b ∈ given pages, key c < key b := fun b hb => behind_some.mp (hbehind b hb)
    change (read ++ given pages).Pairwise _ ∧ (∀ a ∈ read ++ given pages, _) ∧
      ∀ d ∈ next, d ∈ read ++ given pages ∧ ∀ a ∈ read ++ given pages, key a ≤ key d
    refine ⟨?_, fun a ha => ?_, fun d hd => ⟨List.mem_append_right _ (hnext d hd).1, fun a ha => ?_⟩⟩
    · exact List.pairwise_append.mpr
        ⟨hr.sorted, hsorted, fun a ha b hb => (hle a ha).trans_lt (hlt b hb)⟩
    · rcases List.mem_append.mp ha with ha | ha
      · exact (hr.sound a ha).2
      · exact (hr.sound c hc).2.trans (hlt a ha)
    · rcases List.mem_append.mp ha with ha | ha
      · exact ((hle a ha).trans_lt (hlt d (hnext d hd).1)).le
      · exact (hnext d hd).2 a ha

/-- **Nothing is missed.** A row that is there throughout is given out, or is still to come. -/
theorem Scan.complete (hn : 0 < n) (h : Scan key n last pages next) (hkeys : Keyed key pages)
    (ha : ∀ p ∈ pages, a ∈ p.1) (hbehind : Behind key last a) :
    a ∈ given pages ∨ ∃ c ∈ next, key c < key a := by
  induction h with
  | page h =>
    have hr := page_reads hn (hkeys _ List.mem_cons_self) h
    simp only [given, List.flatMap_cons, List.flatMap_nil, List.append_nil]
    exact hr.complete a (ha _ List.mem_cons_self) hbehind
  | @more last rows read c pages next h rest ih =>
    have hr := page_reads hn (hkeys _ List.mem_cons_self) h
    change a ∈ read ++ given pages ∨ _
    rcases hr.complete a (ha _ List.mem_cons_self) hbehind with hread | ⟨d, hd, hlt⟩
    · exact .inl (List.mem_append_left _ hread)
    · cases hd
      have hrest := ih (fun p hp => hkeys p (List.mem_cons_of_mem _ hp))
        (fun p hp => ha p (List.mem_cons_of_mem _ hp)) (behind_some.mpr hlt)
      exact hrest.imp_left (List.mem_append_right _)

/-- All pages but the last are full. -/
theorem Scan.length (hn : 0 < n) (h : Scan key n last pages next) (hkeys : Keyed key pages) :
    n * (pages.length - if next.isSome then 0 else 1) ≤ (given pages).length := by
  induction h with
  | @page last rows read next h =>
    have hr := page_reads hn (hkeys _ List.mem_cons_self) h
    simp only [given, List.flatMap_cons, List.flatMap_nil, List.append_nil, List.length_singleton]
    cases next with
    | none => exact Nat.zero_le _
    | some c => exact (hr.full c rfl).1.ge.trans' (by simp)
  | @more last rows read c pages next h rest ih =>
    have hr := page_reads hn (hkeys _ List.mem_cons_self) h
    have hrest := ih fun p hp => hkeys p (List.mem_cons_of_mem _ hp)
    have hpos : 1 ≤ pages.length := by cases rest <;> simp
    have hread : read.length = n := (hr.full c rfl).1
    change _ ≤ (read ++ given pages).length
    rw [List.length_append, hread, List.length_cons]
    generalize hm : (pages.length - if next.isSome then 0 else 1) = m at hrest
    have hmore : pages.length + 1 - (if next.isSome then 0 else 1) = m + 1 := by
      have hle : (if next.isSome then 0 else 1) ≤ 1 := by cases next <;> simp
      omega
    rw [hmore, Nat.mul_succ, Nat.add_comm]
    exact Nat.add_le_add_left hrest n

/-- **The end.** A scan that meets at most `total` different keys ends within `total / n + 1`
pages. -/
theorem Scan.ends (hn : 0 < n) (h : Scan key n last pages next) (hkeys : Keyed key pages)
    {keys : Finset κ} (hkey : ∀ a ∈ given pages, key a ∈ keys) :
    pages.length ≤ keys.card / n + if next.isSome then 0 else 1 := by
  have hnodup : ((given pages).map key).Nodup :=
    List.pairwise_map.mpr ((h.sorted hn hkeys).1.imp ne_of_lt)
  have hcard : (given pages).length ≤ keys.card := by
    rw [← List.length_map key, ← List.toFinset_card_of_nodup hnodup]
    apply Finset.card_le_card
    intro k hk
    obtain ⟨a, ha, rfl⟩ := List.mem_map.mp (List.mem_toFinset.mp hk)
    exact hkey a ha
  have hdiv := (Nat.le_div_iff_mul_le hn).mpr
    ((Nat.mul_comm _ _).trans_le ((h.length hn hkeys).trans hcard))
  omega

end Keyset
