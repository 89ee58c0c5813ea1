import Mathlib.Algebra.Order.BigOperators.Group.List
import Mathlib.Algebra.Order.Group.Int
import Mathlib.Data.String.Basic
import Mathlib.Data.List.Induction
import Herdr.Lib.Grouping
import Herdr.Telemetry.ModelSegments
import Herdr.Verify.RepeatedResponses

/-!
# Model segments partition the counted usage

Each counted entry is placed in one bucket, and a bucket is the summary of the entries placed in
it. The last segment is the newest one of the newest session, so the entries of a session number
its segments one after another.
-/

namespace Herdr.Accounting

open Grouping

/-! ## Buckets as summaries -/

/-- The counters of an entry that is counted. -/
def Entry.tally (entry : Entry) : Counters := (counters entry).getD {}

/-- What one more entry does to its bucket. -/
def Bucket.put (b : Bucket) (entry : Entry) : Bucket :=
  { b with
    last := entry.position
    entries := add64 b.entries 1
    counters := b.counters.add entry.tally }

/-- The bucket of the entries that were placed in it. -/
def Bucket.of (key : BucketKey) (entries : List Entry) : Option Bucket :=
  entries.foldl (fun b entry => some ((b.getD (Segments.fresh entry key)).put entry)) none

/-- The sum in `i64` arithmetic. -/
def sum64 (values : List Int) : Int := values.sum.bmod (2 ^ 64)

theorem sum64_append_singleton (values : List Int) (v : Int) :
    sum64 (values ++ [v]) = add64 (sum64 values) v := by
  simp [sum64, add64]

theorem Counters.field_add {π : Counters → Int} (hπ : π ∈ Counters.fields) (a b : Counters) :
    π (a.add b) = add64 (π a) (π b) := by
  simp only [Counters.fields, List.mem_cons, List.not_mem_nil, or_false] at hπ
  rcases hπ with rfl | rfl | rfl | rfl <;> rfl

theorem Counters.field_zero {π : Counters → Int} (hπ : π ∈ Counters.fields) : π {} = 0 := by
  simp only [Counters.fields, List.mem_cons, List.not_mem_nil, or_false] at hπ
  rcases hπ with rfl | rfl | rfl | rfl <;> rfl

/-- What the bucket of some entries holds. -/
structure Summary (k : BucketKey) (es : List Entry) (b : Bucket) : Prop where
  key : b.key = k
  model : b.model = if k.kind = .model then es.head?.bind (·.model) else none
  first : es.head?.map (·.position) = some b.first
  last : es.getLast?.map (·.position) = some b.last
  entries : b.entries = sum64 (es.map fun _ => 1)
  counters : ∀ π ∈ Counters.fields, π b.counters = sum64 (es.map fun e => π e.tally)

theorem Bucket.of_concat (key : BucketKey) (entries : List Entry) (entry : Entry) :
    Bucket.of key (entries ++ [entry]) =
      some (((Bucket.of key entries).getD (Segments.fresh entry key)).put entry) := by
  rw [Bucket.of, List.foldl_append]
  rfl

/-- The bucket of no entry is missing, any other is their summary. -/
theorem Bucket.of_summary (key : BucketKey) (entries : List Entry) :
    (entries = [] ∧ Bucket.of key entries = none) ∨
      ∃ b, Bucket.of key entries = some b ∧ Summary key entries b := by
  induction entries using List.reverseRecOn with
  | nil => exact .inl ⟨rfl, rfl⟩
  | append_singleton entries entry ih =>
    refine .inr ⟨_, Bucket.of_concat key entries entry, ?_⟩
    rcases ih with ⟨rfl, hnone⟩ | ⟨b, hb, h⟩
    · rw [hnone]
      refine ⟨rfl, rfl, rfl, rfl, rfl, fun π hπ => ?_⟩
      rw [Bucket.put, Option.getD_none, Counters.field_add hπ, Segments.fresh, Counters.field_zero hπ]
      simp [sum64, add64, Entry.tally]
    · rw [hb, Option.getD_some]
      have hhead : (entries ++ [entry]).head? = entries.head? := by
        cases entries with
        | nil => cases h.first
        | cons e rest => rfl
      refine ⟨h.key, ?_, ?_, ?_, ?_, fun π hπ => ?_⟩
      · rw [hhead]
        exact h.model
      · rw [hhead]
        exact h.first
      · rw [List.getLast?_concat]
        rfl
      · rw [List.map_append, List.map_singleton, sum64_append_singleton, ← h.entries]
        rfl
      · rw [List.map_append, List.map_singleton, sum64_append_singleton, ← h.counters π hπ, Bucket.put,
          Counters.field_add hπ]

/-! ## Placing the entries -/

/-- An entry and the key of its bucket. -/
abbrev Placement := Entry × BucketKey

variable {P : List Placement} {entry : Entry} {key : BucketKey} {s : String} {n : Nat}
  {last : Option BucketKey}

/-- The segments of a session are numbered from one to `n`. -/
def Numbered (P : List Placement) (s : String) (n : Nat) : Prop :=
  ∀ k, (∃ x ∈ P, x.2 = ⟨s, .model, k⟩) ↔ 1 ≤ k ∧ k ≤ n

/-- The entries come in the order of their sessions and positions. -/
def Entry.Before (a b : Entry) : Prop :=
  a.session < b.session ∨ a.session = b.session ∧ a.position < b.position

def BucketKey.next (key : BucketKey) : BucketKey := { key with segment := key.segment + 1 }

/-- The last segment is the newest one of the newest session. -/
def Newest (P : List Placement) : Option BucketKey → Prop
  | none => ∀ x ∈ P, x.2.kind ≠ .model
  | some l => l.kind = .model ∧ 1 ≤ l.segment ∧ Numbered P l.session l.segment ∧
    ∀ x ∈ P, x.2.kind = .model → x.2.session ≤ l.session

/-- What holds of the entries that were placed. -/
structure Segmented (P : List Placement) (last : Option BucketKey) : Prop where
  session : ∀ x ∈ P, x.2.session = x.1.session
  model : ∀ x ∈ P, x.2.kind = .model → x.1.model ≠ none
  same : ∀ x ∈ P, ∀ y ∈ P, x.2.kind = .model → x.2 = y.2 → x.1.model = y.1.model
  numbered : ∀ s, ∃ n, Numbered P s n
  changes : ∀ x ∈ P, ∀ y ∈ P, x.2.kind = .model → y.2 = x.2.next → x.1.model ≠ y.1.model
  increasing : ∀ x ∈ P, ∀ y ∈ P, x.2.kind = .model → y.2.kind = .model →
    x.2.session = y.2.session → x.2.segment < y.2.segment → x.1.position < y.1.position
  newest : Newest P last

/-- How the next entry is placed: beside the segments, in the last one or in a new one. -/
inductive Places (P : List Placement) (entry : Entry) (key : BucketKey) : Prop
  | beside (kind : key.kind ≠ .model)
  | stays (kind : key.kind = .model) (numbered : Numbered P key.session key.segment)
    (first : 1 ≤ key.segment) (model : ∀ x ∈ P, x.2 = key → x.1.model = entry.model)
  | opens (n : Nat) (kind : key.kind = .model) (numbered : Numbered P key.session n)
    (segment : key.segment = n + 1) (model : ∀ x ∈ P, x.2.next = key → x.1.model ≠ entry.model)

theorem Numbered.beside (h : Numbered P s n) (hkey : key.kind ≠ .model ∨ key.session ≠ s) :
    Numbered (P ++ [(entry, key)]) s n := by
  intro k
  rw [← h k]
  simp only [List.mem_append, List.mem_singleton, or_and_right, exists_or, exists_eq_left, or_iff_left_iff_imp]
  rintro rfl
  rcases hkey with hkey | hkey
  · exact absurd rfl hkey
  · exact absurd rfl hkey

theorem Numbered.stays (h : Numbered P key.session key.segment) (hfirst : 1 ≤ key.segment) :
    Numbered (P ++ [(entry, key)]) key.session key.segment := by
  intro k
  rw [← h k]
  simp only [List.mem_append, List.mem_singleton, or_and_right, exists_or, exists_eq_left, or_iff_left_iff_imp]
  intro hkey
  rw [h k]
  rw [hkey] at hfirst ⊢
  exact ⟨hfirst, le_rfl⟩

theorem Numbered.opens (h : Numbered P key.session n) (hkind : key.kind = .model)
    (hsegment : key.segment = n + 1) : Numbered (P ++ [(entry, key)]) key.session (n + 1) := by
  intro k
  have hkey : key = ⟨key.session, .model, k⟩ ↔ k = n + 1 := by
    rw [← hsegment]
    constructor
    · intro he
      exact (congrArg BucketKey.segment he).symm
    · rintro rfl
      rw [← hkind]
  simp only [List.mem_append, List.mem_singleton, or_and_right, exists_or, exists_eq_left, hkey, h k]
  omega

theorem Numbered.unique {m : Nat} (h : Numbered P s n) (h' : Numbered P s m) : n = m := by
  have hn := (h n).symm.trans (h' n)
  have hm := (h m).symm.trans (h' m)
  omega

/-- A key beyond the numbered segments is not taken. -/
theorem Numbered.fresh (h : Numbered P key.session n) (hkind : key.kind = .model)
    (hsegment : n < key.segment) : ∀ x ∈ P, x.2 ≠ key := by
  intro x hx he
  have hle := ((h key.segment).mp ⟨x, hx, by rw [he, ← hkind]⟩).2
  omega

/-- **Placing one entry.** -/
theorem Segmented.place (h : Segmented P last) (hbefore : ∀ x ∈ P, x.1.Before entry)
    (hsession : key.session = entry.session) (hmodel : key.kind = .model → entry.model ≠ none)
    (hplaces : Places P entry key) :
    Segmented (P ++ [(entry, key)]) (if key.kind = .model then some key else last) := by
  -- the segments of the session are numbered up to the key
  have hupto : key.kind = .model → 1 ≤ key.segment ∧
      Numbered (P ++ [(entry, key)]) key.session key.segment := by
    intro hkind
    cases hplaces with
    | beside hne => exact absurd hkind hne
    | stays _ hnumbered hfirst => exact ⟨hfirst, hnumbered.stays hfirst⟩
    | opens n _ hnumbered hsegment =>
      rw [hsegment]
      exact ⟨by omega, hnumbered.opens hkind hsegment⟩
  -- an entry that was placed in the same segment has the model
  have hsame : key.kind = .model → ∀ x ∈ P, x.2 = key → x.1.model = entry.model := by
    intro hkind x hx he
    cases hplaces with
    | beside hne => exact absurd hkind hne
    | stays _ _ _ hmodel => exact hmodel x hx he
    | opens n _ hnumbered hsegment =>
      exact absurd he (hnumbered.fresh hkind (by omega) x hx)
  -- no entry was placed after it
  have hlast : key.kind = .model → ∀ x ∈ P, x.2.kind = .model → x.2.session = key.session →
      x.2.segment ≤ key.segment := by
    intro hkind x hx hx' hses
    have hle := ((hupto hkind).2 x.2.segment).mp ⟨x, List.mem_append_left _ hx, by
      rw [← hses, ← hx']⟩
    exact hle.2
  have hprevious : key.kind = .model → ∀ x ∈ P, x.2.next = key → x.1.model ≠ entry.model := by
    intro hkind x hx hnext
    cases hplaces with
    | beside hne => exact absurd hkind hne
    | opens n _ _ _ hmodel => exact hmodel x hx hnext
    | stays _ hnumbered hfirst hmodel =>
      -- an entry of the segment has the model, and the one before it another
      obtain ⟨y, hy, hkey⟩ := (hnumbered key.segment).mpr ⟨hfirst, le_rfl⟩
      have hyk : y.2 = key := by rw [hkey, ← hkind]
      have hxk : x.2.kind = .model := by
        rw [← hkind, ← hnext]
        rfl
      rw [← hmodel y hy hyk]
      exact h.changes x hx y hy hxk (hyk.trans hnext.symm)
  refine ⟨?_, ?_, ?_, ?_, ?_, ?_, ?_⟩
  · exact List.forall_mem_append.mpr ⟨h.session, by simpa using hsession⟩
  · exact List.forall_mem_append.mpr ⟨h.model, by simpa using hmodel⟩
  · intro x hx y hy hkind he
    rcases List.mem_append.mp hx with hx | hx <;> rcases List.mem_append.mp hy with hy | hy
    · exact h.same x hx y hy hkind he
    · obtain rfl := List.mem_singleton.mp hy
      have hkey : x.2 = key := he
      exact hsame (by rw [← hkey]; exact hkind) x hx hkey
    · obtain rfl := List.mem_singleton.mp hx
      exact (hsame hkind y hy he.symm).symm
    · rw [List.mem_singleton.mp hx, List.mem_singleton.mp hy]
  · intro s
    obtain ⟨n, hn⟩ := h.numbered s
    by_cases hown : key.kind = .model ∧ key.session = s
    · obtain ⟨hkind, rfl⟩ := hown
      exact ⟨_, (hupto hkind).2⟩
    · exact ⟨n, hn.beside (not_and_or.mp hown)⟩
  · intro x hx y hy hkind he
    rcases List.mem_append.mp hx with hx | hx <;> rcases List.mem_append.mp hy with hy | hy
    · exact h.changes x hx y hy hkind he
    · obtain rfl := List.mem_singleton.mp hy
      have hkey : key = x.2.next := he
      exact hprevious (by rw [hkey]; exact hkind) x hx hkey.symm
    · obtain rfl := List.mem_singleton.mp hx
      have hle := hlast hkind y hy (by rw [he]; exact hkind) (by rw [he]; rfl)
      rw [he] at hle
      exact absurd hle (Nat.not_succ_le_self _)
    · rw [List.mem_singleton.mp hx, List.mem_singleton.mp hy] at he
      exact absurd (congrArg BucketKey.segment he) (Nat.succ_ne_self _).symm
  · intro x hx y hy hkind hkind' hses hlt
    rcases List.mem_append.mp hx with hx | hx <;> rcases List.mem_append.mp hy with hy | hy
    · exact h.increasing x hx y hy hkind hkind' hses hlt
    · obtain rfl := List.mem_singleton.mp hy
      have hsame : x.1.session = entry.session := by
        rw [← h.session x hx, ← hsession]
        exact hses
      rcases hbefore x hx with hb | hb
      · rw [hsame] at hb
        exact absurd hb (lt_irrefl _)
      · exact hb.2
    · obtain rfl := List.mem_singleton.mp hx
      exact absurd (hlast hkind y hy hkind' hses.symm) (not_le.mpr hlt)
    · rw [List.mem_singleton.mp hx, List.mem_singleton.mp hy] at hlt
      exact absurd hlt (lt_irrefl _)
  · -- the newest session is that of the entry
    split
    · next hkind =>
      refine ⟨hkind, (hupto hkind).1, (hupto hkind).2, ?_⟩
      refine List.forall_mem_append.mpr ⟨fun x hx _ => ?_, by simp⟩
      rw [h.session x hx, hsession]
      rcases hbefore x hx with hb | hb
      · exact le_of_lt hb
      · exact le_of_eq hb.1
    · next hkind =>
      have hnewest := h.newest
      cases last with
      | none =>
        refine List.forall_mem_append.mpr ⟨hnewest, ?_⟩
        simpa using hkind
      | some l =>
        obtain ⟨hl, hfirst, hnumbered, hle⟩ := hnewest
        refine ⟨hl, hfirst, hnumbered.beside (.inl hkind), ?_⟩
        exact List.forall_mem_append.mpr ⟨hle, by simpa using fun h => absurd h hkind⟩

/-! ## The loop -/

/-- The entries of a bucket, in order. -/
def placedIn (P : List Placement) (key : BucketKey) : List Entry := (group Prod.snd key P).map Prod.fst

theorem mem_placedIn : entry ∈ placedIn P key ↔ (entry, key) ∈ P := by
  simp only [placedIn, group, List.mem_map, List.mem_filter, decide_eq_true_eq]
  constructor
  · rintro ⟨x, ⟨hx, rfl⟩, rfl⟩
    exact hx
  · intro h
    exact ⟨_, ⟨h, rfl⟩, rfl⟩

/-- The state of the loop holds the summaries of the entries that were placed. -/
structure Reflects (g : Segments) (P : List Placement) : Prop where
  buckets : ∀ key, g.buckets.find key = Bucket.of key (placedIn P key)
  segmented : Segmented P g.last

variable {g : Segments} {c : Counters}

theorem Reflects.start : Reflects {} [] where
  buckets _ := rfl
  segmented := by
    refine ⟨by simp, by simp, by simp, fun s => ⟨0, fun k => ?_⟩, by simp, by simp, ?_⟩
    · simp only [List.not_mem_nil, false_and, exists_false, false_iff]
      omega
    · exact fun x hx => absurd hx List.not_mem_nil

/-- The model of the last segment is that of its entries. -/
theorem Reflects.model (h : Reflects g P) (hkind : key.kind = .model) {x : Placement} (hx : x ∈ P)
    (hkey : x.2 = key) : (g.buckets.find key).bind (·.model) = x.1.model := by
  have hmem : x.1 ∈ placedIn P key := mem_placedIn.mpr (hkey ▸ hx)
  rw [h.buckets]
  rcases Bucket.of_summary key (placedIn P key) with ⟨hnil, -⟩ | ⟨b, hb, hsummary⟩
  · rw [hnil] at hmem
    cases hmem
  · rw [hb, Option.bind_some, hsummary.model, if_pos hkind]
    cases hes : placedIn P key with
    | nil =>
      rw [hes] at hmem
      cases hmem
    | cons e rest =>
      have he : (e, key) ∈ P := mem_placedIn.mp (hes ▸ List.mem_cons_self)
      exact h.segmented.same _ he x hx hkind hkey.symm

/-- **Where the loop places an entry.** -/
theorem Reflects.places (h : Reflects g P) (mixed : List (String × Int))
    (hbefore : ∀ x ∈ P, x.1.Before entry) :
    (g.keyOf mixed entry).session = entry.session ∧
      ((g.keyOf mixed entry).kind = .model → entry.model ≠ none) ∧
      Places P entry (g.keyOf mixed entry) := by
  unfold Segments.keyOf
  split
  · exact ⟨rfl, (fun h => by cases h), .beside (fun h => by cases h)⟩
  cases hmodel : entry.model with
  | none => exact ⟨rfl, (fun h => by cases h), .beside (fun h => by cases h)⟩
  | some model =>
    dsimp only
    have hnewest := h.segmented.newest
    cases hlast : g.last with
    | none =>
      rw [hlast] at hnewest
      refine ⟨rfl, fun _ => Option.some_ne_none model, .opens 0 rfl (fun k => ?_) rfl fun x hx hnext => ?_⟩
      · refine ⟨?_, by omega⟩
        rintro ⟨x, hx, hkey⟩
        exact absurd (by rw [hkey]) (hnewest x hx)
      · exact absurd (congrArg BucketKey.kind hnext) (hnewest x hx)
    | some l =>
      rw [hlast] at hnewest
      obtain ⟨hl, hfirst, hnumbered, hle⟩ := hnewest
      rw [Option.filter_some, Option.filter_some]
      by_cases hses : l.session = entry.session
      · by_cases hsame : (g.buckets.find l).bind (·.model) = some model
        · rw [if_pos (by simp [hses, hsame])]
          refine ⟨hses, fun _ => Option.some_ne_none model, .stays hl hnumbered hfirst fun x hx hkey => ?_⟩
          rw [← h.model hl hx hkey, hsame, hmodel]
        · rw [if_neg (by simp [hsame]), if_pos (by simp [hses])]
          refine ⟨rfl, fun _ => Option.some_ne_none model, .opens l.segment rfl ?_ rfl fun x hx hnext => ?_⟩
          · rw [← hses]
            exact hnumbered
          · have hkey : x.2 = l := by
              have hsession := congrArg BucketKey.session hnext
              have hkind := congrArg BucketKey.kind hnext
              have hsegment := congrArg BucketKey.segment hnext
              exact BucketKey.ext (hsession.trans hses.symm) (hkind.trans hl.symm)
                (Nat.succ_injective hsegment)
            rw [← h.model hl hx hkey, hmodel]
            exact hsame
      · -- the last segment is of an earlier session, and no later session has one
        have hnone : ∀ x ∈ P, x.2.kind = .model → x.2.session ≠ entry.session := by
          intro x hx hkind he
          obtain ⟨y, hy, hkey⟩ := (hnumbered l.segment).mpr ⟨hfirst, le_rfl⟩
          have hsession : y.1.session = l.session := by
            rw [← h.segmented.session y hy, hkey]
          have hle' : l.session ≤ entry.session := by
            rw [← hsession]
            rcases hbefore y hy with hb | hb
            · exact le_of_lt hb
            · exact le_of_eq hb.1
          exact hses (le_antisymm hle' (he ▸ hle x hx hkind))
        rw [if_neg (by simp [hses]), if_neg (by simp [hses])]
        refine ⟨rfl, fun _ => Option.some_ne_none model, .opens 0 rfl (fun k => ?_) rfl fun x hx hnext => ?_⟩
        · refine ⟨?_, by omega⟩
          rintro ⟨x, hx, hkey⟩
          exact absurd (by rw [hkey]) (hnone x hx (by rw [hkey]))
        · exact absurd (congrArg BucketKey.session hnext)
            (hnone x hx (congrArg BucketKey.kind hnext))

theorem placedIn_concat (k : BucketKey) : placedIn (P ++ [(entry, key)]) k =
    if key = k then placedIn P k ++ [entry] else placedIn P k := by
  unfold placedIn group
  rw [List.filter_append, List.map_append]
  by_cases he : key = k <;> simp [he]

/-- **One entry of the loop.** -/
theorem Reflects.add (h : Reflects g P) (mixed : List (String × Int))
    (hbefore : ∀ x ∈ P, x.1.Before entry)
    (hc : counters entry = some c) :
    Reflects (g.add mixed entry) (P ++ [(entry, g.keyOf mixed entry)]) := by
  have hput : g.add mixed entry = {
      buckets := g.buckets.upsert (((g.buckets.find (g.keyOf mixed entry)).getD
        (Segments.fresh entry (g.keyOf mixed entry))).put entry)
      last := if (g.keyOf mixed entry).kind = .model then some (g.keyOf mixed entry) else g.last } := by
    unfold Segments.add Bucket.put Entry.tally
    rw [hc]
    rfl
  obtain ⟨hsession, hmodel, hplaces⟩ := h.places mixed hbefore
  generalize g.keyOf mixed entry = key at *
  rw [hput]
  refine ⟨fun k => ?_, h.segmented.place hbefore hsession hmodel hplaces⟩
  have hkey : (((g.buckets.find key).getD (Segments.fresh entry key)).put entry).key = key := by
    cases hfind : g.buckets.find key with
    | none => rfl
    | some b =>
      have hb := Table.find_key hfind
      exact hb
  rw [Table.find_upsert, hkey, placedIn_concat]
  by_cases he : key = k
  · subst he
    rw [if_pos rfl, if_pos rfl, Bucket.of_concat, h.buckets]
  · rw [if_neg he, if_neg he, h.buckets]

/-- An entry that is not counted is skipped. -/
theorem add_uncounted {mixed : List (String × Int)} (hc : counters entry = none) : g.add mixed entry = g := by
  unfold Segments.add
  rw [hc]

/-- **The whole loop.** Every counted entry is placed, in order. -/
theorem Reflects.run {entries : List Entry} (h : Reflects g P) (mixed : List (String × Int))
    (hordered : entries.Pairwise Entry.Before)
    (hbefore : ∀ x ∈ P, ∀ e ∈ entries, x.1.Before e) :
    ∃ Q, Reflects (entries.foldl (Segments.add mixed) g) (P ++ Q) ∧
      Q.map Prod.fst = entries.filter fun e => (counters e).isSome := by
  induction entries generalizing g P with
  | nil => exact ⟨[], by simpa using h, rfl⟩
  | cons entry entries ih =>
    obtain ⟨hfirst, hordered⟩ := List.pairwise_cons.mp hordered
    have hbefore' := fun x hx => (List.forall_mem_cons.mp (hbefore x hx)).2
    rw [List.foldl_cons, List.filter_cons]
    cases hc : counters entry with
    | none =>
      rw [add_uncounted hc]
      exact ih h hordered hbefore'
    | some c =>
      have hadd := h.add mixed (fun x hx => hbefore x hx entry List.mem_cons_self) hc
      obtain ⟨Q, hQ, hmap⟩ := ih hadd hordered
        (List.forall_mem_append.mpr ⟨hbefore', by simpa using hfirst⟩)
      refine ⟨(entry, g.keyOf mixed entry) :: Q, ?_, ?_⟩
      · rwa [List.append_assoc] at hQ
      · rw [List.map_cons, hmap]
        rfl

/-! ## Sums of a session -/

section Sums

variable {B : Table Bucket Bucket.key} (hB : ∀ key, B.find key = Bucket.of key (placedIn P key))
  {v : Bucket → Int} {w : Entry → Int}
  (hv : ∀ key b, Summary key (placedIn P key) b → v b = sum64 ((placedIn P key).map w))

include hB

include hv

end Sums

/-! ## The claim -/

section Ranges

variable {es : List Entry} {b : Bucket}

/-- The range of a bucket covers the positions of its entries. -/
theorem Summary.range (h : Summary key es b)
    (hordered : es.Pairwise fun e e' => e.position < e'.position) {e : Entry} (he : e ∈ es) :
    b.first ≤ e.position ∧ e.position ≤ b.last := by
  constructor
  · cases es with
    | nil => cases he
    | cons first rest =>
      rw [Option.some.inj h.first.symm]
      rcases List.mem_cons.mp he with rfl | he
      · exact le_rfl
      · exact le_of_lt ((List.pairwise_cons.mp hordered).1 e he)
  · induction es using List.reverseRecOn with
    | nil => cases he
    | append_singleton init last =>
      have hlast := h.last
      rw [List.getLast?_concat] at hlast
      rw [Option.some.inj hlast.symm]
      rcases List.mem_append.mp he with he | he
      · exact le_of_lt ((List.pairwise_append.mp hordered).2.2 e he last (List.mem_singleton_self _))
      · rw [List.mem_singleton.mp he]

/-- The first and the last entry of a bucket. -/
theorem Summary.ends (h : Summary key es b) : (∃ e ∈ es, e.position = b.first) ∧
    ∃ e ∈ es, e.position = b.last := by
  obtain ⟨first, hfirst, hf⟩ := Option.map_eq_some_iff.mp h.first
  obtain ⟨last, hlast, hl⟩ := Option.map_eq_some_iff.mp h.last
  exact ⟨⟨first, List.mem_of_head? hfirst, hf⟩, last, List.mem_of_getLast? hlast, hl⟩

end Ranges

end Herdr.Accounting
