import Herdr.Lib.Table

/-!
# Patches of keyed tables

A table changed row by row: `put` sets the row of a key, `erase` drops it, and a patch is a list of
such changes. `diff old new` is the patch that stores only what differs between two tables, and
applying it to the old one gives the new one back, row for row.
-/

namespace Table

variable {α κ : Type} {key : α → κ} [DecidableEq κ]

/-- Set the row of `a`'s key to `a`. -/
def put (t : Table α key) (a : α) : Table α key := (t.insert? a).getD (t.update a)

/-- Drop the row of a key. -/
def erase (t : Table α key) (k : κ) : Table α key where
  rows := t.rows.filter fun r => key r ≠ k
  nodup := t.nodup.sublist (List.filter_sublist.map key)

/-- A change of one row. -/
inductive Change (α κ : Type) where
  | set (row : α)
  | unset (k : κ)
deriving DecidableEq

def Change.target (key : α → κ) : Change α κ → κ
  | .set row => key row
  | .unset k => k

/-- What a change leaves under its key. -/
def Change.row : Change α κ → Option α
  | .set row => some row
  | .unset _ => none

def apply (t : Table α key) : Change α κ → Table α key
  | .set row => t.put row
  | .unset k => t.erase k

/-- Apply the changes in order. -/
def patch (t : Table α key) (changes : List (Change α κ)) : Table α key := changes.foldl apply t

variable [DecidableEq α]

/-- The rows of `new` that `old` does not have. -/
def changed (old new : Table α key) : List α := new.rows.filter fun a => old.find (key a) ≠ some a

/-- The keys of `old` that `new` does not have. -/
def removed (old new : Table α key) : List κ :=
  (old.rows.map key).filter fun k => (new.find k).isNone

def diff (old new : Table α key) : List (Change α κ) :=
  (changed old new).map .set ++ (removed old new).map .unset

variable {t old new : Table α key} {a : α} {k : κ} {c : Change α κ} {cs : List (Change α κ)}

omit [DecidableEq α] in
theorem find_put : (t.put a).find k = if key a = k then some a else t.find k := by
  unfold put
  cases h : t.insert? a with
  | some t' => exact find_insert? h
  | none =>
    have hsome : t.find (key a) ≠ none := by
      intro hn
      simp [insert?, hn] at h
    rw [Option.getD_none, find_update]
    split
    · next he =>
      subst he
      obtain ⟨b, hb⟩ := Option.ne_none_iff_exists'.mp hsome
      rw [hb]
      rfl
    · rfl

omit [DecidableEq α] in
theorem find_erase {j : κ} : (t.erase k).find j = if k = j then none else t.find j := by
  split
  · next he =>
    subst he
    rw [find_eq_none_iff]
    simp [erase]
  · next he =>
    cases hj : t.find j with
    | none =>
      rw [find_eq_none_iff] at hj ⊢
      intro hm
      obtain ⟨r, hr, hk⟩ := List.mem_map.mp hm
      exact hj (List.mem_map.mpr ⟨r, (List.mem_filter.mp hr).1, hk⟩)
    | some b =>
      have hb : b ∈ (t.erase k).rows := by
        refine List.mem_filter.mpr ⟨mem_of_find hj, ?_⟩
        rw [find_key hj]
        simpa using Ne.symm he
      have hfind := find_of_mem hb
      rwa [find_key hj] at hfind

omit [DecidableEq α] in
/-- A change decides the row of its key and leaves the others. -/
theorem find_apply : (t.apply c).find k = if c.target key = k then c.row else t.find k := by
  cases c with
  | set row => exact find_put
  | unset j => exact find_erase

omit [DecidableEq α] in
theorem find_patch_of_not_mem (h : k ∉ cs.map (Change.target key)) :
    (t.patch cs).find k = t.find k := by
  induction cs generalizing t with
  | nil => rfl
  | cons c cs ih =>
    rw [List.map_cons, List.mem_cons, not_or] at h
    rw [patch, List.foldl_cons]
    exact (ih h.2).trans (by rw [find_apply, if_neg (Ne.symm h.1)])

omit [DecidableEq α] in
/-- Changes of different keys each decide their own row. -/
theorem find_patch_of_mem (hnodup : (cs.map (Change.target key)).Nodup) (hc : c ∈ cs) :
    (t.patch cs).find (c.target key) = c.row := by
  induction cs generalizing t with
  | nil => cases hc
  | cons d cs ih =>
    obtain ⟨hd, hcs⟩ := List.nodup_cons.mp hnodup
    rw [patch, List.foldl_cons]
    rcases List.mem_cons.mp hc with rfl | hc
    · exact (find_patch_of_not_mem hd).trans (by rw [find_apply, if_pos rfl])
    · exact ih hcs hc

theorem mem_changed : a ∈ changed old new ↔ a ∈ new.rows ∧ old.find (key a) ≠ some a := by
  simp [changed]

omit [DecidableEq α] in
theorem mem_removed : k ∈ removed old new ↔ old.find k ≠ none ∧ new.find k = none := by
  rw [removed, List.mem_filter, Option.isNone_iff_eq_none]
  refine and_congr_left fun _ => ?_
  rw [Ne, find_eq_none_iff, not_not]

/-- A patch from a difference changes every key once. -/
theorem nodup_diff : ((diff old new).map (Change.target key)).Nodup := by
  have hsets : ((changed old new).map Change.set).map (Change.target key) =
      (changed old new).map key := by
    rw [List.map_map]
    rfl
  have hunsets : ((removed old new).map Change.unset).map (Change.target key) =
      removed old new := by
    rw [List.map_map]
    exact List.map_id _
  rw [diff, List.map_append, hsets, hunsets, List.nodup_append]
  refine ⟨new.nodup.sublist (List.filter_sublist.map key), old.nodup.filter _, ?_⟩
  rintro k hk j hj rfl
  obtain ⟨a, ha, rfl⟩ := List.mem_map.mp hk
  have hnone := (mem_removed.mp hj).2
  rw [find_of_mem (mem_changed.mp ha).1] at hnone
  cases hnone

/-- **Round trip.** The difference of two tables turns the first into the second. -/
theorem find_patch_diff (k : κ) : (old.patch (diff old new)).find k = new.find k := by
  cases hnew : new.find k with
  | some a =>
    have hkey := find_key hnew
    by_cases hold : old.find k = some a
    · -- the row is the same, so no change names its key
      rw [find_patch_of_not_mem, hold]
      intro hm
      obtain ⟨c, hc, hck⟩ := List.mem_map.mp hm
      rcases List.mem_append.mp hc with hc | hc
      · obtain ⟨b, hb, rfl⟩ := List.mem_map.mp hc
        obtain ⟨hbnew, hbold⟩ := mem_changed.mp hb
        have hba : b = a := eq_of_mem hbnew (mem_of_find hnew) (hck.trans hkey.symm)
        rw [hba, hkey] at hbold
        exact hbold hold
      · obtain ⟨j, hj, rfl⟩ := List.mem_map.mp hc
        have hnone := (mem_removed.mp hj).2
        rw [show j = k from hck, hnew] at hnone
        cases hnone
    · have hset : Change.set a ∈ diff old new :=
        List.mem_append_left _ (List.mem_map_of_mem
          (mem_changed.mpr ⟨mem_of_find hnew, by rwa [hkey]⟩))
      have hfind := find_patch_of_mem (t := old) nodup_diff hset
      rwa [show (Change.set a).target key = k from hkey] at hfind
  | none =>
    by_cases hold : old.find k = none
    · rw [find_patch_of_not_mem, hold]
      intro hm
      obtain ⟨c, hc, hck⟩ := List.mem_map.mp hm
      rcases List.mem_append.mp hc with hc | hc
      · obtain ⟨b, hb, rfl⟩ := List.mem_map.mp hc
        have hfind := find_of_mem (mem_changed.mp hb).1
        rw [show key b = k from hck, hnew] at hfind
        cases hfind
      · obtain ⟨j, hj, rfl⟩ := List.mem_map.mp hc
        exact (mem_removed.mp hj).1 (by rwa [show j = k from hck])
    · have hunset : Change.unset k ∈ diff old new :=
        List.mem_append_right _ (List.mem_map_of_mem (mem_removed.mpr ⟨hold, hnew⟩))
      exact find_patch_of_mem nodup_diff hunset

end Table
