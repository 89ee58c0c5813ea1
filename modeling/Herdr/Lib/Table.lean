import Mathlib.Data.List.Nodup
import Mathlib.Logic.Function.Basic

/-!
# Keyed tables

A table is a list of rows with one primary key: no two rows have the same key, and the
structure says so. `find` selects by key, `insert?` refuses a key that is present, `update`
replaces the row of that key and does nothing when there is none.
-/

/-- Rows of `α` with primary key `key`. -/
structure Table (α : Type) {κ : Type} (key : α → κ) where
  rows : List α
  nodup : (rows.map key).Nodup

namespace Table

variable {α κ : Type} {key : α → κ}

instance [DecidableEq α] : DecidableEq (Table α key) := fun t u =>
  decidable_of_iff (t.rows = u.rows) ⟨fun h => by cases t; cases u; cases h; rfl, fun h => h ▸ rfl⟩

def empty : Table α key := ⟨[], by simp⟩

variable [DecidableEq κ]

/-- The row with key `k`. -/
def find (t : Table α key) (k : κ) : Option α := t.rows.find? fun r => key r = k

/-- Replace the row that has `a`'s key. -/
def update (t : Table α key) (a : α) : Table α key where
  rows := t.rows.map fun r => if key r = key a then a else r
  nodup := by
    have h : (t.rows.map fun r => if key r = key a then a else r).map key = t.rows.map key := by
      rw [List.map_map]
      apply List.map_congr_left
      intro r _
      by_cases h : key r = key a <;> simp [h]
    rw [h]
    exact t.nodup

/-- Change rows in place; no key changes. -/
def modify (t : Table α key) (f : α → α) (hf : ∀ a, key (f a) = key a) : Table α key where
  rows := t.rows.map f
  nodup := by
    have h : (t.rows.map f).map key = t.rows.map key := by
      rw [List.map_map]
      exact List.map_congr_left fun a _ => hf a
    rw [h]
    exact t.nodup

theorem find_eq_none_iff {t : Table α key} {k : κ} :
    t.find k = none ↔ k ∉ t.rows.map key := by
  simp [find]

/-- Add a row, unless its key is taken. -/
def insert? (t : Table α key) (a : α) : Option (Table α key) :=
  if h : t.find (key a) = none then
    some ⟨t.rows ++ [a], by
      rw [List.map_append, List.nodup_append]
      refine ⟨t.nodup, by simp, ?_⟩
      intro k hk k' hk' he
      simp only [List.map_cons, List.map_nil, List.mem_singleton] at hk'
      exact find_eq_none_iff.mp h (hk' ▸ he ▸ hk)⟩
  else none

variable {t t' : Table α key} {a b : α} {k : κ}

theorem find_key (h : t.find k = some a) : key a = k := by
  simpa using List.find?_some h

theorem mem_of_find (h : t.find k = some a) : a ∈ t.rows := List.mem_of_find?_eq_some h

omit [DecidableEq κ] in
/-- Rows with one key are one row. -/
theorem eq_of_mem (ha : a ∈ t.rows) (hb : b ∈ t.rows) (h : key a = key b) : a = b :=
  List.inj_on_of_nodup_map t.nodup ha hb h

theorem find_of_mem (h : a ∈ t.rows) : t.find (key a) = some a := by
  cases hf : t.find (key a) with
  | none => exact absurd (List.mem_map_of_mem h) (find_eq_none_iff.mp hf)
  | some b => rw [eq_of_mem (mem_of_find hf) h (find_key hf)]

theorem mem_iff_find : a ∈ t.rows ↔ t.find (key a) = some a := ⟨find_of_mem, mem_of_find⟩

@[simp] theorem find_empty : (empty : Table α key).find k = none := rfl

theorem insert?_eq_some (h : t.insert? a = some t') :
    t.find (key a) = none ∧ t'.rows = t.rows ++ [a] := by
  unfold insert? at h
  split at h
  · cases h
    exact ⟨‹_›, rfl⟩
  · cases h

theorem find_insert? (h : t.insert? a = some t') :
    t'.find k = if key a = k then some a else t.find k := by
  obtain ⟨hn, hr⟩ := insert?_eq_some h
  unfold find
  rw [hr, List.find?_append]
  split
  · next he =>
    subst he
    rw [show t.rows.find? (fun r => key r = key a) = none from hn]
    simp
  · next he => simp [he]

theorem find_insert?_of_some (h : t.insert? a = some t') (hk : t.find k = some b) :
    t'.find k = some b := by
  rw [find_insert? h, if_neg, hk]
  rintro rfl
  rw [(insert?_eq_some h).1] at hk
  cases hk

theorem mem_insert? (h : t.insert? a = some t') : b ∈ t'.rows ↔ b ∈ t.rows ∨ b = a := by
  rw [(insert?_eq_some h).2]
  simp

@[simp] theorem rows_update :
    (t.update a).rows = t.rows.map fun r => if key r = key a then a else r := rfl

section Modify

variable {f : α → α} {hf : ∀ a, key (f a) = key a}

omit [DecidableEq κ] in
@[simp] theorem rows_modify : (t.modify f hf).rows = t.rows.map f := rfl

theorem find_modify : (t.modify f hf).find k = (t.find k).map f := by
  unfold find
  rw [rows_modify, List.find?_map]
  congr 2
  funext a
  simp [hf]

omit [DecidableEq κ] in
theorem mem_modify : b ∈ (t.modify f hf).rows ↔ ∃ a ∈ t.rows, f a = b := by simp

omit [DecidableEq κ] in
/-- A change that is the identity on the rows there are. -/
theorem modify_eq_self (h : ∀ a ∈ t.rows, f a = a) : t.modify f hf = t := by
  cases t with
  | mk rows nodup =>
    have hrows : rows.map f = rows := by simpa using List.map_congr_left h
    simp only [modify, hrows]

end Modify

theorem find_update : (t.update a).find k =
    if key a = k then (t.find k).map fun _ => a else t.find k := by
  unfold find
  rw [rows_update]
  induction t.rows with
  | nil => simp
  | cons r l ih =>
    simp only [List.map_cons, List.find?_cons]
    by_cases h : key r = key a
    · by_cases hk : key a = k
      · simp [h, hk]
      · simp [h, hk, ih]
    · by_cases hk : key a = k
      · subst hk
        simp [h, ih]
      · rw [if_neg h, ih, if_neg hk, if_neg hk]

@[simp] theorem find_update_self (h : t.find (key a) = some b) :
    (t.update a).find (key a) = some a := by
  simp [find_update, h]

theorem find_update_ne (h : key a ≠ k) : (t.update a).find k = t.find k := by
  simp [find_update, h]

theorem mem_update (h : b ∈ (t.update a).rows) : b = a ∨ (b ∈ t.rows ∧ key b ≠ key a) := by
  simp only [rows_update, List.mem_map] at h
  obtain ⟨r, hr, rfl⟩ := h
  by_cases he : key r = key a
  · simp [he]
  · exact .inr (by simp [he, hr])

theorem mem_update_iff (hf : t.find (key a) = some b) {c : α} :
    c ∈ (t.update a).rows ↔ c = a ∨ (c ∈ t.rows ∧ key c ≠ key a) := by
  refine ⟨mem_update, ?_⟩
  rintro (rfl | ⟨hc, hne⟩)
  · exact mem_of_find (find_update_self hf)
  · have h := find_of_mem hc
    rw [← find_update_ne (a := a) (fun e => hne e.symm)] at h
    exact mem_of_find h

/-- Replace the row that has `a`'s key, or add it. -/
def upsert (t : Table α key) (a : α) : Table α key := (t.insert? a).getD (t.update a)

theorem find_upsert : (t.upsert a).find k = if key a = k then some a else t.find k := by
  unfold upsert
  cases h : t.insert? a with
  | some t' => exact find_insert? h
  | none =>
    rw [Option.getD_none, find_update]
    unfold insert? at h
    split at h
    · cases h
    · next hsome =>
      obtain ⟨b, hb⟩ := Option.ne_none_iff_exists'.mp hsome
      split
      · next he => simp [← he, hb]
      · rfl

@[simp] theorem find_upsert_self : (t.upsert a).find (key a) = some a := by simp [find_upsert]

theorem find_upsert_ne (h : key a ≠ k) : (t.upsert a).find k = t.find k := by simp [find_upsert, h]

theorem mem_upsert : b ∈ (t.upsert a).rows ↔ b = a ∨ b ∈ t.rows ∧ key b ≠ key a := by
  rw [mem_iff_find, find_upsert]
  by_cases he : key a = key b
  · simp [he, eq_comm]
  · rw [if_neg he, ← mem_iff_find]
    refine ⟨fun h => .inr ⟨h, Ne.symm he⟩, ?_⟩
    rintro (rfl | ⟨h, -⟩)
    · exact absurd rfl he
    · exact h

/-- A row of a new key comes last. -/
theorem rows_upsert_of_none (h : t.find (key a) = none) : (t.upsert a).rows = t.rows ++ [a] := by
  simp [upsert, insert?, h]

theorem length_upsert_of_some (h : t.find (key a) = some b) :
    (t.upsert a).rows.length = t.rows.length := by
  simp [upsert, insert?, h]

/-- The rows that satisfy `p`. -/
def retain (t : Table α key) (p : α → Bool) : Table α key :=
  ⟨t.rows.filter p, t.nodup.sublist (List.filter_sublist.map _)⟩

omit [DecidableEq κ] in
@[simp] theorem rows_retain {p : α → Bool} : (t.retain p).rows = t.rows.filter p := rfl

theorem find_retain {p : α → Bool} : (t.retain p).find k = (t.find k).filter p := by
  cases h : t.find k with
  | none =>
    rw [Option.filter_none, find_eq_none_iff]
    rw [find_eq_none_iff] at h
    exact fun hmem => h ((List.filter_sublist.map _).subset hmem)
  | some b =>
    rw [Option.filter_some]
    split
    · next hp =>
      have hmem : b ∈ (t.retain p).rows := List.mem_filter.mpr ⟨mem_of_find h, hp⟩
      rw [← find_key h]
      exact find_of_mem hmem
    · next hp =>
      rw [find_eq_none_iff]
      rintro hmem
      obtain ⟨c, hc, hk⟩ := List.mem_map.mp hmem
      obtain ⟨hc, hpc⟩ := List.mem_filter.mp hc
      rw [eq_of_mem hc (mem_of_find h) (hk.trans (find_key h).symm)] at hpc
      exact hp hpc

/-- What an update does to a column. -/
theorem bind_update {β : Type} (f : α → Option β) (h : t.find (key a) = some b) :
    (fun k => ((t.update a).find k).bind f) =
      Function.update (fun k => (t.find k).bind f) (key a) (f a) := by
  funext k
  by_cases hk : k = key a
  · subst hk
    simp [find_update_self h]
  · simp [find_update_ne (Ne.symm hk), hk]

/-- What a new row does to a column. -/
theorem bind_insert? {β : Type} (f : α → Option β) (h : t.insert? a = some t') :
    (fun k => (t'.find k).bind f) =
      Function.update (fun k => (t.find k).bind f) (key a) (f a) := by
  funext k
  rw [find_insert? h]
  by_cases hk : k = key a
  · subst hk
    simp
  · simp [hk, Ne.symm hk]

/-- Rows were added and none changed. -/
def Extends (t t' : Table α key) : Prop := ∃ more, t'.rows = t.rows ++ more

omit [DecidableEq κ] in
theorem Extends.refl (t : Table α key) : t.Extends t := ⟨[], by simp⟩

omit [DecidableEq κ] in
theorem Extends.trans {u : Table α key} (h : t.Extends t') (h' : t'.Extends u) : t.Extends u := by
  obtain ⟨more, h⟩ := h
  obtain ⟨more', h'⟩ := h'
  exact ⟨more ++ more', by rw [h', h, List.append_assoc]⟩

theorem Extends.insert? (h : t.insert? a = some t') : t.Extends t' :=
  ⟨[a], (insert?_eq_some h).2⟩

omit [DecidableEq κ] in
theorem Extends.mem (h : t.Extends t') (ha : a ∈ t.rows) : a ∈ t'.rows := by
  obtain ⟨more, h⟩ := h
  rw [h]
  exact List.mem_append_left _ ha

theorem Extends.find (h : t.Extends t') (hk : t.find k = some a) : t'.find k = some a := by
  have ha := find_of_mem (h.mem (mem_of_find hk))
  rwa [find_key hk] at ha

/-- No key was lost. -/
def Keeps (t t' : Table α key) : Prop := ∀ k, (t.find k).isSome → (t'.find k).isSome

theorem Keeps.refl (t : Table α key) : t.Keeps t := fun _ h => h

theorem Keeps.trans {u : Table α key} (h : t.Keeps t') (h' : t'.Keeps u) : t.Keeps u :=
  fun k hk => h' k (h k hk)

theorem Extends.keeps (h : t.Extends t') : t.Keeps t' := by
  intro k hk
  obtain ⟨a, ha⟩ := Option.isSome_iff_exists.mp hk
  simp [h.find ha]

/-- A row that a deletion passes over is still there. -/
theorem isSome_find_filter {p : α → Bool} (h : ((t.rows.filter p).map key).Nodup)
    (hk : (t.find k).isSome) (hp : ∀ a, key a = k → p a = true) :
    ((⟨t.rows.filter p, h⟩ : Table α key).find k).isSome := by
  obtain ⟨a, ha⟩ := Option.isSome_iff_exists.mp hk
  have hmem : a ∈ (⟨t.rows.filter p, h⟩ : Table α key).rows :=
    List.mem_filter.mpr ⟨mem_of_find ha, hp a (find_key ha)⟩
  rw [← find_key ha, find_of_mem hmem]
  rfl

theorem Keeps.update (t : Table α key) (a : α) : t.Keeps (t.update a) := by
  intro k hk
  rw [find_update]
  split
  · simpa using hk
  · exact hk

theorem countP_update (p : α → Bool) (hf : t.find (key a) = some b) (hp : p a = p b) :
    (t.update a).rows.countP p = t.rows.countP p := by
  have hb := mem_of_find hf
  simp only [rows_update, List.countP_map]
  apply List.countP_congr
  intro r hr
  simp only [Function.comp]
  by_cases he : key r = key a
  · rw [if_pos he, hp, eq_of_mem hr hb (he.trans (find_key hf).symm)]
  · rw [if_neg he]

/-- A selection that neither the old nor the new row belongs to does not see the update. -/
theorem filter_update (p : α → Bool) (hf : t.find (key a) = some b) (hb : p b = false)
    (ha : p a = false) : (t.update a).rows.filter p = t.rows.filter p := by
  have hrow : ∀ r ∈ t.rows, key r = key a → r = b := fun r hr he =>
    eq_of_mem hr (mem_of_find hf) (he.trans (find_key hf).symm)
  rw [rows_update]
  generalize t.rows = rows at hrow ⊢
  induction rows with
  | nil => rfl
  | cons r l ih =>
    have hrest := ih fun r' hr' => hrow r' (List.mem_cons_of_mem r hr')
    rw [List.map_cons]
    by_cases he : key r = key a
    · have hr : p r = false := by rw [hrow r (by simp) he, hb]
      rw [if_pos he, List.filter_cons_of_neg (by simp [ha]), List.filter_cons_of_neg (by simp [hr]),
        hrest]
    · rw [if_neg he, List.filter_cons, List.filter_cons, hrest]

end Table
