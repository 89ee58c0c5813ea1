import Herdr.Lib.Patch

/-!
# Stored views

A stored view is a table that is to hold the rows of a query. A change of one row of a table that
the query reads is followed by a refresh: the rows that the change may affect are deleted and
selected again. When the query's other rows are the same before and after, the refreshed table
holds the query's rows, and no insert of the refresh meets a key that is taken.
-/

/-- `LEFT JOIN`: the matching rows, or one row of nulls. -/
def leftJoin {α : Type} (p : α → Bool) (rows : List α) : List (Option α) :=
  match rows.filter p with
  | [] => [none]
  | matching => matching.map some

section LeftJoin

variable {α : Type} {p : α → Bool} {rows : List α} {a : α}

theorem some_mem_leftJoin : some a ∈ leftJoin p rows ↔ a ∈ rows ∧ p a = true := by
  rw [← List.mem_filter, leftJoin]
  split
  · next h => simp [h]
  · simp

theorem none_mem_leftJoin : none ∈ leftJoin p rows ↔ ∀ a ∈ rows, p a = false := by
  rw [leftJoin]
  split
  · next h => simpa using h
  · next h =>
    constructor
    · intro hmem
      obtain ⟨a, -, ha⟩ := List.mem_map.mp hmem
      cases ha
    · intro hall
      exact absurd (List.filter_eq_nil_iff.mpr fun a ha => by simp [hall a ha]) h

/-- A join with at most one matching row gives one row. -/
theorem leftJoin_eq_singleton (h : (rows.filter p).length ≤ 1) : ∃ m, leftJoin p rows = [m] := by
  rw [leftJoin]
  split
  · exact ⟨none, rfl⟩
  · next hne =>
    match hrows : rows.filter p, h with
    | [], _ => exact absurd hrows hne
    | [a], _ => exact ⟨some a, rfl⟩

/-- A matching row is the one that a join of one row found. -/
theorem leftJoin_unique {m : Option α} (h : leftJoin p rows = [m]) (ha : a ∈ rows)
    (hp : p a = true) : m = some a := by
  have hmem := some_mem_leftJoin.mpr ⟨ha, hp⟩
  rw [h] at hmem
  exact (List.mem_singleton.mp hmem).symm

theorem leftJoin_found (h : leftJoin p rows = [some a]) : a ∈ rows ∧ p a = true :=
  some_mem_leftJoin.mp (h ▸ List.mem_singleton_self _)

/-- At most one row has a key. -/
theorem length_filter_le_one {κ : Type} {key : α → κ} {k : κ} (hnodup : (rows.map key).Nodup)
    (hp : ∀ a, p a = true → key a = k) : (rows.filter p).length ≤ 1 := by
  have hsub : ((rows.filter p).map key).Nodup := hnodup.sublist (List.filter_sublist.map key)
  match hrows : rows.filter p with
  | [] => exact Nat.zero_le 1
  | [a] => exact Nat.le_refl 1
  | a :: b :: rest =>
    have ha : p a = true := (List.mem_filter.mp (hrows ▸ List.mem_cons_self)).2
    have hb : p b = true :=
      (List.mem_filter.mp (hrows ▸ List.mem_cons_of_mem _ List.mem_cons_self)).2
    rw [hrows] at hsub
    exact absurd ((hp a ha).trans (hp b hb).symm) fun he =>
      (List.nodup_cons.mp hsub).1 (he ▸ List.mem_cons_self)

end LeftJoin

section Queries

variable {α β γ κ : Type}

/-- A query that gives at most one row for each row of a table, with its key, has distinct keys. -/
theorem nodup_flatMap {rows : List α} {f : α → List β} {key : α → κ} {key' : β → κ}
    (hnodup : (rows.map key).Nodup) (hkey : ∀ a, ∀ b ∈ f a, key' b = key a)
    (hone : ∀ a, (f a).length ≤ 1) : ((rows.flatMap f).map key').Nodup := by
  rw [List.map_flatMap, List.nodup_flatMap]
  refine ⟨fun a _ => ?_, (List.pairwise_map.mp hnodup).imp fun {a a'} hne k hk hk' => ?_⟩
  · match hf : f a, hone a with
    | [], _ => exact List.nodup_nil
    | [b], _ => exact List.nodup_singleton _
  · obtain ⟨b, hb, rfl⟩ := List.mem_map.mp hk
    obtain ⟨b', hb', he⟩ := List.mem_map.mp hk'
    exact hne ((hkey a b hb).symm.trans (he.symm.trans (hkey a' b' hb')))

variable {rows : List α} {others : List β} {p : α → β → Bool} {c : α → Bool} {f : α → γ} {x : γ}

/-- `LEFT JOIN .. WHERE c AND others.id IS NULL`: the rows without a match. -/
theorem mem_unmatched : (x ∈ rows.flatMap fun a =>
    (leftJoin (p a) others).filterMap fun b => if c a && b.isNone then some (f a) else none) ↔
      ∃ a ∈ rows, c a = true ∧ (∀ b ∈ others, p a b = false) ∧ f a = x := by
  simp only [List.mem_flatMap, List.mem_filterMap]
  constructor
  · intro ⟨a, ha, b, hb, hx⟩
    split at hx
    · next hwhere =>
      obtain ⟨hc, hnone⟩ := Bool.and_eq_true_iff.mp hwhere
      rw [Option.isNone_iff_eq_none.mp hnone] at hb
      exact ⟨a, ha, hc, none_mem_leftJoin.mp hb, Option.some.inj hx⟩
    · cases hx
  · intro ⟨a, ha, hc, hall, hx⟩
    exact ⟨a, ha, none, none_mem_leftJoin.mpr hall, by simp [hc, hx]⟩

theorem nodup_unmatched (hnodup : (rows.map f).Nodup) : (rows.flatMap fun a =>
    (leftJoin (p a) others).filterMap fun b =>
      if c a && b.isNone then some (f a) else none).Nodup := by
  let query : α → List γ := fun a =>
    (leftJoin (p a) others).filterMap fun b => if c a && b.isNone then some (f a) else none
  have hid : ((rows.flatMap query).map id).Nodup :=
    nodup_flatMap hnodup (fun a b hb => ?_) fun a => ?_
  · rwa [List.map_id] at hid
  · obtain ⟨m, -, hm⟩ := List.mem_filterMap.mp hb
    split at hm
    · exact (Option.some.inj hm).symm
    · cases hm
  · by_cases hall : none ∈ leftJoin (p a) others
    · -- the join is the one row of nulls
      have hjoin : leftJoin (p a) others = [none] := by
        rw [leftJoin, List.filter_eq_nil_iff.mpr fun b hb => by
          simp [none_mem_leftJoin.mp hall b hb]]
      refine Nat.le_trans (List.length_filterMap_le _ _) ?_
      rw [hjoin]
      exact Nat.le_refl 1
    · have hnil : query a = [] := by
        refine List.filterMap_eq_nil_iff.mpr fun b hb => ?_
        cases b with
        | none => exact absurd hb hall
        | some b => simp
      rw [hnil]
      exact Nat.zero_le 1

end Queries

namespace Table

variable {α κ : Type} {key : α → κ} [DecidableEq κ]

/-! ## Changes of one row -/

/-- A statement about one row; an update may change its key. -/
inductive RowChange (α κ : Type) where
  | insert (row : α)
  | update (k : κ) (row : α)
  | delete (k : κ)
deriving DecidableEq

/-- What a statement did: the table, with the row that it removed and the row that it put. -/
structure Changed (α : Type) {κ : Type} (key : α → κ) where
  table : Table α key
  old : Option α
  new : Option α

/-- Run a statement; a key that is taken refuses it, and a key without a row matches nothing. -/
def change? (t : Table α key) : RowChange α κ → Option (Changed α key)
  | .insert row => (t.insert? row).map (⟨·, none, some row⟩)
  | .update k row =>
    match t.find k with
    | none => some ⟨t, none, none⟩
    | some old => ((t.erase k).insert? row).map (⟨·, some old, some row⟩)
  | .delete k => some ⟨t.erase k, t.find k, none⟩

/-- The rows that a statement removed or put. -/
def Changed.touched (d : Changed α key) : List α := d.old.toList ++ d.new.toList

variable {t t' index : Table α key} {a b : α} {k : κ} {c : RowChange α κ} {d : Changed α key}

theorem mem_erase : a ∈ (t.erase k).rows ↔ a ∈ t.rows ∧ key a ≠ k := by
  rw [erase, List.mem_filter, decide_eq_true_eq]

/-- A row that was neither removed nor put is where it was. -/
theorem mem_change? (h : t.change? c = some d) (ha : a ∉ d.touched) :
    a ∈ d.table.rows ↔ a ∈ t.rows := by
  rw [Changed.touched, List.mem_append, Option.mem_toList, Option.mem_toList, not_or] at ha
  obtain ⟨hold, hnew⟩ := ha
  have herase : ∀ k, t.find k ≠ some a → (a ∈ (t.erase k).rows ↔ a ∈ t.rows) := by
    intro k hk
    rw [mem_erase, and_iff_left_iff_imp]
    intro hmem he
    exact hk (he ▸ find_of_mem hmem)
  cases c with
  | insert row =>
    obtain ⟨t', ht', rfl⟩ := Option.map_eq_some_iff.mp h
    rw [mem_insert? ht', or_iff_left fun he => hnew (congrArg some he.symm)]
  | update k row =>
    rw [change?] at h
    cases hfind : t.find k with
    | none =>
      rw [hfind] at h
      cases h
      rfl
    | some old =>
      rw [hfind] at h
      obtain ⟨t', ht', rfl⟩ := Option.map_eq_some_iff.mp h
      rw [mem_insert? ht', or_iff_left fun he => hnew (congrArg some he.symm)]
      exact herase k (hfind ▸ hold)
  | delete k =>
    cases h
    exact herase k hold

/-! ## Refreshes -/

/-- Insert rows one after the other. -/
def insertAll : Table α key → List α → Option (Table α key)
  | t, [] => some t
  | t, a :: rows => (t.insert? a).bind (insertAll · rows)

/-- Delete the affected rows, and insert the affected rows of the query. -/
def refresh (index : Table α key) (affected : α → Bool) (query : List α) : Option (Table α key) :=
  (index.retain fun a => !affected a).insertAll (query.filter affected)

theorem insertAll_ok {rows : List α} (hnodup : (rows.map key).Nodup)
    (hfree : ∀ a ∈ t.rows, ∀ b ∈ rows, key a ≠ key b) :
    ∃ t', t.insertAll rows = some t' ∧ t'.rows = t.rows ++ rows := by
  induction rows generalizing t with
  | nil => exact ⟨t, rfl, (List.append_nil _).symm⟩
  | cons a rows ih =>
    obtain ⟨hne, hnodup⟩ := List.nodup_cons.mp hnodup
    have hnone : t.find (key a) = none := by
      refine find_eq_none_iff.mpr fun hmem => ?_
      obtain ⟨b, hb, he⟩ := List.mem_map.mp hmem
      exact hfree b hb a List.mem_cons_self he
    obtain ⟨t₁, ht₁⟩ : ∃ t₁, t.insert? a = some t₁ := by
      rw [insert?, dif_pos hnone]
      exact ⟨_, rfl⟩
    have hrows := (insert?_eq_some ht₁).2
    obtain ⟨t', ht', hall⟩ := @ih t₁ hnodup fun b hb c hc => by
      rcases (mem_insert? ht₁).mp hb with hb | rfl
      · exact hfree b hb c (List.mem_cons_of_mem _ hc)
      · exact fun he => hne (he ▸ List.mem_map_of_mem hc)
    refine ⟨t', by rw [insertAll, ht₁]; exact ht', ?_⟩
    rw [hall, hrows, List.append_assoc, List.singleton_append]

/-- **A refresh** gives the query's rows where it is affected and keeps the others. It succeeds when
no row that stays has the key of a row that is selected again. -/
theorem refresh_ok {affected : α → Bool} {query : List α} (hnodup : (query.map key).Nodup)
    (hfree : ∀ a ∈ index.rows, affected a = false → ∀ b ∈ query, affected b = true → key a ≠ key b) :
    ∃ t, index.refresh affected query = some t ∧
      ∀ a, a ∈ t.rows ↔ if affected a then a ∈ query else a ∈ index.rows := by
  have hkept : ∀ a, a ∈ (index.retain fun a => !affected a).rows ↔
      a ∈ index.rows ∧ affected a = false := by
    intro a
    rw [rows_retain, List.mem_filter, Bool.not_eq_true']
  obtain ⟨t, ht, hrows⟩ := @insertAll_ok _ _ _ _ (index.retain fun a => !affected a)
    (query.filter affected) (hnodup.sublist (List.filter_sublist.map key)) fun a ha b hb => by
      obtain ⟨ha, haff⟩ := (hkept a).mp ha
      obtain ⟨hb, hbff⟩ := List.mem_filter.mp hb
      exact hfree a ha haff b hb hbff
  refine ⟨t, ht, fun a => ?_⟩
  rw [hrows, List.mem_append, hkept, List.mem_filter]
  cases affected a <;> simp

/-- The stored view holds the query's rows. -/
def Holds (index : Table α key) (query : List α) : Prop := ∀ a, a ∈ index.rows ↔ a ∈ query

omit [DecidableEq κ] in
theorem Holds.perm {query : List α} (h : index.Holds query) (hnodup : (query.map key).Nodup) :
    index.rows.Perm query :=
  (List.perm_ext_iff_of_nodup (List.Nodup.of_map _ index.nodup) (List.Nodup.of_map _ hnodup)).mpr h

/-- **The view rule.** A refresh of every row that a change may affect keeps the view. -/
theorem Holds.refresh {affected : α → Bool} {before after : List α} (h : index.Holds before)
    (hsame : ∀ a, affected a = false → (a ∈ before ↔ a ∈ after))
    (hnodup : (after.map key).Nodup) :
    ∃ t, index.refresh affected after = some t ∧ t.Holds after := by
  obtain ⟨t, ht, hmem⟩ := @refresh_ok _ _ _ _ index affected after hnodup fun a ha haff b hb hbff he => by
    have ha : a ∈ after := (hsame a haff).mp ((h a).mp ha)
    have hab := List.inj_on_of_nodup_map hnodup ha hb he
    rw [hab, hbff] at haff
    cases haff
  refine ⟨t, ht, fun a => ?_⟩
  rw [hmem]
  cases haff : affected a with
  | true => exact Iff.of_eq (if_pos rfl)
  | false => exact ((Iff.of_eq (if_neg Bool.false_ne_true)).trans (h a)).trans (hsame a haff)

end Table
