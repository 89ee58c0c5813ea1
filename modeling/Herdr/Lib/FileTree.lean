import Mathlib.Data.List.Nodup
import Mathlib.Logic.Function.Basic

/-!
# File trees

Directories and files by their paths, over any kind of names and contents. A node is created under
a directory, where there is none.
-/

namespace FileTree

inductive Node (C : Type*) where
  | directory
  | file (content : C)

def Node.isDirectory {C : Type*} : Node C → Bool
  | directory => true
  | file _ => false

/-- A tree, by path. -/
abbrev Tree (N C : Type*) := List N → Option (Node C)

variable {N C : Type*}

/-- The nodes under another root. -/
def under (base : List N) (nodes : List (List N × Node C)) : List (List N × Node C) :=
  nodes.map fun m => (base ++ m.1, m.2)

variable {nodes : List (List N × Node C)} {p base : List N}

theorem under_keys : (under base nodes).map Prod.fst = (nodes.map Prod.fst).map (base ++ ·) := by
  simp [under, Function.comp_def]

theorem mem_under_keys : base ++ p ∈ (under base nodes).map Prod.fst ↔ p ∈ nodes.map Prod.fst := by
  simp [under]

theorem under_nodup (h : (nodes.map Prod.fst).Nodup) :
    ((under base nodes).map Prod.fst).Nodup := by
  rw [under_keys]
  exact List.Nodup.map (List.append_right_injective base) h

theorem under_append (rest : List (List N × Node C)) :
    under base (nodes ++ rest) = under base nodes ++ under base rest :=
  List.map_append

section Lookup

variable {K V : Type*} [BEq K] [LawfulBEq K] {rows : List (K × V)} {k : K} {v : V}

theorem lookup_eq_none (h : k ∉ rows.map Prod.fst) : rows.lookup k = none := by
  rw [List.lookup_eq_none_iff]
  intro m hm
  rw [bne_iff_ne]
  rintro rfl
  exact h (List.mem_map_of_mem hm)

theorem lookup_of_mem (hnodup : (rows.map Prod.fst).Nodup) (h : (k, v) ∈ rows) :
    rows.lookup k = some v := by
  induction rows with
  | nil => cases h
  | cons m rows ih =>
    obtain ⟨first, w⟩ := m
    obtain ⟨hnew, hrest⟩ := List.nodup_cons.mp hnodup
    rw [List.lookup_cons]
    rcases List.mem_cons.mp h with hsame | hrow
    · obtain ⟨rfl, rfl⟩ := Prod.mk.inj hsame
      rw [beq_self_eq_true]
    · have hne : k ≠ first := by
        rintro rfl
        have hmem : (k, v).1 ∈ rows.map Prod.fst := List.mem_map_of_mem hrow
        exact hnew hmem
      rw [beq_eq_false_iff_ne.mpr hne, ih hrest hrow]

end Lookup

section Install

variable [DecidableEq N]

/-- A new node. -/
def create (t : Tree N C) (p : List N) (n : Node C) : Option (Tree N C) :=
  if p ≠ [] ∧ (t p).isNone = true ∧ (t p.dropLast).any Node.isDirectory = true then
    some (Function.update t p (some n))
  else none

/-- A tree with some nodes more. -/
def install (t : Tree N C) (nodes : List (List N × Node C)) : Tree N C :=
  fun p => (nodes.lookup p).or (t p)

variable {t : Tree N C} {n : Node C}

@[simp] theorem install_nil : install t [] = t := rfl

/-- What is installed is there. -/
theorem install_mem (hnodup : (nodes.map Prod.fst).Nodup) (h : (p, n) ∈ nodes) :
    install t nodes p = some n := by
  rw [install, lookup_of_mem hnodup h, Option.some_or]

/-- Everything else is as it was. -/
theorem install_other (h : p ∉ nodes.map Prod.fst) : install t nodes p = t p := by
  rw [install, lookup_eq_none h, Option.none_or]

/-- One node more. -/
theorem install_concat (h : p ∉ nodes.map Prod.fst) :
    install t (nodes ++ [(p, n)]) = Function.update (install t nodes) p (some n) := by
  funext q
  by_cases hq : q = p
  · subst hq
    rw [Function.update_self, install, List.lookup_append, lookup_eq_none h, Option.none_or,
      List.lookup_cons_self, Option.some_or]
  · rw [Function.update_of_ne hq, install, install, List.lookup_append, List.lookup_cons,
      beq_eq_false_iff_ne.mpr hq, List.lookup_nil, Option.or_none]

/-- A path that is free, in a directory, takes a node. -/
theorem create_install (hne : p ≠ []) (hnew : p ∉ nodes.map Prod.fst) (hfree : t p = none)
    (hparent : install t nodes p.dropLast = some .directory) :
    create (install t nodes) p n = some (install t (nodes ++ [(p, n)])) := by
  rw [create, if_pos, install_concat hnew]
  refine ⟨hne, ?_, ?_⟩
  · rw [install_other hnew, hfree, Option.isNone_none]
  · rw [hparent]
    rfl

end Install

end FileTree
