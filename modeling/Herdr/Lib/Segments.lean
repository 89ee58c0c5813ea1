import Mathlib.Data.List.DropRight

/-!
# Segmented texts

A segmented text is a list of nonempty segments joined by a separator that none of them contains;
a directory ends in one more separator. A text covers itself, and a directory covers everything
that continues it. Two texts that cover a common point overlap by segments: they are equal, or one
of them is a directory whose segments begin the other's. The points may be encodings of texts, as
long as the encoding reflects prefixes.
-/

/-- Segments of a text over `α`, and whether it names a directory. -/
structure Segmented (α : Type) (sep : α) where
  parts : List (List α)
  directory : Bool
  parts_ne : parts ≠ []
  part_ne : ∀ part ∈ parts, part ≠ []
  sep_free : ∀ part ∈ parts, sep ∉ part

namespace Segmented

variable {α : Type} {sep : α} {a b : Segmented α sep}

/-- The segments joined, and the mark of a directory. -/
def text (a : Segmented α sep) : List α :=
  [sep].intercalate a.parts ++ if a.directory then [sep] else []

@[ext] theorem ext (hparts : a.parts = b.parts) (hdirectory : a.directory = b.directory) :
    a = b := by
  cases a
  cases b
  cases hparts
  cases hdirectory
  rfl

variable [DecidableEq α]

/-! ## Splitting a text again -/

theorem splitOn_text : a.text.splitOn sep = a.parts ++ if a.directory then [[]] else [] := by
  have hjoin := List.splitOn_intercalate sep a.sep_free a.parts_ne
  unfold text
  cases a.directory with
  | false => simpa using hjoin
  | true =>
    simp only [if_true]
    rw [List.splitOn_append_cons_self, hjoin, List.splitOn_nil]

/-- The nonempty pieces of a text are its segments. -/
theorem filter_splitOn_text : (a.text.splitOn sep).filter (· ≠ []) = a.parts := by
  have hparts : a.parts.filter (· ≠ []) = a.parts := by
    rw [List.filter_eq_self]
    intro part hpart
    exact decide_eq_true (a.part_ne part hpart)
  rw [splitOn_text, List.filter_append, hparts]
  cases a.directory <;> simp

/-- A text ends in the separator exactly when it names a directory. -/
theorem getLast?_text : a.text.getLast? = some sep ↔ a.directory = true := by
  constructor
  · intro hlast
    obtain ⟨before, hbefore⟩ := List.getLast?_eq_some_iff.mp hlast
    have hsplit := splitOn_text (a := a)
    rw [hbefore, List.splitOn_append_cons_self, List.splitOn_nil] at hsplit
    cases hd : a.directory with
    | true => rfl
    | false =>
      -- the piece after the last separator would be an empty segment
      rw [hd, if_neg Bool.false_ne_true, List.append_nil] at hsplit
      exact absurd rfl (a.part_ne [] (hsplit ▸ by simp))
  · intro hd
    simp [text, hd]

/-- No piece contains the separator. -/
theorem not_mem_of_mem_splitOn {text part : List α} (h : part ∈ text.splitOn sep) : sep ∉ part := by
  induction text generalizing part with
  | nil =>
    rw [List.splitOn_nil, List.mem_singleton] at h
    simp [h]
  | cons x text ih =>
    rw [List.splitOn_cons_eq_if_modifyHead] at h
    split at h
    · rcases List.mem_cons.mp h with rfl | h
      · exact List.not_mem_nil
      · exact ih h
    · next hx =>
      obtain ⟨first, rest, hsplit⟩ := List.exists_cons_of_ne_nil (List.splitOn_ne_nil sep text)
      rw [hsplit] at h ih
      rcases List.mem_cons.mp h with rfl | h
      · rw [List.mem_cons, not_or]
        exact ⟨fun he => hx (by simp [he]), ih List.mem_cons_self⟩
      · exact ih (List.mem_cons_of_mem _ h)

/-- Separators at the end change no nonempty piece. -/
theorem filter_splitOn_rdropWhile (text : List α) :
    ((text.rdropWhile (· = sep)).splitOn sep).filter (· ≠ []) =
      (text.splitOn sep).filter (· ≠ []) := by
  induction text using List.reverseRecOn with
  | nil => rfl
  | append_singleton text last ih =>
    by_cases hlast : last = sep
    · subst hlast
      rw [List.rdropWhile_concat_pos _ _ _ (by simp), ih, List.splitOn_append_cons_self,
        List.splitOn_nil, List.filter_append]
      simp
    · rw [List.rdropWhile_concat_neg _ _ _ (by simpa using hlast)]

theorem text_injective : Function.Injective (text : Segmented α sep → List α) := by
  intro a b h
  have hparts : a.parts = b.parts := by
    rw [← filter_splitOn_text (a := a), h, filter_splitOn_text]
  have hdirectory : a.directory = true ↔ b.directory = true := by
    rw [← getLast?_text, h, getLast?_text]
  exact ext hparts (Bool.eq_iff_iff.mpr hdirectory)

/-- The segments of a directory begin the segments of every text that continues it. -/
theorem parts_begin (hdirectory : a.directory = true) (h : a.text <+: b.text) :
    a.parts <+: b.parts := by
  obtain ⟨rest, hrest⟩ := h
  have hsplit : a.parts ++ rest.splitOn sep = b.parts ++ if b.directory then [[]] else [] := by
    rw [← splitOn_text (a := b), ← hrest, text, hdirectory, if_pos rfl, List.append_assoc,
      List.singleton_append, List.splitOn_append_cons_self,
      List.splitOn_intercalate sep a.sep_free a.parts_ne]
  have hpos : 0 < (rest.splitOn sep).length := List.length_pos_of_ne_nil (List.splitOn_ne_nil sep rest)
  have hlength : a.parts.length ≤ b.parts.length := by
    have h := congrArg List.length hsplit
    simp only [List.length_append] at h
    cases hb : b.directory <;> simp only [hb, Bool.false_eq_true, if_false, if_true,
      List.length_nil, List.length_singleton] at h <;> omega
  exact List.prefix_of_prefix_length_le ⟨_, hsplit⟩ (List.prefix_append _ _) hlength

/-! ## Common points -/

variable {β : Type} {encode : List α → List β} {point : List β}

/-- The point is the text itself, or continues the text of a directory. -/
def Covers (encode : List α → List β) (a : Segmented α sep) (point : List β) : Prop :=
  point = encode a.text ∨ (a.directory = true ∧ encode a.text <+: point)

/-- Equal, or one is a directory above the other. -/
def Overlaps (a b : Segmented α sep) : Prop :=
  a = b ∨ (a.directory = true ∧ a.parts <+: b.parts) ∨ (b.directory = true ∧ b.parts <+: a.parts)

omit [DecidableEq α] in
theorem Overlaps.symm (h : Overlaps a b) : Overlaps b a := by
  rcases h with rfl | h | h
  · exact .inl rfl
  · exact .inr (.inr h)
  · exact .inr (.inl h)

omit [DecidableEq α] in
theorem Covers.begins (h : Covers encode a point) : encode a.text <+: point := by
  rcases h with rfl | ⟨-, h⟩
  · exact List.prefix_refl _
  · exact h

/-- A text that begins another one's overlaps it when both cover a point. -/
theorem overlaps_of_begins (hencode : ∀ {x y}, encode x <+: encode y → x <+: y)
    (h : a.text <+: b.text) (ha : Covers encode a point) (hb : Covers encode b point) :
    Overlaps a b := by
  rcases ha with rfl | ⟨hdirectory, -⟩
  · have hle := (hencode hb.begins).length_le
    exact .inl (text_injective (h.eq_of_length_le hle))
  · exact .inr (.inl ⟨hdirectory, parts_begin hdirectory h⟩)

/-- **Texts that cover a common point overlap.** -/
theorem overlaps_of_covers (hencode : ∀ {x y}, encode x <+: encode y → x <+: y)
    (ha : Covers encode a point) (hb : Covers encode b point) : Overlaps a b := by
  rcases List.prefix_or_prefix_of_prefix ha.begins hb.begins with h | h
  · exact overlaps_of_begins hencode (hencode h) ha hb
  · exact (overlaps_of_begins hencode (hencode h) hb ha).symm

end Segmented
