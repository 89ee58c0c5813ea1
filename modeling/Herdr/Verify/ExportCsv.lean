import Herdr.Telemetry.ExportCsv

/-!
# The CSV export is unambiguous and inert

Every row has one field for each column, and what a reader of the format finds in it is the guarded
text of the cell.
-/

namespace Herdr.ExportCsv

/-! ## Numerals -/

theorem splitOnce_some {separator : Char} {text before after : List Char}
    (h : splitOnce separator text = some (before, after)) :
    text = before ++ separator :: after := by
  induction text generalizing before with
  | nil => cases h
  | cons c text ih =>
    rw [splitOnce] at h
    split at h
    · next hc =>
      obtain ⟨rfl, rfl⟩ := Prod.mk.inj (Option.some.inj h)
      rw [hc, List.nil_append]
    · obtain ⟨⟨first, last⟩, hsplit, h⟩ := Option.map_eq_some_iff.mp h
      obtain ⟨rfl, rfl⟩ := Prod.mk.inj h
      rw [ih hsplit, List.cons_append]

/-- A decimal number without sign. -/
inductive Unsigned : List Char → Prop
  | whole {int : List Char} (h : digits int = true) : Unsigned int
  | fraction {int frac : List Char} (h : digits int = true) (frac_digits : digits frac = true) :
    Unsigned (int ++ '.' :: frac)

/-- A plain decimal numeral. -/
def Plain (text : List Char) : Prop :=
  Unsigned text ∨ ∃ body, text = '-' :: body ∧ Unsigned body

/-- A spreadsheet takes the text as it stands. -/
def Inert (text : List Char) : Prop := (∀ c ∈ text.head?, formula c = false) ∨ Plain text

theorem formula_digit {c : Char} (h : ('0' ≤ c && c ≤ '9') = true) : formula c = false := by
  obtain ⟨hlow, hhigh⟩ := (Bool.and_eq_true _ _).mp h
  simp only [formula, Bool.or_eq_false_iff, decide_eq_false_iff_not]
  refine ⟨⟨⟨⟨⟨?_, ?_⟩, ?_⟩, ?_⟩, ?_⟩, ?_⟩ <;> rintro rfl <;> revert hlow hhigh <;> decide

/-- Digits do not begin like a formula. -/
theorem digits_head {text rest : List Char} (h : digits text = true) :
    ∀ c ∈ (text ++ rest).head?, formula c = false := by
  cases text with
  | nil => cases h
  | cons d text =>
    rintro c ⟨⟩
    rw [digits, List.all_cons, Bool.and_eq_true, Bool.and_eq_true] at h
    exact formula_digit h.2.1

theorem unsigned_of_parts {body : List Char} (hint : digits (parts body).1 = true)
    (hfrac : (parts body).2.all digits = true) : Unsigned body := by
  unfold parts at hint hfrac
  split at hint
  · next int frac hdot =>
    rw [hdot] at hfrac
    rw [splitOnce_some hdot]
    exact .fraction hint hfrac
  · exact .whole hint

theorem magnitude_cases (text : List Char) : text = magnitude text ∨ text = '-' :: magnitude text := by
  unfold magnitude
  split
  · exact .inr rfl
  · exact .inl rfl

/-- A numeral is inert. -/
theorem numeral_inert {text : List Char} (h : numeral text = true) : Inert text := by
  unfold numeral at h
  dsimp only at h
  rw [Bool.or_eq_true, Option.any_eq_true, Bool.and_eq_true] at h
  rcases h with ⟨⟨n, d⟩, hratio, h⟩ | ⟨hint, hfrac⟩
  · left
    rw [Bool.and_eq_true] at h
    rw [splitOnce_some hratio]
    exact digits_head h.1
  · right
    have hbody := unsigned_of_parts hint hfrac
    rcases magnitude_cases text with hsame | hminus
    · exact .inl (hsame ▸ hbody)
    · exact .inr ⟨_, hminus, hbody⟩

/-! ## Fields -/

/-- **The guard** leaves a text that a spreadsheet does not take for a formula. -/
theorem guard_inert (cell : List Char) : Inert (guard cell) := by
  unfold guard
  split
  · left
    rintro c ⟨⟩
    decide
  · next h =>
    rw [Bool.and_eq_true, not_and, Bool.not_eq_true, Bool.not_eq_false'] at h
    by_cases hformula : cell.head?.any formula = true
    · exact numeral_inert (h hformula)
    · left
      intro c hc
      rw [hc] at hformula
      exact Bool.eq_false_of_not_eq_true hformula

/-- A field holds the guarded text. -/
theorem field_content (cell : List Char) : Csv.Field (guard cell) (field cell) := by
  unfold field
  dsimp only
  split
  · exact .quoted _
  · next h =>
    apply Csv.Field.plain
    intro c hc
    simp only [Bool.or_eq_true, not_or, List.any_eq_true, not_exists, not_and,
      decide_eq_true_eq] at h
    obtain ⟨⟨⟨hcomma, hquote⟩, hlf⟩, hcr⟩ := h.1.1 c hc
    simp [Csv.isText, hcomma, hquote, hlf, hcr]

theorem field_inert (cell : List Char) : Inert (field cell) := by
  unfold field
  dsimp only
  split
  · left
    rintro c ⟨⟩
    decide
  · exact guard_inert cell

/-- Cells that need no guard keep apart. -/
theorem field_injective {a b : List Char} (ha : guard a = a) (hb : guard b = b)
    (h : field a = field b) : a = b := by
  have hfirst := field_content a
  have hsecond := field_content b
  rw [ha, h] at hfirst
  rw [hb] at hsecond
  exact hsecond.unique hfirst

/-! ## The page -/

/-- The guarded text of the cell of a column. -/
def content (cells : Cells) (column : String) : List Char :=
  guard (((cells.lookup column).map String.toList).getD [])

/-- The header and the guarded texts of the rows, in the order of the columns. -/
def table (formats : Formats) (doc : Value) : List (List (List Char)) :=
  columns.map String.toList :: (rows formats doc).map fun cells => columns.map (content cells)

theorem row_field (cells : Cells) (column : String) :
    Csv.Field (content cells column)
      (((cells.lookup column).map fun v => field v.toList).getD []) := by
  unfold content
  cases cells.lookup column with
  | none => exact .plain [] nofun
  | some v => exact field_content v.toList

/-- The names of the columns need neither guard nor quotes. -/
theorem column_plain : ∀ column ∈ columns,
    (column.toList.all Csv.isText && !column.toList.head?.any formula) = true := by
  decide +kernel

theorem column_inert {column : String} (h : column ∈ columns) : Inert column.toList := by
  left
  intro c hc
  have hplain := column_plain column h
  rw [Bool.and_eq_true, Bool.not_eq_true', hc] at hplain
  exact hplain.2

theorem header_record :
    Csv.Record (columns.map String.toList) (Csv.joined (columns.map String.toList)) := by
  apply Csv.Record.joined (by decide)
  intro column hcolumn
  have hplain := column_plain column hcolumn
  rw [Bool.and_eq_true, List.all_eq_true] at hplain
  exact .plain _ hplain.1

theorem row_record (cells : Cells) : Csv.Record (columns.map (content cells))
    (Csv.joined (columns.map fun c => ((cells.lookup c).map fun v => field v.toList).getD [])) :=
  Csv.Record.joined (by decide) fun column _ => row_field cells column

/-- The page is the file of its table. -/
theorem render_file (formats : Formats) (doc : Value) :
    Csv.File (table formats doc) (render formats doc) := by
  have hrows : Csv.File ((rows formats doc).map fun cells => columns.map (content cells))
      ((rows formats doc).flatMap row) := Csv.File.lines fun cells _ => row_record cells
  unfold render
  rw [List.append_assoc]
  exact .line header_record hrows

/-- **CSV export** is unambiguous and inert: the text of every page is the file of exactly one
table, that of the header and the guarded cells, with 33 fields in each record; every field, as
written and as read, is inert; and cells that need no guard have different fields if they differ. -/
theorem render_unambiguous (formats : Formats) (doc : Value) :
    (∀ records, Csv.File records (render formats doc) ↔ records = table formats doc) ∧
      Csv.parse (render formats doc) = some (table formats doc) ∧
      (∀ record ∈ table formats doc, record.length = 33 ∧ ∀ content ∈ record, Inert content) ∧
      (∀ cell, Inert (field cell)) ∧
      ∀ a b, guard a = a → guard b = b → field a = field b → a = b := by
  have hfile := render_file formats doc
  refine ⟨fun records => ⟨hfile.unique, fun hsame => hsame ▸ hfile⟩, hfile.parse, ?_, field_inert,
    fun a b => field_injective⟩
  intro record hrecord
  rcases List.mem_cons.mp hrecord with rfl | hrecord
  · refine ⟨by decide, fun content hcontent => ?_⟩
    obtain ⟨column, hcolumn, rfl⟩ := List.mem_map.mp hcontent
    exact column_inert hcolumn
  · obtain ⟨cells, -, rfl⟩ := List.mem_map.mp hrecord
    refine ⟨List.length_map _, fun text htext => ?_⟩
    obtain ⟨column, -, rfl⟩ := List.mem_map.mp htext
    exact guard_inert _

end Herdr.ExportCsv
