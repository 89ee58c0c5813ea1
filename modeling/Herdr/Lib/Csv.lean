import Mathlib.Tactic.Basic

/-!
# Comma-separated values

The grammar of RFC 4180 over all characters. A field is plain text without comma, quote, CR and LF,
or any text in quotes with its quotes doubled; a record is one field or more with commas between
them; a file is a sequence of records, each with a CR LF behind it, which the last one may lack.
-/

namespace Csv

/-- A character of a field without quotes. -/
def isText (c : Char) : Bool := c ≠ ',' && c ≠ '"' && c ≠ '\r' && c ≠ '\n'

/-- The quotes of a text doubled. -/
def double (content : List Char) : List Char :=
  content.flatMap fun c => if c = '"' then ['"', '"'] else [c]

@[simp] theorem double_nil : double [] = [] := rfl

theorem double_cons (c : Char) (content : List Char) :
    double (c :: content) = (if c = '"' then ['"', '"'] else [c]) ++ double content := rfl

/-! ## The grammar -/

/-- A field, with its content. -/
inductive Field : List Char → List Char → Prop
  | plain (content : List Char) (h : ∀ c ∈ content, isText c = true) : Field content content
  | quoted (content : List Char) : Field content ('"' :: double content ++ ['"'])

/-- A record, with the contents of its fields. -/
inductive Record : List (List Char) → List Char → Prop
  | one {content text : List Char} (field : Field content text) : Record [content] text
  | cons {content text rest : List Char} {contents : List (List Char)} (field : Field content text)
    (record : Record contents rest) : Record (content :: contents) (text ++ ',' :: rest)

/-- A file, with its records. What follows the last line break is a record only if it is not
empty. -/
inductive File : List (List (List Char)) → List Char → Prop
  | empty : File [] []
  | last {contents : List (List Char)} {text : List Char} (record : Record contents text)
    (h : text ≠ []) : File [contents] text
  | line {contents : List (List Char)} {text rest : List Char} {records : List (List (List Char))}
    (record : Record contents text) (file : File records rest) :
    File (contents :: records) (text ++ '\r' :: '\n' :: rest)

/-! ## A parser -/

/-- Where the parser stands: in plain text (or before a field), between quotes, behind a quote that
may close them, or behind the CR of a line break. -/
inductive Mode where
  | plain | quoted | closed | newline

/-- The parser, with the content of the field and the fields of the record so far. -/
def scan : Mode → List Char → List (List Char) → List Char → Option (List (List (List Char)))
  | .plain, field, record, [] =>
    if field.isEmpty && record.isEmpty then some [] else some [record ++ [field]]
  | .closed, field, record, [] => some [record ++ [field]]
  | .quoted, _, _, [] => none
  | .newline, _, _, [] => none
  | .plain, field, record, c :: rest =>
    if c = ',' then scan .plain [] (record ++ [field]) rest
    else if c = '\r' then scan .newline field record rest
    else if c = '"' ∧ field = [] then scan .quoted [] record rest
    else if isText c then scan .plain (field ++ [c]) record rest
    else none
  | .quoted, field, record, c :: rest =>
    if c = '"' then scan .closed field record rest else scan .quoted (field ++ [c]) record rest
  | .closed, field, record, c :: rest =>
    if c = ',' then scan .plain [] (record ++ [field]) rest
    else if c = '\r' then scan .newline field record rest
    else if c = '"' then scan .quoted (field ++ ['"']) record rest
    else none
  | .newline, field, record, c :: rest =>
    if c = '\n' then (scan .plain [] [] rest).map ((record ++ [field]) :: ·) else none

/-- The records of a text. -/
def parse (text : List Char) : Option (List (List (List Char))) := scan .plain [] [] text

/-! ## The parser finds what the grammar derives -/

variable {mode : Mode} {field content text rest : List Char} {contents record : List (List Char)}
  {records : List (List (List Char))} {c : Char}

/-- A field may end here. -/
def Mode.Ends (mode : Mode) : Prop := mode = .plain ∨ mode = .closed

theorem scan_comma (hmode : mode.Ends) :
    scan mode field record (',' :: rest) = scan .plain [] (record ++ [field]) rest := by
  rcases hmode with rfl | rfl <;> rfl

theorem scan_break (hmode : mode.Ends) :
    scan mode field record ('\r' :: '\n' :: rest) =
      (scan .plain [] [] rest).map ((record ++ [field]) :: ·) := by
  rcases hmode with rfl | rfl <;> rfl

theorem scan_text (hc : isText c = true) :
    scan .plain field record (c :: rest) = scan .plain (field ++ [c]) record rest := by
  obtain ⟨hcomma, hquote, hcr, hlf⟩ : c ≠ ',' ∧ c ≠ '"' ∧ c ≠ '\r' ∧ c ≠ '\n' := by
    simpa [isText, and_assoc] using hc
  rw [scan, if_neg hcomma, if_neg hcr, if_neg fun h => hquote h.1, if_pos hc]

theorem scan_plain (h : ∀ c ∈ content, isText c = true) :
    scan .plain field record (content ++ rest) = scan .plain (field ++ content) record rest := by
  induction content generalizing field with
  | nil => rw [List.nil_append, List.append_nil]
  | cons c content ih =>
    rw [List.cons_append, scan_text (h c List.mem_cons_self),
      ih fun d hd => h d (List.mem_cons_of_mem _ hd), List.append_assoc, List.singleton_append]

theorem scan_double :
    scan .quoted field record (double content ++ rest) =
      scan .quoted (field ++ content) record rest := by
  induction content generalizing field with
  | nil => rw [double_nil, List.nil_append, List.append_nil]
  | cons c content ih =>
    rw [double_cons]
    split
    · next hquote =>
      subst hquote
      change scan .quoted (field ++ ['"']) record (double content ++ rest) = _
      rw [ih, List.append_assoc, List.singleton_append]
    · next hother =>
      rw [List.append_assoc, List.singleton_append, scan, if_neg hother, ih, List.append_assoc,
        List.singleton_append]

/-- Behind a field the parser has its content, and stands in plain text only if that is the
text. -/
theorem Field.scan (h : Field content text) : ∃ mode : Mode, mode.Ends ∧
    (mode = .plain → text = content) ∧
    ∀ record rest, scan .plain [] record (text ++ rest) = scan mode content record rest := by
  cases h with
  | plain htext =>
    exact ⟨.plain, .inl rfl, fun _ => rfl, fun record rest => scan_plain htext⟩
  | quoted =>
    refine ⟨.closed, .inr rfl, nofun, fun record rest => ?_⟩
    have hopen : Csv.scan .plain [] record ('"' :: double content ++ ['"'] ++ rest) =
        Csv.scan .quoted [] record (double content ++ ('"' :: rest)) := by
      rw [List.append_assoc]
      rfl
    rw [hopen, scan_double]
    rfl

/-- Behind a record the parser has its contents. -/
theorem Record.scan (h : Record contents text) : ∃ (mode : Mode) (field : List Char) (before : List (List Char)), mode.Ends ∧
    contents = before ++ [field] ∧ (mode = .plain → before = [] → text = field) ∧
    ∀ record rest, scan .plain [] record (text ++ rest) = scan mode field (record ++ before) rest := by
  induction h with
  | @one content text hfield =>
    obtain ⟨mode, hmode, hplain, hscan⟩ := hfield.scan
    refine ⟨mode, content, [], hmode, rfl, fun hm _ => hplain hm, fun record rest => ?_⟩
    rw [hscan, List.append_nil]
  | @cons content text rest contents hfield _ ih =>
    obtain ⟨mode, hmode, -, hscan⟩ := hfield.scan
    obtain ⟨last, field, before, hlast, rfl, -, hrest⟩ := ih
    refine ⟨last, field, content :: before, hlast, rfl, fun _ h => absurd h (List.cons_ne_nil _ _),
      fun record more => ?_⟩
    rw [List.append_assoc, hscan, List.cons_append, scan_comma hmode, hrest, List.append_assoc,
      List.singleton_append]

theorem scan_end (hmode : mode.Ends) (h : mode = .plain → record = [] → field ≠ []) :
    scan mode field record [] = some [record ++ [field]] := by
  rcases hmode with rfl | rfl
  · rw [scan, if_neg]
    rw [Bool.and_eq_true, List.isEmpty_iff, List.isEmpty_iff]
    exact fun ⟨hfield, hrecord⟩ => h rfl hrecord hfield
  · rfl

/-- **The parser is complete**, so that a text has the records of one file at most. -/
theorem File.parse (h : File records text) : parse text = some records := by
  unfold Csv.parse
  induction h with
  | empty => rfl
  | @last contents text hrecord hne =>
    obtain ⟨mode, field, before, hmode, rfl, hplain, hscan⟩ := hrecord.scan
    have hend := hscan [] []
    rw [List.append_nil, List.nil_append] at hend
    rw [hend, scan_end hmode]
    intro hm hbefore hempty
    exact hne ((hplain hm hbefore).trans hempty)
  | @line contents text rest records hrecord _ ih =>
    obtain ⟨mode, field, before, hmode, rfl, -, hscan⟩ := hrecord.scan
    rw [hscan, scan_break hmode, ih, List.nil_append]
    rfl

theorem File.unique {records' : List (List (List Char))} (h : File records text)
    (h' : File records' text) : records' = records :=
  Option.some.inj (h'.parse.symm.trans h.parse)

/-- A text is a field of one content at most. -/
theorem Field.unique {content' : List Char} (h : Field content text) (h' : Field content' text) :
    content' = content := by
  have hempty : Field [] [] := .plain [] nofun
  have hsecond : ∀ {content}, Field content text → File [[[], content]] (',' :: text) :=
    fun hfield => .last (.cons hempty (.one hfield)) (List.cons_ne_nil _ _)
  have hsame := (hsecond h).unique (hsecond h')
  simpa using hsame

/-! ## Files of lines -/

/-- The fields with commas between them. -/
def joined : List (List Char) → List Char
  | [] => []
  | [text] => text
  | text :: texts => text ++ ',' :: joined texts

theorem Record.joined {α : Type*} {content text : α → List Char} {items : List α}
    (hne : items ≠ []) (h : ∀ a ∈ items, Field (content a) (text a)) :
    Record (items.map content) (joined (items.map text)) := by
  induction items with
  | nil => exact absurd rfl hne
  | cons a items ih =>
    have hfirst := h a List.mem_cons_self
    cases items with
    | nil => exact .one hfirst
    | cons b items =>
      exact .cons hfirst (ih (List.cons_ne_nil _ _) fun e he => h e (List.mem_cons_of_mem _ he))

/-- Lines, each with its line break. -/
theorem File.lines {α : Type*} {contents : α → List (List Char)} {text : α → List Char}
    {items : List α} (h : ∀ a ∈ items, Record (contents a) (text a)) :
    File (items.map contents) (items.flatMap fun a => text a ++ ['\r', '\n']) := by
  induction items with
  | nil => exact .empty
  | cons a items ih =>
    have hrest := ih fun e he => h e (List.mem_cons_of_mem _ he)
    rw [List.flatMap_cons, List.append_assoc]
    exact .line (h a List.mem_cons_self) hrest

end Csv
