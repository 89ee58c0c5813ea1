import Herdr.Domain.Value
import Herdr.Lib.Csv

/-!
# CSV export

`telemetry/export/csv.rs`: one page of an export as CSV. Every cell that a spreadsheet might take
for a formula gets a quote in front of it, and is then quoted where the format needs it.
-/

namespace Herdr.ExportCsv

/-- `COLUMNS`. -/
def columns : List String :=
  ["row_kind", "metric_id", "definition", "cohort", "window_from", "window_to", "dimension",
    "dimension_value", "record_bucket", "record_entity", "record_id", "value_status", "value",
    "value_type", "unit", "numerator", "denominator", "exclusions", "coverage", "coverage_known",
    "coverage_expected", "cost_basis", "projection_mode", "projection_revision",
    "projection_restated", "content_digest", "as_of", "event_cutoff", "observation_cutoff", "attrs",
    "page_offset", "page_total", "next_cursor"]

/-! ## Cells -/

/-- `split_once`. -/
def splitOnce (separator : Char) : List Char → Option (List Char × List Char)
  | [] => none
  | c :: text =>
    if c = separator then some ([], text)
    else (splitOnce separator text).map fun (before, after) => (c :: before, after)

/-- Some digits and nothing else. -/
def digits (text : List Char) : Bool := !text.isEmpty && text.all fun c => '0' ≤ c && c ≤ '9'

/-- A text without its minus. -/
def magnitude : List Char → List Char
  | '-' :: body => body
  | text => text

/-- The digits before the point, and those behind it if there is one. -/
def parts (body : List Char) : List Char × Option (List Char) :=
  match splitOnce '.' body with
  | some (int, frac) => (int, some frac)
  | none => (body, none)

/-- `numeral`. -/
def numeral (text : List Char) : Bool :=
  let (int, frac) := parts (magnitude text)
  let ratio := (splitOnce '/' text).any fun (n, d) => digits n && digits d
  ratio || (digits int && frac.all digits)

/-- The first characters of a formula. -/
def formula (c : Char) : Bool :=
  c = '=' || c = '+' || c = '-' || c = '@' || c = '\t' || c = '\r'

/-- `guard`. -/
def guard (cell : List Char) : List Char :=
  if cell.head?.any formula && !numeral cell then '\'' :: cell else cell

/-- `field`. -/
def field (cell : List Char) : List Char :=
  let cell := guard cell
  if cell.any (fun c => c = ',' || c = '"' || c = '\n' || c = '\r') || cell.head? = some ' ' ||
      cell.getLast? = some ' ' then
    '"' :: Csv.double cell ++ ['"']
  else cell

/-- `missing`. -/
def missing (status : String) (reason : Value) : String :=
  status ++ ":" ++ reason.asStr.getD "unknown"

/-- The renderings that come from libraries: the compact JSON text of a value, and the text of a
timestamp in milliseconds, if it has one. -/
structure Formats where
  json : Value → String
  timestamp : Int → Option String

variable (formats : Formats)

/-- `time`. -/
def time (v : Value) (absent : String) : String := (v.asI64.bind formats.timestamp).getD absent

/-- `scalar`. -/
def scalar : Value → String
  | .string s => s
  | .null => ""
  | other => formats.json other

/-- `counter`. -/
def counter (body : Value) (field : String) : String :=
  match body.get field with
  | .null => ((body.get "missing").get field).asStr.getD "unavailable:unknown"
  | v => scalar formats v

/-- A value, or another text instead of null. -/
def scalarOr (absent : String) : Value → String
  | .null => absent
  | v => scalar formats v

/-! ## Rows -/

/-- The cells of a row, by column. -/
abbrev Cells := List (String × String)

/-- `row`. -/
def row (cells : Cells) : List Char :=
  Csv.joined (columns.map fun c => ((cells.lookup c).map fun v => field v.toList).getD []) ++
    ['\r', '\n']

def isNumber : Value → Bool
  | .int _ | .float _ => true
  | _ => false

/-- The instant of a metric: a sequence number, a time, or now. -/
def asOf (m : Value) : String :=
  let requested := (m.get "as_of").get "requested"
  let seq := requested.get "seq"
  if isNumber seq then "seq:" ++ formats.json seq
  else if isNumber (requested.get "unix_ms") then time formats (requested.get "unix_ms") ""
  else "live"

/-- The cells that a metric shares with the cells of its dimension. -/
def common (m : Value) : Cells :=
  let projection := m.get "projection"
  [("metric_id", scalar formats (m.get "metric_id")),
    ("definition", scalar formats (m.get "definition")),
    ("cohort", scalar formats (m.get "cohort")),
    ("window_from", time formats ((m.get "window").get "from_unix_ms") "unbounded"),
    ("window_to", time formats ((m.get "window").get "to_unix_ms") "unbounded"),
    ("unit", scalar formats (m.get "unit")),
    ("projection_mode", scalar formats (projection.get "mode")),
    ("projection_revision", scalarOr formats "none:live" (projection.get "revision")),
    ("projection_restated", match projection.get "restated" with
      | .bool b => toString b
      | _ => "none:live"),
    ("content_digest",
      scalarOr formats (missing "unavailable" (m.get "reason")) (projection.get "content_digest")),
    ("as_of", asOf formats m)]

/-- A number of the coverage, or what the coverage is instead. -/
def covered (m : Value) (field : String) : String :=
  let coverage := m.get "coverage"
  scalarOr formats ("unknown:coverage_" ++ (coverage.get "state").asStr.getD "unknown")
    (coverage.get field)

def metricCells (m : Value) : Cells :=
  common formats m ++
    [("row_kind", "metric"), ("value_status", scalar formats (m.get "value_status")),
      ("value", match m.get "value" with
        | .null => counter formats m "value"
        | .string s => s
        | v => formats.json v),
      ("value_type", scalar formats (m.get "value_type")),
      ("numerator", counter formats m "numerator"),
      ("denominator", counter formats m "denominator"),
      ("exclusions", formats.json (m.get "exclusions")),
      ("coverage", scalar formats ((m.get "coverage").get "state")),
      ("coverage_known", covered formats m "known"),
      ("coverage_expected", covered formats m "expected"),
      ("cost_basis", if ((m.get "cost_basis").get "status").asStr = some "not_applicable" then
          missing "not_applicable" ((m.get "cost_basis").get "reason")
        else formats.json (m.get "cost_basis")),
      ("event_cutoff", time formats ((m.get "as_of").get "event_cutoff_unix_ms")
        "unavailable:no_event_in_cohort"),
      ("observation_cutoff", time formats ((m.get "as_of").get "observation_cutoff_unix_ms")
        "unavailable:unknown")]

/-- The dimension of a cell and its value there. -/
def dimension (c : Value) : String × String :=
  match c.get "dimension" with
  | .object ((name, label) :: _) => (name, scalar formats label)
  | _ => ("", "")

def cellCells (m c : Value) : Cells :=
  let (name, label) := dimension formats c
  common formats m ++
    [("row_kind", "cell"), ("dimension", name), ("dimension_value", label),
      ("value_status", scalar formats (c.get "value_status")),
      ("value", scalarOr formats (counter formats c "value") (c.get "value")),
      ("value_type", scalar formats (c.get "value_type")),
      ("numerator", counter formats c "numerator"),
      ("denominator", counter formats c "denominator")]

/-- The attributes of a record, without its entity and its id. -/
def attrs : Value → Value
  | .object fields => .object (fields.filter fun f => f.1 ≠ "entity" && f.1 ≠ "id")
  | r => r

def recordCells (records r : Value) : Cells :=
  [("row_kind", "record"), ("metric_id", scalar formats (records.get "metric_id")),
    ("definition", scalar formats (records.get "definition")),
    ("record_bucket", scalar formats (records.get "bucket")),
    ("record_entity", scalar formats (r.get "entity")),
    ("record_id", scalar formats (r.get "id")),
    ("projection_revision",
      scalarOr formats "none:live" ((records.get "snapshot").get "revision")),
    ("content_digest", scalar formats ((records.get "snapshot").get "content_digest")),
    ("attrs", formats.json (attrs r))]

def pageCells (page : Value) : Cells :=
  [("row_kind", "page"), ("page_offset", scalar formats (page.get "offset")),
    ("page_total", scalarOr formats "not_applicable:no_records" (page.get "total")),
    ("next_cursor", scalarOr formats "none:last_page" (page.get "next_cursor"))]

/-! ## The page -/

/-- The rows of a page. -/
def rows (doc : Value) : List Cells :=
  ((doc.get "metrics").items.flatMap fun m =>
    metricCells formats m :: (m.get "cells").items.map (cellCells formats m)) ++
  (((doc.get "records").get "rows").items.map (recordCells formats (doc.get "records"))) ++
  [pageCells formats ((doc.get "manifest").get "page")]

/-- `render`. -/
def render (doc : Value) : List Char :=
  Csv.joined (columns.map String.toList) ++ ['\r', '\n'] ++ (rows formats doc).flatMap row

end Herdr.ExportCsv
