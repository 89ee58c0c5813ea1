import Herdr.Lib.FileTree
import Herdr.Runtime.Executor

/-!
# Artifact streams

`artifacts/wire.rs`: an artifact source as one stream of bytes (a magic, the length of the manifest,
the manifest in JSON, and the bytes of its files one after the other), and how a stream is received
into a staging directory. With it go the scan of a source (`artifacts.rs`) and the budget of its
reads (`source_tree.rs`).
-/

namespace Herdr.ArtifactStream

open Executor (ensure)
open FileTree (Node Tree create)

/-- A name of a path. -/
abbrev Name := List Char

/-- `BYTE_LIMIT`. -/
def byteLimit : Nat := 50 * 1024 * 1024

/-- `ENTRY_LIMIT`. -/
def entryLimit : Nat := 10000

/-- `DEPTH_LIMIT`. -/
def depthLimit : Nat := 64

/-- `MANIFEST_LIMIT`. -/
def manifestLimit : Nat := 4 * 1024 * 1024

/-- `STREAM_LIMIT`. -/
def streamLimit : Nat := byteLimit + manifestLimit + 12

/-- `MAGIC`. -/
def magic : List UInt8 := [72, 80, 65, 82, 1, 0, 0, 0]

structure Entry where
  path : String
  directory : Bool
  bytes : Nat
  sha256 : String
deriving DecidableEq

structure Source where
  schema : Nat
  source : String
  entries : List Entry
deriving DecidableEq

/-- What comes from libraries: the JSON text of a manifest and the manifest of a text, and the
SHA-256 digest in lower-case digits. -/
structure Libraries where
  encode : Source → List UInt8
  decode : List UInt8 → Option Source
  sha256 : List UInt8 → String

/-! ## Paths -/

/-- The components of a path. -/
def parts (path : String) : List Name := path.toList.splitOn '/'

/-- `rsplit_once('/')`. -/
def rsplitOnce : List Char → Option (List Char × List Char)
  | [] => none
  | c :: text =>
    match rsplitOnce text with
    | some (before, after) => some (c :: before, after)
    | none => if c = '/' then some ([], text) else none

/-- What the system takes a path for, from a directory: `.` and nothing stay where they are, `..`
goes up, and a path that begins with a slash goes from the root. -/
def resolve (base : List Name) (path : String) : List Name :=
  (parts path).foldl
    (fun at_ name =>
      if name = [] ∨ name = ['.'] then at_
      else if name = ['.', '.'] then at_.dropLast
      else at_ ++ [name])
    (if isAbsolute path then [] else base)

/-! ## Validation -/

/-- What has been found in a manifest so far: all paths, the directories, and the bytes. -/
structure Found where
  found : List String
  directories : List String
  total : Nat

/-- A component that names something in its directory. -/
def safeName (name : Name) : Bool :=
  name ≠ [] && name ≠ ['.'] && name ≠ ['.', '.'] && !name.contains '\x00'

/-- One turn of the loop of `validate`. -/
def validateEntry (s : Found) (e : Entry) : Except String Found := do
  ensure ((parts e.path).length ≤ 65 ∧ (parts e.path).all safeName = true) "unsafe artifact path"
  ensure (e.path = "report.md" ∨ e.path = "library" ∨
    "library/".toList.isPrefixOf e.path.toList = true) "artifact path outside report/library"
  ensure (e.path ∉ s.found) "duplicate artifact path"
  ensure ((rsplitOnce e.path.toList).all (fun p => s.directories.contains (String.ofList p.1)) = true)
    "artifact parent missing or not a directory"
  if e.directory then do
    ensure (e.path ≠ "report.md" ∧ e.bytes = 0 ∧ e.sha256 = "") "invalid artifact directory"
    pure ⟨e.path :: s.found, e.path :: s.directories, s.total⟩
  else do
    ensure (e.path ≠ "library" ∧ e.sha256.utf8ByteSize = 64 ∧ e.sha256.toList.all asciiHex = true)
      "invalid artifact file"
    ensure (s.total + e.bytes < 2 ^ 64) "artifact byte count overflow"
    ensure (s.total + e.bytes ≤ byteLimit) "artifact stream exceeds 50 MiB"
    pure ⟨e.path :: s.found, s.directories, s.total + e.bytes⟩

/-- The loop of `validate`. -/
def validateEntries (s : Found) : List Entry → Except String Unit
  | [] => .ok ()
  | e :: entries => do
    let s ← validateEntry s e
    validateEntries s entries

/-- `validate`. -/
def validate (source : Source) : Except String Unit := do
  ensure (source.schema = 1 ∧ isAbsolute source.source = true)
    "unsupported artifact source schema or path"
  ensure (source.entries.length ≤ entryLimit) "too many artifact entries"
  validateEntries ⟨[], [], 0⟩ source.entries

/-! ## Budgets -/

/-- The bytes and the entries that may still be read. -/
structure Budget where
  remaining : Nat
  entries : Nat

/-- `Budget::new`. -/
def Budget.new : Budget := ⟨byteLimit, entryLimit⟩

/-- `Budget::entry`. -/
def Budget.entry (b : Budget) (depth : Nat) : Except String Budget :=
  if depthLimit < depth then .error "artifact directory nesting exceeds 64 levels"
  else match b.entries with
    | 0 => .error "artifact source exceeds 10000 entries"
    | entries + 1 => .ok { b with entries := entries }

/-- `Budget::read`, of a stream that gives a part of what it is asked for, but at least one byte. -/
def Budget.read (b : Budget) (short : Nat → Nat) (size : Nat) (stream : List UInt8) :
    Except String (List UInt8 × Budget × List UInt8) :=
  let limit := min size (b.remaining + 1)
  let n := min (max 1 (short stream.length)) (min limit stream.length)
  if n ≤ b.remaining then
    .ok (stream.take n, { b with remaining := b.remaining - n }, stream.drop n)
  else .error "artifact source exceeds 50 MiB"

/-! ## Receiving -/

variable (lib : Libraries) (short : Nat → Nat) (base : List Name)

def ofBigEndian (bytes : List UInt8) : Nat := bytes.foldl (fun n b => n * 256 + b.toNat) 0

/-- The length of the buffer. -/
def bufferSize : Nat := 64 * 1024

/-- `read_exact`. -/
def readExact (n : Nat) (stream : List UInt8) : Except String (List UInt8 × List UInt8) :=
  if n ≤ stream.length then .ok (stream.take n, stream.drop n)
  else .error "failed to fill whole buffer"

/-- The loop that reads one file, in at most `fuel` turns: its content, and what is left of the
budget and the stream. -/
def readFile : Nat → Nat → Budget → List UInt8 → List UInt8 →
    Except String (List UInt8 × Budget × List UInt8)
  | _, 0, budget, content, stream => .ok (content, budget, stream)
  | 0, _ + 1, _, _, _ => .error "out of turns"
  | fuel + 1, remaining + 1, budget, content, stream => do
    let size := min (remaining + 1) bufferSize
    let (read, budget, rest) ← budget.read short size stream
    ensure (0 < read.length) "truncated artifact payload"
    readFile fuel (remaining + 1 - read.length) budget (content ++ read) rest

/-- The staging area, the budget and the rest of the stream. -/
structure Receiving where
  tree : Tree Name (List UInt8)
  budget : Budget
  stream : List UInt8

/-- One turn of the loop of `receive_into`. -/
def receiveEntry (r : Receiving) (e : Entry) : Except String Receiving := do
  let budget ← r.budget.entry (e.path.toList.count '/')
  let path := resolve base e.path
  if e.directory then
    match create r.tree path .directory with
    | some tree => .ok { r with tree := tree, budget := budget }
    | none => .error "directory not created"
  else
    match create r.tree path (.file []) with
    | some _ => do
      let (content, budget, stream) ← readFile short e.bytes e.bytes budget [] r.stream
      ensure (lib.sha256 content = e.sha256) "artifact payload digest mismatch"
      .ok ⟨Function.update r.tree path (some (.file content)), budget, stream⟩
    | none => .error "file not created"

/-- The loop of `receive_into`. -/
def receiveEntries (r : Receiving) : List Entry → Except String Receiving
  | [] => .ok r
  | e :: entries => do
    let r ← receiveEntry lib short base r e
    receiveEntries r entries

/-- `receive_into`, up to the publication: the staging area and the manifest. -/
def receive (tree : Tree Name (List UInt8)) (stream : List UInt8) :
    Except String (Tree Name (List UInt8) × Source) := do
  ensure (stream.length ≤ streamLimit) "artifact stream exceeds bounds"
  let (start, stream) ← readExact 8 stream
  ensure (start = magic) "invalid artifact stream magic"
  let (size, stream) ← readExact 4 stream
  ensure (ofBigEndian size ≤ manifestLimit) "artifact manifest exceeds limit"
  let (json, stream) ← readExact (ofBigEndian size) stream
  match lib.decode json with
  | none => .error "invalid artifact manifest"
  | some source => do
    validate source
    let r ← receiveEntries lib short base ⟨tree, .new, stream⟩ source.entries
    ensure (r.stream = []) "trailing artifact data"
    .ok (r.tree, source)

/-! ## Sending -/

/-- A worker's directory: a file with its bytes, or a directory with the names in it in order. -/
inductive Item where
  | file (content : List UInt8)
  | directory (children : List (String × Item))

/-- The directory of a source: its canonical path, its report and its library. -/
structure Root where
  path : String
  report : Option Item
  library : Option Item

/-- `digest`, with the budget. -/
def Budget.digest (b : Budget) (content : List UInt8) : Except String Budget :=
  if b.remaining < content.length then .error "artifact source exceeds 50 MiB"
  else .ok { b with remaining := b.remaining - content.length }

mutual

/-- `visit`: the entries of an item, a directory before what is in it. -/
def visit (path : String) (depth : Nat) (budget : Budget) :
    Item → Except String (List Entry × Budget)
  | .file content => do
    let budget ← budget.entry depth
    let budget ← budget.digest content
    .ok ([⟨path, false, content.length, lib.sha256 content⟩], budget)
  | .directory children => do
    let budget ← budget.entry depth
    ensure (children.length ≤ budget.entries) "artifact source exceeds 10000 entries"
    let (entries, budget) ← visitAll path (depth + 1) budget children
    .ok (⟨path, true, 0, ""⟩ :: entries, budget)

def visitAll (path : String) (depth : Nat) (budget : Budget) :
    List (String × Item) → Except String (List Entry × Budget)
  | [] => .ok ([], budget)
  | (name, item) :: children => do
    let (entries, budget) ← visit (path ++ "/" ++ name) depth budget item
    let (rest, budget) ← visitAll path depth budget children
    .ok (entries ++ rest, budget)

end

/-- One of the two items of a source, if it is there. -/
def scanItem (path : String) (budget : Budget) : Option Item → Except String (List Entry × Budget)
  | some item => visit lib path 0 budget item
  | none => .ok ([], budget)

/-- `scan_open`. -/
def Root.scan (root : Root) : Except String (List Entry) := do
  let (report, budget) ← scanItem lib "report.md" .new root.report
  let (library, _) ← scanItem lib "library" budget root.library
  .ok (report ++ library)

mutual

/-- The nodes of an item by path. -/
def Item.nodes (path : String) : Item → List (String × Node (List UInt8))
  | .file content => [(path, .file content)]
  | .directory children => (path, .directory) :: Item.allNodes path children

def Item.allNodes (path : String) : List (String × Item) → List (String × Node (List UInt8))
  | [] => []
  | (name, item) :: children =>
    Item.nodes (path ++ "/" ++ name) item ++ Item.allNodes path children

end

/-- The nodes of a source by path. -/
def Root.nodes (root : Root) : List (String × Node (List UInt8)) :=
  (root.report.map (Item.nodes "report.md")).getD [] ++
    (root.library.map (Item.nodes "library")).getD []

end Herdr.ArtifactStream
