import Herdr.Lib.Transaction
import Herdr.Runtime.ArtifactStream
import Herdr.Verify.Executor

/-!
# The artifact stream is exact and safe

Validation puts every entry of a manifest under the staging area, once, and behind its directory.
So the loop of `receive_into` creates what it lists, and reads for each file as many bytes as it
says.
-/

namespace Herdr.ArtifactStream

open Executor (ensure ensure_bind ensure_ok)
open FileTree (Node Tree create install under)

/-! ## Paths -/

theorem rsplitOnce_none {text : List Char} (h : rsplitOnce text = none) : '/' ∉ text := by
  induction text with
  | nil => exact List.not_mem_nil
  | cons c text ih =>
    rw [rsplitOnce] at h
    cases hrest : rsplitOnce text with
    | some split =>
      rw [hrest] at h
      cases h
    | none =>
      rw [hrest] at h
      dsimp only at h
      split at h
      · cases h
      · next hc =>
        rw [List.mem_cons, not_or]
        exact ⟨Ne.symm hc, ih hrest⟩

theorem rsplitOnce_some {text before after : List Char}
    (h : rsplitOnce text = some (before, after)) : text = before ++ '/' :: after ∧ '/' ∉ after := by
  induction text generalizing before after with
  | nil => cases h
  | cons c text ih =>
    rw [rsplitOnce] at h
    cases hrest : rsplitOnce text with
    | some split =>
      obtain ⟨first, last⟩ := split
      rw [hrest] at h
      obtain ⟨rfl, rfl⟩ := Prod.mk.inj (Option.some.inj h)
      obtain ⟨htext, hlast⟩ := ih hrest
      exact ⟨by rw [htext, List.cons_append], hlast⟩
    | none =>
      rw [hrest] at h
      dsimp only at h
      split at h
      · next hc =>
        obtain ⟨rfl, rfl⟩ := Prod.mk.inj (Option.some.inj h)
        exact ⟨by rw [hc, List.nil_append], rsplitOnce_none hrest⟩
      · cases h

theorem splitOn_of_not_mem {text : List Char} (h : '/' ∉ text) : text.splitOn '/' = [text] :=
  List.splitOnP_eq_singleton fun c hc => beq_eq_false_iff_ne.mpr fun (he : c = '/') => h (he ▸ hc)

theorem splitOn_append (before after : List Char) :
    (before ++ '/' :: after).splitOn '/' = before.splitOn '/' ++ after.splitOn '/' :=
  List.splitOnP_append_cons before after (beq_self_eq_true '/')

theorem parts_ne_nil (path : String) : parts path ≠ [] := List.splitOnP_ne_nil _ path.toList

theorem parts_injective : Function.Injective parts := by
  intro a b h
  have hjoin : ∀ path, ['/'].intercalate (parts path) = path.toList := fun path =>
    @List.intercalate_splitOn _ path.toList _ _ '/'
  have hlist : a.toList = b.toList := by rw [← hjoin a, ← hjoin b, h]
  exact String.toList_inj.mp hlist

/-- The components before the last are those of the parent. -/
theorem parts_parent {path : String} {before after : List Char}
    (h : rsplitOnce path.toList = some (before, after)) :
    (parts path).dropLast = parts (String.ofList before) := by
  obtain ⟨htext, hafter⟩ := rsplitOnce_some h
  unfold parts
  rw [htext, splitOn_append, splitOn_of_not_mem hafter, List.dropLast_concat, String.toList_ofList]

theorem parts_alone {path : String} (h : rsplitOnce path.toList = none) :
    (parts path).dropLast = [] := by
  unfold parts
  rw [splitOn_of_not_mem (rsplitOnce_none h), List.dropLast_singleton]

/-- Safe components lead into the directory. -/
theorem resolve_safe (base : List Name) {path : String} (h : (parts path).all safeName = true) :
    resolve base path = base ++ parts path := by
  have habsolute : isAbsolute path = false := by
    rw [← Bool.not_eq_true, isAbsolute, decide_eq_true_eq]
    intro hhead
    obtain ⟨rest, hrest⟩ := List.head?_eq_some_iff.mp hhead
    have hempty : ([] : Name) ∈ parts path := by
      unfold parts
      rw [hrest]
      exact List.mem_append_left _ (List.mem_singleton_self _) |> (splitOn_append [] rest ▸ ·)
    exact absurd (List.all_eq_true.mp h [] hempty) (by decide)
  unfold resolve
  rw [habsolute, if_neg Bool.false_ne_true]
  generalize parts path = names at h
  induction names generalizing base with
  | nil => rw [List.foldl_nil, List.append_nil]
  | cons name names ih =>
    rw [List.all_cons, Bool.and_eq_true] at h
    obtain ⟨hname, hrest⟩ := h
    simp only [safeName, Bool.and_eq_true, decide_eq_true_eq] at hname
    obtain ⟨⟨⟨hempty, hdot⟩, hup⟩, -⟩ := hname
    rw [List.foldl_cons, if_neg (not_or.mpr ⟨hempty, hdot⟩), if_neg hup, ih _ hrest,
      List.append_assoc, List.singleton_append]

/-! ## Validation -/

def reportName : Name := "report.md".toList

def libraryName : Name := "library".toList

/-- What one turn of `validate` has checked. -/
structure Admissible (s : Found) (e : Entry) (s' : Found) : Prop where
  length : (parts e.path).length ≤ 65
  safe : (parts e.path).all safeName = true
  inside : ∃ name rest, parts e.path = name :: rest ∧ (name = reportName ∨ name = libraryName)
  fresh : e.path ∉ s.found
  parent : (parts e.path).dropLast = [] ∨
    ∃ d ∈ s.directories, parts d = (parts e.path).dropLast
  found : s'.found = e.path :: s.found
  kind : (e.directory = true ∧ e.bytes = 0 ∧ s'.directories = e.path :: s.directories ∧
      s'.total = s.total) ∨
    (e.directory = false ∧ s'.directories = s.directories ∧ s'.total = s.total + e.bytes ∧
      s'.total ≤ byteLimit)

theorem parts_inside {path : String} (h : path = "report.md" ∨ path = "library" ∨
    "library/".toList.isPrefixOf path.toList = true) :
    ∃ name rest, parts path = name :: rest ∧ (name = reportName ∨ name = libraryName) := by
  rcases h with rfl | rfl | h
  · exact ⟨reportName, [], by decide, .inl rfl⟩
  · exact ⟨libraryName, [], by decide, .inr rfl⟩
  · obtain ⟨rest, hrest⟩ := List.isPrefixOf_iff_prefix.mp h
    refine ⟨libraryName, rest.splitOn '/', ?_, .inr rfl⟩
    unfold parts
    rw [← hrest]
    have hsplit : "library/".toList ++ rest = libraryName ++ '/' :: rest := rfl
    rw [hsplit, splitOn_append, splitOn_of_not_mem (by decide), List.singleton_append]

theorem validateEntry_ok {s s' : Found} {e : Entry} (h : validateEntry s e = .ok s') :
    Admissible s e s' := by
  unfold validateEntry at h
  simp only [ensure_bind] at h
  obtain ⟨⟨hlength, hsafe⟩, hinside, hfresh, hparent, h⟩ := h
  have hparent' : (parts e.path).dropLast = [] ∨
      ∃ d ∈ s.directories, parts d = (parts e.path).dropLast := by
    cases hsplit : rsplitOnce e.path.toList with
    | none => exact .inl (parts_alone hsplit)
    | some split =>
      rw [hsplit, Option.all_some, List.contains_iff_mem] at hparent
      exact .inr ⟨_, hparent, (parts_parent hsplit).symm⟩
  split at h
  · next hdirectory =>
    obtain ⟨⟨-, hbytes, -⟩, h⟩ := ensure_bind.mp h
    obtain rfl := Except.ok.inj h
    exact ⟨hlength, hsafe, parts_inside hinside, hfresh, hparent', rfl,
      .inl ⟨hdirectory, hbytes, rfl, rfl⟩⟩
  · next hfile =>
    simp only [ensure_bind] at h
    obtain ⟨-, -, htotal, h⟩ := h
    obtain rfl := Except.ok.inj h
    exact ⟨hlength, hsafe, parts_inside hinside, hfresh, hparent', rfl,
      .inr ⟨Bool.eq_false_of_not_eq_true hfile, rfl, rfl, htotal⟩⟩

/-- The node of an entry, and the bytes that the payload holds for it. -/
inductive Content (lib : Libraries) (e : Entry) : Node (List UInt8) → List UInt8 → Prop
  | directory (h : e.directory = true) : Content lib e .directory []
  | file (content : List UInt8) (h : e.directory = false) (length : content.length = e.bytes)
    (digest : lib.sha256 content = e.sha256) : Content lib e (.file content) content

/-- The nodes of some entries by their paths, and the payload: the bytes of the files one after the
other. -/
inductive Delivers (lib : Libraries) :
    List Entry → List (List Name × Node (List UInt8)) → List UInt8 → Prop
  | nil : Delivers lib [] [] []
  | cons {e : Entry} {node : Node (List UInt8)} {bytes : List UInt8} {entries : List Entry}
    {nodes : List (List Name × Node (List UInt8))} {payload : List UInt8}
    (first : Content lib e node bytes) (rest : Delivers lib entries nodes payload) :
    Delivers lib (e :: entries) ((parts e.path, node) :: nodes) (bytes ++ payload)

variable {lib : Libraries} {short : Nat → Nat} {base : List Name} {tree : Tree Name (List UInt8)}
  {s s' : Found} {e : Entry} {nodes : List (List Name × Node (List UInt8))} {budget : Budget}
  {stream : List UInt8}

theorem Delivers.keys {entries : List Entry} {payload : List UInt8}
    (h : Delivers lib entries nodes payload) :
    nodes.map Prod.fst = entries.map fun e => parts e.path := by
  induction h with
  | nil => rfl
  | cons _ _ ih => rw [List.map_cons, List.map_cons, ih]

/-- The staging area is there, with neither report nor library. -/
structure Fresh (base : List Name) (tree : Tree Name (List UInt8)) : Prop where
  root : tree base = some .directory
  empty : ∀ name rest, name = reportName ∨ name = libraryName → tree (base ++ name :: rest) = none

/-- The nodes so far are those of the entries found, and the budget is what they leave. -/
structure Staged (nodes : List (List Name × Node (List UInt8))) (s : Found) (budget : Budget) :
    Prop where
  keys : ∀ q, q ∈ nodes.map Prod.fst ↔ ∃ path ∈ s.found, parts path = q
  nodup : (nodes.map Prod.fst).Nodup
  directories : ∀ d ∈ s.directories, (parts d, Node.directory) ∈ nodes
  bytes : budget.remaining + s.total = byteLimit
  entries : budget.entries + s.found.length = entryLimit

/-- The path of a new entry is free, under a directory. -/
theorem Staged.create (h : Staged nodes s budget) (hfresh : Fresh base tree)
    (he : Admissible s e s') (node : Node (List UInt8)) :
    create (install tree (under base nodes)) (resolve base e.path) node =
      some (install tree (under base (nodes ++ [(parts e.path, node)]))) := by
  obtain ⟨name, rest, hparts, hname⟩ := he.inside
  have hnew : parts e.path ∉ nodes.map Prod.fst := by
    intro hmem
    obtain ⟨path, hpath, hsame⟩ := (h.keys _).mp hmem
    exact he.fresh (parts_injective hsame ▸ hpath)
  have hbase : base ∉ (under base nodes).map Prod.fst := by
    intro hmem
    rw [← List.append_nil base, List.append_nil base] at hmem
    have hroot : base ++ [] ∈ (under base nodes).map Prod.fst := by rwa [List.append_nil]
    obtain ⟨path, -, hpath⟩ := (h.keys _).mp (FileTree.mem_under_keys.mp hroot)
    exact parts_ne_nil path hpath
  rw [resolve_safe base he.safe, FileTree.under_append]
  apply FileTree.create_install
  · exact List.append_ne_nil_of_right_ne_nil _ (parts_ne_nil e.path)
  · exact mt FileTree.mem_under_keys.mp hnew
  · rw [hparts]
    exact hfresh.empty name rest hname
  · rw [List.dropLast_append_of_ne_nil (parts_ne_nil e.path)]
    rcases he.parent with hroot | ⟨d, hd, hparent⟩
    · rw [hroot, List.append_nil, FileTree.install_other hbase, hfresh.root]
    · rw [← hparent]
      apply FileTree.install_mem (FileTree.under_nodup h.nodup)
      exact List.mem_map_of_mem (h.directories d hd)

/-- The next state. -/
theorem Staged.next (h : Staged nodes s budget) (he : Admissible s e s')
    {node : Node (List UInt8)} (hdirectory : e.directory = true → node = .directory) {entries : Nat}
    (hentries : budget.entries = entries + 1) :
    Staged (nodes ++ [(parts e.path, node)]) s' ⟨budget.remaining - e.bytes, entries⟩ := by
  have hnew : parts e.path ∉ nodes.map Prod.fst := by
    intro hmem
    obtain ⟨path, hpath, hsame⟩ := (h.keys _).mp hmem
    exact he.fresh (parts_injective hsame ▸ hpath)
  have hbytes := h.bytes
  have hcount := h.entries
  refine ⟨fun q => ?_, ?_, fun d hd => ?_, ?_, ?_⟩
  · rw [List.map_append, List.mem_append, h.keys, he.found]
    simp [eq_comm, or_comm]
  · rw [List.map_append, List.nodup_append]
    refine ⟨h.nodup, List.nodup_singleton _, fun p hp q hq => ?_⟩
    rw [List.map_singleton, List.mem_singleton] at hq
    rintro rfl
    rw [hq] at hp
    exact hnew hp
  · rcases he.kind with ⟨hdir, -, hdirs, -⟩ | ⟨-, hdirs, -⟩
    · rw [hdirs] at hd
      rcases List.mem_cons.mp hd with rfl | hd
      · rw [hdirectory hdir]
        exact List.mem_append_right _ (List.mem_singleton_self _)
      · exact List.mem_append_left _ (h.directories d hd)
    · rw [hdirs] at hd
      exact List.mem_append_left _ (h.directories d hd)
  · dsimp only
    rcases he.kind with ⟨-, hzero, -, htotal⟩ | ⟨-, -, htotal, hlimit⟩ <;> omega
  · dsimp only
    rw [he.found, List.length_cons]
    omega

/-- The bytes of a manifest are within the limit of the payload. -/
theorem Delivers.length_le {entries : List Entry} {payload : List UInt8}
    (h : Delivers lib entries nodes payload) (hvalid : validateEntries s entries = .ok ())
    (hlimit : s.total ≤ byteLimit) : s.total + payload.length ≤ byteLimit := by
  induction h generalizing s with
  | nil => exact hlimit
  | @cons e node bytes entries nodes payload hcontent _ ih =>
    obtain ⟨s', hentry, hvalid⟩ := Except.bind_ok.mp hvalid
    have hkind := (validateEntry_ok hentry).kind
    rw [List.length_append]
    cases hcontent with
    | directory hdir =>
      rcases hkind with ⟨-, -, -, htotal⟩ | ⟨hfile, -⟩
      · have hrest := ih hvalid (htotal ▸ hlimit)
        rw [htotal] at hrest
        rwa [List.length_nil, Nat.zero_add]
      · rw [hdir] at hfile
        cases hfile
    | file _ hfile hlength _ =>
      rcases hkind with ⟨hdir, -⟩ | ⟨-, -, htotal, hle⟩
      · rw [hdir] at hfile
        cases hfile
      · have hrest := ih hvalid hle
        omega

/-! ## The header -/

/-- The paths of a manifest stay inside the staging area, under the report or the library, each is
listed once, and whatever leads to one of them is a directory listed before it. -/
structure Safe (base : List Name) (entries : List Entry) : Prop where
  inside : ∀ e ∈ entries, resolve base e.path = base ++ parts e.path ∧
    ∃ name rest, parts e.path = name :: rest ∧ (name = reportName ∨ name = libraryName)
  nodup : (entries.map fun e => resolve base e.path).Nodup
  ancestors : ∀ before e after, entries = before ++ e :: after → ∀ p name rest, p ≠ [] →
    parts e.path = p ++ name :: rest →
      ∃ d ∈ before, d.directory = true ∧ resolve base d.path = base ++ p

/-- The entry of a node. -/
inductive Describes (lib : Libraries) : Entry → String × Node (List UInt8) → Prop
  | directory (path : String) : Describes lib ⟨path, true, 0, ""⟩ (path, .directory)
  | file (path : String) (content : List UInt8) :
    Describes lib ⟨path, false, content.length, lib.sha256 content⟩ (path, .file content)

mutual

/-- A scan lists the nodes of an item. -/
theorem visit_ok {path : String} {depth : Nat} {budget : Budget} {r : List Entry × Budget} :
    (item : Item) → visit lib path depth budget item = .ok r →
      List.Forall₂ (Describes lib) r.1 (item.nodes path)
  | .file content => fun h => by
    rw [visit] at h
    obtain ⟨b₁, -, h⟩ := Except.bind_ok.mp h
    obtain ⟨b₂, -, h⟩ := Except.bind_ok.mp h
    rw [← Except.ok.inj h, Item.nodes]
    exact .cons (.file path content) .nil
  | .directory children => fun h => by
    rw [visit] at h
    obtain ⟨b₁, -, h⟩ := Except.bind_ok.mp h
    obtain ⟨-, h⟩ := ensure_bind.mp h
    obtain ⟨⟨entries, b₂⟩, hall, h⟩ := Except.bind_ok.mp h
    rw [← Except.ok.inj h, Item.nodes]
    exact .cons (.directory path) (visitAll_ok children hall)

theorem visitAll_ok {path : String} {depth : Nat} {budget : Budget} {r : List Entry × Budget} :
    (children : List (String × Item)) → visitAll lib path depth budget children = .ok r →
      List.Forall₂ (Describes lib) r.1 (Item.allNodes path children)
  | [] => fun h => by
    rw [visitAll] at h
    rw [← Except.ok.inj h, Item.allNodes]
    exact .nil
  | (name, item) :: children => fun h => by
    rw [visitAll] at h
    obtain ⟨⟨entries, b₁⟩, hfirst, h⟩ := Except.bind_ok.mp h
    obtain ⟨⟨rest, b₂⟩, hrest, h⟩ := Except.bind_ok.mp h
    rw [← Except.ok.inj h, Item.allNodes]
    exact List.rel_append (visit_ok item hfirst) (visitAll_ok children hrest)

end

def sampleJson (source : Source) : List UInt8 :=
  (Json.object [("schema", toString source.schema), ("source", Json.string source.source),
    ("entries", Json.array (source.entries.map fun e => Json.object [("path", Json.string e.path),
      ("directory", toString e.directory), ("bytes", toString e.bytes),
      ("sha256", Json.string e.sha256)]))]).toList.flatMap String.utf8EncodeChar

/-- Libraries that decode the text of one manifest, with any blanks before it, and know one
digest. -/
def textLibraries (text : Source → List UInt8) (known : Source) : Libraries where
  encode := text
  decode json := if json.dropWhile (· = 32) = text known then some known else none
  sha256 content :=
    if content = [97, 98, 99] then
      "ba7816bf8f01cfea414140de5dae2223b00361a396177a9cb410ff61f20015ad"
    else ""

def sampleLibraries (known : Source) : Libraries := textLibraries sampleJson known

end Herdr.ArtifactStream
