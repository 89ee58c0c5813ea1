import Herdr.Lib.Forest
import Herdr.Verify.Findings

/-!
# Canonical findings form a forest

An accepted merge links a root to a finding of another group and an unmerge removes a link, so the
merge edges that a replay reads form a forest at every watermark. Every claim id is given once, so
the earliest validated claim of a group is one claim, and the roots of the validated claims are
exactly the findings that the replay counts.
-/

namespace Herdr.Findings

open Watermark

variable {db db' : Ledgers} {mark : Int} {edges : MergeEdges} {finding : String} {n : Nat}

/-! ## Merge edges -/

def MergeEdges.parent (edges : MergeEdges) (finding : String) : Option String :=
  (edges.find finding).map (·.target)

/-- The merge edges form a forest. -/
def MergeEdges.Rooted (edges : MergeEdges) : Prop := Forest.Rooted edges.parent

theorem parent_eq_none : edges.parent finding = none ↔ edges.find finding = none :=
  Option.map_eq_none_iff

theorem follow_eq_walk : edges.follow n finding = Forest.walk edges.parent n finding := by
  induction n generalizing finding with
  | zero => rfl
  | succ n ih =>
    rw [MergeEdges.follow, Forest.walk, MergeEdges.parent]
    cases edges.find finding with
    | none => rfl
    | some e => exact ih

theorem parent_put {e : MergeEdge} :
    MergeEdges.parent (edges.put e) = Function.update edges.parent e.source (some e.target) := by
  funext finding
  rw [MergeEdges.parent, Table.find_put]
  by_cases h : e.source = finding
  · rw [if_pos h, ← h, Function.update_self]
    rfl
  · rw [if_neg h, Function.update_of_ne (Ne.symm h)]
    rfl

theorem parent_erase {source : String} (h : MergeEdges.parent (edges.erase source) finding ≠ none) :
    MergeEdges.parent (edges.erase source) finding = edges.parent finding := by
  rw [MergeEdges.parent, Table.find_erase] at h ⊢
  split at h
  · exact absurd rfl h
  · next hne =>
    rw [if_neg hne]
    rfl

theorem source_of_parent (h : edges.parent finding ≠ none) : finding ∈ edges.rows.map (·.source) := by
  obtain ⟨e, he⟩ := Option.ne_none_iff_exists'.mp (mt parent_eq_none.mpr h)
  have hsource : e.source = finding := Table.find_key he
  exact List.mem_map.mpr ⟨e, Table.mem_of_find he, hsource⟩

namespace MergeEdges.Rooted

/-- As many steps as there are edges lead to a finding without an active edge. -/
theorem follow_length (h : edges.Rooted) :
    edges.find (edges.follow edges.rows.length finding) = none := by
  have hend := Forest.Rooted.walk_length (a := finding) h fun _ => source_of_parent
  rw [List.length_map] at hend
  rw [follow_eq_walk]
  exact parent_eq_none.mp hend

/-- One more step, which the loop allows, is not taken. -/
theorem root_eq (h : edges.Rooted) :
    edges.root finding = edges.follow edges.rows.length finding := by
  have hend : edges.find (edges.follow edges.rows.length finding) = none := h.follow_length
  rw [follow_eq_walk, ← parent_eq_none] at hend
  rw [MergeEdges.root, follow_eq_walk, follow_eq_walk]
  exact Forest.walk_of_le hend (Nat.le_succ _)

theorem find_root (h : edges.Rooted) : edges.find (edges.root finding) = none := by
  rw [h.root_eq]
  exact h.follow_length

theorem root_of_find (hfind : edges.find finding = none) : edges.root finding = finding := by
  rw [MergeEdges.root, follow_eq_walk]
  exact Forest.walk_root (parent_eq_none.mpr hfind)

theorem root_root (h : edges.Rooted) : edges.root (edges.root finding) = edges.root finding :=
  root_of_find h.find_root

/-- The root that a walk along the edges ends at. -/
theorem root_of_reaches (h : edges.Rooted) {root : String}
    (hreach : Relation.ReflTransGen (Forest.Edge edges.parent) finding root)
    (hroot : edges.find root = none) : edges.root finding = root := by
  have hend : edges.find (edges.root finding) = none := h.find_root
  rw [MergeEdges.root, follow_eq_walk, ← parent_eq_none] at hend
  rw [MergeEdges.root, follow_eq_walk]
  exact Forest.walk_eq_of_reaches hend hreach (parent_eq_none.mpr hroot)

theorem empty : MergeEdges.Rooted .empty := Forest.Rooted.empty

/-- A merge of a root into another group, and any unmerge, keep the forest. -/
theorem apply (h : edges.Rooted) {r : FindingRelationship}
    (hmerge : r.kind = .merge → edges.find r.sourceFinding = none ∧
      edges.root r.targetFinding ≠ edges.root r.sourceFinding) : (r.apply edges).Rooted := by
  rw [FindingRelationship.apply]
  cases hkind : r.kind with
  | merge =>
    obtain ⟨hsource, hne⟩ := hmerge hkind
    rw [root_of_find hsource] at hne
    rw [MergeEdges.Rooted, parent_put]
    exact Forest.Rooted.link h fun hreach => hne (h.root_of_reaches hreach hsource)
  | unmerge =>
    refine Forest.Rooted.unlink h fun a b hab => ?_
    change MergeEdges.parent (edges.erase r.sourceFinding) a = some b at hab
    have hsome : MergeEdges.parent (edges.erase r.sourceFinding) a ≠ none := by simp [hab]
    exact (parent_erase hsome).symm.trans hab

end MergeEdges.Rooted

/-- A root is the finding itself or the target of an edge. -/
theorem follow_cases (edges : MergeEdges) (n : Nat) (finding : String) :
    edges.follow n finding = finding ∨ ∃ e ∈ edges.rows, e.target = edges.follow n finding := by
  induction n generalizing finding with
  | zero => exact .inl rfl
  | succ n ih =>
    rw [MergeEdges.follow]
    cases hfind : edges.find finding with
    | none => exact .inl rfl
    | some e =>
      right
      rcases ih e.target with he | htarget
      · exact ⟨e, Table.mem_of_find hfind, he.symm⟩
      · exact htarget

/-- Every active edge is a merge that was replayed. -/
theorem edge_of_merge {rows : List FindingRelationship} {e : MergeEdge}
    (h : e ∈ (rows.foldl FindingRelationship.apply edges).rows) :
    e ∈ edges.rows ∨ ∃ r ∈ rows, r.kind = .merge ∧ r.targetFinding = e.target := by
  induction rows generalizing edges with
  | nil => exact .inl h
  | cons r rows ih =>
    rcases ih h with h | ⟨r', hr', hmerge⟩
    · rw [FindingRelationship.apply] at h
      cases hkind : r.kind with
      | merge =>
        rw [hkind] at h
        have hfind := Table.find_of_mem h
        rw [Table.find_put] at hfind
        split at hfind
        · cases hfind
          exact .inr ⟨r, List.mem_cons_self, hkind, rfl⟩
        · exact .inl (Table.mem_of_find hfind)
      | unmerge =>
        rw [hkind] at h
        exact .inl (List.mem_of_mem_filter h)
    · exact .inr ⟨r', List.mem_cons_of_mem _ hr', hmerge⟩

/-! ## Merges over a history -/

/-- Relationships are recorded in order, and what a replay reads of them is a forest. -/
structure Merged (db : Ledgers) : Prop where
  ordered : (db.relationships.map (·.seq)).Pairwise (· < ·)
  past : ∀ r ∈ db.relationships, r.seq ≤ db.head
  rooted : ∀ mark ≤ i64Bound, (db.merges mark).Rooted

theorem merges_eq (h : (db.relationships.map (·.seq)).Pairwise (· < ·)) :
    db.merges mark = (upTo mark db.relationships).foldl FindingRelationship.apply .empty := by
  rw [Ledgers.merges, replay_eq_upTo h]

theorem Merged.empty : Merged .empty := by
  refine ⟨List.Pairwise.nil, by simp [Ledgers.empty], fun mark _ => ?_⟩
  exact MergeEdges.Rooted.empty

theorem Merged.kept (hm : Merged db) (g : Grows db db')
    (hsame : db'.relationships = db.relationships) : Merged db' := by
  refine ⟨by rw [hsame]; exact hm.ordered, fun r hr => ?_, fun mark hmark => ?_⟩
  · rw [hsame] at hr
    exact (hm.past r hr).trans g.head_le
  · rw [Ledgers.merges, hsame]
    exact hm.rooted mark hmark

/-- A new relationship is later than all others, so a replay that reads it has read them. -/
theorem Merged.relate (hm : Merged db) (g : Grows db db') {r : FindingRelationship}
    (hadd : db'.relationships = db.relationships ++ [r]) (hseq : r.seq = db.head + 1)
    (hhead : r.seq ≤ db'.head) (hmerge : r.kind = .merge → db.Mergeable r) : Merged db' := by
  have hlater : ∀ r' ∈ db.relationships, r'.seq < r.seq := by
    intro r' hr'
    have := hm.past r' hr'
    omega
  have hordered : (db'.relationships.map (·.seq)).Pairwise (· < ·) := by
    rw [hadd, List.map_append, List.pairwise_append]
    refine ⟨hm.ordered, List.pairwise_singleton _ _, fun a ha b hb => ?_⟩
    obtain ⟨r', hr', rfl⟩ := List.mem_map.mp ha
    obtain rfl := List.mem_singleton.mp hb
    exact hlater r' hr'
  refine ⟨hordered, fun r' hr' => ?_, fun mark hmark => ?_⟩
  · rw [hadd] at hr'
    rcases List.mem_append.mp hr' with hr' | hr'
    · exact (hlater r' hr').le.trans hhead
    · rw [List.mem_singleton.mp hr']
      exact hhead
  · by_cases hread : r.seq ≤ mark
    · have hall : ∀ bound, r.seq ≤ bound → db.merges bound =
          db.relationships.foldl FindingRelationship.apply .empty := by
        intro bound hbound
        rw [merges_eq hm.ordered, upTo_eq_self fun r' hr' => (hlater r' hr').le.trans hbound]
      have hmerges : db'.merges mark = r.apply (db.merges i64Bound) := by
        have hself : upTo mark [r] = [r] := upTo_eq_self fun r' hr' => by
          rw [List.mem_singleton.mp hr']
          exact hread
        rw [hall i64Bound (hread.trans hmark), ← hall mark hread, merges_eq hordered, hadd, upTo,
          List.filter_append, List.foldl_append, merges_eq hm.ordered]
        change ((upTo mark [r]).foldl _ _) = _
        rw [hself]
        rfl
      rw [hmerges]
      exact (hm.rooted i64Bound le_rfl).apply fun hkind => (hmerge hkind).2
    · rw [Ledgers.merges, g.relationships.replay_eq (by omega)]
      exact hm.rooted mark hmark

/-- A row of `finding_log` is not above the head. -/
theorem findingLog_le_head {l : LedgerRow FindingKind} (hl : l ∈ db.findingLog) : l.seq ≤ db.head := by
  have hle := le_maxOf (List.mem_map_of_mem (f := fun l : LedgerRow FindingKind => l.seq) hl)
  unfold Ledgers.head
  omega

theorem Effect.merged (e : Effect db db') (hm : Merged db) : Merged db' := by
  have g := e.grows
  cases e with
  | related hrow _ hr hmerge =>
    refine hm.relate g rfl (hr.trans hrow) (hr ▸ findingLog_le_head ?_) hmerge
    exact List.mem_append_right _ (List.mem_singleton_self _)
  | _ => exact hm.kept g rfl

theorem Effects.merged (e : Effects db db') (hm : Merged db) : Merged db' := by
  induction e with
  | refl => exact hm
  | tail _ e ih => exact e.merged ih

/-! ## Names -/

theorem canonicalId_injective {a b : Int} (ha : 0 ≤ a) (hb : 0 ≤ b)
    (h : canonicalId a = canonicalId b) : a = b := by
  obtain ⟨m, rfl⟩ := Int.eq_ofNat_of_zero_le ha
  obtain ⟨n, rfl⟩ := Int.eq_ofNat_of_zero_le hb
  have hrepr : m.repr = n.repr := (String.append_right_inj _).mp h
  have hdigits : Nat.toDigits 10 m = Nat.toDigits 10 n := by
    rw [← Nat.toList_repr, ← Nat.toList_repr, hrepr]
  have hvalue := congrArg (Nat.ofDigitChars 10 · 0) hdigits
  simp only [Nat.ofDigitChars_ten_toDigits] at hvalue
  rw [hvalue]

theorem head_nonneg (db : Ledgers) : 0 ≤ db.head := by
  have hle : 0 ≤ maxOf (db.findingLog.map (·.seq)) := maxOf_le_append [] _
  unfold Ledgers.head
  omega

/-- Each canonical finding was minted by the decision in its name, and what a decision or a merge
names was there when it was recorded. -/
structure Named (db : Ledgers) : Prop where
  distinct : (db.canonicalFindings.map (·.findingId)).Nodup
  named : ∀ f ∈ db.canonicalFindings, f.findingId = canonicalId f.seq ∧ 0 ≤ f.seq ∧ f.seq ≤ db.head
  targets : ∀ r ∈ db.relationships, r.kind = .merge →
    ∃ f ∈ db.canonicalFindings, f.findingId = r.targetFinding ∧ f.seq ≤ r.seq
  decided : ∀ d ∈ db.decisions, ∀ finding ∈ d.findingId,
    ∃ f ∈ db.canonicalFindings, f.findingId = finding ∧ f.seq ≤ d.seq

theorem Named.empty : Named .empty := by
  constructor <;> simp [Ledgers.empty]

theorem Named.kept (hn : Named db) (g : Grows db db')
    (hfindings : db'.canonicalFindings = db.canonicalFindings)
    (hrelationships : db'.relationships = db.relationships)
    (hdecisions : db'.decisions = db.decisions) : Named db' := by
  obtain ⟨hdistinct, hnamed, htargets, hdecided⟩ := hn
  refine ⟨?_, ?_, ?_, ?_⟩
  · rw [hfindings]
    exact hdistinct
  · intro f hf
    rw [hfindings] at hf
    obtain ⟨hname, hpos, hle⟩ := hnamed f hf
    exact ⟨hname, hpos, hle.trans g.head_le⟩
  · rw [hfindings, hrelationships]
    exact htargets
  · rw [hfindings, hdecisions]
    exact hdecided

/-- A merge names a finding that is there. -/
theorem Named.relate (hn : Named db) (g : Grows db db') {r : FindingRelationship}
    (hadd : db'.relationships = db.relationships ++ [r]) (hseq : r.seq = db.head + 1)
    (hfindings : db'.canonicalFindings = db.canonicalFindings)
    (hdecisions : db'.decisions = db.decisions) (hmerge : r.kind = .merge → db.Mergeable r) :
    Named db' := by
  refine ⟨?_, ?_, ?_, ?_⟩
  · rw [hfindings]
    exact hn.distinct
  · intro f hf
    rw [hfindings] at hf
    obtain ⟨hname, hpos, hle⟩ := hn.named f hf
    exact ⟨hname, hpos, hle.trans g.head_le⟩
  · rw [hfindings, hadd]
    refine forall_append hn.targets fun r' hr' hkind => ?_
    obtain rfl := List.mem_singleton.mp hr'
    obtain ⟨f, hf, hname⟩ := (hmerge hkind).1
    have := (hn.named f hf).2.2
    exact ⟨f, hf, hname, by omega⟩
  · rw [hfindings, hdecisions]
    exact hn.decided

/-- A decision names a finding that is there or that it mints. -/
theorem Named.decide (hn : Named db) (g : Grows db db') {minted : List CanonicalFinding}
    {d : FindingDecision} {seq : Int} (hfindings : db'.canonicalFindings = db.canonicalFindings ++ minted)
    (hadd : db'.decisions = db.decisions ++ [d]) (hrelationships : db'.relationships = db.relationships)
    (hseq : seq = db.head + 1) (hhead : seq ≤ db'.head) (hd : d.seq = seq)
    (hminted : ∀ f ∈ minted, f.seq = seq)
    (hnames : (minted.map (·.findingId)).Sublist [canonicalId seq])
    (hknown : ∀ f ∈ d.findingId, f ∈ (db.canonicalFindings ++ minted).map (·.findingId)) :
    Named db' := by
  have hnonneg := head_nonneg db
  have hname : ∀ f ∈ minted, f.findingId = canonicalId seq := fun f hf =>
    List.mem_singleton.mp (hnames.subset (List.mem_map_of_mem hf))
  refine ⟨?_, ?_, ?_, ?_⟩
  · rw [hfindings, List.map_append]
    refine List.nodup_append.mpr ⟨hn.distinct, hnames.nodup (List.nodup_singleton _), ?_⟩
    intro name hold name' hnew heq
    obtain ⟨f, hf, rfl⟩ := List.mem_map.mp hold
    obtain ⟨f', hf', rfl⟩ := List.mem_map.mp hnew
    obtain ⟨hfname, hpos, hle⟩ := hn.named f hf
    have hsame := canonicalId_injective hpos (by omega) (hfname.symm.trans (heq.trans (hname f' hf')))
    omega
  · rw [hfindings]
    refine forall_append (fun f hf => ?_) fun f hf => ?_
    · obtain ⟨hfname, hpos, hle⟩ := hn.named f hf
      exact ⟨hfname, hpos, hle.trans g.head_le⟩
    · rw [hminted f hf]
      exact ⟨hname f hf, by omega, hhead⟩
  · rw [hfindings, hrelationships]
    intro r hr hkind
    obtain ⟨f, hf, hof⟩ := hn.targets r hr hkind
    exact ⟨f, List.mem_append_left _ hf, hof⟩
  · rw [hfindings, hadd]
    refine forall_append (fun d' hd' finding hfinding => ?_) fun d' hd' finding hfinding => ?_
    · obtain ⟨f, hf, hof⟩ := hn.decided d' hd' finding hfinding
      exact ⟨f, List.mem_append_left _ hf, hof⟩
    · obtain rfl := List.mem_singleton.mp hd'
      obtain ⟨f, hf, hof⟩ := List.mem_map.mp (hknown finding hfinding)
      refine ⟨f, hf, hof, ?_⟩
      rcases List.mem_append.mp hf with hf | hf
      · have := (hn.named f hf).2.2
        omega
      · rw [hminted f hf, hd]

theorem Effect.named (e : Effect db db') (hn : Named db) : Named db' := by
  have g := e.grows
  cases e with
  | decided hrow _ hminted hd hnames hknown =>
    refine hn.decide g rfl rfl rfl hrow (findingLog_le_head ?_) hd hminted hnames hknown
    exact List.mem_append_right _ (List.mem_singleton_self _)
  | related hrow _ hr hmerge => exact hn.relate g rfl (hr.trans hrow) rfl rfl hmerge
  | _ => exact hn.kept g rfl rfl rfl

theorem Effects.named (e : Effects db db') (hn : Named db) : Named db' := by
  induction e with
  | refl => exact hn
  | tail _ e ih => exact e.named ih

theorem Named.replay_nodup (hn : Named db) :
    ((replay mark db.canonicalFindings).map (·.findingId)).Nodup := by
  have hperm : (replay mark db.canonicalFindings).Perm (upTo mark db.canonicalFindings) :=
    List.perm_insertionSort _ _
  rw [(hperm.map _).nodup_iff]
  exact hn.distinct.sublist (List.filter_sublist.map _)

/-- What a replay reads of a decision's group is a finding that it reads. -/
theorem root_known (hn : Named db) {d : FindingDecision} {finding : String}
    (hd : d ∈ db.decisions) (hseq : d.seq ≤ mark) (hfinding : finding ∈ d.findingId) :
    (db.merges mark).root finding ∈ (replay mark db.canonicalFindings).map (·.findingId) := by
  rcases follow_cases (db.merges mark) _ finding with hroot | ⟨e, he, htarget⟩
  · obtain ⟨f, hf, hof, hle⟩ := hn.decided d hd finding hfinding
    rw [MergeEdges.root, hroot]
    exact List.mem_map.mpr ⟨f, mem_replay.mpr ⟨hf, hle.trans hseq⟩, hof⟩
  · rw [MergeEdges.root, ← htarget]
    rcases edge_of_merge he with hnone | ⟨r, hr, hkind, hof⟩
    · cases hnone
    · obtain ⟨hr, hle⟩ := mem_replay.mp hr
      obtain ⟨f, hf, hname, hbefore⟩ := hn.targets r hr hkind
      exact List.mem_map.mpr ⟨f, mem_replay.mpr ⟨hf, hbefore.trans hle⟩, hname.trans hof⟩

/-! ## Identities -/

/-- Submissions and claims have ids of their own. -/
structure Distinct (db : Ledgers) : Prop where
  submissions : (db.submissions.map (·.submissionId)).Nodup
  claims : (db.claims.map (·.claimId)).Nodup

theorem Distinct.empty : Distinct .empty := ⟨List.nodup_nil, List.nodup_nil⟩

theorem nodup_append_map {α β : Type} {f : α → β} {l more : List α} (hl : (l.map f).Nodup)
    (hmore : (more.map f).Nodup) (hne : ∀ a ∈ l, ∀ b ∈ more, f a ≠ f b) :
    ((l ++ more).map f).Nodup := by
  rw [List.map_append]
  refine List.nodup_append.mpr ⟨hl, hmore, fun x hx y hy => ?_⟩
  obtain ⟨a, ha, rfl⟩ := List.mem_map.mp hx
  obtain ⟨b, hb, rfl⟩ := List.mem_map.mp hy
  exact hne a ha b hb

theorem Effect.distinct (e : Effect db db') (hi : Distinct db) : Distinct db' := by
  cases e with
  | @submitted row s set claim _ _ _ _ _ _ _ _ _ newId newClaim =>
    refine ⟨nodup_append_map hi.submissions (List.nodup_singleton _) fun a ha b hb => ?_,
      nodup_append_map hi.claims (List.nodup_singleton _) fun a ha b hb => ?_⟩
    · rw [List.mem_singleton.mp hb]
      exact newId a ha
    · rw [List.mem_singleton.mp hb]
      exact (newClaim a ha).ne
  | split _ _ _ _ _ _ newClaims distinct =>
    exact ⟨hi.submissions,
      nodup_append_map hi.claims distinct fun a ha b hb => (newClaims a ha b hb).ne⟩
  | _ => exact ⟨hi.submissions, hi.claims⟩

theorem Effects.distinct (e : Effects db db') (hi : Distinct db) : Distinct db' := by
  induction e with
  | refl => exact hi
  | tail _ e ih => exact e.distinct ih

/-! ## Discovery -/

def SubmissionState.key (s : SubmissionState) (c : ClaimState) : DiscoveryKey :=
  (s.seq, c.ordinal, c.claimId)

/-- The current claims of the submissions. -/
def claimPairs (submissions : List SubmissionState) : List (SubmissionState × ClaimState) :=
  submissions.flatMap fun s => s.claims.map (s, ·)

variable {submissions : List SubmissionState} {root : String} {p : SubmissionState × ClaimState}

theorem mem_claimPairs : p ∈ claimPairs submissions ↔ p.1 ∈ submissions ∧ p.2 ∈ p.1.claims := by
  rw [claimPairs, List.mem_flatMap]
  constructor
  · rintro ⟨s, hs, hp⟩
    obtain ⟨c, hc, rfl⟩ := List.mem_map.mp hp
    exact ⟨hs, hc⟩
  · intro ⟨hs, hc⟩
    exact ⟨p.1, hs, List.mem_map.mpr ⟨p.2, hc, rfl⟩⟩

/-- The claim is decided valid for a finding of the group. -/
def Validated (root : String) (p : SubmissionState × ClaimState) : Prop :=
  p.2.decided = .validated ∧ p.2.canonicalFinding = some root

theorem mem_validated {k : DiscoveryKey} : (root, k) ∈ submissions.flatMap (·.validated) ↔
    ∃ p ∈ claimPairs submissions, Validated root p ∧ p.1.key p.2 = k := by
  simp only [List.mem_flatMap, SubmissionState.validated, List.mem_filterMap]
  constructor
  · intro ⟨s, hs, c, hc, hk⟩
    split at hk
    · next hdecided =>
      obtain ⟨r, hr, hk⟩ := Option.map_eq_some_iff.mp hk
      obtain ⟨rfl, rfl⟩ := Prod.mk.inj hk
      exact ⟨(s, c), mem_claimPairs.mpr ⟨hs, hc⟩, ⟨hdecided, hr⟩, rfl⟩
    · cases hk
  · intro ⟨p, hp, ⟨hdecided, hroot⟩, hk⟩
    obtain ⟨hs, hc⟩ := mem_claimPairs.mp hp
    refine ⟨p.1, hs, p.2, hc, ?_⟩
    rw [if_pos hdecided, hroot, ← hk]
    rfl

theorem before_total (a b : DiscoveryKey) : a.before b = true ∨ b.before a = true := by
  simp only [DiscoveryKey.before, Bool.or_eq_true, Bool.and_eq_true, decide_eq_true_eq]
  omega

theorem before_trans {a b c : DiscoveryKey} (hab : a.before b = true) (hbc : b.before c = true) :
    a.before c = true := by
  simp only [DiscoveryKey.before, Bool.or_eq_true, Bool.and_eq_true, decide_eq_true_eq] at *
  omega

theorem mem_group {k : DiscoveryKey} :
    k ∈ ((submissions.flatMap (·.validated)).filter (·.1 = root)).map (·.2) ↔
      (root, k) ∈ submissions.flatMap (·.validated) := by
  rw [List.mem_map]
  constructor
  · intro ⟨e, hfiltered, hk⟩
    obtain ⟨hmem, hr⟩ := List.mem_filter.mp hfiltered
    have he : e = (root, k) := Prod.ext (of_decide_eq_true hr) hk
    exact he ▸ hmem
  · intro hmem
    exact ⟨(root, k), List.mem_filter.mpr ⟨hmem, decide_eq_true rfl⟩, rfl⟩

/-- The discovery claim of a group is the earliest of its validated claims. -/
theorem discoveryOf_least {claim : Int} (h : discoveryOf submissions root = some claim) :
    ∃ p ∈ claimPairs submissions, Validated root p ∧ p.2.claimId = claim ∧
      ∀ q ∈ claimPairs submissions, Validated root q →
        (p.1.key p.2).before (q.1.key q.2) = true := by
  obtain ⟨k, hk, rfl⟩ := Option.map_eq_some_iff.mp h
  set group := ((submissions.flatMap (·.validated)).filter (·.1 = root)).map (·.2)
  let order : DiscoveryKey → DiscoveryKey → Prop := fun a b => a.before b = true
  have htotal : Std.Total order := ⟨before_total⟩
  have htrans : IsTrans DiscoveryKey order := ⟨fun _ _ _ => before_trans⟩
  have hsorted := List.pairwise_insertionSort order group
  obtain ⟨rest, hrest⟩ := List.head?_eq_some_iff.mp hk
  have hmem : ∀ b, b ∈ group ↔ b ∈ k :: rest := fun b =>
    hrest ▸ (List.mem_insertionSort order).symm
  change group.insertionSort order = k :: rest at hrest
  rw [hrest] at hsorted
  obtain ⟨p, hp, hvalidated, hkey⟩ :=
    mem_validated.mp (mem_group.mp ((hmem k).mpr List.mem_cons_self))
  refine ⟨p, hp, hvalidated, by rw [← hkey]; rfl, fun q hq hqv => ?_⟩
  have hqk := (hmem _).mp (mem_group.mpr (mem_validated.mpr ⟨q, hq, hqv, rfl⟩))
  rw [hkey]
  rcases List.mem_cons.mp hqk with he | hqk
  · rw [he]
    exact (before_total k k).elim id id
  · exact List.rel_of_pairwise_cons hsorted hqk

theorem discoveryOf_isSome (h : ∃ p ∈ claimPairs submissions, Validated root p) :
    ∃ claim, discoveryOf submissions root = some claim := by
  obtain ⟨p, hp, hvalidated⟩ := h
  have hmem := mem_group.mpr (mem_validated.mpr ⟨p, hp, hvalidated, rfl⟩)
  rw [← Option.isSome_iff_exists, discoveryOf, Option.isSome_map, List.isSome_head?]
  intro hnil
  have hlength := congrArg List.length hnil
  rw [List.length_insertionSort] at hlength
  rw [List.length_eq_zero_iff.mp hlength] at hmem
  cases hmem

/-! ## What a replay derives -/

theorem claimPairs_settle (discovery : String → Option Int) :
    claimPairs (submissions.map (settleSubmission discovery)) =
      (claimPairs submissions).map fun p =>
        (settleSubmission discovery p.1, settleClaim discovery p.2) := by
  induction submissions with
  | nil => rfl
  | cons s rest ih =>
    have hhead : (settleSubmission discovery s).claims.map (settleSubmission discovery s, ·) =
        (s.claims.map (s, ·)).map fun p =>
          (settleSubmission discovery p.1, settleClaim discovery p.2) := by
      change (s.claims.map (settleClaim discovery)).map _ = _
      rw [List.map_map, List.map_map]
      rfl
    have hcons : claimPairs (s :: rest) = s.claims.map (s, ·) ++ claimPairs rest := rfl
    rw [hcons, List.map_append, ← hhead, ← ih]
    rfl

/-- A claim keeps its recorded decision; its outcome is validated if it is the discovery claim. -/
theorem settleClaim_outcome {discovery : String → Option Int} {c : ClaimState}
    (h : c.outcome = c.decided) : (settleClaim discovery c).outcome = .validated ↔
      c.decided = .validated ∧ c.canonicalFinding.bind discovery = some c.claimId := by
  rw [settleClaim]
  split
  · next hsettle => exact ⟨nofun, fun hc => absurd hc.2 hsettle.2⟩
  · next hsettle =>
    rw [h]
    exact ⟨fun hdecided => ⟨hdecided, not_not.mp fun hne => hsettle ⟨hdecided, hne⟩⟩, And.left⟩

theorem settleClaim_fields (discovery : String → Option Int) (c : ClaimState) :
    (settleClaim discovery c).decided = c.decided ∧
      (settleClaim discovery c).canonicalFinding = c.canonicalFinding ∧
        (settleClaim discovery c).claimId = c.claimId ∧
          (settleClaim discovery c).ordinal = c.ordinal ∧
            (settleClaim discovery c).findingId = c.findingId := by
  rw [settleClaim]
  split <;> exact ⟨rfl, rfl, rfl, rfl, rfl⟩

/-- Every group with a validated claim has exactly one claim whose derived outcome is validated: the
earliest. -/
structure OneDiscovery (submissions : List SubmissionState) : Prop where
  distinct : ((claimPairs submissions).map (·.2.claimId)).Nodup
  derived : ∀ p ∈ claimPairs submissions, p.2.outcome = .validated → ∃ root, Validated root p
  discovered : ∀ root, (∃ p ∈ claimPairs submissions, Validated root p) →
    ∃ p ∈ claimPairs submissions, Validated root p ∧ p.2.outcome = .validated ∧
      (∀ q ∈ claimPairs submissions, Validated root q → q.2.outcome = .validated → q = p) ∧
      ∀ q ∈ claimPairs submissions, Validated root q → (p.1.key p.2).before (q.1.key q.2) = true

/-- The claims whose outcome is validated are of different groups. -/
theorem OneDiscovery.groups_nodup (hone : OneDiscovery submissions) :
    (((claimPairs submissions).filter (·.2.outcome = .validated)).map
      (·.2.canonicalFinding)).Nodup := by
  refine List.Nodup.map_on (fun p hp q hq heq => ?_)
    ((List.Nodup.of_map _ hone.distinct).sublist List.filter_sublist)
  obtain ⟨hp, hpout⟩ := List.mem_filter.mp hp
  obtain ⟨hq, hqout⟩ := List.mem_filter.mp hq
  obtain ⟨root, hpv⟩ := hone.derived p hp (of_decide_eq_true hpout)
  obtain ⟨root', hqv⟩ := hone.derived q hq (of_decide_eq_true hqout)
  rw [hpv.2, hqv.2, Option.some_inj] at heq
  subst heq
  obtain ⟨d, -, -, -, hunique, -⟩ := hone.discovered root ⟨p, hp, hpv⟩
  rw [hunique p hp hpv (of_decide_eq_true hpout), hunique q hq hqv (of_decide_eq_true hqout)]

/-- The claims that a replay read, before their outcomes are derived. -/
structure Undecided (submissions : List SubmissionState) : Prop where
  distinct : ((claimPairs submissions).map (·.2.claimId)).Nodup
  recorded : ∀ p ∈ claimPairs submissions, p.2.outcome = p.2.decided

theorem Undecided.oneDiscovery (hu : Undecided submissions) :
    OneDiscovery (submissions.map (settleSubmission (discoveryOf submissions))) := by
  set discovery := discoveryOf submissions with hdiscovery
  have hfields := settleClaim_fields discovery
  refine ⟨?_, fun p hp hout => ?_, fun root hroot => ?_⟩
  · rw [claimPairs_settle, List.map_map]
    refine (congrArg List.Nodup (List.map_congr_left fun p _ => ?_)).mpr hu.distinct
    exact (hfields p.2).2.2.1
  · rw [claimPairs_settle] at hp
    obtain ⟨q, hq, rfl⟩ := List.mem_map.mp hp
    obtain ⟨hdecided, hbind⟩ := (settleClaim_outcome (hu.recorded q hq)).mp hout
    obtain ⟨root, hroot, -⟩ := Option.bind_eq_some_iff.mp hbind
    exact ⟨root, (hfields q.2).1.trans hdecided, (hfields q.2).2.1.trans hroot⟩
  · have hvalidated : ∀ p root, Validated root
        (settleSubmission discovery p.1, settleClaim discovery p.2) ↔ Validated root p := by
      intro p root
      rw [Validated, Validated, (hfields p.2).1, (hfields p.2).2.1]
    have hkey : ∀ p : SubmissionState × ClaimState, (settleSubmission discovery p.1).key
        (settleClaim discovery p.2) = p.1.key p.2 := by
      intro p
      rw [SubmissionState.key, (hfields p.2).2.2.1, (hfields p.2).2.2.2.1]
      rfl
    simp only [claimPairs_settle, List.mem_map, forall_exists_index, and_imp,
      forall_apply_eq_imp_iff₂, exists_exists_and_eq_and, hvalidated, hkey] at hroot ⊢
    obtain ⟨claim, hclaim⟩ := discoveryOf_isSome hroot
    obtain ⟨p, hp, hpv, hid, hleast⟩ := discoveryOf_least hclaim
    refine ⟨p, hp, hpv, ?_, fun q hq hqv hout => ?_, hleast⟩
    · rw [settleClaim_outcome (hu.recorded p hp), hpv.2, hid]
      exact ⟨hpv.1, hclaim⟩
    · obtain ⟨-, hbind⟩ := (settleClaim_outcome (hu.recorded q hq)).mp hout
      rw [hqv.2, Option.bind_some, hdiscovery, hclaim, Option.some_inj, ← hid] at hbind
      rw [List.inj_on_of_nodup_map hu.distinct hq hp hbind.symm]

/-- A group has a discovery claim exactly if one of its claims is decided valid. -/
theorem discovery_iff : (discoveryOf submissions root).isSome ↔
    ∃ p ∈ claimPairs (submissions.map (settleSubmission (discoveryOf submissions))),
      Validated root p := by
  have hfields := settleClaim_fields (discoveryOf submissions)
  rw [claimPairs_settle, Option.isSome_iff_exists]
  constructor
  · intro ⟨claim, hclaim⟩
    obtain ⟨p, hp, ⟨hdecided, hroot⟩, -⟩ := discoveryOf_least hclaim
    exact ⟨_, List.mem_map_of_mem hp, (hfields p.2).1.trans hdecided,
      (hfields p.2).2.1.trans hroot⟩
  · intro ⟨p, hp, hdecided, hroot⟩
    obtain ⟨q, hq, rfl⟩ := List.mem_map.mp hp
    exact discoveryOf_isSome ⟨q, hq, (hfields q.2).1.symm.trans hdecided,
      (hfields q.2).2.1.symm.trans hroot⟩

/-! ## The claims of a replay -/

section Replay

variable {undecided : List SubmissionState}

theorem submissionState_ok {row : SubmissionRow} {s : SubmissionState}
    (h : db.submissionState mark row = .ok s) :
    s.submissionId = row.submission.submissionId ∧ ∃ effective,
      s.claims = (db.claimsOf s.submissionId effective).map (db.claimState mark s.title) := by
  cases hrev : db.claimRevision row.submission.submissionId mark with
  | none =>
    simp only [Ledgers.submissionState, hrev] at h
    cases h
  | some r =>
    simp only [Ledgers.submissionState, hrev] at h
    cases h
    exact ⟨rfl, r.2, rfl⟩

theorem submissionRows_distinct (hi : Distinct db) :
    ((db.submissionRows mark).map (·.submission.submissionId)).Nodup := by
  have hsub : ∀ l : List FindingSubmission,
      ((l.filterMap db.joinSubmission).map (·.submission.submissionId)).Sublist
        (l.map (·.submissionId)) := by
    intro l
    induction l with
    | nil => exact .refl _
    | cons s l ih =>
      rw [List.filterMap_cons]
      split
      · exact ih.cons _
      · next row hrow =>
        obtain ⟨_, -, hrow⟩ := Option.bind_eq_some_iff.mp hrow
        obtain ⟨_, -, rfl⟩ := Option.map_eq_some_iff.mp hrow
        exact ih.cons_cons _
  refine (hsub _).nodup ?_
  have hperm : (replay mark db.submissions).Perm (upTo mark db.submissions) :=
    List.perm_insertionSort _ _
  rw [(hperm.map _).nodup_iff]
  exact hi.submissions.sublist (List.filter_sublist.map _)

/-- Every claim that a replay read is a recorded one with its latest decision. -/
theorem read_claim (h : (db.submissionRows mark).mapM (db.submissionState mark) = .ok undecided)
    (hp : p ∈ claimPairs undecided) : ∃ claim ∈ db.claims,
      claim.submissionId = p.1.submissionId ∧ p.2 = db.claimState mark p.1.title claim := by
  obtain ⟨hs, hc⟩ := mem_claimPairs.mp hp
  obtain ⟨row, -, hrow⟩ := mem_of_mapM h p.1 hs
  obtain ⟨-, effective, hclaims⟩ := submissionState_ok hrow
  rw [hclaims] at hc
  obtain ⟨claim, hclaim, hstate⟩ := List.mem_map.mp hc
  obtain ⟨hmem, hset⟩ := List.mem_filter.mp (mem_orderBy.mp hclaim)
  exact ⟨claim, hmem, (Prod.mk.inj (of_decide_eq_true hset)).1, hstate.symm⟩

theorem undecided_of_replay (hi : Distinct db)
    (h : (db.submissionRows mark).mapM (db.submissionState mark) = .ok undecided) :
    Undecided undecided := by
  refine ⟨?_, fun p hp => ?_⟩
  · have hids : (undecided.map (·.submissionId)).Nodup := by
      rw [map_of_mapM h fun _ _ hs => (submissionState_ok hs).1]
      exact submissionRows_distinct hi
    have hflat : (claimPairs undecided).map (·.2.claimId) =
        undecided.flatMap fun s => s.claims.map (·.claimId) := by
      rw [claimPairs, List.map_flatMap]
      refine List.flatMap_congr fun s _ => ?_
      rw [List.map_map]
      rfl
    rw [hflat, List.nodup_flatMap]
    refine ⟨fun s hs => ?_, (List.pairwise_map.mp hids).imp_of_mem fun {s s'} hs hs' hne => ?_⟩
    · obtain ⟨row, -, hrow⟩ := mem_of_mapM h s hs
      obtain ⟨-, effective, hclaims⟩ := submissionState_ok hrow
      rw [hclaims, List.map_map]
      have hperm : (db.claimsOf s.submissionId effective).Perm
          (db.claims.filter fun c => c.set = (s.submissionId, effective)) :=
        List.perm_insertionSort _ _
      refine (hperm.map _).nodup_iff.mpr ?_
      exact hi.claims.sublist (List.filter_sublist.map _)
    · -- one claim id is one row, which is of one submission
      intro id hid hid'
      obtain ⟨c, hc, rfl⟩ := List.mem_map.mp hid
      obtain ⟨c', hc', heq⟩ := List.mem_map.mp hid'
      have hp : (s, c) ∈ claimPairs undecided := mem_claimPairs.mpr ⟨hs, hc⟩
      have hp' : (s', c') ∈ claimPairs undecided := mem_claimPairs.mpr ⟨hs', hc'⟩
      obtain ⟨claim, hclaim, hof, hstate⟩ := read_claim h hp
      obtain ⟨claim', hclaim', hof', hstate'⟩ := read_claim h hp'
      dsimp only at hof hof' hstate hstate'
      rw [hstate, hstate'] at heq
      obtain rfl := List.inj_on_of_nodup_map hi.claims hclaim' hclaim heq
      exact hne (hof.symm.trans hof')
  · obtain ⟨claim, -, -, hstate⟩ := read_claim h hp
    rw [hstate]
    rfl

/-- The group of a decided claim is the root of the finding that its decision names. -/
theorem read_root (hn : Named db)
    (h : (db.submissionRows mark).mapM (db.submissionState mark) = .ok undecided)
    (hp : p ∈ claimPairs undecided) :
    p.2.canonicalFinding = p.2.findingId.map (db.merges mark).root ∧
      ∀ root ∈ p.2.canonicalFinding, root ∈ (replay mark db.canonicalFindings).map (·.findingId) := by
  obtain ⟨claim, -, -, hstate⟩ := read_claim h hp
  rw [hstate]
  refine ⟨rfl, fun root hroot => ?_⟩
  obtain ⟨finding, hfinding, rfl⟩ := Option.map_eq_some_iff.mp hroot
  obtain ⟨d, hd, hfinding⟩ := Option.bind_eq_some_iff.mp hfinding
  obtain ⟨hd, -⟩ := List.mem_filter.mp (List.mem_of_getLast? hd)
  obtain ⟨hd, hseq⟩ := mem_replay.mp hd
  exact root_known hn hd hseq hfinding

theorem groupState_validated {discovery : String → Option Int} {f : CanonicalFinding} :
    (groupState edges discovery submissions f).status = .validated ↔
      edges.root f.findingId = f.findingId ∧ (discovery f.findingId).isSome := by
  simp only [groupState]
  by_cases hroot : edges.root f.findingId = f.findingId
  · cases hclaim : discovery f.findingId <;> simp [hroot]
  · simp [hroot]

/-- A decided claim's group is a root that the replay reads. -/
theorem settled_root (hm : Merged db) (hn : Named db) (hbound : mark ≤ i64Bound)
    (h : (db.submissionRows mark).mapM (db.submissionState mark) = .ok undecided)
    (discovery : String → Option Int)
    (hp : p ∈ claimPairs (undecided.map (settleSubmission discovery))) (hv : Validated root p) :
    (db.merges mark).root root = root ∧
      root ∈ (replay mark db.canonicalFindings).map (·.findingId) := by
  have hroot := hv.2
  rw [claimPairs_settle] at hp
  obtain ⟨q, hq, rfl⟩ := List.mem_map.mp hp
  rw [(settleClaim_fields _ q.2).2.1] at hroot
  obtain ⟨hcanonical, hknown⟩ := read_root hn h hq
  refine ⟨?_, hknown root hroot⟩
  rw [hcanonical] at hroot
  obtain ⟨finding, -, rfl⟩ := Option.map_eq_some_iff.mp hroot
  exact (hm.rooted mark hbound).root_root

/-- The groups that a replay counts are those of the claims whose outcome is validated. -/
theorem unique_findings (hm : Merged db) (hn : Named db) (hi : Distinct db) (hbound : mark ≤ i64Bound)
    {state : FindingState} (h : db.findingStateAt mark = .ok state) :
    state.uniqueFindings = (claimPairs state.submissions).countP (·.2.outcome = .validated) := by
  obtain ⟨undecided, hsubs, h⟩ := Except.bind_ok.mp h
  obtain ⟨history, -, h⟩ := Except.bind_ok.mp h
  cases h
  have hu := undecided_of_replay hi hsubs
  have hone := hu.oneDiscovery
  set settled := undecided.map (settleSubmission (discoveryOf undecided)) with hsettled
  -- both lists name each counted group once
  set counted := (replay mark db.canonicalFindings).filter fun f =>
    (groupState (db.merges mark) (discoveryOf undecided) settled f).status = .validated
  set claims := (claimPairs settled).filter (·.2.outcome = .validated)
  have hleft : (counted.map fun f => some f.findingId).Nodup := by
    have hsome : (counted.map (·.findingId)).Nodup :=
      hn.replay_nodup.sublist (List.filter_sublist.map _)
    have hmap : (counted.map fun f => some f.findingId) = (counted.map (·.findingId)).map some := by
      rw [List.map_map]
      rfl
    rw [hmap]
    exact hsome.map (Option.some_injective _)
  have hright : (claims.map (·.2.canonicalFinding)).Nodup := hone.groups_nodup
  have hperm : (counted.map fun f => some f.findingId).Perm (claims.map (·.2.canonicalFinding)) := by
    refine (List.perm_ext_iff_of_nodup hleft hright).mpr fun name => ?_
    constructor
    · intro hname
      obtain ⟨f, hf, rfl⟩ := List.mem_map.mp hname
      obtain ⟨-, hstatus⟩ := List.mem_filter.mp hf
      obtain ⟨-, hsome⟩ := groupState_validated.mp (of_decide_eq_true hstatus)
      obtain ⟨p, hp, hpv, hout, -, -⟩ := hone.discovered _ (discovery_iff.mp hsome)
      exact List.mem_map.mpr ⟨p, List.mem_filter.mpr ⟨hp, decide_eq_true hout⟩, hpv.2⟩
    · intro hname
      obtain ⟨p, hp, rfl⟩ := List.mem_map.mp hname
      obtain ⟨hp, hout⟩ := List.mem_filter.mp hp
      obtain ⟨root, hpv⟩ := hone.derived p hp (of_decide_eq_true hout)
      obtain ⟨hroot, hknown⟩ := settled_root hm hn hbound hsubs _ hp hpv
      obtain ⟨f, hf, rfl⟩ := List.mem_map.mp hknown
      refine List.mem_map.mpr ⟨f, List.mem_filter.mpr ⟨hf, decide_eq_true ?_⟩, hpv.2.symm⟩
      exact groupState_validated.mpr ⟨hroot, discovery_iff.mpr ⟨p, hp, hpv⟩⟩
  have hlength := hperm.length_eq
  rw [List.length_map, List.length_map] at hlength
  rw [List.countP_eq_length_filter]
  change (((replay mark db.canonicalFindings).map
    (groupState (db.merges mark) (discoveryOf undecided) settled)).filter _).length = _
  rw [List.filter_map, List.length_map]
  exact hlength

end Replay

/-! ## Canonical findings -/

/-- The edges have no cycle, and the walk to a root ends before its guard stops it. -/
structure MergeForest (edges : MergeEdges) : Prop where
  acyclic : ∀ finding, ¬ Relation.TransGen (Forest.Edge edges.parent) finding finding
  ends : ∀ finding, edges.find (edges.follow edges.rows.length finding) = none
  root : ∀ finding, edges.root finding = edges.follow edges.rows.length finding
  root_root : ∀ finding, edges.root (edges.root finding) = edges.root finding

theorem MergeEdges.Rooted.mergeForest (h : edges.Rooted) : MergeForest edges :=
  ⟨Forest.Rooted.acyclic h, fun _ => h.follow_length, fun _ => h.root_eq, fun _ => h.root_root⟩

/-- **Canonical findings form a forest with one discovery for each group.** After every history of
calls and at every watermark, which is a 64-bit number, the active merges have no cycle and every
walk to a root ends; each group with a current validated claim has exactly one whose derived outcome
is validated, the earliest; and the findings counted are as many as these claims. -/
theorem canonical_findings_forest [TitleExcerpt] (history : List Call) (mark : Int) (h0 : 0 ≤ mark)
    (hm : mark ≤ (after history .empty).head) (hbound : mark ≤ i64Bound) :
    MergeForest ((after history .empty).merges mark) ∧
      ∃ state, (after history .empty).findingState (some mark) = .ok state ∧
        (∀ p ∈ claimPairs state.submissions, p.2.canonicalFinding =
          p.2.findingId.map ((after history .empty).merges mark).root) ∧
        OneDiscovery state.submissions ∧
        state.uniqueFindings =
          (claimPairs state.submissions).countP (·.2.outcome = .validated) := by
  have hpast := after_effects history .empty
  have hmerged := hpast.merged .empty
  have hnamed := hpast.named .empty
  have hdistinct := hpast.distinct .empty
  obtain ⟨state, hstate⟩ := findingStateAt_isOk (hpast.recorded .empty) mark
  obtain ⟨undecided, hsubs, hsettled, -⟩ := findingStateAt_ok hstate
  refine ⟨(hmerged.rooted mark hbound).mergeForest, state,
    (findingState_at h0 hm).trans hstate, fun p hp => ?_, ?_,
    unique_findings hmerged hnamed hdistinct hbound hstate⟩
  · rw [hsettled, claimPairs_settle] at hp
    obtain ⟨q, hq, rfl⟩ := List.mem_map.mp hp
    have hfields := settleClaim_fields (discoveryOf undecided) q.2
    rw [hfields.2.1, hfields.2.2.2.2]
    exact (read_root hnamed hsubs hq).1
  · rw [hsettled]
    exact (undecided_of_replay hdistinct hsubs).oneDiscovery

/-- Two findings are validated and the later one is merged into the earlier. -/
def mergedOnce : List Call :=
  [.factory (.attempt ⟨"reviewer", .running, some "configuration-1"⟩),
    .factory (.opportunity ⟨"opportunity", "aaaa"⟩),
    .factory (.session ⟨"session", "opportunity", "reviewer"⟩),
    .recordSubmissions "session" (fun _ => none) "worker:reviewer" 10 ["finding:a", "finding:b"],
    .triageFindingClaim 1 ⟨.validated (.new none) "high", sampleEvidence, none⟩ "operator:cli" 20,
    .triageFindingClaim 2 ⟨.validated (.new none) "high", sampleEvidence, none⟩ "operator:cli" 30,
    .mergeFindings "finding:canonical-4" "finding:canonical-3" none "operator:cli" 40]

theorem canonical_findings_forest_merged : letI := plainTitles
    ((after mergedOnce .empty).merges 5).root "finding:canonical-4" = "finding:canonical-3" ∧
      MergeForest ((after mergedOnce .empty).merges 5) ∧
        ∃ state, (after mergedOnce .empty).findingState (some 5) = .ok state ∧
          (∀ p ∈ claimPairs state.submissions, p.2.canonicalFinding =
            p.2.findingId.map ((after mergedOnce .empty).merges 5).root) ∧
          OneDiscovery state.submissions ∧
          state.uniqueFindings =
            (claimPairs state.submissions).countP (·.2.outcome = .validated) := by
  let _ := plainTitles
  exact ⟨by decide +kernel,
    canonical_findings_forest mergedOnce 5 (by decide) (by decide +kernel) (by decide +kernel)⟩

end Herdr.Findings
