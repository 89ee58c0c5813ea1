import Mathlib.Data.Prod.Lex
import Mathlib.Data.String.Basic
import Herdr.Lib.Keyset
import Herdr.Store.AdmissionScan
import Herdr.Verify.Reservations

/-!
# The admission scan misses nothing

The order of the query is a linear order on keys, and the rows of all pages are ranked at the clock
of the first one. A scan is thus a keyset pagination over the states of the queue.
-/

namespace Herdr.AdmissionScan

/-! ## The order -/

/-- Higher scores first, then smaller sequences, then smaller identities. -/
def Cursor.key (c : Cursor) : ℤᵒᵈ ×ₗ (ℕ ×ₗ String) :=
  toLex (OrderDual.toDual c.score, toLex (c.sequence, c.task))

theorem Cursor.after_iff {last c : Cursor} : last.after c ↔ last.key < c.key := by
  simp only [Cursor.after, Cursor.key, Prod.Lex.toLex_lt_toLex, OrderDual.toDual_lt_toDual,
    OrderDual.toDual_inj, eq_comm (a := c.score), eq_comm (a := c.sequence)]

theorem Cursor.precedes_iff {a b : Cursor} : a.precedes b ↔ a.key ≤ b.key := by
  simp only [Cursor.precedes, Cursor.key, Prod.Lex.toLex_le_toLex, OrderDual.toDual_lt_toDual,
    OrderDual.toDual_inj]

/-- A smaller score comes later. -/
theorem Preparation.precedes_of_key {now : Int} {p q : Preparation}
    (h : (Cursor.ofRow now p.queue).key < (Cursor.ofRow now q.queue).key)
    (hp : p.inputs.task = p.queue.task) (hq : q.inputs.task = q.queue.task) :
    p.precedes now q ∧ ¬q.precedes now p := by
  rw [← Cursor.after_iff] at h
  simp only [Cursor.after, Cursor.ofRow] at h
  simp only [Preparation.precedes, Preparation.score, hp, hq]
  rcases h with h | ⟨h, h' | ⟨h', hlt⟩⟩
  · exact ⟨.inl h, by omega⟩
  · exact ⟨.inr ⟨h, .inl h'⟩, by omega⟩
  · refine ⟨.inr ⟨h, .inr ⟨h'.symm, hlt.le⟩⟩, ?_⟩
    rintro (hs | ⟨-, hs | ⟨-, hle⟩⟩)
    · omega
    · omega
    · exact absurd hlt (not_lt.mpr hle)

/-! ## One page -/

variable {s : Store} {now rank : Int} {after : Option Cursor} {c : Cursor} {q : QueueRecord}

/-- The candidates of a state of the queue, ranked at one time. -/
def ranked (s : Store) (now rank : Int) : List Cursor := (waiting s now).map (Cursor.ofRow rank)

theorem mem_waiting : q ∈ waiting s now ↔
    q ∈ s.queue.rows ∧ isQueued s q.task = true ∧ q.enqueuedUnixMs ≤ now := by
  simp only [waiting, List.mem_filter, Bool.and_eq_true, decide_eq_true_eq]

/-- A task has one row in the queue, so keys do not clash. -/
theorem ranked_keyed : ((ranked s now rank).map Cursor.key).Nodup := by
  rw [ranked, List.map_map]
  apply List.Nodup.map_on
  · intro a ha b hb h
    have htask : a.task.val = b.task.val :=
      congrArg (fun k => (ofLex (ofLex k).2).2) h
    have hfind : ∀ r ∈ waiting s now, s.queue.find r.task = some r :=
      fun r hr => Table.find_of_mem (mem_waiting.mp hr).1
    have hsame : a.task = b.task := congrArg TaskId.mk htask
    exact Option.some.inj ((hfind a ha).symm.trans (hsame ▸ hfind b hb))
  · exact s.queue.nodup.of_map.filter _

/-- **The query** is a keyset query. -/
theorem admissionRows_eq : admissionRows s now rank after =
    Keyset.fetch Cursor.key (pageSize + 1) (after.map Cursor.key) (ranked s now rank) := by
  unfold admissionRows Keyset.fetch
  have hfilter : ((ranked s now rank).filter fun c => after.all fun last => last.after c) =
      (ranked s now rank).filter fun c => Keyset.Behind Cursor.key (after.map Cursor.key) c := by
    apply List.filter_congr
    intro c _
    cases after with
    | none => exact (decide_eq_true Keyset.behind_none).symm
    | some last =>
      rw [Option.all_some, Option.map_some, decide_eq_decide, Keyset.behind_some]
      exact Cursor.after_iff
  have hsort : ∀ l : List Cursor, l.insertionSort Cursor.precedes =
      l.insertionSort fun a b => a.key ≤ b.key := by
    intro l
    have h := List.map_insertionSort Cursor.precedes (fun a b : Cursor => a.key ≤ b.key) id l
      fun a _ b _ => Cursor.precedes_iff
    rwa [List.map_id, List.map_id] at h
  rw [hsort]
  exact congrArg (fun l => (List.insertionSort _ l).take _) hfilter

theorem considered_eq : considered s now after =
    Keyset.page Cursor.key pageSize (after.map Cursor.key)
      (ranked s now ((after.map (·.rankTime)).getD now)) := by
  unfold considered Keyset.page Keyset.split
  rw [admissionRows_eq]

/-- A page considers rows of the queue as they are. -/
theorem mem_considered (h : c ∈ (considered s now after).1) :
    ∃ q ∈ waiting s now, c = .ofRow ((after.map (·.rankTime)).getD now) q := by
  rw [considered_eq] at h
  have hr := (Keyset.page_reads (by decide) ranked_keyed rfl).sound c h
  obtain ⟨q, hq, rfl⟩ := List.mem_map.mp hr.1
  exact ⟨q, hq, rfl⟩

theorem pairwise_considered : (considered s now after).1.Pairwise fun a b => a.key < b.key := by
  rw [considered_eq]
  exact (Keyset.page_reads (by decide) ranked_keyed rfl).sorted

/-- The cursor of a page keeps its rank time. -/
theorem next_rankTime (h : (considered s now after).2 = some c) :
    c.rankTime = (after.map (·.rankTime)).getD now := by
  have hc : c ∈ (considered s now after).1 := by
    rw [considered_eq] at h ⊢
    exact ((Keyset.page_reads (by decide) ranked_keyed rfl).full c h).2.1
  obtain ⟨q, -, rfl⟩ := mem_considered hc
  rfl

/-! ## Calls -/

/-- One call of `admission_page`. -/
structure Call where
  store : ScanStore
  header : Header
  now : Int
  after : Option Cursor
  page : Page

def Call.Returned (call : Call) : Prop :=
  admissionPage call.store.toStore call.header call.now call.after = .ok call.page

/-- The rows that a call considers. -/
def Call.considered (call : Call) : List Cursor :=
  (AdmissionScan.considered call.store.toStore call.now call.after).1

def Call.rankTime (call : Call) : Int := (call.after.map (·.rankTime)).getD call.now

/-- How a cursor reaches the next call: it is kept in memory, or it is saved and read back under
the same control epoch and policy revision. Whatever happens to the store in between, only a
reservation touches the saved row: it deletes it, and nothing is read back. -/
inductive Handover (next : Cursor) (call call' : Call) : Prop
  | memory (h : call'.after = some next)
  | saved (s written s' : ScanStore) (c : Cursor)
    (advanced : s.advanceAdmissionCursor call.header (some next) = .ok written)
    (kept : s'.scanCursor = written.scanCursor ∨ s'.scanCursor = none)
    (epoch : call'.header.control.epoch = call.header.control.epoch)
    (revision : call'.header.policy.revision = call.header.policy.revision)
    (read : s'.admissionCursor call'.header = .ok (some c)) (h : call'.after = some c)

/-- The second call goes on where the first one stopped. -/
def Linked (call call' : Call) : Prop :=
  call.now ≤ call'.now ∧ ∃ next, call.page.next = some next ∧ Handover next call call'

/-- The pages of one scan. -/
structure IsScan (calls : List Call) : Prop where
  returned : ∀ call ∈ calls, call.Returned
  start : ∀ call ∈ calls.head?, call.after = none
  linked : calls.IsChain Linked

/-- All rows that a scan considers, in order. -/
def allConsidered (calls : List Call) : List Cursor := calls.flatMap Call.considered

/-- The cursor that the last call returned. -/
def lastNext (calls : List Call) : Option Cursor := calls.getLast?.bind (·.page.next)

/-- The queue row of a task stays as it is, and so does its queued state. -/
def Unchanged (calls : List Call) (q : QueueRecord) : Prop :=
  ∀ call ∈ calls, call.store.queue.find q.task = some q ∧
    isQueued call.store.toStore q.task = true

variable {call call' : Call} {calls : List Call}

theorem Call.Returned.next (h : call.Returned) :
    call.page.next = (AdmissionScan.considered call.store.toStore call.now call.after).2 := by
  unfold Call.Returned admissionPage at h
  split at h
  · cases h
  · generalize AdmissionScan.considered call.store.toStore call.now call.after = read at h ⊢
    obtain ⟨entries, -, h⟩ := Except.bind_ok.mp h
    rw [← Except.ok.inj h]

/-- **A saved cursor** reads back as it was. -/
theorem admissionCursor_advanced {s written s' : ScanStore} {header header' : Header}
    {next : Cursor} (advanced : s.advanceAdmissionCursor header (some next) = .ok written)
    (kept : s'.scanCursor = written.scanCursor) (epoch : header'.control.epoch = header.control.epoch)
    (revision : header'.policy.revision = header.policy.revision) :
    s'.admissionCursor header' = if identifier next.task then .ok (some next)
      else .error (.corrupt "identifier must contain 1–128 ASCII letters, digits, -, _, . or :") := by
  unfold ScanStore.advanceAdmissionCursor at advanced
  split at advanced
  · cases advanced
  · cases advanced
    simp only [ScanStore.admissionCursor, kept, Option.map_some, epoch, revision, and_self, if_true]

theorem Handover.resumes {next : Cursor} (h : Handover next call call') :
    call'.after = some next := by
  cases h with
  | memory h => exact h
  | saved s written s' c advanced kept epoch revision read h =>
    rcases kept with kept | kept
    · rw [admissionCursor_advanced advanced kept epoch revision] at read
      split at read
      · cases read
        exact h
      · cases read
    · rw [ScanStore.admissionCursor, kept] at read
      cases read

theorem Linked.rankTime (h : Linked call call') (hr : call.Returned) :
    call'.rankTime = call.rankTime := by
  obtain ⟨-, next, hnext, hover⟩ := h
  rw [hr.next] at hnext
  rw [Call.rankTime, hover.resumes]
  exact next_rankTime hnext

/-! ## Runs -/

/-- A call as a page of the table of candidates. -/
def Call.asPage (rank : Int) (call : Call) : List Cursor × List Cursor :=
  (ranked call.store.toStore call.now rank, call.considered)

theorem given_asPage (rank : Int) (calls : List Call) : Keyset.given (calls.map (Call.asPage rank)) = allConsidered calls := by
  simp only [Keyset.given, allConsidered, List.flatMap_map, Call.asPage]

theorem keyed_asPage : Keyset.Keyed Cursor.key (calls.map (Call.asPage rank)) := by
  intro p hp
  obtain ⟨call, -, rfl⟩ := List.mem_map.mp hp
  exact ranked_keyed

/-- Linked calls are a keyset scan at the rank time of the first. -/
theorem scan_of_linked (hreturned : ∀ c ∈ call :: calls, c.Returned)
    (hlinked : (call :: calls).IsChain Linked) :
    Keyset.Scan Cursor.key pageSize (call.after.map Cursor.key)
      ((call :: calls).map (Call.asPage call.rankTime)) (lastNext (call :: calls)) := by
  induction calls generalizing call with
  | nil =>
    refine .page ?_
    have hnext := (hreturned call List.mem_cons_self).next
    exact considered_eq.symm.trans (Prod.ext rfl hnext.symm)
  | cons call' calls ih =>
    obtain ⟨hlink, hrest⟩ := List.isChain_cons_cons.mp hlinked
    have hr := hreturned call List.mem_cons_self
    have hscan := ih (fun c hc => hreturned c (List.mem_cons_of_mem _ hc)) hrest
    rw [hlink.rankTime hr] at hscan
    obtain ⟨-, next, hnext, hover⟩ := hlink
    rw [hover.resumes] at hscan
    have hlast : lastNext (call :: call' :: calls) = lastNext (call' :: calls) := by
      simp only [lastNext, List.getLast?_cons_cons]
    rw [hlast]
    refine .more ?_ hscan
    exact considered_eq.symm.trans (Prod.ext rfl (hr.next.symm.trans hnext))

namespace IsScan

variable {first : Call}

theorem rankTime (h : IsScan (first :: calls)) : first.rankTime = first.now := by
  rw [Call.rankTime, h.start first rfl]
  rfl

theorem scan (h : IsScan (first :: calls)) :
    Keyset.Scan Cursor.key pageSize none ((first :: calls).map (Call.asPage first.now))
      (lastNext (first :: calls)) := by
  have hscan := scan_of_linked h.returned h.linked
  rwa [h.rankTime, h.start first rfl] at hscan

/-- The clock of the first call is the rank time of all. -/
theorem frozen (h : IsScan (first :: calls)) (hcall : call ∈ first :: calls) :
    call.rankTime = first.now ∧ first.now ≤ call.now := by
  have hchain : ∀ {c : Call} {cs : List Call}, (∀ d ∈ c :: cs, d.Returned) →
      (c :: cs).IsChain Linked → ∀ d ∈ c :: cs, d.rankTime = c.rankTime ∧ c.now ≤ d.now := by
    intro c cs
    induction cs generalizing c with
    | nil =>
      intro _ _ d hd
      rw [List.mem_singleton.mp hd]
      exact ⟨rfl, le_rfl⟩
    | cons c' cs ih =>
      intro hreturned hlinked d hd
      obtain ⟨hlink, hrest⟩ := List.isChain_cons_cons.mp hlinked
      rcases List.mem_cons.mp hd with rfl | hd
      · exact ⟨rfl, le_rfl⟩
      · obtain ⟨hrank, hle⟩ := ih (fun e he => hreturned e (List.mem_cons_of_mem _ he)) hrest d hd
        exact ⟨hrank.trans (hlink.rankTime (hreturned c List.mem_cons_self)), hlink.1.trans hle⟩
  obtain ⟨hrank, hle⟩ := hchain h.returned h.linked call hcall
  exact ⟨hrank.trans h.rankTime, hle⟩

theorem row (h : IsScan (first :: calls)) (hcall : call ∈ first :: calls)
    (hc : c ∈ call.considered) : ∃ q ∈ waiting call.store.toStore call.now,
      c = .ofRow first.now q := by
  obtain ⟨q, hq, rfl⟩ := mem_considered hc
  refine ⟨q, hq, congrArg (Cursor.ofRow · q) ?_⟩
  exact (h.frozen hcall).1

theorem sorted (h : IsScan (first :: calls)) :
    (allConsidered (first :: calls)).Pairwise fun a b => a.key < b.key := by
  rw [← given_asPage first.now]
  exact (h.scan.sorted (by decide) keyed_asPage).1

/-- A row of an unchanged task is the row of its record. -/
theorem unchanged_row (h : IsScan (first :: calls)) (hq : Unchanged (first :: calls) q)
    (hc : c ∈ allConsidered (first :: calls)) :
    c.task = q.task.val ↔ c = Cursor.ofRow first.now q := by
  constructor
  · intro htask
    obtain ⟨call, hcall, hc⟩ := List.mem_flatMap.mp hc
    obtain ⟨r, hr, rfl⟩ := h.row hcall hc
    have hsame : r.task = q.task := congrArg TaskId.mk htask
    have hfind := Table.find_of_mem (mem_waiting.mp hr).1
    rw [hsame, (hq call hcall).1] at hfind
    rw [Option.some.inj hfind]
  · rintro rfl
    rfl

theorem countP_eq (h : IsScan (first :: calls)) (hq : Unchanged (first :: calls) q) :
    (allConsidered (first :: calls)).countP (·.task = q.task.val) =
      (allConsidered (first :: calls)).count (.ofRow first.now q) := by
  apply List.countP_congr
  intro c hc
  rw [decide_eq_true_eq, h.unchanged_row hq hc, beq_iff_eq]

/-- No unchanged task is considered twice. -/
theorem at_most_once (h : IsScan (first :: calls)) (hq : Unchanged (first :: calls) q) :
    (allConsidered (first :: calls)).countP (·.task = q.task.val) ≤ 1 := by
  rw [h.countP_eq hq]
  apply List.nodup_iff_count_le_one.mp
  exact h.sorted.imp fun hlt => by
    rintro rfl
    exact lt_irrefl _ hlt

/-- A scan that has come to its end has considered every unchanged task. -/
theorem exactly_once (h : IsScan (first :: calls)) (hq : Unchanged (first :: calls) q)
    (hnow : q.enqueuedUnixMs ≤ first.now) (hend : lastNext (first :: calls) = none) :
    (allConsidered (first :: calls)).countP (·.task = q.task.val) = 1 := by
  apply le_antisymm (h.at_most_once hq)
  rw [h.countP_eq hq, Nat.one_le_iff_ne_zero, ← Nat.pos_iff_ne_zero, List.count_pos_iff,
    ← given_asPage first.now]
  have hcomplete := h.scan.complete (a := Cursor.ofRow first.now q) (by decide) keyed_asPage ?_
    Keyset.behind_none
  · rw [hend] at hcomplete
    exact hcomplete.resolve_right (by simp)
  · intro p hp
    obtain ⟨call, hcall, rfl⟩ := List.mem_map.mp hp
    obtain ⟨hfind, hqueued⟩ := hq call hcall
    have hle := (h.frozen hcall).2
    exact List.mem_map_of_mem
      (mem_waiting.mpr ⟨Table.mem_of_find hfind, hqueued, hnow.trans hle⟩)

theorem length_le (h : IsScan (first :: calls)) {queue : List QueueRecord}
    (hqueue : ∀ call ∈ first :: calls, ∀ q ∈ waiting call.store.toStore call.now, q ∈ queue) :
    (first :: calls).length ≤
      queue.length / pageSize + if (lastNext (first :: calls)).isSome then 0 else 1 := by
  let keys := (queue.map fun q => (Cursor.ofRow first.now q).key).toFinset
  have hkeys : ∀ c ∈ Keyset.given ((first :: calls).map (Call.asPage first.now)), c.key ∈ keys := by
    intro c hc
    rw [given_asPage] at hc
    obtain ⟨call, hcall, hc⟩ := List.mem_flatMap.mp hc
    obtain ⟨q, hq, rfl⟩ := h.row hcall hc
    exact List.mem_toFinset.mpr (List.mem_map_of_mem (hqueue call hcall q hq))
  have hends := h.scan.ends (by decide) keyed_asPage hkeys
  rw [List.length_map] at hends
  have hcard : keys.card ≤ queue.length := (List.toFinset_card_le _).trans (List.length_map ..).le
  exact hends.trans (Nat.add_le_add_right (Nat.div_le_div_right hcard) _)

end IsScan

/-! ## The ranking of a reservation -/

theorem readPreparation_queue {i : LaunchInputs} {p : Preparation} {s' : Store}
    (h : readPreparation i s = .ok (p, s')) :
    s' = s ∧ s.queue.find p.inputs.task = some p.queue := by
  simp only [readPreparation, readBinding, readTask, Tx.find_bind, Tx.require_bind, Tx.ask_bind,
    Tx.pure_ok] at h
  obtain ⟨queue, hqueue, -, binding, -, task, -, -, rfl, rfl⟩ := h
  exact ⟨rfl, hqueue⟩

theorem readPreparations_queue {prepared : List LaunchInputs} {ps : List Preparation} {s' : Store}
    (h : readPreparations prepared s = .ok (ps, s')) :
    s' = s ∧ ∀ p ∈ ps, s.queue.find p.inputs.task = some p.queue := by
  induction prepared generalizing s ps with
  | nil =>
    obtain ⟨rfl, rfl⟩ := Tx.pure_ok.mp h
    exact ⟨rfl, fun p hp => absurd hp List.not_mem_nil⟩
  | cons i rest ih =>
    obtain ⟨p, t, hp, h⟩ := Tx.bind_ok.mp h
    obtain ⟨qs, t', hqs, h⟩ := Tx.bind_ok.mp h
    obtain ⟨rfl, rfl⟩ := Tx.pure_ok.mp h
    obtain ⟨rfl, hqueue⟩ := readPreparation_queue hp
    obtain ⟨rfl, hall⟩ := ih hqs
    refine ⟨rfl, fun q hq => ?_⟩
    rcases List.mem_cons.mp hq with rfl | hq
    · exact hqueue
    · exact hall q hq

instance (now : Int) : Std.Total (Preparation.precedes now) where
  total p q := by
    unfold Preparation.precedes
    have := le_total p.inputs.task.val q.inputs.task.val
    rcases lt_trichotomy (p.score now) (q.score now) with h | h | h
    · exact .inr (.inl h)
    · grind
    · exact .inl (.inl h)

instance (now : Int) : IsTrans Preparation (Preparation.precedes now) where
  trans p q r := by
    unfold Preparation.precedes
    grind

/-- Two elements of a sorted list stand in the order of the list. -/
theorem sublist_of_sorted {l : List Preparation} {p q : Preparation} (hp : p ∈ l) (hq : q ∈ l)
    (hsorted : l.Pairwise (Preparation.precedes now)) (hpq : p.precedes now q)
    (hqp : ¬q.precedes now p) : [p, q].Sublist l := by
  obtain ⟨front, back, rfl⟩ := List.append_of_mem hp
  rw [List.mem_append, List.mem_cons] at hq
  rcases hq with hq | rfl | hq
  · exact absurd ((List.pairwise_append.mp hsorted).2.2 q hq p List.mem_cons_self) hqp
  · exact absurd hpq hqp
  · exact ((List.singleton_sublist.mpr hq).cons_cons p).trans (List.sublist_append_right _ _)

/-- Of two tasks on a first page, the ranking puts the one first that the page considers first. -/
theorem ranked_alike {prepared : List LaunchInputs} {ps : List Preparation} {s' : Store}
    (h : readPreparations prepared s = .ok (ps, s')) :
    (considered s now none).1.Pairwise fun a b => ∀ p ∈ ps, ∀ q ∈ ps,
      p.inputs.task.val = a.task → q.inputs.task.val = b.task →
        [p, q].Sublist (ps.insertionSort (Preparation.precedes now)) := by
  have hqueue := (readPreparations_queue h).2
  have hsorted : (considered s now none).1.Pairwise fun a b => a.key < b.key := pairwise_considered
  have hkey : ∀ c ∈ (considered s now none).1, ∀ p ∈ ps, p.inputs.task.val = c.task →
      p.inputs.task = p.queue.task ∧ c = .ofRow now p.queue := by
    intro c hc p hp htask
    obtain ⟨q, hq, rfl⟩ := mem_considered hc
    have hsame : p.inputs.task = q.task := congrArg TaskId.mk htask
    have hrow := Table.find_of_mem (mem_waiting.mp hq).1
    have hfound := hqueue p hp
    rw [hsame, hrow] at hfound
    rw [← Option.some.inj hfound]
    exact ⟨hsame, rfl⟩
  apply hsorted.imp_of_mem
  intro a b ha hb hlt p hp q hq hpa hqb
  obtain ⟨hptask, rfl⟩ := hkey a ha p hp hpa
  obtain ⟨hqtask, rfl⟩ := hkey b hb q hq hqb
  obtain ⟨hpq, hqp⟩ := Preparation.precedes_of_key hlt hptask hqtask
  exact sublist_of_sorted ((List.mem_insertionSort _).mpr hp) ((List.mem_insertionSort _).mpr hq)
    (List.pairwise_insertionSort _ _) hpq hqp

/-! ## The scan -/

/-- **The paged scan.** Every row that a scan considers is a waiting row of the queue, ranked at the
clock of the first call, and the rows come in strictly decreasing order. No unchanged task is
considered twice, and a scan that has come to its end has considered each one that waited at the
clock of the first call. A scan whose candidates are `queue` at most ends after `queue / 64 + 1`
pages. A reservation at the clock of a first page ranks the tasks as the page considers them. -/
theorem scan_considers_each_once {first : Call} {calls : List Call}
    (h : IsScan (first :: calls)) :
    (∀ call ∈ first :: calls, ∀ c ∈ call.considered,
      ∃ q ∈ waiting call.store.toStore call.now, c = .ofRow first.now q) ∧
    (allConsidered (first :: calls)).Pairwise Cursor.after ∧
    (∀ q, Unchanged (first :: calls) q →
      (allConsidered (first :: calls)).countP (·.task = q.task.val) ≤ 1 ∧
        (q.enqueuedUnixMs ≤ first.now → lastNext (first :: calls) = none →
          (allConsidered (first :: calls)).countP (·.task = q.task.val) = 1)) ∧
    (∀ queue : List QueueRecord,
      (∀ call ∈ first :: calls, ∀ q ∈ waiting call.store.toStore call.now, q ∈ queue) →
      (first :: calls).length ≤
        queue.length / pageSize + if (lastNext (first :: calls)).isSome then 0 else 1) ∧
    ∀ call ∈ first :: calls, call.after = none → ∀ prepared ps s',
      readPreparations prepared call.store.toStore = .ok (ps, s') →
      call.considered.Pairwise fun a b => ∀ p ∈ ps, ∀ q ∈ ps,
        p.inputs.task.val = a.task → q.inputs.task.val = b.task →
          [p, q].Sublist (ps.insertionSort (Preparation.precedes call.now)) := by
  refine ⟨fun call hcall c hc => h.row hcall hc, h.sorted.imp Cursor.after_iff.mpr,
    fun q hq => ⟨h.at_most_once hq, h.exactly_once hq⟩, fun queue hqueue => h.length_le hqueue, ?_⟩
  intro call _ hafter prepared ps s' hread
  rw [Call.considered, hafter]
  exact ranked_alike hread

/-- Two tasks wait; the one with the higher priority was queued later. -/
def twoWaiting : Call where
  store := { Store.created "/state.db" with
    tasks := ⟨[⟨⟨"build"⟩, 1, .queued, "Build", none⟩, ⟨⟨"check"⟩, 1, .queued, "Check", none⟩],
      by decide⟩
    queue := ⟨[⟨⟨"build"⟩, 0, 1000, 1, []⟩, ⟨⟨"check"⟩, 5, 1000, 2, []⟩], by decide⟩
    scanCursor := none }
  header := ⟨0, ⟨1, 4, 3⟩, ⟨1, 1, .active, false, none⟩⟩
  now := 2000
  after := none
  page := ⟨[⟨⟨⟨"check"⟩, 1, .queued, "Check", none⟩, 5, none⟩,
    ⟨⟨⟨"build"⟩, 1, .queued, "Build", none⟩, 0, none⟩], none⟩

/-- The only page of this scan considers the build once. -/
theorem scan_considers_each_once_twoWaiting :
    (allConsidered [twoWaiting]).countP (·.task = "build") = 1 := by
  have hscan : IsScan [twoWaiting] := by
    refine ⟨fun call hcall => ?_, fun call hcall => ?_, .singleton _⟩
    · rw [List.mem_singleton.mp hcall]
      unfold Call.Returned
      decide +kernel
    · rw [← Option.some.inj hcall]
      rfl
  refine ((scan_considers_each_once hscan).2.2.1 ⟨⟨"build"⟩, 0, 1000, 1, []⟩ ?_).2 (by decide) rfl
  intro call hcall
  rw [List.mem_singleton.mp hcall]
  exact ⟨by decide, by decide⟩

end Herdr.AdmissionScan
