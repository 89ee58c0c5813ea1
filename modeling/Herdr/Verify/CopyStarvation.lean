import Herdr.Verify.CopyFairness

/-!
# Declared offers starve the others

Three projects offer work all the time: the first and the last a copy with declared resources, the
one in between a brief without. A call that finds no tickets admits the copy of the first project,
and in the same loop the copy of the last one, past the brief. When both have been drained the
cursor stands behind the last project, so the next call begins with the first one again.
-/

namespace Herdr.CopyQueue

open Executor (Identity Instant Request ensure)
open FairAdmission (Cursor Key projects)

variable {outstanding : Nat} {q q' : Queue} {keys : Finset Key} {key k : Key}

/-! ## The run -/

def firstCopy : Key := ("/projects/a", "live-copy:t-1")

def lastCopy : Key := ("/projects/c", "live-copy:t-1")

def backlog : Finset Key := {firstCopy, brief, lastCopy}

def backlogIdentity (key : Key) : Identity := ⟨key.2, 1, key.1, "root", none⟩

def backlogResources (key : Key) : List Resource :=
  if key = brief then [] else [⟨"artifact", key.1⟩]

def backlogWork (key : Key) (now : Instant) : Request :=
  ⟨backlogIdentity key, .transfer, now + seconds 180, { program := "herdr-farm", timeout := 180000 }⟩

def backlogOffer (now : Instant) (key : Key) : Action :=
  .offer (backlogWork key now) (backlogResources key) ⟨now, now, now⟩

/-- The ticket of a copy: the first of a call has number 0. -/
def copyTicket (key : Key) : Pending :=
  ⟨key, backlogIdentity key, if key = firstCopy then 0 else 1, backlogResources key⟩

/-- Both copies have succeeded. -/
def bothSucceeded (ticket : Nat) : Received :=
  .completion (backlogIdentity (if ticket = 0 then firstCopy else lastCopy)) (.ok true)

/-- Each second both tickets are drained, and all three keys are offered. -/
def backlogRound (n : Nat) : Round where
  actions := .drain bothSucceeded (seconds n) (fun _ => seconds n) ::
    [firstCopy, brief, lastCopy].map (backlogOffer (seconds n))
  prune := seconds n
  head := seconds n
  attempts turn := ⟨seconds n, .accepted turn, seconds n⟩

theorem mem_backlog : key ∈ backlog ↔ key = firstCopy ∨ key = brief ∨ key = lastCopy := by
  simp [backlog]

/-! ## The order of the projects -/

theorem compare_project {c : Cursor} {a b : Key} (hkept : c.overflow = false)
    (h : Rotation.rank c.lastProject a.1 < Rotation.rank c.lastProject b.1) :
    c.compare b a = .gt := by
  rw [FairAdmission.Cursor.compare, hkept, if_neg Bool.false_ne_true, cmp_eq_gt_iff]
  exact Prod.Lex.toLex_lt_toLex.mpr (.inl h)

/-- The cursor stands before the first project, or behind the last one. -/
def AtRest (c : Cursor) : Prop := c.lastProject = none ∨ c.lastProject = some lastCopy.1

theorem projects_increase : firstCopy.1 < brief.1 ∧ brief.1 < lastCopy.1 := by decide +kernel

theorem AtRest.first {c : Cursor} (h : AtRest c) (hkept : c.overflow = false)
    (hkey : key = brief ∨ key = lastCopy) : c.compare key firstCopy = .gt := by
  obtain ⟨hab, hbc⟩ := projects_increase
  have hlt : firstCopy.1 < key.1 := by
    rcases hkey with rfl | rfl
    · exact hab
    · exact hab.trans hbc
  have hle : key.1 ≤ lastCopy.1 := by
    rcases hkey with rfl | rfl
    · exact hbc.le
    · exact le_rfl
  apply compare_project hkept
  rcases h with h | h <;> rw [h]
  · exact Rotation.rank_lt_none.mpr hlt
  · exact Rotation.rank_lt_some.mpr (.inr ⟨by simp [hle, hlt.le.trans hle], hlt⟩)

/-! ## States -/

/-- What a key of the backlog offers. -/
def BacklogOffer (key : Key) (work : Request) (resources : List Resource) : Prop :=
  work.identity = backlogIdentity key ∧ resources = backlogResources key

/-- After a call: only copies have tickets, and the next call begins with the first project again,
or the counter of admissions is exhausted. -/
structure Starving (q : Queue) (now : Instant) : Prop where
  inside : Inside 32 backlog q
  tickets : ∀ p ∈ q.tickets, p = copyTicket firstCopy ∨ p = copyTicket lastCopy
  cool : ∀ e ∈ q.entries.rows, e.notBefore ≤ now
  order : AtRest q.cursor ∨ 2 ^ 64 ≤ q.sequence + 1

/-- Before a call: nothing has a ticket, and all keys wait. -/
structure Waiting (q : Queue) (now : Instant) : Prop where
  inside : Inside 32 backlog q
  tickets : q.tickets = []
  cool : ∀ e ∈ q.entries.rows, e.notBefore ≤ now
  order : AtRest q.cursor ∨ 2 ^ 64 ≤ q.sequence + 1
  alive : ∀ key ∈ backlog, q.Alive (BacklogOffer key) key now

/-! ## The drain -/

theorem settle_cool {p : Pending} {now : Instant} (hdelay : settleDelay p.identity false = 0)
    (h : ∀ e ∈ q.entries.rows, e.notBefore ≤ now) :
    ∀ e ∈ (q.settle p (.ok ()) now).1.entries.rows, e.notBefore ≤ now := by
  unfold Queue.settle
  split
  · intro e he
    rcases Table.mem_upsert.mp he with rfl | ⟨he, -⟩
    · exact (congrArg (now + ·) hdelay).le
    · exact h e he
  · exact h

theorem finish_cool {now : Instant} {f : Queue × List String}
    (hf : q.finish key (.ok ()) now = some f)
    (hdelay : ∀ p ∈ q.tickets, settleDelay p.identity false = 0)
    (h : ∀ e ∈ q.entries.rows, e.notBefore ≤ now) :
    (∀ e ∈ f.1.entries.rows, e.notBefore ≤ now) ∧ ∀ p ∈ f.1.tickets, p ∈ q.tickets := by
  unfold Queue.finish at hf
  split at hf
  · obtain ⟨p, hp, hf⟩ := Option.bind_eq_some_iff.mp hf
    have hmem : p ∈ q.tickets := List.mem_append_left _ (Option.mem_toList.mpr hp)
    rw [← Option.some.inj hf]
    obtain ⟨hpending, hsets, -⟩ := settle_ok (q := { q with pending := none }) p (.ok ()) now
    refine ⟨settle_cool (hdelay p hmem) h, fun r hr => ?_⟩
    rw [Queue.tickets, hpending, hsets] at hr
    exact List.mem_append_right _ hr
  · obtain ⟨p, hp, hf⟩ := Option.bind_eq_some_iff.mp hf
    have hmem : p ∈ q.tickets := List.mem_append_right _ (Table.mem_of_find hp)
    rw [← Option.some.inj hf]
    obtain ⟨hpending, hsets, -⟩ := settle_ok
      (q := { q with pendingSets := q.pendingSets.retain fun r => r.key ≠ key }) p (.ok ()) now
    refine ⟨settle_cool (hdelay p hmem) h, fun r hr => ?_⟩
    rw [Queue.tickets, hpending, hsets] at hr
    rcases List.mem_append.mp hr with hr | hr
    · exact List.mem_append_left _ hr
    · exact List.mem_append_right _ (List.mem_filter.mp hr).1

theorem finishAll_cool {now : Instant} {l : List (Key × Except String Unit)}
    {f : Queue × List String} (hf : q.finishAll (fun _ => now) l = some f)
    (hok : ∀ e ∈ l, e.2 = .ok ()) (hdelay : ∀ p ∈ q.tickets, settleDelay p.identity false = 0)
    (h : ∀ e ∈ q.entries.rows, e.notBefore ≤ now) :
    ∀ e ∈ f.1.entries.rows, e.notBefore ≤ now := by
  induction l generalizing q f with
  | nil =>
    obtain rfl := Option.some.inj hf
    exact h
  | cons e l ih =>
    obtain ⟨key, result⟩ := e
    obtain rfl : result = .ok () := hok _ List.mem_cons_self
    obtain ⟨⟨q₁, errors⟩, hfinish, hf⟩ := Option.bind_eq_some_iff.mp hf
    obtain ⟨⟨q₂, more⟩, hall, hf⟩ := Option.bind_eq_some_iff.mp hf
    obtain rfl := Option.some.inj hf
    obtain ⟨hcool, htickets⟩ := finish_cool hfinish hdelay h
    have hrest := ih hall (fun e he => hok e (List.mem_cons_of_mem _ he))
      (fun p hp => hdelay p (htickets p hp)) hcool
    exact hrest

theorem prune_cool {now t : Instant} (h : ∀ e ∈ q.entries.rows, e.notBefore ≤ t) :
    ∀ e ∈ (q.prune now).entries.rows, e.notBefore ≤ t := by
  intro e he
  obtain ⟨d, hd, rfl⟩ := mem_prune he
  rw [Entry.expire_notBefore]
  exact h d hd

theorem copyTicket_completes {p : Pending}
    (h : p = copyTicket firstCopy ∨ p = copyTicket lastCopy) :
    completionOf bothSucceeded p = some (.ok ()) ∧ settleDelay p.identity false = 0 := by
  rcases h with rfl | rfl <;> exact ⟨by decide +kernel, by decide +kernel⟩

/-- The drain takes every ticket out. -/
theorem Starving.drain {now : Instant} {f : Queue × List String} (h : Starving q now)
    (hf : q.drain bothSucceeded now (fun _ => now) = some f) :
    f.1.tickets = [] ∧ ∀ e ∈ f.1.entries.rows, e.notBefore ≤ now := by
  have hdone := fun p hp => (copyTicket_completes (h.tickets p hp)).1
  refine ⟨drain_all h.inside (fun p hp => ⟨_, hdone p hp⟩) hf, ?_⟩
  apply finishAll_cool hf _ (fun p hp => (copyTicket_completes (h.tickets p hp)).2)
    (prune_cool h.cool)
  intro e he
  obtain ⟨p, hp, he⟩ := List.mem_filterMap.mp he
  have hmem : p ∈ q.tickets := by
    rcases List.mem_append.mp hp with hp | hp
    · exact List.mem_append_left _ hp
    · exact List.mem_append_right _ ((List.mem_insertionSort _).mp hp)
  rw [hdone p hmem] at he
  rw [← Option.some.inj he]

/-! ## The offers -/

/-- A declared offer that the loop can submit. -/
structure Queue.Submittable (q : Queue) (now : Instant) (e : Entry) : Prop where
  work : ∃ work ∈ e.work, exclusiveRoot work.identity = false
  cool : e.notBefore ≤ now
  resources : e.resources ≠ []
  free : ∀ x ∈ e.resources, x ∉ q.heldResources

theorem submittable_iff {now : Instant} {e : Entry} :
    (e.work.any (fun r => e.notBefore ≤ now && true && !exclusiveRoot r.identity) &&
      !e.resources.isEmpty && e.resources.all fun r => !q.heldResources.contains r) = true ↔
    q.Submittable now e := by
  simp only [Bool.and_eq_true, Option.any_eq_true, decide_eq_true_eq, Bool.not_eq_true',
    List.all_eq_true, List.isEmpty_eq_false_iff, and_true]
  constructor
  · rintro ⟨⟨⟨work, hwork, hcool, hexclusive⟩, hresources⟩, hfree⟩
    refine ⟨⟨work, hwork, hexclusive⟩, hcool, hresources, fun x hx hmem => ?_⟩
    have hnot := hfree x hx
    rw [List.contains_iff_mem.mpr hmem] at hnot
    cases hnot
  · rintro ⟨⟨work, hwork, hexclusive⟩, hcool, hresources, hfree⟩
    refine ⟨⟨⟨work, hwork, hcool, hexclusive⟩, hresources⟩, fun x hx => ?_⟩
    rw [← Bool.not_eq_true, List.contains_iff_mem]
    exact hfree x hx

/-- The loop takes the first offer that it can submit. -/
theorem nextDeclared_eq {now : Instant} {e : Entry} (hfind : q.entries.find k = some e)
    (h : q.Submittable now e)
    (hfirst : ∀ d ∈ q.entries.rows, q.Submittable now d → d.key ≠ k →
      q.cursor.compare d.key k = .gt) : q.nextDeclared (fun _ => true) now = some k := by
  unfold Queue.nextDeclared
  generalize hcandidates : q.entries.rows.filter _ = candidates
  have hiff : ∀ d, d ∈ candidates ↔ d ∈ q.entries.rows ∧ q.Submittable now d := by
    intro d
    rw [← hcandidates, List.mem_filter, submittable_iff]
  have hmem := (hiff e).mpr ⟨Table.mem_of_find hfind, h⟩
  have hkey : e.key = k := Table.find_key hfind
  cases hmin : minBy (fun a b => q.cursor.compare a.key b.key) candidates with
  | none =>
    rw [minBy_eq_none_iff.mp hmin] at hmem
    exact absurd hmem List.not_mem_nil
  | some first =>
    rw [Option.map_some]
    congr 1
    by_contra hne
    obtain ⟨hrow, hsub⟩ := (hiff first).mp (minBy_mem hmin)
    have hle := minBy_compare hmin e hmem
    rw [hkey] at hle
    exact hle (hfirst first hrow hsub hne)

theorem nextDeclared_eq_none {now : Instant}
    (h : ∀ d ∈ q.entries.rows, ¬q.Submittable now d) :
    q.nextDeclared (fun _ => true) now = none := by
  unfold Queue.nextDeclared
  rw [Option.map_eq_none_iff, minBy_eq_none_iff, List.filter_eq_nil_iff]
  intro d hd hp
  exact h d hd (submittable_iff.mp hp)

/-- One turn of the loop: the counter is exhausted, or the offer that is next has a ticket. -/
theorem loop_turn {attempts : Nat → Attempt} {turn fuel ticket : Nat} {e : Entry} {work : Request}
    {f : Queue × List String}
    (hf : q.admitDeclared outstanding (fun _ => true) attempts turn (fuel + 1) = some f)
    (hroom : q.pendingSets.rows.length < declaredLimit outstanding)
    (hnext : q.nextDeclared (fun _ => true) (attempts turn).now = some k)
    (hfind : q.entries.find k = some e) (hwork : e.work = some work)
    (hticket : (attempts turn).answer = .accepted ticket) :
    (2 ^ 64 ≤ q.sequence + 1 ∧ f.1 = q) ∨
      ∃ f', (q.admitted k e work ticket true).admitDeclared outstanding (fun _ => true) attempts
        (turn + 1) fuel = some f' ∧ f.1 = f'.1 := by
  rw [Queue.admitDeclared, if_pos hroom, hnext] at hf
  dsimp only at hf
  by_cases hsequence : q.sequence + 1 < 2 ^ 64
  · right
    rw [admitOne_accepted hsequence hfind hwork hticket, Option.bind_eq_bind, Option.bind_some,
      if_pos rfl] at hf
    obtain ⟨⟨q₁, errors⟩, hrest, hf⟩ := Option.bind_eq_some_iff.mp hf
    exact ⟨_, hrest, by rw [← Option.some.inj hf]⟩
  · left
    rw [Queue.admitOne, if_pos (not_lt.mp hsequence)] at hf
    exact ⟨not_lt.mp hsequence, by rw [← Option.some.inj hf]⟩

theorem loop_none {attempts : Nat → Attempt} {turn fuel : Nat} {f : Queue × List String}
    (hf : q.admitDeclared outstanding (fun _ => true) attempts turn fuel = some f)
    (hnext : q.nextDeclared (fun _ => true) (attempts turn).now = none) : f.1 = q := by
  cases fuel with
  | zero => rw [← Option.some.inj hf]
  | succ fuel =>
    rw [Queue.admitDeclared, hnext] at hf
    split at hf <;> rw [← Option.some.inj hf]

/-- When the counter is exhausted a call admits nothing. -/
theorem exhausted_loop {attempts : Nat → Attempt} {turn fuel : Nat} {f : Queue × List String}
    (h : 2 ^ 64 ≤ q.sequence + 1)
    (hf : q.admitDeclared outstanding (fun _ => true) attempts turn fuel = some f) : f.1 = q := by
  cases fuel with
  | zero => rw [← Option.some.inj hf]
  | succ fuel =>
    rw [Queue.admitDeclared] at hf
    split at hf
    · split at hf
      · rw [← Option.some.inj hf]
      · rw [Queue.admitOne, if_pos h] at hf
        rw [← Option.some.inj hf]
    · rw [← Option.some.inj hf]

/-- An admitted entry waits with nothing. -/
theorem admitted_row {e c : Entry} {work : Request} {ticket : Nat} {declared : Bool}
    (hc : c ∈ (q.admitted k e work ticket declared).entries.rows) :
    (c.work = none ∧ c.notBefore = e.notBefore) ∨ (c ∈ q.entries.rows ∧ c.key ≠ e.key) := by
  rcases Table.mem_upsert.mp hc with rfl | ⟨hc, hne⟩
  · exact .inl ⟨rfl, rfl⟩
  · exact .inr ⟨hc, hne⟩

theorem admitted_cool {e : Entry} {work : Request} {ticket : Nat} {declared : Bool} {now : Instant}
    (h : ∀ c ∈ q.entries.rows, c.notBefore ≤ now) (he : e ∈ q.entries.rows) :
    ∀ c ∈ (q.admitted k e work ticket declared).entries.rows, c.notBefore ≤ now := by
  intro c hc
  rcases admitted_row hc with ⟨-, hsame⟩ | ⟨hc, -⟩
  · exact hsame ▸ h e he
  · exact h c hc

theorem admitted_submittable {e c : Entry} {work : Request} {ticket : Nat} {declared : Bool}
    {now : Instant} (hc : c ∈ (q.admitted k e work ticket declared).entries.rows) {q' : Queue}
    (hsub : q'.Submittable now c) : c ∈ q.entries.rows ∧ c.key ≠ e.key := by
  rcases admitted_row hc with ⟨hnone, -⟩ | hrow
  · obtain ⟨work, hwork, -⟩ := hsub.work
    rw [hnone] at hwork
    cases hwork
  · exact hrow

theorem admitted_sets {e : Entry} {work : Request} {ticket : Nat}
    (hnew : k ∉ q.pendingSets.rows.map Pending.key) :
    (q.admitted k e work ticket true).pendingSets.rows =
      q.pendingSets.rows ++ [⟨k, work.identity, ticket, e.resources⟩] :=
  Table.rows_upsert_of_none (Table.find_eq_none_iff.mpr hnew)

namespace Waiting

variable {now : Instant}

theorem prune (h : Waiting q now) : Waiting (q.prune now) now :=
  ⟨h.inside.prune now, h.tickets, prune_cool h.cool, h.order,
    fun key hkey => ((h.alive key hkey).prune le_rfl).1⟩

/-- The offer that a key waits with. -/
theorem offer (h : Waiting q now) (hkey : key ∈ backlog) :
    ∃ e work, q.entries.find key = some e ∧ e.work = some work ∧
      work.identity = backlogIdentity key ∧ e.resources = backlogResources key := by
  obtain ⟨e, work, he, hwork, -, -, hidentity, hresources⟩ := h.alive key hkey
  exact ⟨e, work, he, hwork, hidentity, hresources⟩

/-- The brief has no declared resources. -/
theorem not_brief (h : Waiting q now) {e : Entry} (he : e ∈ q.entries.rows)
    (hresources : e.resources ≠ []) : e.key ≠ brief := by
  intro hkey
  obtain ⟨d, work, hd, -, -, hnone⟩ := h.offer (mem_backlog.mpr (.inr (.inl rfl)))
  have hfind := Table.find_of_mem he
  rw [hkey, hd] at hfind
  obtain rfl := Option.some.inj hfind
  exact hresources hnone

theorem head (h : Waiting q now) (hrest : AtRest q.cursor) :
    q.nextWhere (fun _ => true) now = some firstCopy := by
  obtain ⟨e, work, hfind, hwork, -⟩ := h.offer (mem_backlog.mpr (.inl rfl))
  have hmem := Table.mem_of_find hfind
  obtain ⟨k, hk⟩ := nextWhere_some hfind hwork (h.cool e hmem)
  obtain ⟨⟨d, w, hd, -⟩, hfirst⟩ := nextWhere_first hk
  have hle := hfirst e hmem (by rw [hwork]; rfl) (h.cool e hmem)
  have hekey : e.key = firstCopy := Table.find_key hfind
  have hdkey : d.key = k := Table.find_key hd
  rw [hekey] at hle
  rcases mem_backlog.mp (hdkey ▸ h.inside.entries d (Table.mem_of_find hd)) with hsame | hother
  · rw [hk, hsame]
  · exact absurd (hrest.first h.inside.kept hother) hle

theorem submittable (h : Waiting q now) (hkey : key = firstCopy ∨ key = lastCopy) {e : Entry}
    {work : Request} (hfind : q.entries.find key = some e) (hwork : e.work = some work)
    (hidentity : work.identity = backlogIdentity key)
    (hresources : e.resources = backlogResources key) {q' : Queue}
    (hfree : ∀ x ∈ e.resources, x ∉ q'.heldResources) : q'.Submittable now e := by
  refine ⟨⟨work, hwork, ?_⟩, h.cool e (Table.mem_of_find hfind), ?_, hfree⟩
  · rw [hidentity]
    rcases hkey with rfl | rfl <;> decide +kernel
  · rw [hresources]
    rcases hkey with rfl | rfl <;> decide

/-- The second turn takes the last copy, and there is no third one. -/
theorem second {n fuel : Nat} (h : Waiting q (seconds n)) (hsets : q.pendingSets.rows = [])
    {e d : Entry} {work last : Request} (hfind : q.entries.find firstCopy = some e)
    (hidentity : work.identity = backlogIdentity firstCopy)
    (hresources : e.resources = backlogResources firstCopy)
    (hlast : q.entries.find lastCopy = some d) (hlastWork : d.work = some last)
    (hlastIdentity : last.identity = backlogIdentity lastCopy)
    (hlastResources : d.resources = backlogResources lastCopy)
    {f f' : Queue × List String} (hinside : Inside 32 backlog f.1)
    (hf : (q.admitted firstCopy e work 0 true).admitDeclared 32 (fun _ => true)
      (fun turn => ⟨seconds n, .accepted turn, seconds n⟩) 1 (fuel + 1) = some f')
    (hsame : f.1 = f'.1) : Starving f.1 (seconds n) := by
  have hnone : q.pending = none := by
    have htickets := h.tickets
    rw [Queue.tickets, List.append_eq_nil_iff, Option.toList_eq_nil_iff] at htickets
    exact htickets.1
  have hfirstKey : e.key = firstCopy := Table.find_key hfind
  have hlastKey : d.key = lastCopy := Table.find_key hlast
  have hfirstTicket : (⟨firstCopy, work.identity, 0, e.resources⟩ : Pending) =
      copyTicket firstCopy := by
    rw [hidentity, hresources]
    rfl
  have hlastTicket : (⟨lastCopy, last.identity, 1, d.resources⟩ : Pending) =
      copyTicket lastCopy := by
    rw [hlastIdentity, hlastResources]
    rfl
  have hothers : ∀ c ∈ q.entries.rows, c.resources ≠ [] → c.key ≠ firstCopy → c.key = lastCopy := by
    intro c hc hdeclared hfirst
    have hkey := mem_backlog.mp (h.inside.entries c hc)
    exact (hkey.resolve_left hfirst).resolve_left (h.not_brief hc hdeclared)
  have hfirstSets : (q.admitted firstCopy e work 0 true).pendingSets.rows =
      [copyTicket firstCopy] := by
    rw [admitted_sets (by rw [hsets]; exact List.not_mem_nil), hsets, hfirstTicket]
    rfl
  have hheld : (q.admitted firstCopy e work 0 true).heldResources = backlogResources firstCopy := by
    rw [Queue.heldResources, hfirstSets]
    rfl
  have hcool : ∀ c ∈ (q.admitted firstCopy e work 0 true).entries.rows, c.notBefore ≤ seconds n :=
    admitted_cool h.cool (Table.mem_of_find hfind)
  have hlastFind : (q.admitted firstCopy e work 0 true).entries.find lastCopy = some d := by
    rw [admitted_find hfind (by decide), hlast]
  have hsub : (q.admitted firstCopy e work 0 true).Submittable (seconds n) d := by
    apply h.submittable (.inr rfl) hlast hlastWork hlastIdentity hlastResources
    rw [hheld, hlastResources]
    decide
  have hnext : (q.admitted firstCopy e work 0 true).nextDeclared (fun _ => true) (seconds n) =
      some lastCopy := by
    apply nextDeclared_eq hlastFind hsub
    intro c hc hcsub hne
    obtain ⟨hrow, hfirst⟩ := admitted_submittable hc hcsub
    exact absurd (hothers c hrow hcsub.resources (hfirstKey ▸ hfirst)) hne
  rcases loop_turn hf (by rw [hfirstSets]; decide) hnext hlastFind hlastWork rfl with
    ⟨hfull, hstop⟩ | ⟨f₂, hf₂, hsame₂⟩
  · refine ⟨hinside, ?_, ?_, ?_⟩ <;> rw [hsame, hstop]
    · intro p hp
      rw [Queue.tickets, hfirstSets] at hp
      change p ∈ q.pending.toList ++ _ at hp
      rw [hnone] at hp
      exact .inl (List.mem_singleton.mp hp)
    · exact hcool
    · exact .inr hfull
  · generalize hq : q.admitted firstCopy e work 0 true = q₁ at *
    have hstop : f₂.1 = q₁.admitted lastCopy d last 1 true := by
      apply loop_none hf₂
      apply nextDeclared_eq_none
      intro c hc hcsub
      obtain ⟨hrow, hother⟩ := admitted_submittable hc hcsub
      rw [← hq] at hrow
      obtain ⟨hrow, hfirst⟩ := admitted_submittable hrow hcsub
      rw [hlastKey] at hother
      rw [hfirstKey] at hfirst
      exact hother (hothers c hrow hcsub.resources hfirst)
    have hlastSets : (q₁.admitted lastCopy d last 1 true).pendingSets.rows =
        [copyTicket firstCopy, copyTicket lastCopy] := by
      rw [admitted_sets (by rw [hfirstSets]; decide), hfirstSets, hlastTicket]
      rfl
    have hpending : q₁.pending = none := hq ▸ hnone
    refine ⟨hinside, ?_, ?_, ?_⟩ <;> rw [hsame, hsame₂, hstop]
    · intro p hp
      rw [Queue.tickets, hlastSets] at hp
      change p ∈ q₁.pending.toList ++ _ at hp
      rw [hpending] at hp
      simpa using hp
    · exact admitted_cool hcool (Table.mem_of_find hlastFind)
    · exact .inl (.inr rfl)

/-- **The call** admits both copies, past the brief. -/
theorem call {n : Nat} (h : Waiting q (seconds n))
    (hstep : step 32 q (backlogRound n).call = some q') : Starving q' (seconds n) := by
  have hinside := (h.inside.call (r := backlogRound n) (by decide) (fun turn => ⟨turn, rfl⟩) hstep).1
  obtain ⟨f, hf, rfl⟩ := Option.map_eq_some_iff.mp hstep
  have hp : Waiting (q.prune (seconds n)) (seconds n) := h.prune
  unfold Queue.admitMatching at hf
  dsimp only [backlogRound] at hf
  generalize q.prune (seconds n) = q at hp hf
  obtain ⟨hpending, hsets⟩ : q.pending = none ∧ q.pendingSets.rows = [] := by
    have htickets := hp.tickets
    rw [Queue.tickets, List.append_eq_nil_iff, Option.toList_eq_nil_iff] at htickets
    exact htickets
  rw [hpending, hsets] at hf
  rw [if_neg (by simp), if_neg (by simp)] at hf
  have hkept : 2 ^ 64 ≤ q.sequence + 1 → f.1 = q → Starving f.1 (seconds n) := by
    intro hfull hsame
    refine ⟨hinside, ?_, ?_, ?_⟩ <;> rw [hsame]
    · rw [hp.tickets]
      exact fun p hp => absurd hp List.not_mem_nil
    · exact hp.cool
    · exact .inr hfull
  rcases hp.order with hrest | hfull
  · have hhead := hp.head hrest
    obtain ⟨e, work, hfind, hwork, hidentity, hresources⟩ := hp.offer (mem_backlog.mpr (.inl rfl))
    obtain ⟨d, last, hlast, hlastWork, hlastIdentity, hlastResources⟩ :=
      hp.offer (mem_backlog.mpr (.inr (.inr rfl)))
    have hdeclared : q.declaredHead firstCopy = true := by
      rw [Queue.declaredHead, hfind, Option.any_some, hwork, Option.any_some, hidentity, hresources]
      decide +kernel
    rw [hhead] at hf
    dsimp only at hf
    rw [if_pos hdeclared] at hf
    obtain ⟨fuel, hfuel⟩ : ∃ fuel, q.offers = fuel + 1 := by
      have hpos : 0 < q.offers := by
        rw [Queue.offers, List.countP_pos_iff]
        exact ⟨e, Table.mem_of_find hfind, by rw [hwork]; rfl⟩
      exact ⟨q.offers - 1, by omega⟩
    rw [hfuel] at hf
    have hnext : q.nextDeclared (fun _ => true) (seconds n) = some firstCopy := by
      apply nextDeclared_eq hfind
      · apply hp.submittable (.inl rfl) hfind hwork hidentity hresources
        simp [Queue.heldResources, hsets]
      · intro c hc hsub hne
        apply hrest.first hp.inside.kept
        have hkey := mem_backlog.mp (hp.inside.entries c hc)
        exact hkey.resolve_left hne
    rcases loop_turn hf (by rw [hsets]; decide) hnext hfind hwork rfl with
      ⟨hfull, hsame⟩ | ⟨f₁, hf₁, hsame₁⟩
    · exact hkept hfull hsame
    · exact second hp hsets hfind hidentity hresources hlast hlastWork hlastIdentity
        hlastResources hinside hf₁ hsame₁
  · split at hf
    · exact hkept hfull (by rw [← Option.some.inj hf])
    · split at hf
      · exact hkept hfull (exhausted_loop hfull hf)
      · rw [Queue.admitOne, if_pos hfull] at hf
        exact hkept hfull (by rw [← Option.some.inj hf])

end Waiting

/-! ## The whole run -/

section Along

variable {start before : Nat → Queue}

theorem Waiting.held {now : Instant} (h : Waiting q now) : q.held key = false := by
  rw [← Bool.not_eq_true]
  intro hheld
  obtain ⟨p, hp, -⟩ := held_iff.mp hheld
  rw [h.tickets] at hp
  exact absurd hp List.not_mem_nil

end Along

end Herdr.CopyQueue
