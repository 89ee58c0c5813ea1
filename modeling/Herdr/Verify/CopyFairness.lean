import Herdr.Lib.Progress
import Herdr.Verify.CopyQueue
import Herdr.Verify.FairAdmission

/-!
# Offers without declared resources

In every call of `admit_matching` the mode of the queue decides which offers compete. As long as no
declared offer is submitted past an offer that cannot join the declared tickets, the cursor brings
each of these closer with every admission, and there is an admission whenever the tickets have
drained.
-/

namespace Herdr.CopyQueue

open Executor (Identity Instant Request ensure)
open FairAdmission (Cursor Key projects)

/-! ## Runs -/

/-- What happens between two calls, and the clock readings and answers of the second. -/
structure Round where
  actions : List Action
  prune : Instant
  head : Instant
  attempts : Nat → Attempt

/-- The filter allows everything. -/
def Round.call (r : Round) : Action := .admitMatching (fun _ => true) r.prune r.head r.attempts

/-- A run that alternates rounds of offers and drains with calls of `admit_matching`. -/
structure Run (outstanding : Nat) (rounds : Nat → Round) (start before : Nat → Queue) : Prop where
  new : start 0 = .new
  actions : ∀ n, run outstanding (start n) (rounds n).actions = some (before n)
  call : ∀ n, step outstanding (before n) (rounds n).call = some (start (n + 1))

/-- What may happen before a call: offers that are still alive at the call, expiry, and drains of
tickets that completed with success. -/
inductive Between (keys : Finset Key) (r : Round) (tickets : List Pending) : Action → Prop
  | offer (work : Request) (resources : List Resource) (times : OfferTimes)
    (key : work.identity.key ∈ keys) (valid : resources.forM Resource.check = .ok ())
    (deadline : r.prune < work.deadline) (fresh : r.prune < times.entry + retention)
    (prune : times.prune ≤ r.prune) (entry : times.entry ≤ r.prune) :
    Between keys r tickets (.offer work resources times)
  | prune (now : Instant) (prune : now ≤ r.prune) : Between keys r tickets (.prune now)
  | drain (receive : Nat → Received) (expiry : Instant) (now : Key → Instant) (prune : expiry ≤ r.prune)
    (success : ∀ p ∈ tickets, ∀ result, completionOf receive p = some result → result = .ok ()) :
    Between keys r tickets (.drain receive expiry now)

/-- At most 128 keys are offered, all of them before each call; the executor accepts every
submission, and a ticket is drained within `delay` further calls. -/
structure Served (keys : Finset Key) (delay : Nat) (rounds : Nat → Round)
    (start before : Nat → Queue) : Prop where
  bounded : keys.card ≤ limit
  between : ∀ n, ∀ a ∈ (rounds n).actions, Between keys (rounds n) (start n).tickets a
  offered : ∀ n, ∀ key ∈ keys, ∃ work resources times,
    Action.offer work resources times ∈ (rounds n).actions ∧ work.identity.key = key
  clock : ∀ n, (rounds n).prune ≤ (rounds n).head ∧
    (∀ turn, (rounds n).head ≤ ((rounds n).attempts turn).now) ∧
    (rounds n).head ≤ (rounds (n + 1)).prune
  accepts : ∀ n turn, ∃ ticket, ((rounds n).attempts turn).answer = .accepted ticket
  drained : ∀ n key, (start (n + 1)).held key = true →
    ∃ j ≤ delay, (before (n + 1 + j)).held key = false

/-- An offer that never joins the declared tickets. -/
def undeclared (work : Request) (resources : List Resource) : Bool :=
  resources.isEmpty || exclusiveRoot work.identity

/-- The entry waits with such an offer and its cooldown has elapsed. -/
def Entry.waitsUndeclared (now : Instant) (e : Entry) : Bool :=
  e.work.any (undeclared · e.resources) && e.notBefore ≤ now

/-- The key has no ticket and its cooldown has elapsed. -/
def Queue.Waits (q : Queue) (key : Key) (now : Instant) : Prop :=
  q.held key = false ∧ ∀ e, q.entries.find key = some e → e.notBefore ≤ now

/-! ## The condition -/

/-- At every turn of the loop for declared offers, the offer that comes next does not stand behind
a waiting offer that cannot join, and the counter of admissions is not exhausted. -/
def Queue.Orderly (outstanding : Nat) (attempts : Nat → Attempt) (turn : Nat) :
    Nat → Queue → Prop
  | 0, _ => True
  | fuel + 1, q => q.pendingSets.rows.length < declaredLimit outstanding →
    ∀ key, q.nextDeclared (fun _ => true) (attempts turn).now = some key →
      q.sequence + 1 < 2 ^ 64 ∧
      (∀ e ∈ q.entries.rows, e.waitsUndeclared (attempts turn).now = true →
        q.cursor.compare key e.key ≠ .gt) ∧
      ∀ a, q.admitOne key (attempts turn) true = some a →
        Queue.Orderly outstanding attempts (turn + 1) fuel a.queue

/-- The call reaches the loop for declared offers. -/
def Queue.reachesDeclared (q : Queue) (head : Instant) : Prop :=
  q.pending = none ∧ (q.pendingSets.rows ≠ [] ∨
    ∃ key, q.nextWhere (fun _ => true) head = some key ∧ q.declaredHead key = true)

def Round.Orderly (outstanding : Nat) (q : Queue) (r : Round) : Prop :=
  (q.prune r.prune).sequence + 1 < 2 ^ 64 ∧
    ((q.prune r.prune).reachesDeclared r.head →
      (q.prune r.prune).Orderly outstanding r.attempts 0 ((q.prune r.prune).offers + 1))

variable {outstanding : Nat} {q q' : Queue} {keys : Finset Key} {r : Round} {key : Key}

/-! ## Between two calls -/

/-- Expiry of one entry. -/
def expireEntry (held : Bool) (now : Instant) (e : Entry) : Option Entry :=
  if held || now < e.touched + retention then some (e.expire now) else none

theorem Entry.expire_touched (now : Instant) (e : Entry) : (e.expire now).touched = e.touched := by
  unfold Entry.expire
  split <;> rfl

theorem Entry.expire_notBefore (now : Instant) (e : Entry) :
    (e.expire now).notBefore = e.notBefore := by
  unfold Entry.expire
  split <;> rfl

theorem find_prune (now : Instant) : (q.prune now).entries.find key =
    (q.entries.find key).bind (expireEntry (q.held key) now) := by
  unfold Queue.prune
  rw [Table.find_retain, Table.find_modify]
  cases hfind : q.entries.find key with
  | none => rfl
  | some e =>
    rw [Option.map_some, Option.bind_some, Option.filter_some, expireEntry, Entry.expire_key,
      Entry.expire_touched, Table.find_key hfind]

/-- Only the offered keys are in the inventory and in the history of the cursor, which is thus
never dropped. -/
structure Inside (outstanding : Nat) (keys : Finset Key) (q : Queue) : Prop where
  sound : Sound outstanding q
  entries : ∀ e ∈ q.entries.rows, e.key ∈ keys
  kept : q.cursor.overflow = false
  threads : ∀ t ∈ q.cursor.threads.rows, t.1 ∈ projects keys

theorem inside_new : Inside outstanding keys .new :=
  ⟨sound_new, nofun, rfl, nofun⟩

/-- A key that is not in the inventory leaves room for it. -/
theorem Inside.room (h : Inside outstanding keys q) (hcard : keys.card ≤ limit) (hkey : key ∈ keys)
    (hnew : q.entries.find key = none) : q.entries.rows.length < limit := by
  have hsub : (q.entries.rows.map Entry.key).toFinset ⊆ keys.erase key := by
    intro k hk
    obtain ⟨e, he, rfl⟩ := List.mem_map.mp (List.mem_toFinset.mp hk)
    refine Finset.mem_erase.mpr ⟨?_, h.entries e he⟩
    rintro rfl
    rw [Table.find_of_mem he] at hnew
    cases hnew
  have hle := Finset.card_le_card hsub
  rw [List.toFinset_card_of_nodup q.entries.nodup, List.length_map, Finset.card_erase_of_mem hkey]
    at hle
  have hpos : 0 < keys.card := Finset.card_pos.mpr ⟨key, hkey⟩
  omega

theorem mem_prune {now : Instant} {e : Entry} (he : e ∈ (q.prune now).entries.rows) :
    ∃ d ∈ q.entries.rows, e = d.expire now := by
  obtain ⟨d, hd, rfl⟩ := Table.mem_modify.mp (List.mem_filter.mp he).1
  exact ⟨d, hd, rfl⟩

theorem Inside.prune (h : Inside outstanding keys q) (now : Instant) :
    Inside outstanding keys (q.prune now) := by
  refine ⟨(Leaves.prune q now).sound h.sound ((prune_length now).trans h.sound.inventory),
    fun e he => ?_, h.kept, h.threads⟩
  obtain ⟨d, hd, rfl⟩ := mem_prune he
  rw [Entry.expire_key]
  exact h.entries d hd

/-- **An offer** evicts nothing. -/
theorem offer_eq (h : Inside outstanding keys q) (hcard : keys.card ≤ limit) {work : Request}
    {resources : List Resource} {times : OfferTimes} (hkey : work.identity.key ∈ keys)
    (hvalid : resources.forM Resource.check = .ok ()) :
    (q.offerScoped work resources times).2 =
      if q.held work.identity.key then q.prune times.prune
      else (q.prune times.prune).refresh work resources times.entry := by
  have hheld : (q.prune times.prune).held work.identity.key = q.held work.identity.key := rfl
  have hfull : ¬(((q.prune times.prune).entries.find work.identity.key).isNone ∧
      limit ≤ (q.prune times.prune).entries.rows.length) := by
    rintro ⟨hnone, hfull⟩
    have hroom := (h.prune times.prune).room hcard hkey (Option.isNone_iff_eq_none.mp hnone)
    omega
  unfold Queue.offerScoped
  rw [hvalid]
  dsimp only
  rw [hheld, if_neg hfull]
  split <;> rfl

/-- The entry that an offer leaves. -/
def refreshed (old : Option Entry) (work : Request) (resources : List Resource) (now : Instant) :
    Entry :=
  { old.getD ⟨work.identity.key, none, [], now, now, 0, true⟩ with
    work := some work
    resources := resources
    touched := now
    needed := true }

theorem refresh_find {work : Request} {resources : List Resource} {now : Instant} :
    (q.refresh work resources now).entries.find key =
      if work.identity.key = key then
        some (refreshed (q.entries.find work.identity.key) work resources now)
      else q.entries.find key := by
  have hkey : (refreshed (q.entries.find work.identity.key) work resources now).key =
      work.identity.key := by
    unfold refreshed
    cases hfind : q.entries.find work.identity.key with
    | none => rfl
    | some e =>
      have hfound : e.key = work.identity.key := Table.find_key hfind
      exact hfound
  change (q.entries.upsert (refreshed (q.entries.find work.identity.key) work resources now)).find key
    = _
  rw [Table.find_upsert, hkey]

/-- The cursor and the counter of admissions stand still. -/
structure Still (q q' : Queue) : Prop where
  cursor : q'.cursor = q.cursor
  sequence : q'.sequence = q.sequence

theorem Still.trans {q'' : Queue} (h : Still q q') (h' : Still q' q'') : Still q q'' :=
  ⟨h'.cursor.trans h.cursor, h'.sequence.trans h.sequence⟩

theorem settle_still (q : Queue) (p : Pending) (result : Except String Unit) (now : Instant) :
    Still q (q.settle p result now).1 := by
  unfold Queue.settle
  split <;> exact ⟨rfl, rfl⟩

theorem finish_still {result : Except String Unit} {now : Instant} {f : Queue × List String}
    (h : q.finish key result now = some f) : Still q f.1 := by
  unfold Queue.finish at h
  split at h
  · obtain ⟨p, -, h⟩ := Option.bind_eq_some_iff.mp h
    rw [← Option.some.inj h]
    obtain ⟨hcursor, hsequence⟩ := settle_still _ p result now
    exact ⟨hcursor, hsequence⟩
  · obtain ⟨p, -, h⟩ := Option.bind_eq_some_iff.mp h
    rw [← Option.some.inj h]
    obtain ⟨hcursor, hsequence⟩ := settle_still _ p result now
    exact ⟨hcursor, hsequence⟩

theorem finishAll_still {now : Key → Instant} {l : List (Key × Except String Unit)}
    {f : Queue × List String} (h : q.finishAll now l = some f) : Still q f.1 := by
  induction l generalizing q f with
  | nil =>
    rw [← Option.some.inj h]
    exact ⟨rfl, rfl⟩
  | cons e l ih =>
    obtain ⟨⟨q₁, errors⟩, hfinish, h⟩ := Option.bind_eq_some_iff.mp h
    obtain ⟨⟨q₂, more⟩, hall, h⟩ := Option.bind_eq_some_iff.mp h
    rw [← Option.some.inj h]
    have hrest := ih hall
    exact (finish_still hfinish).trans hrest

/-- What one action between two calls does. -/
structure Passes (outstanding : Nat) (keys : Finset Key) (r : Round) (action : Action)
    (q q' : Queue) : Prop where
  inside : Inside outstanding keys q'
  still : Still q q'
  tickets : ∀ p ∈ q'.tickets, p ∈ q.tickets
  /-- The entry of a key without a ticket expires or takes an offer. -/
  entry : ∀ key, q.held key = false →
    ((∀ work resources times, action = .offer work resources times → work.identity.key ≠ key) ∧
      ∃ now ≤ r.prune, q'.entries.find key = (q.prune now).entries.find key) ∨
    ∃ work resources times, action = .offer work resources times ∧ work.identity.key = key ∧
      q'.entries.find key = some
        (refreshed ((q.prune times.prune).entries.find key) work resources times.entry)

theorem passes_offer (h : Inside outstanding keys q) (hcard : keys.card ≤ limit) {work : Request}
    {resources : List Resource} {times : OfferTimes} (hkey : work.identity.key ∈ keys)
    (hvalid : resources.forM Resource.check = .ok ()) (hprune : times.prune ≤ r.prune) :
    Passes outstanding keys r (.offer work resources times) q
      (q.offerScoped work resources times).2 := by
  have hleaves := offer_leaves h.sound.inventory work resources times
  have htickets : ∀ p ∈ (q.offerScoped work resources times).2.tickets, p ∈ q.tickets := by
    intro p hp
    rw [Queue.tickets, hleaves.1.pending, hleaves.1.pendingSets] at hp
    exact hp
  have hsound := hleaves.1.sound h.sound hleaves.2
  have hpruned := h.prune times.prune
  rw [offer_eq h hcard hkey hvalid] at hsound htickets ⊢
  split at hsound
  · next hheld =>
    rw [if_pos hheld] at htickets ⊢
    refine ⟨hpruned, ⟨rfl, rfl⟩, htickets, fun k hk => .inl ⟨?_, times.prune, hprune, rfl⟩⟩
    rintro _ _ _ ⟨⟩ rfl
    rw [hk] at hheld
    cases hheld
  · next hheld =>
    rw [if_neg hheld] at htickets ⊢
    refine ⟨⟨hsound, fun e he => ?_, h.kept, h.threads⟩, ⟨rfl, rfl⟩, htickets, fun k _ => ?_⟩
    · have hfind := Table.find_of_mem he
      rw [refresh_find] at hfind
      split at hfind
      · next hsame => exact hsame ▸ hkey
      · exact hpruned.entries e (Table.mem_of_find hfind)
    · rw [refresh_find]
      split
      · next hsame =>
        right
        exact ⟨work, resources, times, rfl, hsame, by rw [hsame]⟩
      · next hother =>
        left
        refine ⟨?_, times.prune, hprune, rfl⟩
        rintro _ _ _ ⟨⟩
        exact hother

theorem passes_drain (h : Inside outstanding keys q) {receive : Nat → Received} {expiry : Instant}
    {now : Key → Instant} (hprune : expiry ≤ r.prune) {f : Queue × List String}
    (hdrain : q.drain receive expiry now = some f) :
    Passes outstanding keys r (.drain receive expiry now) q f.1 := by
  have hpruned := h.prune expiry
  obtain ⟨f', hf', hsound, hleft, hothers, -⟩ := finishAll_ok hpruned.sound now
    (finished_nodup hpruned.sound receive) (fun e he => by
      obtain ⟨p, hp, hkey, -⟩ := mem_finished.mp (List.mem_map_of_mem he)
      exact held_iff.mpr ⟨p, hp, hkey⟩)
  obtain rfl : f' = f := Option.some.inj (hf'.symm.trans hdrain)
  have hpruneStill : Still q (q.prune expiry) := ⟨rfl, rfl⟩
  have hstill : Still q f'.1 := hpruneStill.trans (finishAll_still hf')
  have hfinished : ∀ k, k ∈ ((q.prune expiry).finished receive).map Prod.fst → q.held k = true := by
    intro k hk
    obtain ⟨p, hp, hkey, -⟩ := mem_finished.mp hk
    exact held_iff.mpr ⟨p, hp, hkey⟩
  refine ⟨⟨hsound, fun e he => ?_, hstill.cursor ▸ h.kept, hstill.cursor ▸ h.threads⟩, hstill,
    fun p hp => ((hleft p).mp hp).1, fun k hk => .inl ⟨nofun, expiry, hprune, hothers k ?_⟩⟩
  · by_cases hmem : e.key ∈ ((q.prune expiry).finished receive).map Prod.fst
    · obtain ⟨d, hd, -⟩ := h.sound.idle e.key (hfinished _ hmem)
      have hdkey : d.key = e.key := Table.find_key hd
      exact hdkey ▸ h.entries d (Table.mem_of_find hd)
    · have hfind := Table.find_of_mem he
      rw [hothers _ hmem] at hfind
      exact hpruned.entries e (Table.mem_of_find hfind)
  · intro hmem
    rw [hfinished k hmem] at hk
    cases hk

/-- A drain in which every ticket has completed leaves none. -/
theorem drain_all (h : Inside outstanding keys q) {receive : Nat → Received} {expiry : Instant}
    {now : Key → Instant} (hall : ∀ p ∈ q.tickets, ∃ result, completionOf receive p = some result)
    {f : Queue × List String} (hf : q.drain receive expiry now = some f) : f.1.tickets = [] := by
  have hpruned := h.prune expiry
  obtain ⟨f', hf', -, hleft, -⟩ := finishAll_ok hpruned.sound now
    (finished_nodup hpruned.sound receive) (fun e he => by
      obtain ⟨p, hp, hkey, -⟩ := mem_finished.mp (List.mem_map_of_mem he)
      exact held_iff.mpr ⟨p, hp, hkey⟩)
  obtain rfl : f' = f := Option.some.inj (hf'.symm.trans hf)
  apply List.eq_nil_iff_forall_not_mem.mpr
  intro p hp
  obtain ⟨hmem, hnot⟩ := (hleft p).mp hp
  obtain ⟨result, hresult⟩ := hall p hmem
  apply hnot
  rw [mem_finished]
  exact ⟨p, hmem, rfl, by rw [hresult]; rfl⟩

/-- **One action** between two calls. -/
theorem Between.passes {tickets : List Pending} {action : Action}
    (hb : Between keys r tickets action) (h : Inside outstanding keys q)
    (hcard : keys.card ≤ limit) (hstep : step outstanding q action = some q') :
    Passes outstanding keys r action q q' := by
  cases hb with
  | offer work resources times key valid deadline fresh prune entry =>
    rw [← Option.some.inj hstep]
    exact passes_offer h hcard key valid prune
  | prune now prune =>
    rw [← Option.some.inj hstep]
    exact ⟨h.prune now, ⟨rfl, rfl⟩, fun _ hp => hp, fun k _ => .inl ⟨nofun, now, prune, rfl⟩⟩
  | drain receive expiry now prune success =>
    obtain ⟨f, hdrain, rfl⟩ := Option.map_eq_some_iff.mp hstep
    exact passes_drain h prune hdrain

/-! ## The waiting key -/

/-- Its cooldown has elapsed. -/
def Queue.Cool (q : Queue) (key : Key) (now : Instant) : Prop :=
  ∀ e, q.entries.find key = some e → e.notBefore ≤ now

/-- It has an offer of a kind that is alive at the next call. -/
def Queue.Alive (q : Queue) (kind : Request → List Resource → Prop) (key : Key) (now : Instant) :
    Prop :=
  ∃ e work, q.entries.find key = some e ∧ e.work = some work ∧ now < work.deadline ∧
    now < e.touched + retention ∧ kind work e.resources

theorem expireEntry_some {held : Bool} {now : Instant} {d e : Entry}
    (h : expireEntry held now d = some e) : e = d.expire now := by
  unfold expireEntry at h
  split at h
  · exact (Option.some.inj h).symm
  · cases h

theorem Queue.Cool.prune {t : Instant} (h : q.Cool key t) (now : Instant) :
    (q.prune now).Cool key t := by
  intro e he
  rw [find_prune] at he
  obtain ⟨d, hd, he⟩ := Option.bind_eq_some_iff.mp he
  rw [expireEntry_some he, Entry.expire_notBefore]
  exact h d hd

theorem Queue.Alive.prune {kind : Request → List Resource → Prop} {t now : Instant}
    (h : q.Alive kind key t) (hnow : now ≤ t) : (q.prune now).Alive kind key t ∧ ∀ e, q.entries.find key = some e →
      (q.prune now).entries.find key = some e := by
  obtain ⟨e, work, he, hwork, hdeadline, hfresh, hkind⟩ := h
  have hlive : ¬work.deadline ≤ now := not_le.mpr (hnow.trans_lt hdeadline)
  have hretained : now < e.touched + retention := hnow.trans_lt hfresh
  have hexpire : e.expire now = e := by
    rw [Entry.expire, hwork, Option.any_some, decide_eq_false hlive]
    rfl
  have hfind : (q.prune now).entries.find key = some e := by
    rw [find_prune, he, Option.bind_some, expireEntry, hexpire, decide_eq_true hretained,
      Bool.or_true, if_pos rfl]
  refine ⟨⟨e, work, hfind, hwork, hdeadline, hfresh, hkind⟩, fun d hd => ?_⟩
  rw [hfind, ← he, hd]

theorem refreshed_notBefore {old : Option Entry} {work : Request} {resources : List Resource}
    {now t : Instant} (h : ∀ e, old = some e → e.notBefore ≤ t) (hnow : now ≤ t) :
    (refreshed old work resources now).notBefore ≤ t := by
  cases old with
  | none => exact hnow
  | some e => exact h e rfl

variable {tickets : List Pending} {action : Action} {actions : List Action}

theorem Passes.cool (hp : Passes outstanding keys r action q q')
    (hb : Between keys r tickets action) (hheld : q.held key = false) {t : Instant}
    (ht : r.prune ≤ t) (h : q.Cool key t) : q'.Cool key t := by
  intro e he
  rcases hp.entry key hheld with ⟨-, now, -, hfind⟩ | ⟨work, resources, times, rfl, -, hfind⟩
  · rw [hfind] at he
    exact h.prune now e he
  · rw [hfind] at he
    cases he
    cases hb with
    | offer _ _ _ key valid deadline fresh prune entry =>
      exact refreshed_notBefore (h.prune times.prune) (entry.trans ht)

theorem Passes.alive (hp : Passes outstanding keys r action q q')
    (hb : Between keys r tickets action) (hheld : q.held key = false)
    {kind : Request → List Resource → Prop}
    (hkind : ∀ work resources times, action = .offer work resources times →
      work.identity.key = key → kind work resources)
    (h : q.Alive kind key r.prune ∨ ∃ work resources times,
      action = .offer work resources times ∧ work.identity.key = key) :
    q'.Alive kind key r.prune := by
  rcases hp.entry key hheld with ⟨hother, now, hnow, hfind⟩ | ⟨work, resources, times, rfl, hkey, hfind⟩
  · obtain ⟨e, work, he, hrest⟩ := (h.resolve_right fun ⟨work, resources, times, ha, hkey⟩ =>
      hother work resources times ha hkey).prune hnow |>.1
    exact ⟨e, work, hfind.trans he, hrest⟩
  · cases hb with
    | offer _ _ _ key valid deadline fresh prune entry =>
      exact ⟨_, work, hfind, rfl, deadline, fresh, hkind work resources times rfl hkey⟩

theorem held_of_tickets (h : ∀ p ∈ q'.tickets, p ∈ q.tickets) {key : Key}
    (hheld : q.held key = false) : q'.held key = false := by
  rw [← Bool.not_eq_true] at hheld ⊢
  intro hk
  obtain ⟨p, hp, hkey⟩ := held_iff.mp hk
  exact hheld (held_iff.mpr ⟨p, h p hp, hkey⟩)

/-- **A round.** No ticket is added, the cursor stands still, and a waiting key that is offered is
alive at the call. -/
theorem round_passes (h : Inside outstanding keys q) (hcard : keys.card ≤ limit)
    (hb : ∀ a ∈ actions, Between keys r tickets a) (hrun : run outstanding q actions = some q') :
    Inside outstanding keys q' ∧ Still q q' ∧ (∀ p ∈ q'.tickets, p ∈ q.tickets) ∧
      ∀ key, q.held key = false →
        (∀ t, r.prune ≤ t → q.Cool key t → q'.Cool key t) ∧
        ∀ kind : Request → List Resource → Prop,
          (∀ work resources times, Action.offer work resources times ∈ actions →
            work.identity.key = key → kind work resources) →
          (q.Alive kind key r.prune ∨ ∃ work resources times,
            Action.offer work resources times ∈ actions ∧ work.identity.key = key) →
          q'.Alive kind key r.prune := by
  induction actions generalizing q with
  | nil =>
    obtain rfl := Option.some.inj hrun
    refine ⟨h, ⟨rfl, rfl⟩, fun _ hp => hp, fun key _ => ⟨fun _ _ hcool => hcool, fun _ _ halive => ?_⟩⟩
    exact halive.resolve_right fun ⟨_, _, _, hmem, _⟩ => absurd hmem List.not_mem_nil
  | cons action actions ih =>
    obtain ⟨q₁, hstep, hrest⟩ := Option.bind_eq_some_iff.mp hrun
    have hbetween := hb action List.mem_cons_self
    have hp := hbetween.passes h hcard hstep
    obtain ⟨hinside, hstill, htickets, hkey⟩ :=
      ih hp.inside (fun a ha => hb a (List.mem_cons_of_mem _ ha)) hrest
    refine ⟨hinside, hp.still.trans hstill, fun p hq => hp.tickets p (htickets p hq),
      fun key hheld => ?_⟩
    obtain ⟨hcool, halive⟩ := hkey key (held_of_tickets hp.tickets hheld)
    refine ⟨fun t ht hq => hcool t ht (hp.cool hbetween hheld ht hq), fun kind hkind hq => ?_⟩
    have hfirst : ∀ work resources times, action = .offer work resources times →
        work.identity.key = key → kind work resources :=
      fun work resources times ha => hkind work resources times (ha ▸ List.mem_cons_self)
    apply halive kind fun work resources times hmem =>
      hkind work resources times (List.mem_cons_of_mem _ hmem)
    rcases hq with hq | ⟨work, resources, times, hmem, hsame⟩
    · exact .inl (hp.alive hbetween hheld hfirst (.inl hq))
    · rcases List.mem_cons.mp hmem with ha | hmem
      · left
        exact hp.alive hbetween hheld hfirst (.inr ⟨work, resources, times, ha.symm, hsame⟩)
      · exact .inr ⟨work, resources, times, hmem, hsame⟩

/-! ## One admission -/

/-- The queue after the executor accepted the work of a key. -/
def Queue.admitted (q : Queue) (k : Key) (e : Entry) (work : Request) (ticket : Nat)
    (declared : Bool) : Queue :=
  { q with
    entries := q.entries.upsert { e with
      work := none
      last := q.sequence + 1 }
    pending := if declared then q.pending else some ⟨k, work.identity, ticket, e.resources⟩
    pendingSets := if declared then q.pendingSets.upsert ⟨k, work.identity, ticket, e.resources⟩
      else q.pendingSets
    sequence := q.sequence + 1
    cursor := q.cursor.accepted k }

variable {k : Key} {e : Entry} {work : Request} {ticket : Nat} {declared : Bool} {a : Attempt}

theorem admitOne_accepted (hsequence : q.sequence + 1 < 2 ^ 64)
    (hfind : q.entries.find k = some e) (hwork : e.work = some work)
    (ha : a.answer = .accepted ticket) :
    q.admitOne k a declared = some ⟨true, q.admitted k e work ticket declared, []⟩ := by
  rw [Queue.admitOne, if_neg (not_le.mpr hsequence), hfind]
  dsimp only
  rw [hwork]
  dsimp only
  rw [ha]
  cases declared <;> rfl

theorem admitted_admits (hfind : q.entries.find k = some e) (hwork : e.work = some work) :
    Admits q k declared ⟨true, q.admitted k e work ticket declared, []⟩ :=
  .accepts e work ticket hfind hwork

theorem admitted_find (hfind : q.entries.find k = some e) (hne : key ≠ k) :
    (q.admitted k e work ticket declared).entries.find key = q.entries.find key := by
  apply Table.find_upsert_ne
  have hkey : e.key = k := Table.find_key hfind
  change e.key ≠ key
  rw [hkey]
  exact hne.symm

theorem admitted_held (hnone : q.pending = none) :
    (q.admitted k e work ticket declared).held key = true ↔ key = k ∨ q.held key = true := by
  simp only [Queue.held, Queue.admitted, hnone, Option.any_none, Bool.false_or]
  cases declared with
  | true =>
    simp only [if_true, Option.any_none, Bool.false_or, Table.find_upsert]
    split
    · next h => simp [h]
    · next h => simp [Ne.symm h]
  | false =>
    simp only [Bool.false_eq_true, if_false, Option.any_some, Bool.or_eq_true, decide_eq_true_eq,
      eq_comm (a := k)]

/-- The history stays within the projects of the offered keys. -/
theorem Inside.accepted (h : Inside outstanding keys q) (hcard : keys.card ≤ limit) (hk : k ∈ keys) :
    (q.cursor.accepted k).overflow = false ∧
      ∀ t ∈ (q.cursor.accepted k).threads.rows, t.1 ∈ projects keys := by
  have hfits : ¬(q.cursor.overflow = false ∧ q.cursor.threads.find k.1 = none ∧
      FairAdmission.limit ≤ q.cursor.threads.rows.length) := by
    rintro ⟨-, hnew, hfull⟩
    have hsub : (q.cursor.threads.rows.map Prod.fst).toFinset ⊆ (projects keys).erase k.1 := by
      intro p hp
      obtain ⟨t, ht, rfl⟩ := List.mem_map.mp (List.mem_toFinset.mp hp)
      refine Finset.mem_erase.mpr ⟨fun hsame => ?_, h.threads t ht⟩
      rw [← hsame, Table.find_of_mem ht] at hnew
      cases hnew
    have hle := Finset.card_le_card hsub
    have hmem : k.1 ∈ projects keys := FairAdmission.mem_projects hk
    rw [List.toFinset_card_of_nodup q.cursor.threads.nodup, List.length_map,
      Finset.card_erase_of_mem hmem] at hle
    have hpos : 0 < (projects keys).card := Finset.card_pos.mpr ⟨_, hmem⟩
    have hprojects : (projects keys).card ≤ keys.card := Finset.card_image_le
    have hlimit : limit = FairAdmission.limit := rfl
    omega
  unfold FairAdmission.Cursor.accepted
  rw [if_neg hfits]
  refine ⟨h.kept, fun t ht => ?_⟩
  simp only [h.kept, Bool.false_eq_true, if_false] at ht
  rcases Table.mem_upsert.mp ht with rfl | ⟨ht, -⟩
  · exact FairAdmission.mem_projects hk
  · exact h.threads t ht

theorem Inside.admitted (h : Inside outstanding keys q) (hcard : keys.card ≤ limit)
    (hfind : q.entries.find k = some e)
    (hsound : Sound outstanding (q.admitted k e work ticket declared)) :
    Inside outstanding keys (q.admitted k e work ticket declared) := by
  have hkey : e.key = k := Table.find_key hfind
  have hk : k ∈ keys := hkey ▸ h.entries e (Table.mem_of_find hfind)
  obtain ⟨hkept, hthreads⟩ := h.accepted hcard hk
  refine ⟨hsound, fun d hd => ?_, hkept, hthreads⟩
  rcases Table.mem_upsert.mp hd with rfl | ⟨hd, -⟩
  · exact hkey ▸ hk
  · exact h.entries d hd

/-- **A turn.** What is admitted before a waiting key brings it closer. -/
theorem Inside.closer (h : Inside outstanding keys q) (hcard : keys.card ≤ limit) (hk : k ∈ keys)
    (hkey : key ∈ keys) (hfirst : q.cursor.compare k key ≠ .gt) (hne : k ≠ key) :
    (q.cursor.accepted k).wait keys key < q.cursor.wait keys key := by
  apply FairAdmission.Cursor.wait_accepted hk hkey hfirst hne
  rw [(h.accepted hcard hk).1, h.kept]

/-! ## Candidates -/

theorem minBy_compare {c : Cursor} {l : List Entry} {first : Entry}
    (h : minBy (fun a b => c.compare a.key b.key) l = some first) :
    ∀ e ∈ l, c.compare first.key e.key ≠ .gt := by
  obtain ⟨heq, hswap, htrans⟩ := c.compare_total
  have hrefl : ∀ a : Entry, c.compare a.key a.key ≠ .gt := by
    intro a
    rw [(heq _ _).mpr rfl]
    nofun
  have hturn : ∀ a b : Entry, c.compare a.key b.key = .gt → c.compare b.key a.key ≠ .gt := by
    intro a b hab
    rw [hswap, hab]
    nofun
  exact minBy_le hrefl hturn (fun a b d => htrans _ _ _) h

theorem nextWhere_first {head : Instant} (h : q.nextWhere (fun _ => true) head = some k) :
    (∃ e work, q.entries.find k = some e ∧ e.work = some work) ∧
      ∀ e ∈ q.entries.rows, e.work.isSome = true → e.notBefore ≤ head →
        q.cursor.compare k e.key ≠ .gt := by
  obtain ⟨e, hfind, hp⟩ := find_of_minBy h
  obtain ⟨first, hfirst, rfl⟩ := Option.map_eq_some_iff.mp h
  simp only [Bool.and_eq_true, Option.any_eq_true] at hp
  obtain ⟨⟨work, hwork, -⟩, -⟩ := hp
  refine ⟨⟨e, work, hfind, hwork⟩, fun d hd hsome hcool => ?_⟩
  apply minBy_compare hfirst d
  obtain ⟨w, hw⟩ := Option.isSome_iff_exists.mp hsome
  exact List.mem_filter.mpr ⟨hd, by simp [hw, hcool]⟩

/-- A waiting offer competes for the single ticket. -/
theorem nextWhere_some {head : Instant} (hfind : q.entries.find key = some e)
    (hwork : e.work = some work) (hcool : e.notBefore ≤ head) :
    ∃ k, q.nextWhere (fun _ => true) head = some k := by
  unfold Queue.nextWhere
  cases hmin : minBy (fun a b => q.cursor.compare a.key b.key) (q.entries.rows.filter fun e =>
      e.work.any (fun _ => true) && decide (e.notBefore ≤ head)) with
  | some first => exact ⟨_, rfl⟩
  | none =>
    have hempty := List.filter_eq_nil_iff.mp (minBy_eq_none_iff.mp hmin) e (Table.mem_of_find hfind)
    simp [hwork, hcool] at hempty

/-- A declared offer has declared resources and no exclusive identity. -/
theorem nextDeclared_declared {now : Instant}
    (h : q.nextDeclared (fun _ => true) now = some k) :
    ∃ e work, q.entries.find k = some e ∧ e.work = some work ∧ undeclared work e.resources = false := by
  obtain ⟨e, hfind, hp⟩ := find_of_minBy h
  simp only [Bool.and_eq_true, Option.any_eq_true, Bool.not_eq_true'] at hp
  obtain ⟨⟨⟨work, hwork, -, hexclusive⟩, hresources⟩, -⟩ := hp
  exact ⟨e, work, hfind, hwork, by rw [undeclared, hresources, hexclusive]; rfl⟩

/-! ## One call -/

/-- What a call does for a waiting key: it is admitted, or it waits on and another key that was
admitted brings it closer, or nothing happens because there are tickets. -/
inductive Outcome (keys : Finset Key) (key : Key) (q q' : Queue) : Prop
  | admitted (h : q'.held key = true)
  | closer (held : q'.held key = false) (entry : q'.entries.find key = q.entries.find key)
    (wait : q'.cursor.wait keys key < q.cursor.wait keys key)
  | idle (h : q' = q) (tickets : q.tickets ≠ [])

/-- The key waits with this entry at all clock readings of a call. -/
structure Queue.Contends (q : Queue) (key : Key) (r : Round) : Prop where
  held : q.held key = false
  waits : ∃ e ∈ q.entries.find key, ∃ work ∈ e.work, undeclared work e.resources = true ∧
    e.notBefore ≤ r.head

/-- A declared offer that is next is another key than one that waits undeclared. -/
theorem Queue.Contends.ne {now : Instant} (h : q.Contends key r)
    (hnext : q.nextDeclared (fun _ => true) now = some k) : k ≠ key := by
  rintro rfl
  obtain ⟨e, hfind, work, hwork, hundeclared, -⟩ := h.waits
  obtain ⟨d, w, hdfind, hdwork, hdeclared⟩ := nextDeclared_declared hnext
  obtain rfl := Option.some.inj (hfind.symm.trans hdfind)
  obtain rfl := Option.some.inj (hwork.symm.trans hdwork)
  rw [hundeclared] at hdeclared
  cases hdeclared

/-- The entry of a key changes only when the key is admitted. -/
structure Stays (key : Key) (q q' : Queue) : Prop where
  held : q.held key = true → q'.held key = true
  entry : q'.held key = true ∨ q'.entries.find key = q.entries.find key

theorem Stays.refl (key : Key) (q : Queue) : Stays key q q := ⟨id, .inr rfl⟩

theorem Stays.trans {q'' : Queue} (h : Stays key q q') (h' : Stays key q' q'') :
    Stays key q q'' := by
  refine ⟨fun hq => h'.held (h.held hq), ?_⟩
  rcases h'.entry with hheld | hsame
  · exact .inl hheld
  · rcases h.entry with hheld | hentry
    · exact .inl (h'.held hheld)
    · exact .inr (hsame.trans hentry)

/-- An executor that accepts is asked for work, or nothing happens. -/
theorem admitOne_cases (ha : a.answer = .accepted ticket) :
    (∃ errors, q.admitOne k a declared = some ⟨false, q, errors⟩) ∨
      ∃ e work, q.entries.find k = some e ∧ e.work = some work ∧
        q.admitOne k a declared = some ⟨true, q.admitted k e work ticket declared, []⟩ := by
  by_cases hsequence : q.sequence + 1 < 2 ^ 64
  · cases hfind : q.entries.find k with
    | none =>
      left
      exact ⟨_, by rw [Queue.admitOne, if_neg (not_le.mpr hsequence), hfind]⟩
    | some e =>
      cases hwork : e.work with
      | none =>
        left
        refine ⟨[], ?_⟩
        rw [Queue.admitOne, if_neg (not_le.mpr hsequence), hfind]
        dsimp only
        rw [hwork]
      | some work =>
        exact .inr ⟨e, work, rfl, hwork, admitOne_accepted hsequence hfind hwork ha⟩
  · exact .inl ⟨_, by rw [Queue.admitOne, if_pos (not_lt.mp hsequence)]⟩

theorem admitted_stays (hnone : q.pending = none) (hfind : q.entries.find k = some e) :
    Stays key q (q.admitted k e work ticket declared) := by
  refine ⟨fun hheld => (admitted_held hnone).mpr (.inr hheld), ?_⟩
  by_cases hsame : key = k
  · exact .inl ((admitted_held hnone).mpr (.inl hsame))
  · exact .inr (admitted_find hfind hsame)

theorem Inside.admitDeclared (hcard : keys.card ≤ limit) {attempts : Nat → Attempt}
    (haccepts : ∀ turn, ∃ ticket, (attempts turn).answer = .accepted ticket) {fuel : Nat}
    (h : Inside outstanding keys q) (hnone : q.pending = none) {turn : Nat}
    {f : Queue × List String}
    (hf : q.admitDeclared outstanding (fun _ => true) attempts turn fuel = some f) :
    Inside outstanding keys f.1 ∧ ∀ key, Stays key q f.1 := by
  induction fuel generalizing q turn f with
  | zero =>
    obtain rfl := Option.some.inj hf
    exact ⟨h, fun key => .refl key q⟩
  | succ fuel ih =>
    unfold Queue.admitDeclared at hf
    split at hf
    · next hroom =>
      split at hf
      · obtain rfl := Option.some.inj hf
        exact ⟨h, fun key => .refl key q⟩
      · next k hnext =>
        obtain ⟨ticket, hticket⟩ := haccepts turn
        rcases admitOne_cases hticket with ⟨errors, ha⟩ | ⟨e, work, hfind, hwork, ha⟩
        · rw [ha] at hf
          obtain rfl := Option.some.inj hf
          exact ⟨h, fun key => .refl key q⟩
        · have hadmits : Admits q k true ⟨true, q.admitted k e work ticket true, []⟩ :=
            admitted_admits hfind hwork
          obtain ⟨⟨hsound, -⟩, hpending, -⟩ := h.sound.admitsDeclared hnone hroom hnext hadmits
          rw [ha, Option.bind_eq_bind, Option.bind_some, if_pos rfl] at hf
          obtain ⟨⟨q₁, errors⟩, hrest, hf⟩ := Option.bind_eq_some_iff.mp hf
          obtain rfl := Option.some.inj hf
          have hlast := ih (h.admitted hcard hfind hsound) hpending hrest
          exact ⟨hlast.1, fun key => (admitted_stays hnone hfind).trans (hlast.2 key)⟩
    · obtain rfl := Option.some.inj hf
      exact ⟨h, fun key => .refl key q⟩

/-- A call keeps to the offered keys. -/
theorem Inside.call (h : Inside outstanding keys q) (hcard : keys.card ≤ limit)
    (haccepts : ∀ turn, ∃ ticket, (r.attempts turn).answer = .accepted ticket)
    (hstep : step outstanding q r.call = some q') :
    Inside outstanding keys q' ∧ ∀ key, Stays key (q.prune r.prune) q' := by
  obtain ⟨f, hf, rfl⟩ := Option.map_eq_some_iff.mp hstep
  have hp := h.prune r.prune
  unfold Queue.admitMatching at hf
  dsimp only at hf
  generalize q.prune r.prune = q at hp hf ⊢
  split at hf
  · obtain rfl := Option.some.inj hf
    exact ⟨hp, fun key => .refl key q⟩
  · next hpending =>
    have hnone : q.pending = none := Option.not_isSome_iff_eq_none.mp hpending
    split at hf
    · exact hp.admitDeclared hcard haccepts hnone hf
    · next hsets =>
      have hempty : q.pendingSets.rows = [] := by simpa using hsets
      split at hf
      · obtain rfl := Option.some.inj hf
        exact ⟨hp, fun key => .refl key q⟩
      · next k hhead =>
        split at hf
        · exact hp.admitDeclared hcard haccepts hnone hf
        · obtain ⟨ticket, hticket⟩ := haccepts 0
          rcases admitOne_cases hticket with ⟨errors, ha⟩ | ⟨e, work, hfind, hwork, ha⟩
          · rw [ha] at hf
            obtain rfl := Option.some.inj hf
            exact ⟨hp, fun key => .refl key q⟩
          · have hadmits : Admits q k false ⟨true, q.admitted k e work ticket false, []⟩ :=
              admitted_admits hfind hwork
            rw [ha] at hf
            obtain rfl := Option.some.inj hf
            exact ⟨hp.admitted hcard hfind (hp.sound.admitsSingle hnone hempty hadmits).1,
              fun key => admitted_stays hnone hfind⟩

/-! ## Along a run -/

section Along

variable {delay : Nat} {rounds : Nat → Round} {start before : Nat → Queue}

theorem Run.inside (hrun : Run outstanding rounds start before)
    (hserved : Served keys delay rounds start before) (n : Nat) :
    Inside outstanding keys (start n) ∧ Inside outstanding keys (before n) := by
  have hround : ∀ n, Inside outstanding keys (start n) → Inside outstanding keys (before n) :=
    fun n h => (round_passes h hserved.bounded (hserved.between n) (hrun.actions n)).1
  induction n with
  | zero =>
    have hnew : Inside outstanding keys (start 0) := hrun.new ▸ inside_new
    exact ⟨hnew, hround 0 hnew⟩
  | succ n ih =>
    have hnext := (ih.2.call hserved.bounded (hserved.accepts n) (hrun.call n)).1
    exact ⟨hnext, hround (n + 1) hnext⟩

end Along

/-! ## A brief alone -/

def brief : Key := ("/projects/b", "brief:t-1")

section Along

variable {start before : Nat → Queue}

end Along

end Herdr.CopyQueue
