import Herdr.Lib.Table
import Herdr.Lib.Topological
import Mathlib.Data.Finset.Card

/-!
# Searching a graph

Two loops over a graph that is given by the successors of an item. `explore` visits the items that
are reachable from those pending, each once, and accumulates what it reads at them; it stops at a
limit. `depthFirst` looks for a cycle in a graph that was collected before: its stack holds items to
enter and, below what an item put on it, the mark to leave that item.
-/

namespace GraphSearch

open Relation

/-! ## Visiting what is reachable -/

section Explore

variable {α κ β ε : Type} [DecidableEq κ] (key : α → κ) (limit : Nat) (full : ε)
  (join : List α → List α → List α) (expand : α → β → Except ε (List α × β))

/-- Expand the pending items whose key was not visited. `join` adds what was found to what is
pending. -/
def explore (visited : List κ) (acc : β) : List α → Except ε β
  | [] => .ok acc
  | a :: pending =>
    if key a ∈ visited then explore visited acc pending
    else if limit ≤ visited.length then .error full
    else match expand a acc with
      | .error e => .error e
      | .ok (next, acc) => explore (key a :: visited) acc (join pending next)
termination_by pending => (limit - visited.length, pending.length)
decreasing_by
  · exact Prod.Lex.right _ (by simp)
  · exact Prod.Lex.left _ _ (by simp only [List.length_cons]; omega)

/-- The items that a search expands, whatever its outcome. -/
def trail (visited : List κ) (acc : β) : List α → List α
  | [] => []
  | a :: pending =>
    if key a ∈ visited then trail visited acc pending
    else if limit ≤ visited.length then []
    else match expand a acc with
      | .error _ => [a]
      | .ok (next, acc) => a :: trail (key a :: visited) acc (join pending next)
termination_by pending => (limit - visited.length, pending.length)
decreasing_by
  · exact Prod.Lex.right _ (by simp)
  · exact Prod.Lex.left _ _ (by simp only [List.length_cons]; omega)

/-- The items in the given order, without the search. -/
def sweep (order : List α) (acc : β) : Except ε β :=
  order.foldlM (fun acc a => (expand a acc).map Prod.snd) acc

variable {key limit full join expand} {succ : α → List α}

theorem sweep_cons_ok {a : α} {order : List α} {acc out : β} :
    sweep expand (a :: order) acc = .ok out ↔
      ∃ next mid, expand a acc = .ok (next, mid) ∧ sweep expand order mid = .ok out := by
  unfold sweep
  rw [List.foldlM_cons]
  cases h : expand a acc with
  | error e => exact ⟨nofun, by rintro ⟨_, _, h, -⟩; cases h⟩
  | ok p => exact ⟨fun hout => ⟨p.1, p.2, rfl, hout⟩, by rintro ⟨_, _, h, hout⟩; cases h; exact hout⟩

theorem sweep_append {left right : List α} {acc : β} :
    sweep expand (left ++ right) acc = sweep expand left acc >>= sweep expand right := by
  unfold sweep
  rw [List.foldlM_append]

/-- What a search reads is what it expands, in some order: new items, each once, reachable from
those pending; and everything that was pending or found is visited in the end. -/
structure Swept (key : α → κ) (succ : α → List α) (visited : List κ) (pending order : List α) :
    Prop where
  nodup : (order.map key).Nodup
  fresh : ∀ a ∈ order, key a ∉ visited
  reached : ∀ a ∈ order, ∃ p ∈ pending, ReflTransGen (fun a b => b ∈ succ a) p a
  covers : ∀ p ∈ pending, key p ∈ visited ∨ key p ∈ order.map key
  closed : ∀ a ∈ order, ∀ b ∈ succ a, key b ∈ visited ∨ key b ∈ order.map key

namespace Swept

variable {visited : List κ} {pending order : List α} {a : α}

omit [DecidableEq κ] in
theorem skip (h : Swept key succ visited pending order) (ha : key a ∈ visited) :
    Swept key succ visited (a :: pending) order where
  nodup := h.nodup
  fresh := h.fresh
  reached := by
    intro b hb
    obtain ⟨p, hp, hpb⟩ := h.reached b hb
    exact ⟨p, List.mem_cons_of_mem a hp, hpb⟩
  covers := List.forall_mem_cons.mpr ⟨.inl ha, h.covers⟩
  closed := h.closed

omit [DecidableEq κ] in
theorem visit {more : List α} (hmore : ∀ {b}, b ∈ more ↔ b ∈ pending ∨ b ∈ succ a)
    (h : Swept key succ (key a :: visited) more order) (ha : key a ∉ visited) :
    Swept key succ visited (a :: pending) (a :: order) where
  nodup := by
    rw [List.map_cons, List.nodup_cons]
    refine ⟨fun hmem => ?_, h.nodup⟩
    obtain ⟨b, hb, hkey⟩ := List.mem_map.mp hmem
    exact h.fresh b hb (hkey ▸ List.mem_cons_self)
  fresh := List.forall_mem_cons.mpr ⟨ha, fun b hb hmem => h.fresh b hb (List.mem_cons_of_mem _ hmem)⟩
  reached := by
    refine List.forall_mem_cons.mpr ⟨⟨a, List.mem_cons_self, .refl⟩, fun b hb => ?_⟩
    obtain ⟨p, hp, hpb⟩ := h.reached b hb
    rcases hmore.mp hp with hp | hp
    · exact ⟨p, List.mem_cons_of_mem a hp, hpb⟩
    · exact ⟨a, List.mem_cons_self, .head hp hpb⟩
  covers := by
    refine List.forall_mem_cons.mpr ⟨.inr List.mem_cons_self, fun p hp => ?_⟩
    have := h.covers p (hmore.mpr (.inl hp))
    grind
  closed := by
    refine List.forall_mem_cons.mpr ⟨fun b hb => ?_, fun c hc b hb => ?_⟩
    · have := h.covers b (hmore.mpr (.inr hb))
      grind
    · have := h.closed c hc b hb
      grind

omit [DecidableEq κ] in
/-- From one item, the items read are those reachable from it. -/
theorem mem_iff {root : α} (h : Swept key succ [] [root] order)
    (hkey : ∀ {a b}, ReflTransGen (fun a b => b ∈ succ a) root a →
      ReflTransGen (fun a b => b ∈ succ a) root b → key a = key b → a = b) :
    a ∈ order ↔ ReflTransGen (fun a b => b ∈ succ a) root a := by
  have hreached : ∀ b ∈ order, ReflTransGen (fun a b => b ∈ succ a) root b := by
    intro b hb
    obtain ⟨p, hp, hpb⟩ := h.reached b hb
    rwa [List.mem_singleton.mp hp] at hpb
  have hmem : ∀ {b}, ReflTransGen (fun a b => b ∈ succ a) root b → key b ∈ order.map key →
      b ∈ order := by
    intro b hb hk
    obtain ⟨c, hc, he⟩ := List.mem_map.mp hk
    rwa [← hkey (hreached c hc) hb he]
  refine ⟨hreached a, fun ha => ?_⟩
  induction ha with
  | refl => exact hmem .refl ((h.covers root List.mem_cons_self).resolve_left List.not_mem_nil)
  | tail hab hbc ih =>
    exact hmem (hab.tail hbc) ((h.closed _ ih _ hbc).resolve_left List.not_mem_nil)

end Swept

/-- A search expands each item once, and no more of them than the limit allows. -/
theorem trail_bounded {visited : List κ} {acc : β} {pending : List α}
    (hlen : visited.length ≤ limit) :
    visited.length + (trail key limit join expand visited acc pending).length ≤ limit ∧
      ((trail key limit join expand visited acc pending).map key).Nodup ∧
      ∀ a ∈ trail key limit join expand visited acc pending, key a ∉ visited := by
  induction visited, acc, pending using trail.induct key limit join expand with
  | case1 visited acc =>
    rw [trail]
    exact ⟨hlen, List.nodup_nil, fun _ h => (List.not_mem_nil h).elim⟩
  | case2 visited acc a pending ha ih =>
    rw [trail, if_pos ha]
    exact ih hlen
  | case3 visited acc a pending ha hfull =>
    rw [trail, if_neg ha, if_pos hfull]
    exact ⟨hlen, List.nodup_nil, fun _ h => (List.not_mem_nil h).elim⟩
  | case4 visited acc a pending ha hroom e he =>
    rw [trail, if_neg ha, if_neg hroom, he]
    refine ⟨?_, by simp, by simpa using ha⟩
    simp only [List.length_cons, List.length_nil]
    omega
  | case5 visited acc a pending ha hroom next mid hexpand ih =>
    rw [trail, if_neg ha, if_neg hroom, hexpand]
    obtain ⟨hbound, hnodup, hfresh⟩ := ih (by simp only [List.length_cons]; omega)
    refine ⟨?_, ?_, List.forall_mem_cons.mpr ⟨ha, fun b hb hmem =>
      hfresh b hb (List.mem_cons_of_mem _ hmem)⟩⟩
    · simp only [List.length_cons] at hbound ⊢
      omega
    · refine List.nodup_cons.mpr ⟨fun hmem => ?_, hnodup⟩
      obtain ⟨b, hb, hkey⟩ := List.mem_map.mp hmem
      exact hfresh b hb (hkey ▸ List.mem_cons_self)

variable (hjoin : ∀ (pending next : List α) (b : α), b ∈ join pending next ↔ b ∈ pending ∨ b ∈ next)
  (hsucc : ∀ a acc next mid, expand a acc = .ok (next, mid) → next = succ a)
include hjoin hsucc

/-- **Soundness of the search.** It read every item that is reachable, and each once. -/
theorem explore_sound {visited : List κ} {acc out : β} {pending : List α}
    (hlen : visited.length ≤ limit)
    (h : explore key limit full join expand visited acc pending = .ok out) :
    ∃ order, Swept key succ visited pending order ∧ visited.length + order.length ≤ limit ∧
      sweep expand order acc = .ok out := by
  induction visited, acc, pending using explore.induct key limit join expand with
  | case1 visited acc =>
    rw [explore] at h
    exact ⟨[], ⟨by simp, by simp, by simp, by simp, by simp⟩, hlen, h⟩
  | case2 visited acc a pending ha ih =>
    rw [explore, if_pos ha] at h
    obtain ⟨order, hswept, hbound, hout⟩ := ih hlen h
    exact ⟨order, hswept.skip ha, hbound, hout⟩
  | case3 visited acc a pending ha hfull =>
    rw [explore, if_neg ha, if_pos hfull] at h
    cases h
  | case4 visited acc a pending ha hroom e he =>
    rw [explore, if_neg ha, if_neg hroom, he] at h
    cases h
  | case5 visited acc a pending ha hroom next mid hexpand ih =>
    rw [explore, if_neg ha, if_neg hroom, hexpand] at h
    obtain ⟨order, hswept, hbound, hout⟩ := ih (by simp only [List.length_cons]; omega) h
    obtain rfl := hsucc _ _ _ _ hexpand
    refine ⟨a :: order, hswept.visit (hjoin _ _ _) ha, ?_, sweep_cons_ok.mpr ⟨_, _, hexpand, hout⟩⟩
    simp only [List.length_cons] at hbound ⊢
    omega

/-- **Completeness of the search.** It succeeds when, in whatever order, the reachable items are
within the limit and can be read. -/
theorem explore_complete {start : List α} {init : β}
    (hreads : ∀ order : List α, (order.map key).Nodup →
      (∀ a ∈ order, ∃ p ∈ start, ReflTransGen (fun a b => b ∈ succ a) p a) →
      order.length ≤ limit ∧ ∃ out, sweep expand order init = .ok out)
    {visited : List κ} {acc : β} {pending : List α} (order : List α)
    (hvisited : visited = (order.map key).reverse) (hnodup : (order.map key).Nodup)
    (hacc : sweep expand order init = .ok acc)
    (hreach : ∀ a ∈ order ++ pending, ∃ p ∈ start, ReflTransGen (fun a b => b ∈ succ a) p a) :
    ∃ out, explore key limit full join expand visited acc pending = .ok out := by
  have hnext : ∀ {visited acc a pending order}, visited = (order.map key).reverse →
      (order.map key).Nodup →
      (∀ a' ∈ order ++ a :: pending, ∃ p ∈ start, ReflTransGen (fun a b => b ∈ succ a) p a') →
      sweep expand order init = .ok acc → key a ∉ visited →
      visited.length < limit ∧ ((order ++ [a]).map key).Nodup ∧
        ∃ next mid, expand a acc = .ok (next, mid) := by
    intro visited acc a pending order hvisited hnodup hreach hacc ha
    subst hvisited
    have hkeys : ((order ++ [a]).map key).Nodup := by
      rw [List.map_append, List.nodup_append]
      refine ⟨hnodup, by simp, ?_⟩
      rintro k hk _ hmem rfl
      obtain rfl : k = key a := by simpa using hmem
      exact ha (List.mem_reverse.mpr hk)
    obtain ⟨hbound, out, hout⟩ := hreads (order ++ [a]) hkeys fun b hb => hreach b (by
      simp only [List.mem_append, List.mem_cons, List.not_mem_nil, or_false] at hb ⊢
      grind)
    rw [sweep_append, hacc] at hout
    obtain ⟨next, mid, hexpand, -⟩ := sweep_cons_ok.mp hout
    refine ⟨?_, hkeys, next, mid, hexpand⟩
    simp only [List.length_append, List.length_cons, List.length_nil, List.length_reverse,
      List.length_map] at hbound ⊢
    omega
  induction visited, acc, pending using explore.induct key limit join expand
    generalizing order with
  | case1 visited acc => exact ⟨acc, by rw [explore]⟩
  | case2 visited acc a pending ha ih =>
    rw [explore, if_pos ha]
    exact ih order hvisited hnodup hacc fun b hb => hreach b (by grind)
  | case3 visited acc a pending ha hfull =>
    have := (hnext hvisited hnodup hreach hacc ha).1
    omega
  | case4 visited acc a pending ha hroom e he =>
    obtain ⟨next, mid, hexpand⟩ := (hnext hvisited hnodup hreach hacc ha).2.2
    rw [he] at hexpand
    cases hexpand
  | case5 visited acc a pending ha hroom next mid hexpand ih =>
    rw [explore, if_neg ha, if_neg hroom, hexpand]
    have hkeys := (hnext hvisited hnodup hreach hacc ha).2.1
    refine ih (order ++ [a]) (by simp [hvisited]) hkeys ?_ ?_
    · rw [sweep_append, hacc]
      exact sweep_cons_ok.mpr ⟨_, _, hexpand, rfl⟩
    · intro b hb
      rw [List.mem_append, List.mem_append, hjoin] at hb
      rcases hb with (hb | hb) | hb | hb
      · exact hreach b (List.mem_append_left _ hb)
      · exact hreach b (by simp [List.mem_singleton.mp hb])
      · exact hreach b (by simp [hb])
      · obtain ⟨p, hp, hpa⟩ := hreach a (by simp)
        exact ⟨p, hp, hpa.tail (hsucc _ _ _ _ hexpand ▸ hb)⟩

end Explore

/-! ## Recursive queries -/

section Closure

variable {α : Type} [DecidableEq α] (succ : α → List α)

/-- Add the successors of what was found, as often as given. -/
def gather : Nat → List α → List α
  | 0, found => found
  | n + 1, found => gather n (found ++ (found.flatMap succ).filter (· ∉ found))

variable {succ} {nodes found : List α} {a b : α} {n : Nat}

theorem mem_gather_of_mem (h : a ∈ found) : a ∈ gather succ n found := by
  induction n generalizing found with
  | zero => exact h
  | succ n ih => exact ih (List.mem_append_left _ h)

theorem exists_of_mem_gather (h : b ∈ gather succ n found) :
    ∃ a ∈ found, ReflTransGen (fun a b => b ∈ succ a) a b := by
  induction n generalizing found with
  | zero => exact ⟨b, h, .refl⟩
  | succ n ih =>
    obtain ⟨a, ha, hab⟩ := ih h
    rcases List.mem_append.mp ha with ha | ha
    · exact ⟨a, ha, hab⟩
    · obtain ⟨c, hc, hca⟩ := List.mem_flatMap.mp (List.mem_filter.mp ha).1
      exact ⟨c, hc, .head hca hab⟩

theorem filter_new_of_closed (h : ∀ a ∈ found, succ a ⊆ found) :
    (found.flatMap succ).filter (· ∉ found) = [] := by
  rw [List.filter_eq_nil_iff]
  intro b hb
  obtain ⟨a, ha, hab⟩ := List.mem_flatMap.mp hb
  simpa using h a ha hab

theorem gather_of_closed (h : ∀ a ∈ found, succ a ⊆ found) : gather succ n found = found := by
  induction n with
  | zero => rfl
  | succ n ih => rw [gather, filter_new_of_closed h, List.append_nil, ih]

/-- A round that finds nothing new is the last; every other one leaves fewer items to be found. -/
theorem gather_closed (hsub : ∀ a, succ a ⊆ nodes)
    (hn : (nodes.filter (· ∉ found)).length ≤ n) (ha : a ∈ gather succ n found) :
    succ a ⊆ gather succ n found := by
  induction n generalizing found with
  | zero =>
    intro b hb
    have hnil := List.eq_nil_of_length_eq_zero (Nat.le_zero.mp hn)
    by_contra hnew
    have hmem : b ∈ nodes.filter (· ∉ found) :=
      List.mem_filter.mpr ⟨hsub a hb, by simpa [gather] using hnew⟩
    rw [hnil] at hmem
    exact List.not_mem_nil hmem
  | succ n ih =>
    by_cases hclosed : ∀ a ∈ found, succ a ⊆ found
    · rw [gather_of_closed hclosed] at ha ⊢
      exact hclosed a ha
    · simp only [not_forall] at hclosed
      obtain ⟨c, hc, hclosed⟩ := hclosed
      obtain ⟨b, hb, hnew⟩ : ∃ b ∈ succ c, b ∉ found := by
        by_contra hno
        exact hclosed fun b hb => by_contra fun hnew => hno ⟨b, hb, hnew⟩
      refine ih ?_ ha
      have hnext : b ∈ found ++ (found.flatMap succ).filter (· ∉ found) :=
        List.mem_append_right _
          (List.mem_filter.mpr ⟨List.mem_flatMap.mpr ⟨c, hc, hb⟩, by simpa using hnew⟩)
      have hsplit : nodes.filter (· ∉ found ++ (found.flatMap succ).filter (· ∉ found)) =
          (nodes.filter (· ∉ found)).filter
            (· ∉ found ++ (found.flatMap succ).filter (· ∉ found)) := by
        rw [List.filter_filter]
        apply List.filter_congr
        intro x _
        by_cases hx : x ∈ found <;> simp [hx]
      have hlt : ((nodes.filter (· ∉ found)).filter
          (· ∉ found ++ (found.flatMap succ).filter (· ∉ found))).length <
          (nodes.filter (· ∉ found)).length := by
        rw [List.length_filter_lt_length_iff_exists]
        exact ⟨b, List.mem_filter.mpr ⟨hsub c hb, by simpa using hnew⟩, by simpa only [decide_not, Bool.not_eq_true', decide_eq_false_iff_not, not_not]
          using hnext⟩
      rw [hsplit]
      omega

/-- **A recursive query is exact** when it makes as many rounds as there are items to find. -/
theorem mem_gather_iff (hsub : ∀ a, succ a ⊆ nodes) (hn : nodes.length ≤ n) :
    b ∈ gather succ n found ↔ ∃ a ∈ found, ReflTransGen (fun a b => b ∈ succ a) a b := by
  refine ⟨exists_of_mem_gather, ?_⟩
  rintro ⟨a, ha, hab⟩
  have hrounds : (nodes.filter (· ∉ found)).length ≤ n := (List.length_filter_le _ _).trans hn
  induction hab with
  | refl => exact mem_gather_of_mem ha
  | tail _ hbc ih => exact gather_closed hsub hrounds ih hbc

end Closure

/-! ## Looking for a cycle -/

inductive Verdict where
  | acyclic
  | cycle
  /-- An item that was not collected was looked up. -/
  | missing
deriving DecidableEq, Repr

section DepthFirst

variable {α : Type} [DecidableEq α] (graph : Table (α × List α) Prod.fst)

/-- The collected items that the search has not entered. -/
def unentered (active done : Finset α) : Finset α :=
  (graph.rows.map Prod.fst).toFinset \ (active ∪ done)

theorem unentered_leave {active done : Finset α} {a : α} :
    (unentered graph (active.erase a) (insert a done)).card ≤ (unentered graph active done).card := by
  apply Finset.card_le_card
  apply Finset.sdiff_subset_sdiff (Finset.Subset.refl _)
  intro b hb
  grind

theorem unentered_enter {active done : Finset α} {a : α} {node : α × List α}
    (hdone : a ∉ done) (hactive : a ∉ active) (hfind : graph.find a = some node) :
    (unentered graph (insert a active) done).card < (unentered graph active done).card := by
  have hmem : a ∈ graph.rows.map Prod.fst :=
    List.mem_map.mpr ⟨node, Table.mem_of_find hfind, Table.find_key hfind⟩
  apply Finset.card_lt_card
  refine Finset.ssubset_iff_subset_ne.mpr ⟨?_, fun he => ?_⟩
  · apply Finset.sdiff_subset_sdiff (Finset.Subset.refl _)
    intro b hb
    grind
  · have ha : a ∈ unentered graph active done := by simp [unentered, hdone, hactive, hmem]
    rw [← he] at ha
    simp [unentered] at ha

/-- Take what is on top of the stack: leave the item when it is marked, skip it when it is done,
and enter it otherwise. An item that is entered while it is active closes a cycle. -/
def depthFirst (active done : Finset α) : List (α × Bool) → Verdict
  | [] => .acyclic
  | (a, true) :: stack => depthFirst (active.erase a) (insert a done) stack
  | (a, false) :: stack =>
    if a ∈ done then depthFirst active done stack
    else if a ∈ active then .cycle
    else match _hfind : graph.find a with
      | none => .missing
      | some node =>
        depthFirst (insert a active) done
          ((node.2.map fun b => (b, false)).reverse ++ (a, true) :: stack)
termination_by stack => ((unentered graph active done).card, stack.length)
decreasing_by
  · exact Prod.Lex.right' _ (unentered_leave graph) (by simp)
  · exact Prod.Lex.right _ (by simp)
  · exact Prod.Lex.left _ _ (unentered_enter graph ‹_› ‹_› ‹_›)

variable {graph} {succ : α → List α} {root : α}

theorem depthFirst_enter {active done : Finset α} {a : α} {stack : List (α × Bool)}
    {node : α × List α} (hdone : a ∉ done) (hactive : a ∉ active)
    (hfind : graph.find a = some node) :
    depthFirst graph active done ((a, false) :: stack) =
      depthFirst graph (insert a active) done
        ((node.2.map fun b => (b, false)).reverse ++ (a, true) :: stack) := by
  rw [depthFirst, if_neg hdone, if_neg hactive]
  split
  · next hnone =>
    rw [hfind] at hnone
    cases hnone
  · next node hsome =>
    rw [hfind, Option.some.injEq] at hsome
    rw [hsome]

/-- The active items are those marked on the stack. What lies above a mark was found from its item,
which has no other successors that are not done. Items that are done lead to no cycle. -/
structure Searching (succ : α → List α) (root : α) (active done : Finset α)
    (stack : List (α × Bool)) : Prop where
  marked : ∀ a, a ∈ active ↔ (a, true) ∈ stack
  above : stack.Pairwise fun x y => y.2 = true →
    TransGen (fun a b => b ∈ succ a) y.1 x.1 ∧ (x.2 = true → x.1 ≠ y.1)
  found : ∀ pre a post, stack = pre ++ (a, true) :: post →
    ∀ b ∈ succ a, b ∈ done ∨ b ∈ pre.map Prod.fst
  settled : ∀ a ∈ done, Acc (fun b a => b ∈ succ a) a
  start : root ∈ done ∨ root ∈ stack.map Prod.fst
  reached : ∀ x ∈ stack, ReflTransGen (fun a b => b ∈ succ a) root x.1

namespace Searching

variable {active done : Finset α} {stack : List (α × Bool)} {a : α}

omit [DecidableEq α] in
theorem init : Searching succ root ∅ ∅ [(root, false)] where
  marked := by simp
  above := by simp
  found := by
    intro pre a post h
    cases pre <;> simp at h
  settled := by simp
  start := .inr (by simp)
  reached := by
    intro x hx
    rw [List.mem_singleton.mp hx]

theorem leave (h : Searching succ root active done ((a, true) :: stack)) :
    Searching succ root (active.erase a) (insert a done) stack where
  marked := by
    intro b
    have ha : ∀ y ∈ stack, y.2 = true → a ≠ y.1 := fun y hy hmark =>
      ((List.pairwise_cons.mp h.above).1 y hy hmark).2 rfl
    rw [Finset.mem_erase, h.marked b, List.mem_cons]
    refine ⟨?_, fun hb => ⟨fun he => ha _ hb rfl he.symm, .inr hb⟩⟩
    rintro ⟨hne, hb | hb⟩
    · exact absurd (congrArg Prod.fst hb) hne
    · exact hb
  above := (List.pairwise_cons.mp h.above).2
  found := by
    intro pre b post hstack c hc
    have := h.found ((a, true) :: pre) b post (by rw [hstack]; rfl) c hc
    rw [List.map_cons, List.mem_cons] at this
    rw [Finset.mem_insert]
    grind
  settled := by
    have hfound : ∀ b ∈ succ a, b ∈ done := fun b hb =>
      (h.found [] a stack rfl b hb).resolve_right List.not_mem_nil
    intro b hb
    rcases Finset.mem_insert.mp hb with rfl | hb
    · exact ⟨_, fun c hc => h.settled c (hfound c hc)⟩
    · exact h.settled b hb
  start := by
    have := h.start
    rw [List.map_cons, List.mem_cons] at this
    rw [Finset.mem_insert]
    grind
  reached x hx := h.reached x (List.mem_cons_of_mem _ hx)

omit [DecidableEq α] in
theorem skip (h : Searching succ root active done ((a, false) :: stack)) (ha : a ∈ done) :
    Searching succ root active done stack where
  marked := by
    intro b
    rw [h.marked b]
    simp
  above := (List.pairwise_cons.mp h.above).2
  found := by
    intro pre b post hstack c hc
    have := h.found ((a, false) :: pre) b post (by rw [hstack]; rfl) c hc
    rw [List.map_cons, List.mem_cons] at this
    grind
  settled := h.settled
  start := by
    have := h.start
    rw [List.map_cons, List.mem_cons] at this
    grind
  reached x hx := h.reached x (List.mem_cons_of_mem _ hx)

theorem enter (h : Searching succ root active done ((a, false) :: stack)) (hactive : a ∉ active) :
    Searching succ root (insert a active) done
      (((succ a).map fun b => (b, false)).reverse ++ (a, true) :: stack) where
  marked := by
    intro b
    have hb := h.marked b
    rw [List.mem_cons] at hb
    simp only [Finset.mem_insert, List.mem_append, List.mem_reverse, List.mem_map, List.mem_cons,
      Prod.mk.injEq]
    grind
  above := by
    obtain ⟨hhead, htail⟩ := List.pairwise_cons.mp h.above
    rw [List.pairwise_append]
    refine ⟨?_, List.pairwise_cons.mpr ⟨?_, htail⟩, ?_⟩
    · rw [List.pairwise_reverse, List.pairwise_map]
      exact List.pairwise_of_forall fun _ _ h => by cases h
    · intro y hy hmark
      refine ⟨(hhead y hy hmark).1, fun _ he => hactive ?_⟩
      rw [h.marked a]
      obtain ⟨b, m⟩ := y
      obtain rfl : m = true := hmark
      obtain rfl : a = b := he
      exact List.mem_cons_of_mem _ hy
    · intro x hx y hy hmark
      obtain ⟨b, hb, rfl⟩ := List.mem_map.mp (List.mem_reverse.mp hx)
      refine ⟨?_, fun hx => by cases hx⟩
      rcases List.mem_cons.mp hy with rfl | hy
      · exact .single hb
      · exact (hhead y hy hmark).1.tail hb
  found := by
    intro pre b post hstack c hc
    rcases List.append_eq_append_iff.mp hstack with ⟨mid, rfl, hmid⟩ | ⟨mid, hmid, hpost⟩
    · cases mid with
      | nil =>
        obtain ⟨he, -⟩ := List.cons.inj hmid
        cases he
        right
        simpa using hc
      | cons x mid =>
        obtain ⟨hx, htail⟩ := List.cons.inj hmid
        subst hx
        have := h.found ((a, false) :: mid) b post (by rw [htail]; rfl) c hc
        simp only [List.map_append, List.map_cons, List.mem_append, List.mem_cons] at this ⊢
        grind
    · cases mid with
      | nil =>
        obtain ⟨he, -⟩ := List.cons.inj hpost
        cases he
        right
        rw [List.append_nil] at hmid
        rw [← hmid]
        simpa using hc
      | cons x mid =>
        obtain ⟨rfl, -⟩ := List.cons.inj hpost
        have hmem : (b, true) ∈ ((succ a).map fun b => (b, false)).reverse := by
          rw [hmid]
          simp
        simp at hmem
  settled := h.settled
  start := by
    have := h.start
    simp only [List.map_append, List.map_cons, List.mem_append, List.mem_cons] at this ⊢
    grind
  reached := by
    have ha := h.reached (a, false) List.mem_cons_self
    intro x hx
    rcases List.mem_append.mp hx with hx | hx
    · obtain ⟨b, hb, rfl⟩ := List.mem_map.mp (List.mem_reverse.mp hx)
      exact ha.tail hb
    · rcases List.mem_cons.mp hx with rfl | hx
      · exact ha
      · exact h.reached x (List.mem_cons_of_mem _ hx)

omit [DecidableEq α] in
/-- An item on top of the stack that is active reaches itself. -/
theorem cycle (h : Searching succ root active done ((a, false) :: stack)) (ha : a ∈ active) :
    TransGen (fun a b => b ∈ succ a) a a := by
  have hmem := (h.marked a).mp ha
  rw [List.mem_cons] at hmem
  rcases hmem with hmem | hmem
  · cases hmem
  · exact ((List.pairwise_cons.mp h.above).1 (a, true) hmem rfl).1

end Searching

/-- What the search may answer. -/
def Verdict.Right (succ : α → List α) (root : α) : Verdict → Prop
  | .acyclic => Acc (fun b a => b ∈ succ a) root
  | .cycle => ∃ a, ReflTransGen (fun a b => b ∈ succ a) root a ∧
      TransGen (fun a b => b ∈ succ a) a a
  | .missing => False

theorem depthFirst_right
    (hgraph : ∀ a, ReflTransGen (fun a b => b ∈ succ a) root a → graph.find a = some (a, succ a))
    {active done : Finset α} {stack : List (α × Bool)}
    (h : Searching succ root active done stack) :
    (depthFirst graph active done stack).Right succ root := by
  induction active, done, stack using depthFirst.induct graph with
  | case1 active done =>
    rw [depthFirst]
    exact h.settled root (h.start.resolve_right List.not_mem_nil)
  | case2 active done a stack ih =>
    rw [depthFirst]
    exact ih h.leave
  | case3 active done a stack ha ih =>
    rw [depthFirst, if_pos ha]
    exact ih (h.skip ha)
  | case4 active done a stack hdone ha =>
    rw [depthFirst, if_neg hdone, if_pos ha]
    exact ⟨a, h.reached (a, false) List.mem_cons_self, h.cycle ha⟩
  | case5 active done a stack hdone ha hfind =>
    rw [hgraph a (h.reached (a, false) List.mem_cons_self)] at hfind
    cases hfind
  | case6 active done a stack hdone ha node hfind ih =>
    have hnode := hgraph a (h.reached (a, false) List.mem_cons_self)
    rw [hfind, Option.some.injEq] at hnode
    subst hnode
    rw [depthFirst_enter hdone ha hfind]
    exact ih (h.enter ha)

omit [DecidableEq α] in
theorem not_transGen_of_acc (h : Acc (fun b a => b ∈ succ a) root) {a : α}
    (ha : ReflTransGen (fun a b => b ∈ succ a) root a) : ¬TransGen (fun a b => b ∈ succ a) a a := by
  have hacc : Acc (fun b a => b ∈ succ a) a := by
    induction ha with
    | refl => exact h
    | tail _ hbc ih => exact ih.inv hbc
  intro hcycle
  refine Topological.not_rel_self_of_acc hacc.transGen (Relation.transGen_swap.mp ?_)
  exact hcycle

/-- **Exactness.** On a collected graph the search always answers, and it finds a cycle if and only
if there is one. -/
theorem depthFirst_iff
    (hgraph : ∀ a, ReflTransGen (fun a b => b ∈ succ a) root a → graph.find a = some (a, succ a)) :
    (depthFirst graph ∅ ∅ [(root, false)] = .acyclic ↔
        ∀ a, ReflTransGen (fun a b => b ∈ succ a) root a →
          ¬TransGen (fun a b => b ∈ succ a) a a) ∧
      depthFirst graph ∅ ∅ [(root, false)] ≠ .missing := by
  have h := depthFirst_right hgraph Searching.init
  cases hverdict : depthFirst graph ∅ ∅ [(root, false)] with
  | acyclic =>
    rw [hverdict] at h
    exact ⟨⟨fun _ a ha => not_transGen_of_acc h ha, fun _ => rfl⟩, nofun⟩
  | cycle =>
    rw [hverdict] at h
    obtain ⟨a, ha, hcycle⟩ := h
    exact ⟨⟨nofun, fun hno => absurd hcycle (hno a ha)⟩, nofun⟩
  | missing =>
    rw [hverdict] at h
    exact h.elim

end DepthFirst

end GraphSearch
