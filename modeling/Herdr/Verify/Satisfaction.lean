import Herdr.Lib.Run
import Herdr.Lib.Slots
import Herdr.Store.Satisfaction

/-!
# Re-attaching dependency evidence

The evidence table is a family of slots, one for each edge, whose names are the satisfaction
identities: an edge's valid row is what its slot holds, and an identity that any row has is spent,
because rows are never deleted and never become valid again. Every call puts a list of entries
into different slots, so it fails exactly when it is asked to attach evidence whose identity an
invalidated row still has.
-/

namespace Herdr

open Satisfactions

/-! ## The table as slots -/

/-- At most one row of each edge is valid. -/
def OneValid (t : Satisfactions) : Prop :=
  ∀ a ∈ t.rows, ∀ b ∈ t.rows, a.state = .valid → b.state = .valid → a.edge = b.edge → a = b

/-- What each edge has attached, and the identities that rows have. -/
def Satisfactions.slots (t : Satisfactions) : Slots Edge String String where
  current edge := (validRow t edge).map (·.evidenceId)
  used := Set.ofPred fun i => t.find i ≠ none

variable {t t' : Satisfactions} {edge e : Edge} {row r : Satisfaction} {l : Ledger} {now : Int}
  {evidence : String} {replaceExisting : Bool}

theorem validRow_mem (h : validRow t e = some row) :
    row ∈ t.rows ∧ row.state = .valid ∧ row.edge = e := by
  have hv := List.find?_some h
  simp only [Satisfaction.validFor, decide_eq_true_eq] at hv
  exact ⟨List.mem_of_find?_eq_some h, hv.2, hv.1⟩

theorem OneValid.validRow_eq_some (h : OneValid t) :
    validRow t e = some row ↔ row ∈ t.rows ∧ row.state = .valid ∧ row.edge = e := by
  refine ⟨validRow_mem, fun ⟨hm, hv, he⟩ => ?_⟩
  cases hr : validRow t e with
  | none =>
    have hno := List.find?_eq_none.mp hr row hm
    simp [Satisfaction.validFor, hv, he] at hno
  | some r =>
    obtain ⟨hm', hv', he'⟩ := validRow_mem hr
    rw [h r hm' row hm hv' hv (he'.trans he.symm)]

/-- The valid rows decide what the slots hold. -/
theorem OneValid.validRow_congr {e' : Edge} (h : OneValid t) (h' : OneValid t')
    (hrows : ∀ r : Satisfaction, r.state = .valid →
      (r ∈ t'.rows ∧ r.edge = e' ↔ r ∈ t.rows ∧ r.edge = e)) :
    validRow t' e' = validRow t e := by
  ext r
  rw [h'.validRow_eq_some, h.validRow_eq_some]
  constructor
  · rintro ⟨hm, hv, he⟩
    obtain ⟨hm, he⟩ := (hrows r hv).mp ⟨hm, he⟩
    exact ⟨hm, hv, he⟩
  · rintro ⟨hm, hv, he⟩
    obtain ⟨hm, he⟩ := (hrows r hv).mpr ⟨hm, he⟩
    exact ⟨hm, hv, he⟩

/-! ## Retiring the row of an edge -/

/-- The write before an insertion: the valid row of the edge becomes invalid. -/
def Satisfactions.retire (t : Satisfactions) (edge : Edge) : Satisfactions :=
  (validRow t edge).elim t fun row => t.update { row with state := .invalid }

/-- The identities stay, whatever becomes invalid. -/
theorem retire_find_eq_none {i : String} : (t.retire edge).find i = none ↔ t.find i = none := by
  unfold Satisfactions.retire
  cases hr : validRow t edge with
  | none => rfl
  | some row =>
    have hf := Table.find_of_mem (validRow_mem hr).1
    change Table.find (t.update { row with state := .invalid }) i = none ↔ _
    rw [Table.find_update]
    split
    · next he =>
      change row.satisfactionId = i at he
      simp
    · rfl

theorem mem_retire (h : OneValid t) (hv : r.state = .valid) :
    r ∈ (t.retire edge).rows ↔ r ∈ t.rows ∧ r.edge ≠ edge := by
  unfold Satisfactions.retire
  cases hr : validRow t edge with
  | none =>
    refine ⟨fun hm => ⟨hm, fun he => ?_⟩, And.left⟩
    rw [h.validRow_eq_some.mpr ⟨hm, hv, he⟩] at hr
    cases hr
  | some row =>
    obtain ⟨hm, hrv, hre⟩ := validRow_mem hr
    have hf : t.find ({ row with state := .invalid } : Satisfaction).satisfactionId = some row :=
      Table.find_of_mem hm
    change r ∈ (t.update { row with state := .invalid }).rows ↔ _
    rw [Table.mem_update_iff hf]
    constructor
    · rintro (rfl | ⟨hr', hne⟩)
      · cases hv
      · refine ⟨hr', fun he => hne ?_⟩
        rw [h r hr' row hm hv hrv (he.trans hre.symm)]
    · rintro ⟨hr', hne⟩
      refine .inr ⟨hr', fun he => hne ?_⟩
      rw [Table.eq_of_mem hr' hm he, hre]

theorem OneValid.retire (h : OneValid t) : OneValid (t.retire edge) := by
  intro a ha b hb hva hvb he
  exact h a ((mem_retire h hva).mp ha).1 b ((mem_retire h hvb).mp hb).1 hva hvb he

theorem OneValid.retire_empty (h : OneValid t) : validRow (t.retire edge) edge = none := by
  cases hr : validRow (t.retire edge) edge with
  | none => rfl
  | some row =>
    obtain ⟨hm, hv, he⟩ := validRow_mem hr
    exact absurd he ((mem_retire h hv).mp hm).2

/-! ## Writing a row -/

section Puts

variable [Digests]

/-- Retire and insert: one put. The identity is the only thing that can be in the way. -/
theorem replaceValid_simulates (now : Int) (h : OneValid t)
    (hcur : t.slots.current edge ≠ some evidence) :
    (∃ t', replaceValid now edge evidence t = .ok ((), t') ∧
      t.slots.put satisfactionId (edge, evidence) = some t'.slots ∧ OneValid t') ∨
    (replaceValid now edge evidence t = .error .conflict ∧
      t.slots.put satisfactionId (edge, evidence) = none) := by
  have hinsert : replaceValid now edge evidence t =
      Tx.insert (insertRow ⟨satisfactionId edge evidence, edge, .valid, edge.requirement, evidence,
        now⟩) .conflict (t.retire edge) := rfl
  rw [hinsert]
  set new : Satisfaction := ⟨satisfactionId edge evidence, edge, .valid, edge.requirement,
    evidence, now⟩ with hnew
  have hrow : insertRow new (t.retire edge) = (t.retire edge).insert? new := by
    rw [insertRow, if_neg]
    rintro ⟨-, hsome⟩
    rw [show new.edge = edge from rfl, h.retire_empty] at hsome
    cases hsome
  unfold Tx.insert
  rw [hrow]
  cases hi : (t.retire edge).insert? new with
  | none =>
    -- the identity is taken in the retired table, hence in the old one
    refine .inr ⟨rfl, ?_⟩
    have htaken : (t.retire edge).find (satisfactionId edge evidence) ≠ none := by
      intro hn
      rw [Table.insert?, dif_pos hn] at hi
      cases hi
    have hused : satisfactionId edge evidence ∈ t.slots.used :=
      fun hn => htaken (retire_find_eq_none.mpr hn)
    rw [Slots.put, if_neg hcur, if_pos hused]
  | some t' =>
    refine .inl ⟨t', rfl, ?_⟩
    have hfree := (Table.insert?_eq_some hi).1
    have hmem : ∀ r : Satisfaction, r.state = .valid →
        (r ∈ t'.rows ↔ (r ∈ t.rows ∧ r.edge ≠ edge) ∨ r = new) := by
      intro r hv
      rw [Table.mem_insert? hi, mem_retire h hv]
    have hone : OneValid t' := by
      intro a ha b hb hva hvb he
      rcases (hmem a hva).mp ha with ⟨ha, hae⟩ | rfl
      · rcases (hmem b hvb).mp hb with ⟨hb, -⟩ | rfl
        · exact h a ha b hb hva hvb he
        · exact absurd he hae
      · rcases (hmem b hvb).mp hb with ⟨-, hbe⟩ | rfl
        · exact absurd he.symm hbe
        · rfl
    have hused : satisfactionId edge evidence ∉ t.slots.used :=
      fun hn => hn (retire_find_eq_none.mp hfree)
    refine ⟨?_, hone⟩
    rw [Slots.put, if_neg hcur, if_neg hused]
    have hcurrent : (slots t').current =
        Function.update t.slots.current edge (some evidence) := by
      funext e
      change (validRow t' e).map _ = _
      by_cases he : e = edge
      · subst he
        rw [hone.validRow_eq_some.mpr ⟨(hmem new rfl).mpr (.inr rfl), rfl, rfl⟩]
        simp [hnew]
      · rw [Function.update_of_ne he, h.validRow_congr hone]
        · rfl
        · intro r hv
          rw [hmem r hv]
          constructor
          · rintro ⟨⟨hm, -⟩ | rfl, hre⟩
            · exact ⟨hm, hre⟩
            · exact absurd hre.symm he
          · rintro ⟨hm, rfl⟩
            exact ⟨.inl ⟨hm, he⟩, rfl⟩
    have hnames : (slots t').used = insert (satisfactionId edge evidence) t.slots.used := by
      ext i
      change t'.find i ≠ none ↔ i = satisfactionId edge evidence ∨ t.find i ≠ none
      rw [Table.find_insert? hi]
      by_cases hi' : satisfactionId edge evidence = i
      · simp [hnew, hi']
      · rw [if_neg hi', Ne, retire_find_eq_none]
        simp [Ne.symm hi']
    rw [← hcurrent, ← hnames]

/-! ## Calls as lists of puts -/

/-- The checks that `insert_valid` makes before it writes pass, and it may replace. -/
def Ledger.asks (l : Ledger) (replaceExisting : Bool) (r : Edge × String) : Bool :=
  replaceExisting && (r.1.requirement ≠ .integratedCommit || l.outputChecksCurrent r.2) &&
    (l.resultOf r.1.requirement r.2).any fun result =>
      l.policyMatches r.1 result && l.barrierCurrent result

/-- The put of one turn: nothing when the entry is not asked for. -/
noncomputable def Ledger.putAsked (l : Ledger) (replaceExisting : Bool)
    (s : Slots Edge String String) (r : Edge × String) : Option (Slots Edge String String) :=
  if l.asks replaceExisting r then s.put satisfactionId r else some s

/-- The table has one valid row for each edge and holds what the slots hold. -/
def Holds (t : Satisfactions) (s : Slots Edge String String) : Prop := OneValid t ∧ slots t = s

/-- With a stored receipt and a predecessor that is not revoked, `insert_valid` writes or leaves
the table alone; it is never refused before the writes. -/
theorem insertValid_eq (hresult : l.resultOf edge.requirement evidence ≠ none)
    (hrevoked : l.predecessorRevoked edge.predecessor = false) :
    insertValid l now edge evidence replaceExisting t =
      if l.asks replaceExisting (edge, evidence) ∧ (slots t).current edge ≠ some evidence then
        replaceValid now edge evidence t
      else .ok ((), t) := by
  obtain ⟨result, hresult⟩ := Option.ne_none_iff_exists'.mp hresult
  have hfind : ∀ f : String → Evidence Unit,
      (Tx.find (fun _ => l.resultOf edge.requirement evidence) .noRows >>= f) t = f result t := by
    intro f
    rw [hresult]
    rfl
  have hrequire : ∀ f : Unit → Evidence Unit,
      (Tx.require (l.predecessorRevoked edge.predecessor = false)
        (invalid "dependency blocked") >>= f) t = f () t := by
    intro f
    rw [Tx.require, if_pos hrevoked]
    rfl
  have hask : ∀ f : Option Satisfaction → Evidence Unit,
      (Tx.ask (validRow · edge) >>= f) t = f (validRow t edge) t := fun f => rfl
  unfold insertValid
  split
  · next hout =>
    rw [if_neg]
    · rfl
    · simp [Ledger.asks, hout.1, hout.2]
  · next hout =>
    rw [hfind]
    split
    · next hchecks =>
      rw [if_neg]
      · rfl
      · rcases hchecks with hp | hb
        · simp [Ledger.asks, hresult, hp]
        · simp [Ledger.asks, hresult, hb]
    · next hchecks =>
      rw [hrequire, hask]
      simp only [not_and, Bool.not_eq_false, not_or] at hout hchecks
      have hany : (l.resultOf edge.requirement evidence).any (fun result =>
          l.policyMatches edge result && l.barrierCurrent result) = true := by
        simp [hresult, hchecks]
      have hasks : l.asks replaceExisting (edge, evidence) = replaceExisting := by
        by_cases hreq : edge.requirement = .integratedCommit
        · simp only [Ledger.asks, hany, hout hreq, Bool.or_true, Bool.and_true]
        · simp [Ledger.asks, hany, hreq]
      rw [hasks]
      change (if (slots t).current edge = some evidence ∨ replaceExisting = false then pure ()
        else replaceValid now edge evidence) t = _
      by_cases hcur : (slots t).current edge = some evidence
      · rw [if_pos (.inl hcur), if_neg fun h => h.2 hcur]
        rfl
      · cases replaceExisting with
        | false =>
          rw [if_pos (.inr rfl), if_neg (by simp)]
          rfl
        | true => rw [if_neg (by simp [hcur]), if_pos ⟨rfl, hcur⟩]

theorem insertValid_simulates (hresult : l.resultOf edge.requirement evidence ≠ none)
    (hrevoked : l.predecessorRevoked edge.predecessor = false) {s : Slots Edge String String}
    (h : Holds t s) :
    (∃ t' s', insertValid l now edge evidence replaceExisting t = .ok ((), t') ∧
      l.putAsked replaceExisting s (edge, evidence) = some s' ∧ Holds t' s') ∨
    (insertValid l now edge evidence replaceExisting t = .error .conflict ∧
      l.putAsked replaceExisting s (edge, evidence) = none) := by
  obtain ⟨h, rfl⟩ := h
  rw [insertValid_eq hresult hrevoked, Ledger.putAsked]
  by_cases hcur : (slots t).current edge = some evidence
  · refine .inl ⟨t, slots t, by rw [if_neg fun h => h.2 hcur], ?_, h, rfl⟩
    split
    · exact if_pos hcur
    · rfl
  · by_cases hasks : l.asks replaceExisting (edge, evidence)
    · rw [if_pos ⟨hasks, hcur⟩, if_pos hasks]
      obtain ⟨t', hr, hput, hone⟩ | hr := replaceValid_simulates now h hcur
      · exact .inl ⟨t', _, hr, hput, hone, rfl⟩
      · exact .inr hr
    · exact .inl ⟨t, slots t, by rw [if_neg fun h => hasks h.1], if_neg hasks, h, rfl⟩

section Loop

variable {β : Type} (edgeOf : β → Edge) (evidenceOf : β → Option String)

/-- The loop body that all four calls share. -/
def attachEach (l : Ledger) (now : Int) (replaceExisting : Bool) (x : β) : Evidence Unit :=
  match evidenceOf x with
  | some evidence => insertValid l now (edgeOf x) evidence replaceExisting
  | none => pure ()

/-- The entries that a loop is asked to put. -/
def Ledger.asked (l : Ledger) (replaceExisting : Bool) (xs : List β) : List (Edge × String) :=
  (xs.filterMap fun x => (evidenceOf x).map (edgeOf x, ·)).filter (l.asks replaceExisting)

variable {edgeOf evidenceOf} {xs : List β}

omit [Digests] in
theorem asked_nodup (h : (xs.map edgeOf).Nodup) :
    ((l.asked edgeOf evidenceOf replaceExisting xs).map Prod.fst).Nodup := by
  have hsub : ((xs.filterMap fun x => (evidenceOf x).map (edgeOf x, ·)).map Prod.fst).Sublist
      (xs.map edgeOf) := by
    induction xs with
    | nil => simp
    | cons x xs ih =>
      have ih := ih (List.nodup_cons.mp h).2
      cases he : evidenceOf x with
      | none => simpa [he] using ih.cons (edgeOf x)
      | some e => simpa [he] using ih.cons_cons (edgeOf x)
  exact h.sublist ((List.filter_sublist.map _).trans hsub)

theorem foldlM_putAsked (s : Slots Edge String String) :
    xs.foldlM (fun s x => (evidenceOf x).elim (some s)
      fun evidence => l.putAsked replaceExisting s (edgeOf x, evidence)) s =
    s.putAll satisfactionId (l.asked edgeOf evidenceOf replaceExisting xs) := by
  induction xs generalizing s with
  | nil => rfl
  | cons x xs ih =>
    rw [List.foldlM_cons, Ledger.asked, List.filterMap_cons]
    cases he : evidenceOf x with
    | none => exact ih s
    | some evidence =>
      simp only [Option.elim_some, Option.map_some, Ledger.putAsked, List.filter_cons]
      split
      · rw [Slots.putAll_cons]
        exact congrArg _ (funext ih)
      · exact ih s

/-- **The loop refines a list of puts.** -/
theorem forEach_attachEach
    (hresult : ∀ x ∈ xs, ∀ e, evidenceOf x = some e → l.resultOf (edgeOf x).requirement e ≠ none)
    (hrevoked : ∀ x ∈ xs, l.predecessorRevoked (edgeOf x).predecessor = false) (h : OneValid t) :
    (∃ t', Tx.forEach (attachEach edgeOf evidenceOf l now replaceExisting) xs t = .ok ((), t') ∧
      (slots t).putAll satisfactionId (l.asked edgeOf evidenceOf replaceExisting xs) =
        some (slots t') ∧ OneValid t') ∨
    (Tx.forEach (attachEach edgeOf evidenceOf l now replaceExisting) xs t = .error .conflict ∧
      (slots t).putAll satisfactionId (l.asked edgeOf evidenceOf replaceExisting xs) = none) := by
  rw [← foldlM_putAsked]
  have hturn : ∀ x ∈ xs, ∀ {t s}, Holds t s →
      (∃ t' s', attachEach edgeOf evidenceOf l now replaceExisting x t = .ok ((), t') ∧
        (evidenceOf x).elim (some s) (fun evidence =>
          l.putAsked replaceExisting s (edgeOf x, evidence)) = some s' ∧ Holds t' s') ∨
      (attachEach edgeOf evidenceOf l now replaceExisting x t = .error .conflict ∧
        (evidenceOf x).elim (some s) (fun evidence =>
          l.putAsked replaceExisting s (edgeOf x, evidence)) = none) := by
    intro x hx t s h
    unfold attachEach
    cases he : evidenceOf x with
    | none => exact .inl ⟨t, s, rfl, rfl, h⟩
    | some evidence => exact insertValid_simulates (hresult x hx evidence he) (hrevoked x hx) h
  obtain ⟨t', s', hloop, hfold, hone, rfl⟩ | hfail := Tx.forEach_simulates hturn ⟨h, rfl⟩
  · exact .inl ⟨t', hloop, hfold, hone⟩
  · exact .inr hfail

end Loop

end Puts

/-! ## The four calls -/

/-- The edges and the evidence that a call attaches: the receipt it records, or the evidence that
it selects for each edge, where the checks pass and the call may replace. -/
def Attachment.requests (a : Attachment) : List (Edge × String) :=
  match a.call with
  | .recordVerifiedResult result =>
    (a.ledger.loadVerified result).elim [] fun predecessor =>
      a.ledger.asked (fun task => ⟨task, predecessor, .verifiedResult⟩) (fun _ => some result)
        (a.ledger.verifiedResultMayReplace result) (a.ledger.consumers predecessor .verifiedResult)
  | .recordIntegratedCommit integrated =>
    (a.ledger.integratedPredecessor integrated).elim [] fun predecessor =>
      a.ledger.asked (fun task => ⟨task, predecessor, .integratedCommit⟩) (fun _ => some integrated)
        true (a.ledger.consumers predecessor .integratedCommit)
  | .attachStoredReceipts task =>
    a.ledger.asked (fun d => ⟨task, d.predecessorId, d.requirement⟩)
      (fun d => a.ledger.storedEvidence ⟨task, d.predecessorId, d.requirement⟩) true
      (a.ledger.edges task)
  | .attachSelected predecessor =>
    a.ledger.asked (fun task => ⟨task, predecessor, .verifiedResult⟩)
      (fun task => a.ledger.currentVerified task predecessor) true
      (a.ledger.consumers predecessor .verifiedResult)

/-- The receipt is stored, no predecessor of the call is revoked by a barrier, and a consumer has
no more dependencies than the queue accepts. -/
def Attachment.Proper (a : Attachment) : Prop :=
  match a.call with
  | .recordVerifiedResult result =>
    ∃ predecessor, a.ledger.loadVerified result = some predecessor ∧
      a.ledger.predecessorRevoked predecessor = false
  | .recordIntegratedCommit integrated =>
    ∃ predecessor, a.ledger.integratedPredecessor integrated = some predecessor ∧
      a.ledger.predecessorRevoked predecessor = false
  | .attachStoredReceipts task =>
    (a.ledger.edges task).length ≤ 256 ∧
      ∀ d ∈ a.ledger.edges task, a.ledger.predecessorRevoked d.predecessorId = false
  | .attachSelected predecessor => a.ledger.predecessorRevoked predecessor = false

theorem consumers_nodup {predecessor : TaskId} {requirement : DependencyRequirement} :
    (l.consumers predecessor requirement).Nodup := by
  refine (List.perm_insertionSort _ _).nodup_iff.mpr ?_
  rw [List.nodup_map_iff_inj_on (l.dependencies.nodup.of_map.filter _)]
  intro d hd d' hd' he
  simp only [List.mem_filter, decide_eq_true_eq] at hd hd'
  exact Table.eq_of_mem hd.1 hd'.1 (Prod.ext he (hd.2.1.trans hd'.2.1.symm))

theorem consumers_edges_nodup {predecessor : TaskId} {requirement kind : DependencyRequirement} :
    ((l.consumers predecessor requirement).map fun task =>
      (⟨task, predecessor, kind⟩ : Edge)).Nodup :=
  consumers_nodup.map fun _ _ h => congrArg Edge.task h

theorem edges_nodup {task : TaskId} :
    ((l.edges task).map fun d => (⟨task, d.predecessorId, d.requirement⟩ : Edge)).Nodup := by
  have hnodup : (l.edges task).Nodup :=
    (List.perm_insertionSort _ _).nodup_iff.mpr (l.dependencies.nodup.of_map.filter _)
  rw [List.nodup_map_iff_inj_on hnodup]
  intro d hd d' hd' he
  simp only [Ledger.edges, List.mem_insertionSort, List.mem_filter, decide_eq_true_eq] at hd hd'
  exact Table.eq_of_mem hd.1 hd'.1 (Prod.ext (hd.2.trans hd'.2.symm) (congrArg Edge.predecessor he))

theorem Attachment.requests_nodup (a : Attachment) : (a.requests.map Prod.fst).Nodup := by
  obtain ⟨l, now, call⟩ := a
  cases call with
  | recordVerifiedResult result =>
    unfold Attachment.requests
    dsimp only
    cases l.loadVerified result with
    | none => exact List.nodup_nil
    | some predecessor => exact asked_nodup consumers_edges_nodup
  | recordIntegratedCommit integrated =>
    unfold Attachment.requests
    dsimp only
    cases l.integratedPredecessor integrated with
    | none => exact List.nodup_nil
    | some predecessor => exact asked_nodup consumers_edges_nodup
  | attachStoredReceipts task => exact asked_nodup edges_nodup
  | attachSelected predecessor => exact asked_nodup consumers_edges_nodup

/-- An integrated commit with a predecessor has a verified result. -/
theorem resultOf_of_integratedPredecessor {integrated : String} {predecessor : TaskId}
    (h : l.integratedPredecessor integrated = some predecessor) :
    l.resultOf .integratedCommit integrated ≠ none := by
  unfold Ledger.integratedPredecessor at h
  obtain ⟨i, hi, h⟩ := Option.bind_eq_some_iff.mp h
  obtain ⟨o, ho, h⟩ := Option.bind_eq_some_iff.mp h
  simp [Ledger.resultOf, hi, ho]

theorem resultOf_of_latestIntegrated {task predecessor : TaskId} {integrated : String}
    (h : l.latestIntegrated task predecessor = some integrated) :
    l.resultOf .integratedCommit integrated ≠ none := by
  obtain ⟨i, hi, rfl⟩ := Option.map_eq_some_iff.mp h
  have hm := List.mem_of_find?_eq_some hi
  simp only [List.mem_insertionSort, List.mem_filter, decide_eq_true_eq] at hm
  exact resultOf_of_integratedPredecessor hm.2

theorem resultOf_of_storedEvidence (h : l.storedEvidence edge = some evidence) :
    l.resultOf edge.requirement evidence ≠ none := by
  unfold Ledger.storedEvidence at h
  split at h
  · next hr => simp [Ledger.resultOf, hr]
  · next hr =>
    rw [hr]
    exact resultOf_of_latestIntegrated h
  · cases h

/-- **Every call refines the puts it asks for**, and fails, with a conflict, only when these
fail. -/
theorem Attachment.refines [Digests] {a : Attachment} (hproper : a.Proper) (h : OneValid t) :
    (∃ t', a.body t = .ok ((), t') ∧
      (slots t).putAll satisfactionId a.requests = some (slots t') ∧ OneValid t') ∨
    (a.body t = .error .conflict ∧ (slots t).putAll satisfactionId a.requests = none) := by
  obtain ⟨l, now, call⟩ := a
  have hverified : ∀ e, l.resultOf .verifiedResult e ≠ none := by simp [Ledger.resultOf]
  cases call with
  | recordVerifiedResult result =>
    obtain ⟨predecessor, hload, hrevoked⟩ := hproper
    have hbody : recordVerifiedResult l now result t =
        Tx.forEach (attachEach (fun task => ⟨task, predecessor, .verifiedResult⟩)
          (fun _ => some result) l now (l.verifiedResultMayReplace result))
          (l.consumers predecessor .verifiedResult) t := by
      unfold recordVerifiedResult
      rw [hload]
      rfl
    change (∃ t', recordVerifiedResult l now result t = _ ∧ _) ∨
      (recordVerifiedResult l now result t = _ ∧ _)
    rw [hbody, Attachment.requests]
    simp only [hload, Option.elim_some]
    exact forEach_attachEach (fun _ _ e _ => hverified e) (fun _ _ => hrevoked) h
  | recordIntegratedCommit integrated =>
    obtain ⟨predecessor, hload, hrevoked⟩ := hproper
    have hbody : recordIntegratedCommit l now integrated t =
        Tx.forEach (attachEach (fun task => ⟨task, predecessor, .integratedCommit⟩)
          (fun _ => some integrated) l now true)
          (l.consumers predecessor .integratedCommit) t := by
      unfold recordIntegratedCommit
      rw [hload]
      rfl
    change (∃ t', recordIntegratedCommit l now integrated t = _ ∧ _) ∨
      (recordIntegratedCommit l now integrated t = _ ∧ _)
    rw [hbody, Attachment.requests]
    simp only [hload, Option.elim_some]
    refine forEach_attachEach (fun _ _ e he => ?_) (fun _ _ => hrevoked) h
    cases he
    exact resultOf_of_integratedPredecessor hload
  | attachStoredReceipts task =>
    obtain ⟨hlimit, hrevoked⟩ := hproper
    have hbody : attachStoredReceipts l now task t =
        Tx.forEach (attachEach (fun d => ⟨task, d.predecessorId, d.requirement⟩)
          (fun d => l.storedEvidence ⟨task, d.predecessorId, d.requirement⟩) l now true)
          (l.edges task) t := by
      unfold attachStoredReceipts Tx.require
      rw [if_pos hlimit]
      rfl
    change (∃ t', attachStoredReceipts l now task t = _ ∧ _) ∨
      (attachStoredReceipts l now task t = _ ∧ _)
    rw [hbody]
    exact forEach_attachEach (fun _ _ e he => resultOf_of_storedEvidence he) hrevoked h
  | attachSelected predecessor =>
    have hbody : attachSelected l now predecessor t =
        Tx.forEach (attachEach (fun task => ⟨task, predecessor, .verifiedResult⟩)
          (fun task => l.currentVerified task predecessor) l now true)
          (l.consumers predecessor .verifiedResult) t := by
      unfold attachSelected
      rw [if_neg (by simpa [Attachment.Proper] using hproper)]
      rfl
    change (∃ t', attachSelected l now predecessor t = _ ∧ _) ∨
      (attachSelected l now predecessor t = _ ∧ _)
    rw [hbody]
    exact forEach_attachEach (fun _ _ e _ => hverified e) (fun _ _ => hproper) h

/-! ## Selected results -/

/-- An accepted verified result of the submission that a candidate group of the predecessor's
contract selected, for which the checks of the consumer's contract pass. -/
structure Ledger.SelectedResult (l : Ledger) (task predecessor : TaskId) (v : VerifiedResult) :
    Prop where
  stored : v ∈ l.results.rows
  accepted : l.loadVerified v.resultId = some predecessor
  selection : ∃ r, l.runs.find v.runId = some r ∧
    l.latestRevision predecessor = some r.contractRevision ∧
    ∃ g ∈ l.groups.rows, g.taskId = predecessor ∧ g.contractRevision = some r.contractRevision ∧
      ∃ x, l.selections.find g.groupId = some x ∧ x.outcome = .selected ∧
        x.submissionId = some v.submissionId
  policy : l.policyMatches ⟨task, predecessor, .verifiedResult⟩ v.resultId = true
  barrier : l.barrierCurrent v.resultId = true

variable {task predecessor : TaskId} {v w : VerifiedResult}

theorem mem_selected {revision : Nat} {submission : String} :
    submission ∈ l.selected task revision ↔
      ∃ g ∈ l.groups.rows, g.taskId = task ∧ g.contractRevision = some revision ∧
        ∃ x, l.selections.find g.groupId = some x ∧ x.outcome = .selected ∧
          x.submissionId = some submission := by
  simp only [Ledger.selected, List.mem_filterMap, List.mem_filter, decide_eq_true_eq,
    Option.bind_eq_some_iff]
  constructor
  · rintro ⟨g, ⟨hg, hrev⟩, x, hx, hsub⟩
    split at hsub
    · exact ⟨g, hg, hrev.1, hrev.2, x, hx, ‹_›, hsub⟩
    · cases hsub
  · rintro ⟨g, hg, htask, hrev, x, hx, hout, hsub⟩
    exact ⟨g, ⟨hg, htask, hrev⟩, x, hx, by rw [if_pos hout, hsub]⟩

theorem loadVerified_eq_some (hv : v ∈ l.results.rows) :
    l.loadVerified v.resultId = some predecessor ↔
      ∃ r, l.runs.find v.runId = some r ∧ r.taskId = predecessor ∧ r.state = .accepted ∧
        v.memoryFence = r.memoryFence ∧ v.isolation = isolation := by
  unfold Ledger.loadVerified
  rw [Table.find_of_mem hv]
  cases hr : l.runs.find v.runId with
  | none => simp [hr]
  | some r =>
    simp only [Option.bind_eq_bind, Option.bind_some, hr, Option.some.injEq, exists_eq_left']
    split
    · next h => simp [h]
    · next h =>
      constructor
      · intro h'
        cases h'
      · exact fun h' => absurd h'.2 h

theorem isCurrent_iff : l.isCurrent predecessor v = true ↔
    ∃ r, l.runs.find v.runId = some r ∧ r.taskId = predecessor ∧ r.state = .accepted ∧
      l.currentClause v r = true ∧ l.latestRevision predecessor = some r.contractRevision ∧
      v.memoryFence = r.memoryFence ∧ v.isolation = isolation := by
  unfold Ledger.isCurrent
  cases l.runs.find v.runId with
  | none => simp
  | some r => simp [and_assoc]

/-- A selected result is the predecessor's current one. -/
theorem Ledger.SelectedResult.isCurrent (h : l.SelectedResult task predecessor v) :
    l.isCurrent predecessor v = true := by
  obtain ⟨r, hr, hlatest, hgroup⟩ := h.selection
  obtain ⟨r', hr', htask, hstate, hfence, hiso⟩ := (loadVerified_eq_some h.stored).mp h.accepted
  rw [hr] at hr'
  cases hr'
  have hmem : v.submissionId ∈ l.selected r.taskId r.contractRevision := by
    rw [htask]
    exact mem_selected.mpr hgroup
  refine isCurrent_iff.mpr ⟨r, hr, htask, hstate, ?_, hlatest, hfence, hiso⟩
  rw [Ledger.currentClause, if_neg (by simpa using List.ne_nil_of_mem hmem)]
  simpa using hmem

/-- Where a result is selected, every current result is a selected one. -/
theorem Ledger.SelectedResult.of_isCurrent (h : l.SelectedResult task predecessor v)
    (hw : w ∈ l.results.rows) (hcur : l.isCurrent predecessor w = true)
    (hpolicy : l.policyMatches ⟨task, predecessor, .verifiedResult⟩ w.resultId = true)
    (hbarrier : l.barrierCurrent w.resultId = true) : l.SelectedResult task predecessor w := by
  obtain ⟨r₀, -, hlatest₀, hgroup₀⟩ := h.selection
  obtain ⟨r, hr, htask, hstate, hclause, hlatest, hfence, hiso⟩ := isCurrent_iff.mp hcur
  have hrev : r₀.contractRevision = r.contractRevision :=
    Option.some.inj (hlatest₀.symm.trans hlatest)
  have hmem : v.submissionId ∈ l.selected predecessor r.contractRevision := by
    rw [← hrev]
    exact mem_selected.mpr hgroup₀
  rw [Ledger.currentClause, htask, if_neg (by simpa using List.ne_nil_of_mem hmem)] at hclause
  exact ⟨hw, (loadVerified_eq_some hw).mpr ⟨r, hr, htask, hstate, hfence, hiso⟩,
    ⟨r, hr, hlatest, mem_selected.mp (by simpa using hclause)⟩, hpolicy, hbarrier⟩

instance : Std.Total Ledger.newer where
  total v w := by
    unfold Ledger.newer
    rcases lt_trichotomy v.createdUnixMs w.createdUnixMs with h | h | h
    · exact .inr (.inl h)
    · rcases String.le_total v.resultId w.resultId with h' | h'
      · exact .inr (.inr ⟨h, h'⟩)
      · exact .inl (.inr ⟨h.symm, h'⟩)
    · exact .inl (.inl h)

instance : IsTrans VerifiedResult Ledger.newer where
  trans u v w := by
    unfold Ledger.newer
    rintro (h | ⟨h, hid⟩) (h' | ⟨h', hid'⟩)
    · exact .inl (h'.trans h)
    · exact .inl (h' ▸ h)
    · exact .inl (h ▸ h')
    · exact .inr ⟨h'.trans h, String.le_trans hid' hid⟩

/-- `current_verified` finds the newest selected result. -/
theorem Ledger.SelectedResult.currentVerified (h : l.SelectedResult task predecessor v) :
    ∃ w, l.currentVerified task predecessor = some w.resultId ∧
      l.SelectedResult task predecessor w ∧
      ∀ u, l.SelectedResult task predecessor u → Ledger.newer w u := by
  set rows := (l.results.rows.filter (l.isCurrent predecessor)).insertionSort Ledger.newer
    with hrows
  have hmem : ∀ u, u ∈ rows ↔ u ∈ l.results.rows ∧ l.isCurrent predecessor u = true := by
    simp [hrows, List.mem_insertionSort]
  have hsorted : rows.Pairwise Ledger.newer := List.pairwise_insertionSort _ _
  set check : VerifiedResult → Bool := fun u =>
    l.policyMatches ⟨task, predecessor, .verifiedResult⟩ u.resultId &&
      l.barrierCurrent u.resultId with hcheck
  have hfind : l.currentVerified task predecessor = (rows.find? check).map (·.resultId) := rfl
  cases hf : rows.find? check with
  | none =>
    have hno := List.find?_eq_none.mp hf v ((hmem v).mpr ⟨h.stored, h.isCurrent⟩)
    simp [hcheck, h.policy, h.barrier] at hno
  | some w =>
    obtain ⟨hcheckw, before, after, hsplit, hbefore⟩ := List.find?_eq_some_iff_append.mp hf
    have hw := (hmem w).mp (List.mem_of_find?_eq_some hf)
    simp only [hcheck, Bool.and_eq_true] at hcheckw
    refine ⟨w, by rw [hfind, hf]; rfl, h.of_isCurrent hw.1 hw.2 hcheckw.1 hcheckw.2, ?_⟩
    intro u hu
    have hcheckU : check u = true := by simp [hcheck, hu.policy, hu.barrier]
    have huRows := (hmem u).mpr ⟨hu.stored, hu.isCurrent⟩
    rw [hsplit] at huRows hsorted
    rcases List.mem_append.mp huRows with hmem | hmem
    · -- a result sorted before `w` fails a check
      have hno := hbefore u hmem
      simp [hcheckU] at hno
    · rcases List.mem_cons.mp hmem with rfl | hmem
      · exact (Std.Total.total (r := Ledger.newer) u u).elim id id
      · exact (List.pairwise_cons.mp (List.pairwise_append.mp hsorted).2.1).1 u hmem

/-! ## Histories -/

section Histories

variable [Digests]

/-- A call commits, leaves at most one valid row for each edge, and after a selection every
consumer's valid row names the newest result of the selected submission. -/
structure Attaches (a : Attachment) (t : Satisfactions) : Prop where
  committed : (a.exec t).1 = .ok ()
  oneValid : OneValid (a.exec t).2
  selected : ∀ predecessor, a.call = .attachSelected predecessor →
    ∀ task ∈ a.ledger.consumers predecessor .verifiedResult,
      (∃ v, a.ledger.SelectedResult task predecessor v) →
      ∃ v, a.ledger.SelectedResult task predecessor v ∧
        (∀ w, a.ledger.SelectedResult task predecessor w → Ledger.newer v w) ∧
        ∃ row ∈ (a.exec t).2.rows, row.state = .valid ∧
          row.edge = ⟨task, predecessor, .verifiedResult⟩ ∧ row.evidenceId = v.resultId

/-- No row has the identity of evidence that the call attaches anew, and two edges of the call do
not share one. -/
def Attachment.Fresh (a : Attachment) (t : Satisfactions) : Prop :=
  Slots.Fresh satisfactionId (slots t) a.requests

/-- The evidence table after a history of calls. -/
def tableAfter (history : List Attachment) : Satisfactions :=
  ((Run.start Table.empty).calls Attachment.exec history).state

variable {a : Attachment}

theorem exec_of_ok (h : a.body t = .ok ((), t')) : a.exec t = (.ok (), t') := by
  simp [Attachment.exec, Tx.commit, h]

theorem exec_of_error {err : StoreError} (h : a.body t = .error err) :
    a.exec t = (.error err, t) := by
  simp [Attachment.exec, Tx.commit, h]

theorem exec_oneValid (hproper : a.Proper) (h : OneValid t) : OneValid (a.exec t).2 := by
  obtain ⟨t', hbody, -, hone⟩ | ⟨hbody, -⟩ := Attachment.refines hproper h
  · rw [exec_of_ok hbody]
    exact hone
  · rw [exec_of_error hbody]
    exact h

theorem tableAfter_oneValid {history : List Attachment} (hproper : ∀ a ∈ history, a.Proper) :
    OneValid (tableAfter history) := by
  apply Run.invariant (I := fun r => OneValid r.state)
  · intro a ha
    cases ha
  · exact fun r a ha h => exec_oneValid (hproper a ha) h

/-- A call commits exactly when its identities are fresh. -/
theorem exec_ok_iff (hproper : a.Proper) (h : OneValid t) :
    (a.exec t).1 = .ok () ↔ a.Fresh t := by
  rw [Attachment.Fresh, ← Slots.putAll_isSome_iff a.requests_nodup]
  obtain ⟨t', hbody, hput, -⟩ | ⟨hbody, hput⟩ := Attachment.refines hproper h
  · simp [exec_of_ok hbody, hput]
  · simp [exec_of_error hbody, hput]

omit [Digests] in
/-- The evidence that a consumer's selection finds is among the requests. -/
theorem mem_requests_attachSelected (hcall : a.call = .attachSelected predecessor)
    (htask : task ∈ a.ledger.consumers predecessor .verifiedResult)
    (hsel : a.ledger.SelectedResult task predecessor v)
    (hcur : a.ledger.currentVerified task predecessor = some v.resultId) :
    ((⟨task, predecessor, .verifiedResult⟩ : Edge), v.resultId) ∈ a.requests := by
  simp only [Attachment.requests, hcall, Ledger.asked, List.mem_filter, List.mem_filterMap]
  refine ⟨⟨task, htask, by rw [hcur]; rfl⟩, ?_⟩
  simp [Ledger.asks, Ledger.resultOf, hsel.policy, hsel.barrier]

/-- What a committed call attached is what its edges hold. -/
theorem Attachment.Fresh.attaches (hproper : a.Proper) (h : OneValid t) (hfresh : a.Fresh t) :
    Attaches a t := by
  refine ⟨(exec_ok_iff hproper h).mpr hfresh, exec_oneValid hproper h, ?_⟩
  intro predecessor hcall task htask ⟨v₀, hv₀⟩
  obtain ⟨v, hcur, hsel, hnewest⟩ := hv₀.currentVerified
  refine ⟨v, hsel, hnewest, ?_⟩
  have hmem := mem_requests_attachSelected hcall htask hsel hcur
  obtain ⟨t', hbody, hput, -⟩ | ⟨-, hput⟩ := Attachment.refines hproper h
  · have hheld := Slots.putAll_current a.requests_nodup hput hmem
    obtain ⟨row, hrow, hevidence⟩ := Option.map_eq_some_iff.mp hheld
    obtain ⟨hm, hv, he⟩ := validRow_mem hrow
    rw [exec_of_ok hbody]
    exact ⟨row, hm, hv, he, hevidence⟩
  · have hsome := (Slots.putAll_isSome_iff a.requests_nodup).mpr hfresh
    rw [hput] at hsome
    cases hsome

/-- **Re-attachment.** In a history of calls whose receipts are stored and whose predecessors are
not revoked, every call commits with at most one valid row for each edge, and every selection
moves its consumers to the selected result, exactly when no call attaches evidence under an
identity that a row of the table still has. -/
theorem evidence_reattaches (history : List Attachment) (hproper : ∀ a ∈ history, a.Proper) :
    (∀ pre a post, history = pre ++ a :: post → Attaches a (tableAfter pre)) ↔
      ∀ pre a post, history = pre ++ a :: post → a.Fresh (tableAfter pre) := by
  have hone : ∀ pre a post, history = pre ++ a :: post →
      a.Proper ∧ OneValid (tableAfter pre) := by
    rintro pre a post rfl
    exact ⟨hproper a (by simp), tableAfter_oneValid fun b hb => hproper b (by simp [hb])⟩
  constructor
  · intro h pre a post hsplit
    obtain ⟨ha, ht⟩ := hone pre a post hsplit
    exact (exec_ok_iff ha ht).mp (h pre a post hsplit).committed
  · intro h pre a post hsplit
    obtain ⟨ha, ht⟩ := hone pre a post hsplit
    exact (h pre a post hsplit).attaches ha ht

end Histories

/-! ## Selecting an arm whose result was replaced -/

namespace Rearm

def first : String := "1111111111111111111111111111111111111111111111111111111111111111"
def second : String := "2222222222222222222222222222222222222222222222222222222222222222"

/-- Stand-in digests: the two rows have different identities. -/
@[reducible] def digests : Digests where
  inputs _ := first
  identity _ := first
  grant _ := first
  action _ := first
  finalization _ _ := first
  text s :=
    if s = "b\x00g\x00verified_result\x00" ++ first then
      "aaaaaaaaaaaaaaaaaaaaaaaaaaaaaaaaaaaaaaaaaaaaaaaaaaaaaaaaaaaaaaaa"
    else "bbbbbbbbbbbbbbbbbbbbbbbbbbbbbbbbbbbbbbbbbbbbbbbbbbbbbbbbbbbbbbbb"

def attempt (id : String) : Attempt := ⟨⟨id⟩, ⟨"g"⟩, 1, .completed, none, id, true⟩

/-- Task `b` waits for a verified result of task `g`, whose contract has a candidate group of two
arms; the first arm has been verified. -/
def firstArm : Ledger where
  store := { Store.created "/state.db" with
    tasks := ⟨[⟨⟨"g"⟩, 1, .running, "G", none⟩, ⟨⟨"b"⟩, 1, .queued, "B", none⟩], by decide⟩
    attempts := ⟨[attempt "g-a1"], by decide⟩ }
  contracts := [⟨⟨"g"⟩, 1⟩]
  runs := ⟨[⟨"run-1", ⟨"g"⟩, 1, ⟨"g-a1"⟩, 0, .accepted⟩], by decide⟩
  results := ⟨[⟨first, "run-1", "submission-1", isolation, 0, 10⟩], by decide⟩
  groups := ⟨[⟨"group", ⟨"g"⟩, some 1⟩], by decide⟩
  selections := .empty
  operations := .empty
  integrated := .empty
  dependencies := ⟨[⟨⟨"b"⟩, ⟨"g"⟩, .verifiedResult⟩], by decide⟩
  members := []
  barriers := .empty
  policyMatches _ _ := true
  barrierCurrent _ := true
  outputChecksCurrent _ := true

/-- The second arm has run after it and has been verified. -/
def secondArm : Ledger := { firstArm with
  store := { firstArm.store with
    attempts := ⟨[attempt "g-a1", attempt "g-a2"], by decide⟩ }
  runs := ⟨[⟨"run-1", ⟨"g"⟩, 1, ⟨"g-a1"⟩, 0, .accepted⟩,
    ⟨"run-2", ⟨"g"⟩, 1, ⟨"g-a2"⟩, 0, .accepted⟩], by decide⟩
  results := ⟨[⟨first, "run-1", "submission-1", isolation, 0, 10⟩,
    ⟨second, "run-2", "submission-2", isolation, 0, 20⟩], by decide⟩ }

/-- The first arm is selected. -/
def selection : Ledger := { secondArm with
  selections := ⟨[⟨"group", .selected, some "submission-1"⟩], by decide⟩ }

def history : List Attachment :=
  [⟨firstArm, 11, .recordVerifiedResult first⟩, ⟨secondArm, 21, .recordVerifiedResult second⟩,
    ⟨selection, 30, .attachSelected ⟨"g"⟩⟩]

theorem history_proper : ∀ a ∈ history, a.Proper := by
  intro a ha
  simp only [history, List.mem_cons, List.not_mem_nil, or_false] at ha
  rcases ha with rfl | rfl | rfl
  · exact ⟨⟨"g"⟩, by decide +kernel, by decide +kernel⟩
  · exact ⟨⟨"g"⟩, by decide +kernel, by decide +kernel⟩
  · change selection.predecessorRevoked ⟨"g"⟩ = false
    decide +kernel

end Rearm

/-- The equivalence at the history of two verified arms and a selection. -/
theorem evidence_reattaches_rearm : letI := Rearm.digests
    (∀ pre a post, Rearm.history = pre ++ a :: post → Attaches a (tableAfter pre)) ↔
      ∀ pre a post, Rearm.history = pre ++ a :: post → a.Fresh (tableAfter pre) :=
  @evidence_reattaches Rearm.digests Rearm.history Rearm.history_proper

/-- Selecting the first arm, whose row the second arm's result has invalidated, is refused by the
primary key: the edge stays with the second arm's result. -/
theorem selection_of_replaced_arm_conflicts : letI := Rearm.digests
    (∀ a ∈ Rearm.history, a.Proper) ∧
      (tableAfter Rearm.history).rows.map (fun r => (r.evidenceId, r.state)) =
        [(Rearm.first, .invalid), (Rearm.second, .valid)] ∧
      (Attachment.exec ⟨Rearm.selection, 30, .attachSelected ⟨"g"⟩⟩
        (tableAfter (Rearm.history.take 2))).1 = .error .conflict ∧
      ¬∀ pre a post, Rearm.history = pre ++ a :: post → Attaches a (tableAfter pre) := by
  let := Rearm.digests
  have hconflict : (Attachment.exec ⟨Rearm.selection, 30, .attachSelected ⟨"g"⟩⟩
      (tableAfter (Rearm.history.take 2))).1 = .error .conflict := by decide +kernel
  refine ⟨Rearm.history_proper, by decide +kernel, hconflict, fun h => ?_⟩
  have hcommitted := (h (Rearm.history.take 2) _ [] rfl).committed
  rw [hconflict] at hcommitted
  cases hcommitted

end Herdr
