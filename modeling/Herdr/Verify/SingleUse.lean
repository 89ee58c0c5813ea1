import Herdr.Verify.Fencing

/-!
# Operations that are claimed at most once

A launch, a worker brief and a routine refuse a second claim by the history of their row, whatever
was reported about the first. The claim of a launch consumes its approval in the same transaction.
-/

namespace Herdr

variable [Digests] {env : Outside} {s s' : Store}

theorem Effect.claimed {c : Claim} (h : Effect env s (some c) s') : ∃ old op, Claimed s s' c old op := by
  cases h with
  | claims claimed => exact ⟨_, _, claimed⟩

/-! ## At most one claim -/

/-- An operation of a single-use kind has no claim in the log, or one, and then its row counts
it. -/
structure SpentOnce (id : OperationId) (run : StoreRun) : Prop where
  unknown : run.state.operations.find id = none → returned id run.log = []
  spent : ∀ op, run.state.operations.find id = some op → op.kind.singleUse →
    returned id run.log = [] ∨ ∃ c row, returned id run.log = [c] ∧
      run.state.deliveries.find id = some row ∧ 1 ≤ row.attempts

omit [Digests] in
theorem SpentOnce.start (id : OperationId) (s : Store) : SpentOnce id (Run.start s) :=
  ⟨fun _ => rfl, fun _ _ _ => .inl rfl⟩

/-- A call that hands out no claim for the operation keeps what is known about it. -/
theorem SpentOnce.keep {id : OperationId} {run : StoreRun} (h : SpentOnce id run) {call : Call}
    (hnone : (handedOut (exec call run.state).1).filter (forOperation id) = none) :
    SpentOnce id (run.call exec call) := by
  have heffect := exec_effect call run.state
  have hgrows := heffect.grows
  have hlog : returned id (run.call exec call).log = returned id run.log := by
    rw [Run.call_log, returned_snoc, hnone]
    simp
  refine ⟨fun hid => ?_, fun op hop hkind => ?_⟩
  · rw [hlog]
    apply h.unknown
    cases hfind : run.state.operations.find id with
    | none => rfl
    | some op =>
      rw [Run.call_state, hgrows.operations.find hfind] at hid
      cases hid
  · rw [hlog]
    cases hfind : run.state.operations.find id with
    | none => exact .inl (h.unknown hfind)
    | some op' =>
      rw [Run.call_state, hgrows.operations.find hfind] at hop
      cases hop
      rcases h.spent op hfind hkind with hempty | ⟨c, row, hc, hrow, hattempts⟩
      · exact .inl hempty
      · obtain ⟨row', hrow', hmove⟩ := heffect.row hrow
        exact .inr ⟨c, row', hc, hrow', hattempts.trans hmove.attempts_le⟩

/-- A claim that is handed out is the first, and its row counts it from then on. -/
theorem SpentOnce.claim {id : OperationId} {run : StoreRun} (h : SpentOnce id run) {call : Call}
    {c : Claim} (hsome : handedOut (exec call run.state).1 = some c) (hc : c.operation = id) :
    SpentOnce id (run.call exec call) := by
  subst hc
  have heffect := exec_effect call run.state
  have hgrows := heffect.grows
  rw [hsome] at heffect
  obtain ⟨old, op, hclaimed⟩ := heffect.claimed
  have hop := hgrows.operations.find hclaimed.operation
  refine ⟨fun hid => ?_, fun op' hop' hkind => ?_⟩
  · rw [Run.call_state, hop] at hid
    cases hid
  · rw [Run.call_state, hop] at hop'
    cases hop'
    have hfresh : old.attempts = 0 := hclaimed.single hkind
    rcases h.spent op hclaimed.operation hkind with hempty | ⟨_, row, -, hrow, hattempts⟩
    · refine .inr ⟨c, old.claim c.owner c.leaseUntilMs, ?_, ?_, ?_⟩
      · have hfor : forOperation c.operation c = true := by simp [forOperation]
        rw [Run.call_log, returned_snoc, hempty, hsome, Option.filter_some, hfor]
        rfl
      · have hkey : old.operation = c.operation := Table.find_key hclaimed.row
        rw [Run.call_state, hclaimed.frame, ← hkey]
        exact Table.find_update_self (a := old.claim c.owner c.leaseUntilMs) (hkey ▸ hclaimed.row)
      · exact Nat.le_add_left ..
    · -- the row counts an earlier claim, which the claim's own check excludes
      rw [hclaimed.row] at hrow
      cases hrow
      omega

theorem SpentOnce.call {id : OperationId} {run : StoreRun} (h : SpentOnce id run) (call : Call) :
    SpentOnce id (run.call exec call) := by
  cases hhanded : handedOut (exec call run.state).1 with
  | none => exact h.keep (by rw [hhanded]; rfl)
  | some c =>
    by_cases hc : c.operation = id
    · exact h.claim hhanded hc
    · refine h.keep ?_
      have hne : forOperation id c = false := by simpa [forOperation] using hc
      rw [hhanded, Option.filter_some, hne]
      rfl

/-! ## Consumed approvals -/

/-- The uses that a claim of a launch leaves: the old ones and its own. -/
def ConsumedBy (s s' : Store) (c : Claim) : Prop :=
  ∃ use : ApprovalUse, use.operation = c.operation ∧ use.claimRevision = c.revision ∧
    use.claimEpoch = c.epoch ∧ s'.uses.rows = s.uses.rows ++ [use]

theorem Claimed.consumedBy {c : Claim} {old : Delivery} {op : Operation}
    (h : Claimed s s' c old op) (hkind : op.kind = .runtimeLaunch) : ConsumedBy s s' c := by
  obtain ⟨use, hu⟩ := h.launch hkind
  exact ⟨use, hu.operation, hu.revision, hu.epoch, (Table.insert?_eq_some hu.inserted).2⟩

/-- Every launch claim in the log has its use in the store. -/
def AllConsumed (run : StoreRun) : Prop :=
  ∀ c op, c ∈ returned c.operation run.log → run.state.operations.find c.operation = some op →
    op.kind = .runtimeLaunch → ∃ use ∈ run.state.uses.rows, use.operation = c.operation ∧
      use.claimRevision = c.revision ∧ use.claimEpoch = c.epoch

theorem AllConsumed.call {run : StoreRun} (h : AllConsumed run)
    (hspent : ∀ id, SpentOnce id run) (call : Call) : AllConsumed (run.call exec call) := by
  intro c op hc hop hkind
  have heffect := exec_effect call run.state
  have hgrows := heffect.grows
  rw [Run.call_log, returned_snoc] at hc
  rcases List.mem_append.mp hc with hc | hc
  · -- an earlier claim: its operation was known, and its use is still there
    cases hfind : run.state.operations.find c.operation with
    | none =>
      rw [(hspent c.operation).unknown hfind] at hc
      cases hc
    | some op' =>
      rw [Run.call_state, hgrows.operations.find hfind] at hop
      cases hop
      obtain ⟨use, huse, hrest⟩ := h c op hc hfind hkind
      exact ⟨use, hgrows.uses.mem huse, hrest⟩
  · have hhanded : handedOut (exec call run.state).1 = some c := by
      rw [Option.mem_toList, Option.filter_eq_some_iff] at hc
      exact hc.1
    rw [hhanded] at heffect
    obtain ⟨old, op', hclaimed⟩ := heffect.claimed
    rw [Run.call_state, hgrows.operations.find hclaimed.operation] at hop
    cases hop
    obtain ⟨use, hoperation, hrevision, hepoch, hrows⟩ := hclaimed.consumedBy hkind
    refine ⟨use, ?_, hoperation, hrevision, hepoch⟩
    rw [Run.call_state, hrows]
    simp

/-! ## Over a run -/

/-- What single use means after a run of any calls. -/
structure AtMostOnce (run : StoreRun) : Prop where
  /-- At most one claim of a launch, a brief or a routine was ever returned. -/
  single : ∀ id op, run.state.operations.find id = some op → op.kind.singleUse →
    (returned id run.log).length ≤ 1
  /-- A further claim of a launch adds exactly its own use, in the same transaction. -/
  consumes : ∀ (call : Call) (c : Claim) (op : Operation),
    handedOut (exec call run.state).1 = some c →
    run.state.operations.find c.operation = some op → op.kind = .runtimeLaunch →
    ConsumedBy run.state (exec call run.state).2 c
  /-- The use of every launch claim returned so far is on record. -/
  consumed : AllConsumed run
  /-- No two operations consumed one approval. -/
  exclusive : ∀ use ∈ run.state.uses.rows, ∀ use' ∈ run.state.uses.rows,
    use.operation ≠ use'.operation → use.approval ≠ use'.approval
  /-- A claim that fails changes nothing. -/
  failed : ∀ (call : Call) (e : StoreError), (exec call run.state).1 = .error e →
    (exec call run.state).2 = run.state

/-- **At-most-once launch.** From any store and over any interleaving of calls. -/
theorem launch_at_most_once (s : Store) (calls : List Call) : AtMostOnce (runFrom s calls) := by
  have hinv : (∀ id, SpentOnce id (runFrom s calls)) ∧ AllConsumed (runFrom s calls) := by
    refine Run.invariant (I := fun run => (∀ id, SpentOnce id run) ∧ AllConsumed run)
      ⟨fun id => .start id s, fun c op hc => by cases hc⟩ ?_
    rintro run call - ⟨hspent, hall⟩
    exact ⟨fun id => (hspent id).call call, hall.call hspent call⟩
  refine ⟨?_, ?_, hinv.2, ?_, fun call e he => Tx.commit_error he⟩
  · intro id op hop hkind
    rcases (hinv.1 id).spent op hop hkind with h | ⟨c, row, h, -⟩
    · simp [h]
    · simp [h]
  · intro call c op hhanded hop hkind
    have heffect := exec_effect call (runFrom s calls).state
    rw [hhanded] at heffect
    obtain ⟨old, op', hclaimed⟩ := heffect.claimed
    have : op' = op := Option.some.inj (hclaimed.operation.symm.trans hop)
    subst this
    exact hclaimed.consumedBy hkind
  · intro use huse use' huse' hne happroval
    exact hne (congrArg _ (Table.eq_of_mem huse huse' happroval))

end Herdr
