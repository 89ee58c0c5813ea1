import Herdr.Verify.Effects

/-!
# What calls do to attempts

Rows of `attempts` are never deleted; a call moves one of them in one of five ways. Revisions only
grow, an observed end is final, and an attempt that has left the reserved state never returns.
-/

namespace Herdr

/-- One call's effect on one attempt. -/
inductive AttemptMoves (a : Attempt) : Attempt → Prop
  | same : AttemptMoves a a
  | requests : AttemptMoves a { a with revision := a.revision + 1 }
  | launches : AttemptMoves a a.launched
  | cancels (released : Bool) : AttemptMoves a (a.cancel released)
  | ends (state : AttemptState) (left : state ≠ .reserved) : AttemptMoves a (a.ended state)

namespace AttemptMoves

variable {a a' : Attempt}

theorem id_eq (h : AttemptMoves a a') : a'.id = a.id := by
  cases h <;> rfl

theorem task_eq (h : AttemptMoves a a') : a'.task = a.task := by
  cases h <;> rfl

theorem revision_le (h : AttemptMoves a a') : a.revision ≤ a'.revision := by
  cases h with
  | same => exact Nat.le_refl _
  | requests | launches | cancels | ends => exact Nat.le_succ _

/-- An observed end stays observed. -/
theorem terminated (h : AttemptMoves a a') (ha : a.terminationObserved = true) :
    a'.terminationObserved = true := by
  cases h with
  | same | requests | launches => exact ha
  | cancels released => simp [Attempt.cancel, ha]
  | ends => rfl

/-- An attempt that is not reserved any more never is again. -/
theorem left_reserved (h : AttemptMoves a a') (ha : a.state ≠ .reserved) : a'.state ≠ .reserved := by
  cases h with
  | same | requests => exact ha
  | launches => simp [Attempt.launched]
  | cancels released =>
    cases released with
    | false => exact ha
    | true => simp [Attempt.cancel]
  | ends state left => exact left

end AttemptMoves

/-- Updating one attempt moves that attempt and no other. -/
theorem attempt_update {table : Table Attempt Attempt.id} (old : Attempt) {new : Attempt}
    (hold : table.find old.id = some old) (hmove : AttemptMoves old new) {id : AttemptId}
    {a : Attempt} (ha : table.find id = some a) :
    ∃ a', (table.update new).find id = some a' ∧ AttemptMoves a a' := by
  have hnew : new.id = old.id := hmove.id_eq
  by_cases hid : old.id = id
  · subst hid
    rw [hold] at ha
    cases ha
    rw [← hnew] at hold ⊢
    exact ⟨new, Table.find_update_self hold, hmove⟩
  · exact ⟨a, (Table.find_update_ne (by rwa [hnew])).trans ha, .same⟩

variable [Digests] {env : Outside} {s s' : Store} {o : Option Claim}

/-- The attempts after a call: one row moved, one row added, or none touched. -/
inductive AttemptsMove (s s' : Store) : Prop
  | same (h : s'.attempts = s.attempts)
  | moves {old new : Attempt} (row : s.attempts.find old.id = some old)
    (move : AttemptMoves old new) (h : s'.attempts = s.attempts.update new)
  | adds {record : AttemptInputRecord} (h : s.attempts.insert? record.attemptRow = some s'.attempts)

theorem Effect.attemptsMove (h : Effect env s o s') : AttemptsMove s s' := by
  cases h with
  | reads => exact .same rfl
  | claims claimed => exact .same (by rw [claimed.frame])
  | settles _ settled => exact .same (by rw [settled.frame])
  | expires _ only => exact .same (by rw [only.frame])
  | records => exact .same rfl
  | @starts _ _ _ record attempt _ _ _ _ _ acknowledged published =>
    have hid : attempt.id = record.attempt := Table.find_key acknowledged.attemptRow
    exact .moves (hid ▸ acknowledged.attemptRow) .launches (by rw [published.frame])
  | reserves _ _ _ reserved => exact .adds reserved.attempts
  | cancels cancelled => exact .moves cancelled.attemptRow (.cancels _) cancelled.attempts
  | ends ended =>
    obtain ⟨state, left, he⟩ := ended.attempts
    exact .moves ended.attemptRow (.ends state left) he
  | stops ended =>
    obtain ⟨state, left, he⟩ := ended.attempts
    exact .moves ended.attemptRow (.ends state left) he
  | completes row frame => exact .moves row .requests (by rw [frame])
  | queues queued => exact .same (by rw [queued.frame])
  | adopts frame => exact .same (by rw [frame])

/-- **Every call moves every attempt in one of the listed ways.** -/
theorem Effect.attempt (h : Effect env s o s') {id : AttemptId} {a : Attempt}
    (ha : s.attempts.find id = some a) :
    ∃ a', s'.attempts.find id = some a' ∧ AttemptMoves a a' := by
  cases h.attemptsMove with
  | same he => exact ⟨a, he ▸ ha, .same⟩
  | moves row move he =>
    rw [he]
    exact attempt_update _ row move ha
  | adds he => exact ⟨a, Table.find_insert?_of_some he ha, .same⟩

/-! ## The launch of an admitted attempt -/

/-- The sealed record of an attempt is the only one, its operation is a launch, and the attempt is
there. -/
structure LaunchOf (record : AttemptInputRecord) (s : Store) : Prop where
  input : s.inputs.find record.operation = some record
  only : ∀ r ∈ s.inputs.rows, r.attempt = record.attempt → r = record
  operation : ∃ op, s.operations.find record.operation = some op ∧ op.kind = .runtimeLaunch
  attempt : ∃ a, s.attempts.find record.attempt = some a ∧ 1 ≤ a.revision

theorem Reserves.launchOf {record : AttemptInputRecord} {task : Task} {now : Int}
    (h : Reserves s s' record task now) : LaunchOf record s' := by
  refine ⟨?_, fun r hr he => ?_, ⟨record.operationRow now, ?_, rfl⟩, record.attemptRow, ?_, ?_⟩
  · rw [Table.find_insert? h.inputs, if_pos rfl]
  · rcases (Table.mem_insert? h.inputs).mp hr with hr | rfl
    · exact absurd he (h.unsealed r hr)
    · rfl
  · rw [Table.find_insert? h.operations]
    exact if_pos rfl
  · rw [Table.find_insert? h.attempts]
    exact if_pos rfl
  · exact Nat.le_refl 1

/-- Inputs change only by a reservation, of an attempt that was not there. -/
theorem Effect.inputs (h : Effect env s o s') {r : AttemptInputRecord} (hr : r ∈ s'.inputs.rows) :
    r ∈ s.inputs.rows ∨ s.attempts.find r.attempt = none := by
  cases h.sealedMove with
  | same _ inputs _ =>
    rw [inputs] at hr
    exact .inl hr
  | reserves _ reserved =>
    rcases (Table.mem_insert? reserved.inputs).mp hr with hr | rfl
    · exact .inl hr
    · exact .inr (Table.insert?_eq_some reserved.attempts).1
  | cancels cancelled =>
    rw [cancelled.frame] at hr
    exact .inl hr

theorem LaunchOf.step {record : AttemptInputRecord} (h : LaunchOf record s) (he : Effect env s o s') :
    LaunchOf record s' := by
  obtain ⟨op, hop, hkind⟩ := h.operation
  obtain ⟨a, ha, hrevision⟩ := h.attempt
  obtain ⟨a', ha', hmove⟩ := he.attempt ha
  refine ⟨he.grows.inputs.find h.input, fun r hr hr' => ?_,
    ⟨op, he.grows.operations.find hop, hkind⟩, a', ha', hrevision.trans hmove.revision_le⟩
  rcases he.inputs hr with hr | hnone
  · exact h.only r hr hr'
  · rw [hr', ha] at hnone
    cases hnone

/-- What is sealed for the operation is the record. -/
theorem LaunchOf.sealed {record r : AttemptInputRecord} (h : LaunchOf record s)
    (hs : SealedInput s record.operation r) : r = record :=
  Option.some.inj (hs.input.symm.trans h.input)

end Herdr
