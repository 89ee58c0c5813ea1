import Herdr.Store.Approvals

/-!
# What the launch checks establish

Every check of this file only reads. `SealedInput` and `LaunchEligible` name what a check that
passed has seen, so that later proofs use the named facts and never open the bodies again.
-/

namespace Herdr

variable {env : Outside} {s s' : Store}

/-! ## Reading bodies -/

theorem nowCheck_reads {now : Int} : (nowCheck now).Reads := .require ..

theorem integer_reads {n : Nat} : (integer n).Reads := .require ..

theorem validateInputs_reads {i : LaunchInputs} : (validateInputs env i).Reads := by
  unfold validateInputs
  exact .bind (.require ..) fun _ => .bind (.require ..) fun _ => .bind (.outside _) fun _ =>
    .bind (.require ..) fun _ => .bind (.require ..) fun _ => .bind (.require ..) fun _ =>
    .require ..

theorem readPolicy_reads : readPolicy.Reads := by
  unfold readPolicy
  exact .bind (.ask _) fun _ => .bind (.require ..) fun _ => .pure _

variable [Digests]

theorem readGrant_reads {id : String} : (readGrant id).Reads := by
  unfold readGrant
  exact .bind (.find ..) fun _ => .bind (.check _) fun _ => .bind (.require ..) fun _ => .pure _

theorem checkInputs_reads {i : LaunchInputs} {now : Int} : (checkInputs env i now).Reads := by
  unfold checkInputs
  exact .bind (.outside _) fun _ => .bind (.find ..) fun _ => .bind (.require ..) fun _ =>
    .bind (.find ..) fun _ => .bind readGrant_reads fun _ => .bind (.ask _) fun _ =>
    .bind (.check _) fun _ => .bind (.require ..) fun _ => .bind (.ask _) fun _ =>
    .bind (.require ..) fun _ => .outside _

theorem validatePreparation_reads {i : LaunchInputs} {now : Int} :
    (validatePreparation env i now).Reads := by
  unfold validatePreparation
  exact .bind checkInputs_reads fun _ => .bind (.ask _) fun _ => .require ..

theorem validateHistoricalConsumption_reads {input : AttemptInputRecord} :
    (validateHistoricalConsumption input).Reads := by
  unfold validateHistoricalConsumption
  exact .bind readGrant_reads fun _ => .bind (.find ..) fun _ => .bind (.require ..) fun _ =>
    .bind (.check _) fun _ => .bind (.find ..) fun _ => .require ..

/-! ## Sealed inputs -/

/-- The operation has sealed inputs, and its attempt and operation rows agree with them. -/
structure SealedInput (s : Store) (operation : OperationId) (record : AttemptInputRecord) :
    Prop where
  input : s.inputs.find operation = some record
  attempt : ∃ a, s.attempts.find record.attempt = some a ∧ record.inputs.task = a.task
  launch : ∃ o, s.operations.find operation = some o ∧ o.kind = .runtimeLaunch ∧
    o.task = some record.inputs.task ∧ o.expectedRevision = record.inputs.taskRevision + 1
  ids : (record.attempt, record.operation) = recordIds record.inputs

theorem readInput_ok {operation : OperationId} {record : AttemptInputRecord}
    (h : readInput env operation s = .ok (record, s')) :
    s' = s ∧ SealedInput s operation record := by
  simp only [readInput, Tx.find_bind, Tx.require_bind, validateInputs_reads.peel, Tx.pure_ok] at h
  obtain ⟨r, hr, a, ha, o, ho, -, -, -, ⟨hids, htask, hop, hkind, -, hrev, -⟩, rfl, rfl⟩ := h
  refine ⟨rfl, hr, ⟨a, ha, htask⟩, ⟨o, ho, hkind, ?_, hrev⟩, hids⟩
  rw [hop, htask]

theorem readInput_reads {operation : OperationId} : (readInput env operation).Reads :=
  ⟨fun h => (readInput_ok h).1⟩

theorem SealedInput.operation_eq {operation : OperationId} {record : AttemptInputRecord}
    (h : SealedInput s operation record) : record.operation = operation :=
  Table.find_key h.input

/-! ## Eligible launches -/

/-- The attempt of a launch is untouched since its reservation and its task runs it. -/
structure LaunchEligible (s : Store) (operation : OperationId) (record : AttemptInputRecord)
    (attempt : Attempt) (task : Task) : Prop where
  sealed : SealedInput s operation record
  attemptRow : s.attempts.find record.attempt = some attempt
  taskRow : s.tasks.find record.inputs.task = some task
  untouched : attempt.revision = 1
  reserved : attempt.state = .reserved
  retained : attempt.terminationObserved = false
  running : task.state = .running
  active : task.activeAttempt = some attempt.id

theorem checkLaunch_ok {operation : OperationId} {now : Int} {approval : String}
    (h : checkLaunch env operation now s = .ok (approval, s')) :
    s' = s ∧ ∃ record attempt task, LaunchEligible s operation record attempt task ∧
      approval = record.inputs.approval.id := by
  simp only [checkLaunch, readAttempt, readTask, readBinding, readInput_reads.peel,
    checkInputs_reads.peel, readPolicy_reads.peel, Tx.find_bind, Tx.require_bind,
    Tx.outside_bind, Tx.ask_bind, Tx.pure_ok] at h
  obtain ⟨record, hrecord, -, -, attempt, hattempt, task, htask,
    ⟨-, hrev, hstate, hretain, -, hrun, hactive, -⟩, -, -, -, -, -, -, -, -, -, -, -, rfl, rfl⟩ := h
  refine ⟨rfl, record, attempt, task, ?_, rfl⟩
  have hterm : attempt.terminationObserved = false := by simpa [Attempt.retainsCapacity] using hretain
  exact ⟨(readInput_ok hrecord).2, hattempt, htask, hrev, hstate, hterm, hrun, hactive⟩

theorem checkLaunch_reads {operation : OperationId} {now : Int} :
    (checkLaunch env operation now).Reads := ⟨fun h => (checkLaunch_ok h).1⟩

theorem validateUse_ok {claim : Claim} {now : Int} {u : Unit}
    (h : validateUse env claim now s = .ok (u, s')) :
    s' = s ∧ ∃ record attempt task, LaunchEligible s claim.operation record attempt task := by
  simp only [validateUse, checkLaunch_reads.peel, Tx.ask_bind, Tx.require_ok] at h
  obtain ⟨approval, hcheck, -, rfl⟩ := h
  obtain ⟨-, record, attempt, task, heligible, -⟩ := checkLaunch_ok hcheck
  exact ⟨rfl, record, attempt, task, heligible⟩

theorem validateUse_reads {claim : Claim} {now : Int} : (validateUse env claim now).Reads :=
  ⟨fun h => (validateUse_ok h).1⟩

end Herdr
