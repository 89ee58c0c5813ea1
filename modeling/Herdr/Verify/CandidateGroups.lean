import Herdr.Verify.IntegrationQueue

/-!
# What a candidate group holds

A group fixes its arms when it is sealed, an admission binds the lowest arm that has no attempt,
and one selection lifts the hold of one submission. The invariant is about three tables: the arms
of a group are bound without gaps, no attempt is bound twice, and a winner is a submission of the
attempt that its arm binds.
-/

namespace Herdr.Groups

open Jobs

variable {s s' : GroupStore}

/-! ## What a call does to groups, arms and selections -/

/-- Groups, arms and selections are as they were, and no submission was lost. -/
structure GroupsKept (s s' : GroupStore) : Prop where
  groups : s'.groups = s.groups
  arms : s'.arms = s.arms
  selections : s'.selections = s.selections
  submissions : s.submissions.Extends s'.submissions

theorem GroupsKept.refl (s : GroupStore) : GroupsKept s s := ⟨rfl, rfl, rfl, .refl _⟩

theorem GroupsKept.trans {t : GroupStore} (h : GroupsKept s s') (h' : GroupsKept s' t) :
    GroupsKept s t :=
  ⟨h'.groups.trans h.groups, h'.arms.trans h.arms, h'.selections.trans h.selections,
    h.submissions.trans h'.submissions⟩

instance : Std.Refl GroupsKept := ⟨.refl⟩

instance : IsTrans GroupStore GroupsKept := ⟨fun _ _ _ => .trans⟩

/-- A write that leaves groups, arms, selections and submissions alone. -/
theorem GroupsKept.of_frame (hgroups : s'.groups = s.groups) (harms : s'.arms = s.arms)
    (hselections : s'.selections = s.selections) (hsubmissions : s'.submissions = s.submissions) :
    GroupsKept s s' :=
  ⟨hgroups, harms, hselections, hsubmissions ▸ .refl _⟩

theorem inStore_kept {α : Type} {body : Body α} : (Groups.inStore body).Steps GroupsKept := by
  constructor
  intro s a t h
  obtain ⟨u, -, rfl⟩ := inStore_ok.mp h
  exact .of_frame rfl rfl rfl rfl

theorem inJobs_kept {α : Type} {body : JobTx α} : (Groups.inJobs body).Steps GroupsKept := by
  constructor
  intro s a t h
  obtain ⟨u, -, rfl⟩ := Tx.within_ok.mp h
  exact .of_frame rfl rfl rfl rfl

/-- An insert into a table that is no part of the groups. -/
theorem insert_kept {γ κ : Type} [DecidableEq κ] {key : γ → κ} {e : StoreError} {row : γ}
    {table : GroupStore → Table γ key} {put : GroupStore → Table γ key → GroupStore}
    (h : ∀ s t, GroupsKept s (put s t)) :
    (Tx.insert (fun s => ((table s).insert? row).map (put s)) e).Steps GroupsKept := by
  refine .insert fun {s t} hinsert => ?_
  obtain ⟨u, -, rfl⟩ := Option.map_eq_some_iff.mp hinsert
  exact h s u

section Bodies

variable {env : Surroundings}

theorem installContract_kept {request : ContractRequest} :
    (installContract env request).Steps GroupsKept := by
  refine .bind (.of_reads (.outside _)) fun _ => .bind (.of_reads (.ask _)) fun existing => ?_
  cases existing with
  | some old => exact .of_reads (.require ..)
  | none =>
    refine .bind (.of_reads (.ask _)) fun _ => .bind (.of_reads (.require ..)) fun _ =>
      .bind inStore_kept fun _ => .bind (.of_reads (.ask _)) fun _ =>
      .bind (.of_reads (.require ..)) fun _ => .bind inStore_kept fun _ => ?_
    exact insert_kept fun _ _ => .of_frame rfl rfl rfl rfl

theorem submitResult_kept [GroupDigests] {request : SubmissionRequest} :
    (submitResult env request).Steps GroupsKept := by
  refine .bind (.of_reads (.outside _)) fun _ => .bind (.of_reads (.ask _)) fun existing => ?_
  cases existing with
  | some r => exact .of_reads (.require ..)
  | none =>
    refine .bind (.of_reads (.find ..)) fun _ => .bind (.of_reads (.require ..)) fun _ =>
      .bind (.of_reads (.outside _)) fun _ => .bind (.of_reads (.find ..)) fun _ =>
      .bind (.of_reads (.require ..)) fun _ => .bind (.of_reads (.ask _)) fun _ => ?_
    refine .bind (insert_kept fun _ _ => .of_frame rfl rfl rfl rfl) fun _ => .insert ?_
    intro s t hinsert
    obtain ⟨submissions, hsubmissions, rfl⟩ := Option.map_eq_some_iff.mp hinsert
    exact ⟨rfl, rfl, rfl, .insert? hsubmissions⟩

theorem requeue_kept (s : GroupStore) (submission : String) : GroupsKept s (s.requeue submission) := by
  rw [group_requeue_frame]
  exact .of_frame rfl rfl rfl rfl

theorem insertResult_kept {row : Jobs.VerifiedResult} : (insertResult row).Steps GroupsKept := by
  refine .bind (.insert ?_) fun _ => .bind (.write fun s => requeue_kept s _) fun _ => .insert ?_
  · intro s t hinsert
    split at hinsert
    · cases hinsert
    · obtain ⟨results, -, rfl⟩ := Option.map_eq_some_iff.mp hinsert
      exact .of_frame rfl rfl rfl rfl
  · intro s t hinsert
    split at hinsert
    · cases hinsert
    · cases hinsert
      exact .of_frame rfl rfl rfl rfl

theorem insertRun_kept {sub : Submission} {row : RunRow} (h : s.insertRun sub row = some s') :
    GroupsKept s s' := by
  simp only [GroupStore.insertRun, Option.bind_eq_bind, Option.bind_eq_some_iff] at h
  obtain ⟨runs, -, h⟩ := h
  split at h <;> cases h <;> exact .of_frame rfl rfl rfl rfl

theorem stopOutOfScope_kept [Digests] {draft : RunDraft} {attempt : Attempt} :
    (stopOutOfScope env draft attempt).Steps GroupsKept :=
  .bind (.of_reads (.ask _)) fun _ => .ite inStore_kept (.of_reads (.pure _))

theorem commitVerification_kept [Digests] [GroupDigests] {draft : RunDraft} :
    (commitVerification env draft).Steps GroupsKept := by
  refine .bind (.of_reads (.ask _)) fun existing => ?_
  cases existing with
  | some r => exact .bind (.of_reads (.require ..)) fun _ => .of_reads (.outside _)
  | none =>
    refine .bind (.of_reads (.find ..)) fun _ => .bind (.of_reads (.find ..)) fun _ =>
      .bind (.of_reads (.require ..)) fun _ => .bind (.of_reads (.ask _)) fun _ =>
      .bind (.of_reads (.require ..)) fun _ => .bind (.of_reads (.outside _)) fun _ =>
      .bind (.of_reads (.ask _)) fun _ => ?_
    refine .bind (insert_kept fun _ _ => .of_frame rfl rfl rfl rfl) fun _ =>
      .bind (.insert insertRun_kept) fun _ => .bind (.ite insertResult_kept (.of_reads (.pure _)))
      fun _ => .bind (.of_reads (.outside _)) fun _ => stopOutOfScope_kept

theorem requestCompletion_kept [Digests] {id : TaskId} {revision : Nat} {now : Int}
    {automatic : Bool} : (requestCompletion env id revision now automatic).Steps GroupsKept :=
  .bind (.of_reads (.ask _)) fun _ => inStore_kept

theorem beginIntegration_kept {b : IntegrationBegin} {id : OperationId}
    (h : beginIntegration env b s = .ok (id, s')) : GroupsKept s s' := by
  obtain ⟨-, t, -, hinsert⟩ := beginIntegration_ok h
  obtain ⟨r, integrations, -, -, hframe, -⟩ := insertIntegration_ok hinsert
  rw [hframe]
  exact .of_frame rfl rfl rfl rfl

end Bodies

/-- A new group, numbered in launch order. -/
structure Seals (s s' : GroupStore) : Prop where
  kept : s'.arms = s.arms ∧ s'.selections = s.selections ∧ s'.submissions = s.submissions
  group : ∃ g, g.arms.map (·.arm) = List.range' 1 g.arms.length ∧
    (∀ o ∈ s.groups.rows, ¬(o.taskId = g.taskId ∧
      o.contractRevision.getD 0 = g.contractRevision.getD 0)) ∧
    s.groups.insert? g = some s'.groups

/-- The lowest arm of an open group without an attempt gets one. -/
structure Binds (s s' : GroupStore) : Prop where
  kept : s'.groups = s.groups ∧ s'.selections = s.selections ∧ s'.submissions = s.submissions
  arm : ∃ task revision group arm attempt now,
    (s.openArms task revision).head? = some (group, arm) ∧
    (∀ a ∈ s.arms.rows, a.attemptId ≠ attempt) ∧
    s.arms.insert? ⟨group, arm.arm, attempt, now⟩ = some s'.arms

/-- All that a call does to groups, arms and selections. -/
inductive GroupChange (s s' : GroupStore) : Prop
  | kept (h : GroupsKept s s')
  | seals (h : Seals s s')
  | binds (h : Binds s s')
  | selects (x : CandidateSelection) (h : Selects s s' x)

section Calls

variable [Digests] [JobDigests] [GroupDigests]

omit [Digests] [JobDigests] [GroupDigests] in
/-- The arms that a group chooses are numbered in launch order. -/
theorem chooseArms_numbers {env : Surroundings} {arms chosen : List CandidateArm}
    {names : List String} (h : chooseArms env arms names s = .ok (chosen, s'))
    (harms : arms.map (·.arm) = List.range' 1 arms.length) :
    chosen.map (·.arm) = List.range' 1 chosen.length := by
  induction names generalizing arms with
  | nil =>
    obtain ⟨rfl, -⟩ := Tx.pure_ok.mp h
    exact harms
  | cons name names ih =>
    simp only [chooseArms, Tx.check_bind, Tx.require_bind] at h
    obtain ⟨⟨digest, configuration⟩, -, -, h⟩ := h
    refine ih h ?_
    rw [List.map_append, harms, List.length_append, List.length_singleton, List.range'_concat]
    simp [Nat.add_comm]

omit [Digests] [JobDigests] in
theorem bind_change {inputs : LaunchInputs} {attempt : AttemptId} {now : Int} {t : Store} {u : Unit}
    (h : Groups.bind inputs attempt now { s with store := t } = .ok (u, s')) : GroupChange s s' := by
  rcases bind_ok h with rfl | ⟨group, arm, profile, -, hnext, -, hinsert⟩
  · exact .kept (.of_frame rfl rfl rfl rfl)
  · obtain ⟨hfresh, -, arms, harms, rfl⟩ := insertArm_ok hinsert
    exact .binds ⟨⟨rfl, rfl, rfl⟩, _, _, group, arm, attempt, now, hnext, hfresh, harms⟩

theorem GroupCall.change {c : GroupCall} {u : Unit} (hbody : c.body s = .ok (u, s')) :
    GroupChange s s' := by
  obtain ⟨method, env⟩ := c
  cases method <;> simp only [GroupCall.body, Groups.discard_ok] at hbody
  case jobs => exact .kept (inJobs_kept.step hbody)
  case installContract => exact .kept (installContract_kept.step hbody)
  case createCandidateGroup =>
    obtain ⟨g, hcreate⟩ := hbody
    obtain ⟨⟨arms, harms, hg⟩, -, hunique, groups, hinsert, rfl⟩ := createCandidateGroup_ok hcreate
    exact .seals ⟨⟨rfl, rfl, rfl⟩, g, hg ▸ chooseArms_numbers harms rfl, hunique, hinsert⟩
  case admitPrepared =>
    rcases groupAdmit_ok hbody with rfl | ⟨reservation, task, t, -, -, -, -, hbind⟩
    · exact .kept (.refl _)
    · exact bind_change hbind
  case submitResult => exact .kept (submitResult_kept.step hbody)
  case commitVerification => exact .kept (commitVerification_kept.step hbody)
  case selectCandidate =>
    obtain ⟨x, hselect⟩ := hbody
    exact .selects x (selectCandidate_ok hselect).2
  case selectCandidateByRule =>
    obtain ⟨x, hselect⟩ := hbody
    exact .selects x (selectCandidateByRule_ok hselect).2.1
  case selectCandidateByJudge =>
    obtain ⟨x, hselect⟩ := hbody
    exact .selects x (selectCandidateByJudge_ok hselect).2
  case registerEvaluationCandidate =>
    obtain ⟨seeded, -, rfl⟩ := registerEvaluationCandidate_ok hbody
    exact .kept (.of_frame rfl rfl rfl rfl)
  case registerReplayCandidate =>
    obtain rfl := registerReplayCandidate_ok hbody
    exact .kept (.of_frame rfl rfl rfl rfl)
  case beginIntegration =>
    obtain ⟨id, hbegin⟩ := hbody
    exact .kept (beginIntegration_kept hbegin)
  case requestCompletion =>
    obtain ⟨change, hrequest⟩ := hbody
    exact .kept (requestCompletion_kept.step hrequest)

end Calls

/-! ## The invariant -/

/-- The numbers of the bound arms of a group, in the order in which they were bound. -/
def GroupStore.boundNumbers (s : GroupStore) (group : String) : List Nat :=
  (s.arms.rows.filter fun b => b.groupId = group).map (·.arm)

/-- The winner is a submission of the attempt that its arm binds. -/
def GroupStore.Picks (s : GroupStore) (group : String) (p : Picked) : Prop :=
  (∃ b, s.arms.find (group, p.arm) = some b ∧ b.attemptId = p.attemptId) ∧
    ∃ sub, s.submissions.find p.submissionId = some sub ∧ sub.attemptId = p.attemptId

structure Bound (s : GroupStore) : Prop where
  /-- A contract revision of a task has one group. -/
  unique : ∀ g ∈ s.groups.rows, ∀ o ∈ s.groups.rows, g.taskId = o.taskId →
    g.contractRevision.getD 0 = o.contractRevision.getD 0 → g = o
  numbered : ∀ g ∈ s.groups.rows, g.arms.map (·.arm) = List.range' 1 g.arms.length
  known : ∀ b ∈ s.arms.rows, (s.groups.find b.groupId).isSome
  order : ∀ g ∈ s.groups.rows, ∃ k ≤ g.arms.length, s.boundNumbers g.groupId = List.range' 1 k
  once : (s.arms.rows.map (·.attemptId)).Nodup
  picked : ∀ x ∈ s.selections.rows, ∀ p, x.picked = some p → s.Picks x.groupId p

theorem GroupStore.Picks.kept {group : String} {p : Picked} (h : s.Picks group p)
    (harms : s.arms.Extends s'.arms) (hsubs : s.submissions.Extends s'.submissions) :
    s'.Picks group p := by
  obtain ⟨⟨b, hb, hattempt⟩, sub, hsub, hown⟩ := h
  exact ⟨⟨b, harms.find hb, hattempt⟩, sub, hsubs.find hsub, hown⟩

theorem Bound.kept (h : Bound s) (hk : GroupsKept s s') : Bound s' := by
  obtain ⟨hgroups, harms, hselections, hsubs⟩ := hk
  refine ⟨?_, ?_, ?_, ?_, ?_, ?_⟩
  · rw [hgroups]
    exact h.unique
  · rw [hgroups]
    exact h.numbered
  · rw [hgroups, harms]
    exact h.known
  · simp only [GroupStore.boundNumbers, hgroups, harms]
    exact h.order
  · rw [harms]
    exact h.once
  · rw [hselections]
    intro x hx p hp
    refine (h.picked x hx p hp).kept ?_ hsubs
    rw [harms]
    exact .refl _

/-- No arm of a new group is bound. -/
theorem Bound.boundNumbers_none (h : Bound s) {group : String} (hg : s.groups.find group = none) :
    s.boundNumbers group = [] := by
  unfold GroupStore.boundNumbers
  rw [List.map_eq_nil_iff, List.filter_eq_nil_iff]
  intro b hb he
  have hknown := h.known b hb
  rw [of_decide_eq_true he, hg] at hknown
  cases hknown

theorem Bound.seals (h : Bound s) (hs : Seals s s') : Bound s' := by
  obtain ⟨⟨harms, hselections, hsubs⟩, g, hnumbers, hunique, hinsert⟩ := hs
  have hmem : ∀ o, o ∈ s'.groups.rows ↔ o ∈ s.groups.rows ∨ o = g := fun _ =>
    Table.mem_insert? hinsert
  have hnumber : ∀ group, s'.boundNumbers group = s.boundNumbers group := by
    intro group
    simp only [GroupStore.boundNumbers, harms]
  refine ⟨?_, ?_, ?_, ?_, ?_, ?_⟩
  · intro a ha b hb htask hrevision
    rcases (hmem a).mp ha with ha | rfl
    · rcases (hmem b).mp hb with hb | rfl
      · exact h.unique a ha b hb htask hrevision
      · exact absurd ⟨htask, hrevision⟩ (hunique a ha)
    · rcases (hmem b).mp hb with hb | rfl
      · exact absurd ⟨htask.symm, hrevision.symm⟩ (hunique b hb)
      · rfl
  · intro a ha
    rcases (hmem a).mp ha with ha | rfl
    · exact h.numbered a ha
    · exact hnumbers
  · rw [harms]
    intro b hb
    exact (Table.Extends.insert? hinsert).keeps _ (h.known b hb)
  · intro a ha
    rw [hnumber]
    rcases (hmem a).mp ha with ha | rfl
    · exact h.order a ha
    · exact ⟨0, Nat.zero_le _, h.boundNumbers_none (Table.insert?_eq_some hinsert).1⟩
  · rw [harms]
    exact h.once
  · rw [hselections]
    intro x hx p hp
    refine (h.picked x hx p hp).kept ?_ ?_
    · rw [harms]
      exact .refl _
    · rw [hsubs]
      exact .refl _

/-- The first of the arms in order is the lowest of them. -/
theorem insertionSort_head_le {arms : List (String × CandidateArm)} {a : String × CandidateArm}
    (h : (arms.insertionSort fun a b => a.2.arm ≤ b.2.arm).head? = some a) :
    a ∈ arms ∧ ∀ b ∈ arms, a.2.arm ≤ b.2.arm := by
  let r : String × CandidateArm → String × CandidateArm → Prop := fun a b => a.2.arm ≤ b.2.arm
  have : Std.Total r := ⟨fun a b => Nat.le_total a.2.arm b.2.arm⟩
  have : IsTrans _ r := ⟨fun _ _ _ => Nat.le_trans⟩
  have hsorted := List.pairwise_insertionSort r arms
  obtain ⟨rest, hrest⟩ := List.head?_eq_some_iff.mp h
  have hmem : ∀ b, b ∈ arms ↔ b ∈ a :: rest := fun b => hrest ▸ (List.mem_insertionSort r).symm
  change (arms.insertionSort r) = a :: rest at hrest
  rw [hrest] at hsorted
  refine ⟨(hmem a).mpr List.mem_cons_self, fun b hb => ?_⟩
  rcases List.mem_cons.mp ((hmem b).mp hb) with rfl | hb
  · exact Nat.le_refl _
  · exact List.rel_of_pairwise_cons hsorted hb

/-- The lowest unbound arm of an open group. -/
theorem openArms_head {task : TaskId} {revision : Option Nat} {group : String} {arm : CandidateArm}
    (hhead : (s.openArms task revision).head? = some (group, arm)) :
    ∃ g ∈ s.groups.rows, g.groupId = group ∧ arm ∈ g.arms ∧ s.arms.find (group, arm.arm) = none ∧
      ∀ a ∈ g.arms, s.arms.find (group, a.arm) = none → arm.arm ≤ a.arm := by
  obtain ⟨hmem, hlowest⟩ := insertionSort_head_le hhead
  simp only [List.mem_flatMap, List.mem_filter, Bool.and_eq_true, decide_eq_true_eq, List.mem_map,
    Option.isNone_iff_eq_none] at hmem
  obtain ⟨g, ⟨hg, ⟨htask, hrevision⟩, hopen⟩, a, ⟨ha, hunbound⟩, he⟩ := hmem
  cases he
  refine ⟨g, hg, rfl, ha, hunbound, fun b hb hnone => hlowest (g.groupId, b) ?_⟩
  simp only [List.mem_flatMap, List.mem_filter, Bool.and_eq_true, decide_eq_true_eq, List.mem_map,
    Option.isNone_iff_eq_none]
  exact ⟨g, ⟨hg, ⟨htask, hrevision⟩, hopen⟩, b, ⟨hb, hnone⟩, rfl⟩

theorem mem_boundNumbers {group : String} {n : Nat} :
    n ∈ s.boundNumbers group ↔ (s.arms.find (group, n)).isSome := by
  simp only [GroupStore.boundNumbers, List.mem_map, List.mem_filter, decide_eq_true_eq,
    Option.isSome_iff_exists]
  constructor
  · rintro ⟨b, ⟨hb, rfl⟩, rfl⟩
    exact ⟨b, Table.find_of_mem hb⟩
  · rintro ⟨b, hb⟩
    have hkey := Table.find_key hb
    exact ⟨b, ⟨Table.mem_of_find hb, congrArg Prod.fst hkey⟩, congrArg Prod.snd hkey⟩

/-- **Launch order.** The lowest unbound arm is the one after those that are bound. -/
theorem Bound.next {g : CandidateGroup} {arm : CandidateArm} {k : Nat} (h : Bound s)
    (hg : g ∈ s.groups.rows) (harm : arm ∈ g.arms)
    (hunbound : s.arms.find (g.groupId, arm.arm) = none)
    (hlowest : ∀ a ∈ g.arms, s.arms.find (g.groupId, a.arm) = none → arm.arm ≤ a.arm)
    (hk : s.boundNumbers g.groupId = List.range' 1 k) : arm.arm = k + 1 ∧ k + 1 ≤ g.arms.length := by
  have hnumber : ∀ n, (∃ a ∈ g.arms, a.arm = n) ↔ 1 ≤ n ∧ n < 1 + g.arms.length := by
    intro n
    rw [← List.mem_map, h.numbered g hg, List.mem_range'_1]
  have hbound : ∀ n, (s.arms.find (g.groupId, n)).isSome ↔ 1 ≤ n ∧ n < 1 + k := by
    intro n
    rw [← mem_boundNumbers, hk, List.mem_range'_1]
  have hself := (hnumber arm.arm).mp ⟨arm, harm, rfl⟩
  have hfree : ¬(1 ≤ arm.arm ∧ arm.arm < 1 + k) := by
    rw [← hbound, hunbound]
    simp
  have hle : arm.arm ≤ k + 1 := by
    by_contra hgt
    obtain ⟨a, ha, hak⟩ := (hnumber (k + 1)).mpr (by omega)
    have hnone : s.arms.find (g.groupId, a.arm) = none := by
      rw [hak, ← Option.not_isSome_iff_eq_none, hbound]
      omega
    have := hlowest a ha hnone
    omega
  omega

theorem Bound.binds (h : Bound s) (hb : Binds s s') : Bound s' := by
  obtain ⟨⟨hgroups, hselections, hsubs⟩, task, revision, group, arm, attempt, now, hhead, hfresh,
    hinsert⟩ := hb
  obtain ⟨g, hg, rfl, harm, hunbound, hlowest⟩ := openArms_head hhead
  obtain ⟨-, hrows⟩ := Table.insert?_eq_some hinsert
  have hextends := Table.Extends.insert? hinsert
  refine ⟨?_, ?_, ?_, ?_, ?_, ?_⟩
  · rw [hgroups]
    exact h.unique
  · rw [hgroups]
    exact h.numbered
  · rw [hgroups]
    intro b hb
    rcases (Table.mem_insert? hinsert).mp hb with hb | rfl
    · exact h.known b hb
    · rw [Table.find_of_mem hg]
      rfl
  · rw [hgroups]
    intro o ho
    obtain ⟨k, hk, hnumbers⟩ := h.order o ho
    by_cases hog : g.groupId = o.groupId
    · have heq : g = o := Table.eq_of_mem hg ho hog
      subst heq
      obtain ⟨hnext, hle⟩ := h.next hg harm hunbound hlowest hnumbers
      refine ⟨k + 1, hle, ?_⟩
      have hnew : s'.boundNumbers g.groupId = s.boundNumbers g.groupId ++ [arm.arm] := by
        simp [GroupStore.boundNumbers, hrows]
      rw [hnew, hnumbers, hnext, List.range'_concat, Nat.one_mul, Nat.add_comm 1]
    · refine ⟨k, hk, ?_⟩
      have hsame : s'.boundNumbers o.groupId = s.boundNumbers o.groupId := by
        simp [GroupStore.boundNumbers, hrows, hog]
      rw [hsame, hnumbers]
  · rw [hrows, List.map_append, List.nodup_append]
    refine ⟨h.once, by simp, ?_⟩
    intro a ha b hb
    obtain ⟨row, hrow, rfl⟩ := List.mem_map.mp ha
    simp only [List.map_cons, List.map_nil, List.mem_singleton] at hb
    rw [hb]
    exact hfresh row hrow
  · rw [hselections]
    intro x hx p hp
    refine (h.picked x hx p hp).kept hextends ?_
    rw [hsubs]
    exact .refl _

/-- The one row that a selector writes, and nothing else of the groups. -/
theorem Selects.frame {x : CandidateSelection} (h : Selects s s' x) :
    s'.groups = s.groups ∧ s'.arms = s.arms ∧ s'.submissions = s.submissions ∧
      s.selections.insert? x = some s'.selections := by
  obtain ⟨t, hinsert, hs⟩ := h.recorded
  obtain ⟨-, -, selections, hselections, rfl⟩ := Jobs.insertSelectionRow_ok hinsert
  rw [Jobs.queueWinner_frame] at hs
  rw [hs]
  exact ⟨rfl, rfl, rfl, hselections⟩

theorem Bound.selects {x : CandidateSelection} (h : Bound s) (hx : Selects s s' x) : Bound s' := by
  obtain ⟨t, hrow, -⟩ := hx.recorded
  obtain ⟨-, hpicks, -⟩ := Jobs.insertSelectionRow_ok hrow
  obtain ⟨hgroups, harms, hsubs, hinsert⟩ := hx.frame
  refine ⟨?_, ?_, ?_, ?_, ?_, ?_⟩
  · rw [hgroups]
    exact h.unique
  · rw [hgroups]
    exact h.numbered
  · rw [hgroups, harms]
    exact h.known
  · simp only [GroupStore.boundNumbers, hgroups, harms]
    exact h.order
  · rw [harms]
    exact h.once
  · intro y hy p hp
    unfold GroupStore.Picks
    rw [harms, hsubs]
    rcases (Table.mem_insert? hinsert).mp hy with hy | rfl
    · exact h.picked y hy p hp
    · exact hpicks p hp

theorem Bound.change (h : Bound s) (hc : GroupChange s s') : Bound s' := by
  cases hc with
  | kept hk => exact h.kept hk
  | seals hs => exact h.seals hs
  | binds hb => exact h.binds hb
  | selects x hx => exact h.selects hx

theorem bound_created (path : String) : Bound (GroupStore.created path) := by
  constructor
  case once => exact .nil
  all_goals intro x hx; cases hx

/-- A selection stays as it is. -/
theorem GroupChange.selections (h : GroupChange s s') : s.selections.Extends s'.selections := by
  cases h with
  | kept hk => exact hk.selections ▸ .refl _
  | seals hs => exact hs.kept.2.1 ▸ .refl _
  | binds hb => exact hb.kept.2.1 ▸ .refl _
  | selects x hx => exact .insert? hx.frame.2.2.2

/-! ## The boundaries of a hold -/

/-- A submission of a bound attempt that its group has not selected. -/
structure Held (s : GroupStore) (sub : Submission) : Prop where
  stored : s.submissions.find sub.submissionId = some sub
  arm : ∃ b ∈ s.arms.rows, b.attemptId = sub.attemptId ∧ ∀ x,
    s.selections.find b.groupId = some x → x.picked.map (·.submissionId) ≠ some sub.submissionId

theorem Held.heldArm {sub : Submission} (h : Held s sub) : s.jobs.heldArm sub = true := by
  obtain ⟨b, hb, hattempt, hunselected⟩ := h.arm
  refine Jobs.heldArm_iff.mpr ⟨b, hb, hattempt, ?_⟩
  rintro x hx ⟨hgroup, hpicked⟩
  exact hunselected x (hgroup ▸ Table.find_of_mem hx) hpicked

/-- No job of a held submission was ever enqueued. -/
theorem Held.noJob {sub : Submission} (h : Held s sub) (hfed : Jobs.Fed s.jobs) :
    ∀ op ∈ s.store.operations.rows, ∀ job, job? op = some job →
      job.submissionId ≠ sub.submissionId := by
  rintro op hop job hjob he
  obtain ⟨own, hown, -, hfree⟩ := hfed.sound.jobs op hop job hjob
  have hsame : own = sub := by
    have hstored := h.stored
    rw [← he] at hstored
    exact Option.some.inj (hown.symm.trans hstored)
  rw [hsame, h.heldArm] at hfree
  cases hfree

/-- A held result does not begin to integrate. -/
theorem Held.beginIntegration {sub : Submission} {env : Surroundings} {b : IntegrationBegin}
    (h : Held s sub)
    (hresult : (s.results.find b.resultId).map (·.submissionId) = some sub.submissionId) :
    ∀ id, Groups.beginIntegration env b s ≠ .ok (id, s') := by
  intro id hbegin
  obtain ⟨hfree, -⟩ := beginIntegration_ok hbegin
  obtain ⟨r, hr, hid⟩ := Option.map_eq_some_iff.mp hresult
  simp only [GroupStore.heldResult, GroupStore.resultSubmission, hr, Option.bind_some, hid, h.stored,
    Option.any_some, h.heldArm] at hfree
  cases hfree

/-- A completion request records one event, which names the accepted submission. -/
theorem requestCompletion_names {env : Outside} {id : TaskId} {revision : Nat} {now : Int}
    {change : CompletionChange} {t t' : Store}
    (h : Herdr.requestCompletion env id revision now t = .ok (change, t')) :
    ∃ es, t'.events = t.events ++ es ∧ ∀ e ∈ es, ∀ task active submission at_,
      e.body = .attemptCompletionRequested task active submission at_ →
        env.acceptedSubmission task active = .ok submission := by
  simp only [Herdr.requestCompletion, readTask, nowCheck_bind, Tx.find_bind, Tx.ask_bind] at h
  obtain ⟨-, task, -, h⟩ := h
  cases hprior : (t.requestedCompletion id).filter
      fun a => task.activeAttempt.all fun active => active = a.id with
  | some prior =>
    simp only [hprior, Herdr.head, Tx.ask_bind, Tx.pure_ok] at h
    exact ⟨[], by rw [h.2, List.append_nil], by simp⟩
  | none =>
    simp only [hprior, requestActiveCompletion, readAttempt, Tx.require_bind, Tx.find_bind,
      Tx.ask_bind, Tx.check_bind, next_bind, updateAttempt_bind, logEvent_bind, Tx.outside_bind,
      Herdr.head, Tx.pure_ok] at h
    obtain ⟨-, active, -, attempt, -, -, -, -, submission, haccepted, -, -, -, -, -, rfl⟩ := h
    refine ⟨_, rfl, ?_⟩
    intro e he _ _ _ _ hbody
    rw [List.mem_singleton.mp he] at hbody
    cases hbody
    exact haccepted

/-- The accepted submission of a completion is not held. -/
theorem acceptedSubmission_ok {automatic : Bool} {ready : String → Bool} {task : TaskId}
    {attempt : AttemptId} {id : String}
    (h : s.acceptedSubmission automatic ready task attempt = .ok id) :
    ∃ sub ∈ s.submissions.rows, sub.submissionId = id ∧ s.jobs.heldArm sub = false := by
  simp only [GroupStore.acceptedSubmission] at h
  split at h
  · cases h
  · split at h
    · next sub hfind =>
      cases h
      have hmem := (List.mem_filter.mp (List.mem_of_find?_eq_some hfind)).1
      have hrow := (List.mem_filter.mp ((List.perm_insertionSort _ _).mem_iff.mp hmem)).1
      have hnone := List.find?_some hfind
      refine ⟨sub, hrow, rfl, ?_⟩
      rw [Bool.eq_false_iff]
      intro hheld
      unfold GroupStore.refusal GroupStore.completionHold at hnone
      rw [hheld, Bool.true_or, if_pos rfl] at hnone
      split at hnone <;> cases hnone
    · cases h

/-- No completion request names a held submission. -/
theorem Held.requestCompletion [Digests] {sub : Submission} {env : Surroundings} {id : TaskId}
    {revision : Nat} {now : Int} {automatic : Bool} {change : CompletionChange} (h : Held s sub)
    (hbody : Groups.requestCompletion env id revision now automatic s = .ok (change, s')) :
    ∃ es, s'.store.events = s.store.events ++ es ∧ ∀ e ∈ es, ∀ task active at_,
      e.body ≠ .attemptCompletionRequested task active sub.submissionId at_ := by
  simp only [Groups.requestCompletion, Tx.ask_bind] at hbody
  obtain ⟨t, hrequest, rfl⟩ := inStore_ok.mp hbody
  obtain ⟨es, hes, hnames⟩ := requestCompletion_names hrequest
  refine ⟨es, hes, fun e he task active at_ hevent => ?_⟩
  obtain ⟨own, hown, hid, hfree⟩ := acceptedSubmission_ok (hnames e he _ _ _ _ hevent)
  have hsame : own = sub := Table.eq_of_mem hown (Table.mem_of_find h.stored) hid
  rw [hsame, h.heldArm] at hfree
  cases hfree

/-! ## The rule -/

/-- Arms are looked at in launch order. -/
theorem boundArms_pairwise (s : GroupStore) (group : String) :
    (s.boundArms group).Pairwise fun a b => a.arm ≤ b.arm := by
  let r : ArmBinding → ArmBinding → Prop := fun a b => a.arm ≤ b.arm
  have : Std.Total r := ⟨fun a b => Nat.le_total a.arm b.arm⟩
  have : IsTrans _ r := ⟨fun _ _ _ => Nat.le_trans⟩
  unfold GroupStore.boundArms
  rw [List.pairwise_map]
  exact List.pairwise_insertionSort r _

/-- What comes before a row in a sorted list is among the rows that were taken. -/
theorem mem_take_of_lt {arms : List BoundArm} {i : Nat} {a b : BoundArm}
    (hsorted : arms.Pairwise fun a b => a.arm ≤ b.arm) (ha : arms[i]? = some a) (hb : b ∈ arms)
    (hlt : b.arm < a.arm) : b ∈ arms.take i := by
  obtain ⟨hi, rfl⟩ := List.getElem?_eq_some_iff.mp ha
  obtain ⟨j, hj, rfl⟩ := List.mem_iff_getElem.mp hb
  by_cases hji : j < i
  · exact List.mem_take_iff_getElem.mpr ⟨j, by omega, rfl⟩
  · rcases Nat.lt_or_eq_of_le (Nat.le_of_not_lt hji) with hij | rfl
    · have := List.pairwise_iff_getElem.mp hsorted i j hi hj hij
      omega
    · omega

/-- **The rule.** Every arm before the winner is settled, and where it is accepted its accepted
candidate is a seeded one. -/
theorem RuleDecides.earlier {g : CandidateGroup} {x : CandidateSelection} {p : Picked}
    (h : RuleDecides s g x) (hp : x.picked = some p) :
    ∀ a ∈ s.boundArms g.groupId, a.arm < p.arm → a.outcome ≠ .pending ∧
      (a.outcome = .accepted → ∃ id, a.accepted = some id ∧ s.seededSubmission id = true) := by
  intro a ha hlt
  obtain ⟨i, winner, hwinner, -, rfl, hbefore⟩ := h.winner p hp
  obtain ⟨hsettled, hineligible⟩ :=
    hbefore a (mem_take_of_lt (boundArms_pairwise s _) hwinner ha hlt)
  refine ⟨hsettled, fun haccepted => ?_⟩
  rw [← Option.any_eq_true]
  simpa [GroupStore.ruleEligible, GroupStore.skipped, haccepted] using hineligible

/-! ## Runs -/

/-- What a step of a run does to the groups and finds of them. -/
structure GroupStep.Holds [Digests] [JobDigests] [GroupDigests] (step : GroupStep) : Prop where
  bound : Bound step.after
  selections : step.before.selections.Extends step.after.selections
  unseeded : ∀ x ∈ step.after.selections.rows, x ∉ step.before.selections.rows →
    ∀ p, x.picked = some p → step.before.seededSubmission p.submissionId = false
  noJob : ∀ sub, Held step.after sub → ∀ op ∈ step.after.store.operations.rows, ∀ job,
    job? op = some job → job.submissionId ≠ sub.submissionId
  integration : ∀ sub b env, step.call = some ⟨.beginIntegration b, env⟩ → Held step.before sub →
    (step.before.results.find b.resultId).map (·.submissionId) = some sub.submissionId →
    ∃ e, (GroupCall.exec ⟨.beginIntegration b, env⟩ step.before) = (.error e, step.after)
  completion : ∀ sub id revision now automatic env,
    step.call = some ⟨.requestCompletion id revision now automatic, env⟩ → Held step.before sub →
    ∃ es, step.after.store.events = step.before.store.events ++ es ∧ ∀ e ∈ es,
      ∀ task active at_, e.body ≠ .attemptCompletionRequested task active sub.submissionId at_
  rule : ∀ group now env, step.call = some ⟨.selectCandidateByRule group now, env⟩ →
    ∀ x ∈ step.after.selections.rows, x ∉ step.before.selections.rows → x.groupId = group ∧
      ∀ p, x.picked = some p → ∀ a ∈ step.before.boundArms group, a.arm < p.arm →
        a.outcome ≠ .pending ∧ (a.outcome = .accepted →
          ∃ id, a.accepted = some id ∧ step.before.seededSubmission id = true)

section Runs

variable [Digests] [JobDigests] [GroupDigests]

omit [Digests] [JobDigests] [GroupDigests] in
theorem Elsewhere.kept (h : Elsewhere s s') : GroupsKept s s' := by
  obtain ⟨-, -, hframe⟩ := h
  rw [hframe]
  exact .of_frame rfl rfl rfl rfl

theorem GroupStep.change {step : GroupStep} (hvalid : step.Valid) :
    GroupChange step.before step.after := by
  obtain ⟨before, call, after⟩ := step
  cases call with
  | none => exact .kept (Elsewhere.kept hvalid)
  | some c =>
    have hafter : after = (c.exec before).2 := hvalid
    subst hafter
    exact Tx.commit_preserves (.kept (.refl _)) GroupCall.change

omit [Digests] [JobDigests] [GroupDigests] in
/-- A row that is new is the one that the selector wrote. -/
theorem GroupChange.new_selection {x : CandidateSelection} (h : GroupChange s s')
    (hx : x ∈ s'.selections.rows) (hnew : x ∉ s.selections.rows) : Selects s s' x := by
  cases h with
  | kept hk => exact absurd (hk.selections ▸ hx) hnew
  | seals hs => exact absurd (hs.kept.2.1 ▸ hx) hnew
  | binds hb => exact absurd (hb.kept.2.1 ▸ hx) hnew
  | selects y hy =>
    rcases (Table.mem_insert? hy.frame.2.2.2).mp hx with h | rfl
    · exact absurd h hnew
    · exact hy

/-- The rule's own row. -/
theorem selectCandidateByRule_new {group : String} {now : Int} {env : Surroundings}
    {x : CandidateSelection}
    (hx : x ∈ ((GroupCall.exec ⟨.selectCandidateByRule group now, env⟩ s).2).selections.rows)
    (hnew : x ∉ s.selections.rows) : x.groupId = group ∧ ∃ g, s.groups.find group = some g ∧
      RuleDecides s g x := by
  unfold GroupCall.exec at hx
  obtain ⟨u, t, hbody, hcommit⟩ | ⟨e, -, hcommit⟩ :=
    Tx.commit_eq (GroupCall.body ⟨.selectCandidateByRule group now, env⟩) s
  · rw [hcommit] at hx
    simp only [GroupCall.body, discard_ok] at hbody
    obtain ⟨y, hselect⟩ := hbody
    obtain ⟨hgroup, hselects, hrule⟩ := selectCandidateByRule_ok hselect
    rcases (Table.mem_insert? hselects.frame.2.2.2).mp hx with h | rfl
    · exact absurd h hnew
    · exact ⟨hgroup, hrule⟩
  · rw [hcommit] at hx
    exact absurd hx hnew

theorem GroupStep.holds {step : GroupStep} (hvalid : step.Valid) (hbound : Bound step.before)
    (hfed : Jobs.Fed step.before.jobs) : step.Holds := by
  have hchange := GroupStep.change hvalid
  refine ⟨hbound.change hchange, hchange.selections,
    fun x hx hnew => (hchange.new_selection hx hnew).unseeded,
    fun sub hheld => hheld.noJob (GroupStep.fed hvalid hfed), ?_, ?_, ?_⟩
  · intro sub b env hcall hheld hresult
    have hafter : step.after = (GroupCall.exec ⟨.beginIntegration b, env⟩ step.before).2 := by
      simpa [GroupStep.Valid, hcall] using hvalid
    rw [hafter]
    unfold GroupCall.exec
    obtain ⟨u, t, hbody, -⟩ | ⟨e, -, hcommit⟩ :=
      Tx.commit_eq (GroupCall.body ⟨.beginIntegration b, env⟩) step.before
    · simp only [GroupCall.body, discard_ok] at hbody
      obtain ⟨id, hbegin⟩ := hbody
      exact absurd hbegin (hheld.beginIntegration hresult id)
    · exact ⟨e, by rw [hcommit]⟩
  · intro sub id revision now automatic env hcall hheld
    have hafter : step.after =
        (GroupCall.exec ⟨.requestCompletion id revision now automatic, env⟩ step.before).2 := by
      simpa [GroupStep.Valid, hcall] using hvalid
    rw [hafter]
    unfold GroupCall.exec
    obtain ⟨u, t, hbody, hcommit⟩ | ⟨e, -, hcommit⟩ := Tx.commit_eq
      (GroupCall.body ⟨.requestCompletion id revision now automatic, env⟩) step.before
    · rw [hcommit]
      simp only [GroupCall.body, discard_ok] at hbody
      obtain ⟨change, hrequest⟩ := hbody
      exact hheld.requestCompletion hrequest
    · rw [hcommit]
      exact ⟨[], by simp, by simp⟩
  · intro group now env hcall x hx hnew
    have hafter : step.after = (GroupCall.exec ⟨.selectCandidateByRule group now, env⟩ step.before).2 := by
      simpa [GroupStep.Valid, hcall] using hvalid
    rw [hafter] at hx
    obtain ⟨hgroup, g, hg, hrule⟩ := selectCandidateByRule_new hx hnew
    refine ⟨hgroup, fun p hp => ?_⟩
    have hid : g.groupId = group := Table.find_key hg
    subst hid
    exact hrule.earlier hp

theorem Trace.holds {steps : List GroupStep} (h : Trace s steps) (hbound : Bound s)
    (hfed : Jobs.Fed s.jobs) : ∀ step ∈ steps, step.Holds := by
  induction h with
  | nil => simp
  | cons hvalid _ ih =>
    have hstep := GroupStep.holds hvalid hbound hfed
    exact List.forall_mem_cons.mpr ⟨hstep, ih hstep.bound (GroupStep.fed hvalid hfed)⟩

/-- What was selected at the start of a run is selected ever after. -/
theorem Trace.selections {steps : List GroupStep} (h : Trace s steps) :
    ∀ step ∈ steps, s.selections.Extends step.after.selections := by
  induction h with
  | nil => simp
  | cons hvalid _ ih =>
    have hstep := (GroupStep.change hvalid).selections
    exact List.forall_mem_cons.mpr ⟨hstep, fun step hlater => hstep.trans (ih step hlater)⟩

theorem Trace.selections_pairwise {steps : List GroupStep} (h : Trace s steps) :
    steps.Pairwise fun first later => first.after.selections.Extends later.after.selections := by
  induction h with
  | nil => exact .nil
  | cons _ hrest ih => exact .cons hrest.selections ih

/-- **Candidate-group holds.** In a run from a new store every step keeps the groups, arms and
selections as they are bound, holds back what is not selected, and decides by the rule only over
settled arms; and no selection of a group changes between two steps. -/
theorem candidate_group_holds {path : String} {steps : List GroupStep}
    (h : Trace (.created path) steps) : (∀ step ∈ steps, step.Holds) ∧
      steps.Pairwise fun first later => ∀ group x,
        first.after.selections.find group = some x →
          later.after.selections.find group = some x := by
  refine ⟨h.holds (bound_created path) (fed_created path), h.selections_pairwise.imp ?_⟩
  intro first later hextends group x hx
  exact hextends.find hx

end Runs

/-! ### Seeded candidates beside the winner -/

/-- Every accepted candidate of the arm is a seeded one. -/
def GroupStore.OnlySeeded (s : GroupStore) (a : BoundArm) : Prop :=
  ∀ sub ∈ s.submissions.rows, sub.attemptId = a.attempt → s.verification sub = .accepted →
    s.seededSubmission sub.submissionId = true

theorem mem_callSteps [Digests] [JobDigests] [GroupDigests] {calls later : List GroupCall}
    {c : GroupCall} : ⟨after s calls, some c, (c.exec (after s calls)).2⟩ ∈
      callSteps s (calls ++ c :: later) := by
  induction calls generalizing s with
  | nil => exact List.mem_cons_self
  | cons d calls ih => exact List.mem_cons_of_mem _ ih

namespace Relaunch

attribute [local instance] digests jobDigests groupDigests

/-- The calls of the second arm before the rule decides. -/
def unruled : List GroupCall :=
  [⟨.admitPrepared [secondInputs] 4 200 false none, surroundings⟩, submission second "c",
    accepted "c"]

def rule : GroupCall := ⟨.selectCandidateByRule "group-task" 300, surroundings⟩

theorem mem_steps {step : GroupStep}
    (h : step ∈ callSteps ended (unruled ++ rule :: [seeding])) : step ∈ steps := by
  refine List.mem_cons_of_mem _ (List.mem_append_right _ (List.mem_cons_of_mem _ ?_))
  rw [List.append_nil]
  exact h

end Relaunch

/-- The run of the group keeps its holds. -/
theorem candidate_group_holds_relaunch :
    letI := Relaunch.digests
    letI := Relaunch.jobDigests
    letI := Relaunch.groupDigests
    (∀ step ∈ Relaunch.steps, step.Holds) ∧
      Relaunch.steps.Pairwise fun first later => ∀ group x,
        first.after.selections.find group = some x →
          later.after.selections.find group = some x := by
  let _ := Relaunch.digests
  let _ := Relaunch.jobDigests
  let _ := Relaunch.groupDigests
  exact candidate_group_holds Relaunch.trace

/-- The rule passes over an arm whose second candidate is accepted and not seeded, because its
first accepted one is; and the winner becomes a seeded candidate after it was selected. -/
theorem seeded_winner :
    letI := Relaunch.digests
    letI := Relaunch.jobDigests
    letI := Relaunch.groupDigests
    Trace (.created "/state.db") Relaunch.steps ∧
      (¬∀ step ∈ Relaunch.steps, ∀ x ∈ step.after.selections.rows, ∀ p, x.picked = some p →
        step.after.seededSubmission p.submissionId = false) ∧
      ¬∀ step ∈ Relaunch.steps, ∀ group now env,
        step.call = some ⟨.selectCandidateByRule group now, env⟩ →
        ∀ x ∈ step.after.selections.rows, x ∉ step.before.selections.rows →
        ∀ p, x.picked = some p → ∀ a ∈ step.before.boundArms group, a.arm < p.arm →
          a.outcome ≠ .pending ∧ (a.outcome = .accepted → step.before.OnlySeeded a) := by
  let _ := Relaunch.digests
  let _ := Relaunch.jobDigests
  let _ := Relaunch.groupDigests
  refine ⟨Relaunch.trace, ?_, ?_⟩
  · intro h
    have hseeded : ∃ step ∈ Relaunch.steps, ∃ x ∈ step.after.selections.rows,
        x.picked.any (fun p => step.after.seededSubmission p.submissionId) = true := by
      decide +kernel
    obtain ⟨step, hstep, x, hx, hpicked⟩ := hseeded
    obtain ⟨p, hp, hseeded⟩ := (Option.any_eq_true _ _).mp hpicked
    rw [h step hstep x hx p hp] at hseeded
    cases hseeded
  · intro h
    have hrule := h _ (Relaunch.mem_steps mem_callSteps) "group-task" 300 Relaunch.surroundings rfl
    dsimp only at hrule
    have hskipped : ∃ x ∈ (Relaunch.rule.exec (after Relaunch.ended Relaunch.unruled)).2.selections.rows,
        x ∉ (after Relaunch.ended Relaunch.unruled).selections.rows ∧
        ∃ a ∈ (after Relaunch.ended Relaunch.unruled).boundArms "group-task",
          x.picked.any (fun p => a.arm < p.arm) = true ∧ a.outcome = .accepted ∧
          ∃ sub ∈ (after Relaunch.ended Relaunch.unruled).submissions.rows,
            sub.attemptId = a.attempt ∧
            (after Relaunch.ended Relaunch.unruled).verification sub = .accepted ∧
            (after Relaunch.ended Relaunch.unruled).seededSubmission sub.submissionId = false := by
      decide +kernel
    obtain ⟨x, hx, hnew, a, ha, hpicked, haccepted, sub, hsub, hattempt, hverified, hfree⟩ := hskipped
    obtain ⟨p, hp, hlt⟩ := (Option.any_eq_true _ _).mp hpicked
    obtain ⟨-, hseeded⟩ := hrule x hx hnew p hp a ha (of_decide_eq_true hlt)
    rw [hseeded haccepted sub hsub hattempt hverified] at hfree
    cases hfree

end Herdr.Groups
