import Herdr.Lib.Segments
import Herdr.Store.Contracts
import Herdr.Verify.Cancellation
import Mathlib.Logic.Relation

/-!
# Write scopes of concurrent holders

Admission compares segments, globs and certainty; the result check compares bytes. Both are about
the same segmented texts: a scope path of an accepted contract is one, `in_write_scope` says that
it covers the bytes of a changed path, and two scopes that cover one path have conflicting claims.
A reservation finds no conflict with the claims that retained attempts hold, and what an attempt
holds never changes, so no two retained attempts of different tasks may change one file.
-/

namespace Herdr

/-! ## Scope paths as segmented texts -/

section Paths

theorem refuse_ok {refused : Prop} [Decidable refused] {message : String} {u : Unit} :
    refuse refused message = .ok u ↔ ¬refused := by
  unfold refuse
  split <;> simp [*]

/-- The kept parts are nonempty pieces of the text. -/
theorem scopeParts_ok {pieces parts : List (List Char)} {glob : Bool}
    (h : scopeParts pieces = .ok (parts, glob)) : ∀ part ∈ parts, part ∈ pieces ∧ part ≠ [] := by
  induction pieces generalizing parts glob with
  | nil =>
    cases h
    simp
  | cons piece pieces ih =>
    unfold scopeParts at h
    split at h
    · intro part hpart
      obtain ⟨hmem, hne⟩ := ih h part hpart
      exact ⟨List.mem_cons_of_mem _ hmem, hne⟩
    · next hkept =>
      split at h
      · cases h
      · obtain ⟨⟨rest, g⟩, hrest, hpure⟩ := Except.bind_ok.mp h
        cases hpure
        intro part hpart
        rcases List.mem_cons.mp hpart with rfl | hpart
        · exact ⟨List.mem_cons_self, fun he => hkept (.inl he)⟩
        · obtain ⟨hmem, hne⟩ := ih hrest part hpart
          exact ⟨List.mem_cons_of_mem _ hmem, hne⟩

/-- A path and its certainty, as normalization leaves them. -/
structure Normalized (path : String) (certainty : ScopeCertainty) (a : Segmented Char '/') :
    Prop where
  text : path.toList = a.text
  exact : certainty = .exact → a.directory = false

theorem normalizeScopePath_ok {raw path : String} {certainty : ScopeCertainty}
    (h : normalizeScopePath raw = .ok (path, certainty)) :
    ∃ a, Normalized path certainty a := by
  unfold normalizeScopePath at h
  simp only [Except.bind_ok, refuse_ok] at h
  obtain ⟨-, -, ⟨parts, glob⟩, hparts, -, hne, -, -, h⟩ := h
  cases h
  have hpart := scopeParts_ok hparts
  refine ⟨⟨parts, namesDirectory raw, hne, fun part hp => (hpart part hp).2,
    fun part hp => Segmented.not_mem_of_mem_splitOn (hpart part hp).1⟩, ?_, ?_⟩
  · rw [String.toList_ofList]
    rfl
  · intro hexact
    split at hexact
    · cases hexact
    · next h =>
      simp only [Bool.or_eq_true, not_or, Bool.not_eq_true] at h
      exact h.1

variable {path : String} {certainty : ScopeCertainty} {a b : Segmented Char '/'}

/-- The bytes of a text in UTF-8. -/
def utf8Bytes (chars : List Char) : List UInt8 := chars.flatMap String.utf8EncodeChar

theorem asBytes_eq (value : String) : asBytes value = utf8Bytes value.toList := by
  rw [asBytes, ← String.utf8Encode_toList, List.utf8Encode, List.data_toByteArray]
  rfl

/-- UTF-8 reflects prefixes. -/
theorem utf8Bytes_begins {x y : List Char} (h : utf8Bytes x <+: utf8Bytes y) : x <+: y := by
  obtain ⟨rest, hrest⟩ := h
  apply List.isPrefix_of_utf8Encode_append_eq_utf8Encode rest.toByteArray
  unfold utf8Bytes at hrest
  rw [List.utf8Encode, List.utf8Encode, ← hrest, List.toByteArray_append]

namespace Normalized

theorem namesDirectory_eq (h : Normalized path certainty a) :
    namesDirectory path = a.directory := by
  rw [namesDirectory, h.text, Bool.eq_iff_iff, decide_eq_true_iff]
  exact Segmented.getLast?_text

theorem splitClaimPath_eq (h : Normalized path certainty a) :
    splitClaimPath path = (a.directory, a.parts) := by
  unfold splitClaimPath
  rw [h.namesDirectory_eq, Segmented.filter_splitOn_rdropWhile, h.text,
    Segmented.filter_splitOn_text]

/-- A scope accepts exactly the paths that its text covers. -/
theorem inWriteScope_iff (h : Normalized path certainty a) {changed : List UInt8} :
    inWriteScope [path] changed = true ↔ a.Covers utf8Bytes changed := by
  simp only [inWriteScope, List.any_cons, List.any_nil, Bool.or_false, Bool.or_eq_true,
    Bool.and_eq_true, decide_eq_true_iff, List.isPrefixOf_iff_prefix, h.namesDirectory_eq,
    asBytes_eq, h.text, Segmented.Covers]

end Normalized

theorem exists_of_inWriteScope {scopes : List String} {changed : List UInt8}
    (h : inWriteScope scopes changed = true) :
    ∃ scope ∈ scopes, inWriteScope [scope] changed = true := by
  obtain ⟨scope, hmem, hscope⟩ := List.any_eq_true.mp h
  exact ⟨scope, hmem, List.any_eq_true.mpr ⟨scope, List.mem_singleton_self _, hscope⟩⟩

/-! ## Overlapping claims -/

theorem segmentsCouldOverlap_comm {leftDir rightDir : Bool} {left right : List (List Char)} :
    segmentsCouldOverlap leftDir rightDir left right =
      segmentsCouldOverlap rightDir leftDir right left := by
  induction left generalizing right with
  | nil => cases right <;> rfl
  | cons l left ih =>
    cases right with
    | nil => rfl
    | cons r right =>
      simp only [segmentsCouldOverlap, ih, Bool.or_comm (coversRest l), ne_comm (a := l),
        Bool.and_assoc, Bool.and_comm (!hasGlob l)]

/-- Segments that begin the other side's could overlap it, if they end there or name a
directory. -/
theorem segmentsCouldOverlap_of_begins {leftDir rightDir : Bool} {left right : List (List Char)}
    (h : left <+: right) (hend : leftDir = true ∨ left = right) :
    segmentsCouldOverlap leftDir rightDir left right = true := by
  induction left generalizing right with
  | nil =>
    cases right with
    | nil => rfl
    | cons r right => exact hend.resolve_right (by simp)
  | cons l left ih =>
    obtain ⟨rest, rfl⟩ := h
    rw [List.cons_append, segmentsCouldOverlap]
    split
    · rfl
    · rw [if_neg (by simp)]
      exact ih (List.prefix_append _ _) (hend.imp_right fun h => by simpa using h)

theorem segmentsCouldOverlap_of_overlaps (h : a.Overlaps b) :
    segmentsCouldOverlap a.directory b.directory a.parts b.parts = true := by
  rcases h with rfl | ⟨hdirectory, h⟩ | ⟨hdirectory, h⟩
  · exact segmentsCouldOverlap_of_begins (List.prefix_refl _) (.inr rfl)
  · exact segmentsCouldOverlap_of_begins h (.inl hdirectory)
  · rw [segmentsCouldOverlap_comm]
    exact segmentsCouldOverlap_of_begins h (.inl hdirectory)

theorem claimsConflict_claim (left right : ContractScopePath) :
    claimsConflict left.claim right.claim =
      if left.certainty = .exact ∧ right.certainty = .exact then
        left.path = right.path && (left.access = .write || right.access = .write)
      else pathsCouldOverlap left.path right.path := by
  obtain ⟨path, access, certainty⟩ := left
  obtain ⟨path', access', certainty'⟩ := right
  cases certainty <;> cases certainty' <;> rfl

/-- **Overlapping write scopes have conflicting claims**, whatever their certainty. -/
theorem claimsConflict_of_overlaps {left right : ContractScopePath}
    (hleft : Normalized left.path left.certainty a)
    (hright : Normalized right.path right.certainty b) (hwrite : left.access = .write)
    (h : a.Overlaps b) : claimsConflict left.claim right.claim = true := by
  rw [claimsConflict_claim]
  split
  · -- two exact paths name no directory, so they are the same text
    next hexact =>
    have ha := hleft.exact hexact.1
    have hb := hright.exact hexact.2
    have hab : a = b := by
      rcases h with hab | ⟨hd, -⟩ | ⟨hd, -⟩
      · exact hab
      · rw [ha] at hd
        cases hd
      · rw [hb] at hd
        cases hd
    have hpath : left.path = right.path := by
      rw [← String.toList_inj, hleft.text, hright.text, hab]
    simp [hpath, hwrite]
  · simp only [pathsCouldOverlap, hleft.splitClaimPath_eq, hright.splitClaimPath_eq]
    split
    · rfl
    · exact segmentsCouldOverlap_of_overlaps h

end Paths

/-! ## Accepted contracts -/

section Accepted

variable {contract left right : PreparedContract}

theorem length_prepareScopePaths {seen : List String} {raws : List UntrustedScopePath}
    {paths : List ContractScopePath} (h : prepareScopePaths seen raws = .ok paths) :
    paths.length = raws.length := by
  induction raws generalizing seen paths with
  | nil =>
    cases h
    rfl
  | cons raw raws ih =>
    simp only [prepareScopePaths, Except.bind_ok] at h
    obtain ⟨_, -, _, -, _, -, rest, hrest, hpure⟩ := h
    cases hpure
    exact congrArg (· + 1) (ih hrest)

theorem length_prepareNamedResources {seen : List NamedResource}
    {raws : List UntrustedNamedResource} {resources : List ContractNamedResource}
    (h : prepareNamedResources seen raws = .ok resources) : resources.length = raws.length := by
  induction raws generalizing seen resources with
  | nil =>
    cases h
    rfl
  | cons raw raws ih =>
    simp only [prepareNamedResources, Except.bind_ok] at h
    obtain ⟨_, -, _, -, _, -, rest, hrest, hpure⟩ := h
    cases hpure
    exact congrArg (· + 1) (ih hrest)

theorem prepareScopePaths_ok {seen : List String} {raws : List UntrustedScopePath}
    {paths : List ContractScopePath} (h : prepareScopePaths seen raws = .ok paths) :
    ∀ scope ∈ paths, ∃ a, Normalized scope.path scope.certainty a := by
  induction raws generalizing seen paths with
  | nil =>
    cases h
    simp
  | cons raw raws ih =>
    simp only [prepareScopePaths, Except.bind_ok, refuse_ok] at h
    obtain ⟨access, -, ⟨path, certainty⟩, hpath, -, -, rest, hrest, hpure⟩ := h
    cases hpure
    intro scope hscope
    rcases List.mem_cons.mp hscope with rfl | hscope
    · exact normalizeScopePath_ok hpath
    · exact ih hrest scope hscope

/-- What the parser makes sure of in an accepted scope. -/
structure ScopeAccepted (contract : PreparedContract) : Prop where
  normalized : ∀ scope ∈ contract.scopePaths, ∃ a, Normalized scope.path scope.certainty a
  bounded : contract.claims.length ≤ 72

theorem parseVerified_ok [Documents] {raw : List UInt8}
    (h : PreparedContract.parseVerified raw = .ok contract) : ScopeAccepted contract := by
  simp only [PreparedContract.parseVerified, Except.bind_ok] at h
  obtain ⟨-, -, h⟩ := h
  cases hdecode : (Documents.decode raw : Option UntrustedContractDocument) with
  | none =>
    rw [hdecode] at h
    cases h
  | some document =>
    rw [hdecode] at h
    simp only [UntrustedContractDocument.intoPrepared, Except.bind_ok, refuse_ok] at h
    obtain ⟨-, -, -, -, _, -, -, -, -, -, -, -, -, hbounds, paths, hpaths, _, -, _, -, named,
      hnamed, h⟩ := h
    cases h
    refine ⟨prepareScopePaths_ok hpaths, ?_⟩
    have h₁ := length_prepareScopePaths hpaths
    have h₂ := length_prepareNamedResources hnamed
    simp only [PreparedContract.claims, List.length_append, List.length_map]
    omega

/-- A change that the contract's write scopes admit lies in one of its write paths. -/
theorem exists_of_writeScopes {scopes : List String} {changed : List UInt8}
    (h : contract.writeScopes = some scopes) (hchanged : inWriteScope scopes changed = true) :
    ∃ scope ∈ contract.scopePaths, scope.access = .write ∧
      inWriteScope [scope.path] changed = true := by
  obtain ⟨path, hpath, hscope⟩ := exists_of_inWriteScope hchanged
  unfold PreparedContract.writeScopes at h
  split at h
  · cases h
  · cases h
    obtain ⟨scope, hmem, rfl⟩ := List.mem_map.mp hpath
    obtain ⟨hmem, -⟩ := List.mem_filter.mp hmem
    obtain ⟨hmem, hwrite⟩ := List.mem_filter.mp hmem
    exact ⟨scope, hmem, by simpa using hwrite, hscope⟩

/-- **Contracts that admit one change have conflicting claims.** -/
theorem claimsConflict_of_inWriteScope [Documents] {rawLeft rawRight : List UInt8}
    (hleft : PreparedContract.parseVerified rawLeft = .ok left)
    (hright : PreparedContract.parseVerified rawRight = .ok right)
    {scopesLeft scopesRight : List String}
    (hscopesLeft : left.writeScopes = some scopesLeft)
    (hscopesRight : right.writeScopes = some scopesRight) {changed : List UInt8}
    (hchangedLeft : inWriteScope scopesLeft changed = true)
    (hchangedRight : inWriteScope scopesRight changed = true) :
    ∃ a ∈ left.scopePaths, ∃ b ∈ right.scopePaths, claimsConflict a.claim b.claim = true := by
  obtain ⟨a, ha, hwrite, hchangedLeft⟩ := exists_of_writeScopes hscopesLeft hchangedLeft
  obtain ⟨b, hb, -, hchangedRight⟩ := exists_of_writeScopes hscopesRight hchangedRight
  obtain ⟨ta, hta⟩ := (parseVerified_ok hleft).normalized a ha
  obtain ⟨tb, htb⟩ := (parseVerified_ok hright).normalized b hb
  have hoverlap : ta.Overlaps tb := Segmented.overlaps_of_covers utf8Bytes_begins
    (hta.inWriteScope_iff.mp hchangedLeft) (htb.inWriteScope_iff.mp hchangedRight)
  exact ⟨a, ha, b, hb, claimsConflict_of_overlaps hta htb hwrite hoverlap⟩

end Accepted

/-! ## The overlap check -/

section Overlap

variable [Documents] {s : ContractStore} {task : TaskId} {holder : Attempt}
  {candidate held : AcceptedContract}

omit [Documents] in
theorem firstConflict_none {candidate held : List ResourceClaim}
    (h : ContractStore.firstConflict candidate held = none) :
    ∀ claim ∈ candidate, ∀ other ∈ held, claimsConflict claim other = false := by
  intro claim hclaim other hother
  have hnone := List.findSome?_eq_none_iff.mp h claim hclaim
  rw [Option.map_eq_none_iff, List.find?_eq_none] at hnone
  simpa using hnone other hother

/-- The claims of a revision are those of its contract: the bound on their number is never met. -/
theorem claimRows_eq (s : ContractStore) (task : TaskId) (revision : Nat) :
    s.claimRows task revision =
      .ok (((s.contracts.find (task, revision)).map (·.contract.claims)).getD []) := by
  unfold ContractStore.claimRows
  dsimp only
  rw [if_neg]
  cases s.contracts.find (task, revision) with
  | none => simp
  | some row =>
    obtain ⟨raw, hraw⟩ := row.contract.accepted
    have hbounded := (parseVerified_ok hraw).bounded
    simpa using hbounded

/-- The loop answers, and with nothing only when no holder has a conflicting claim. -/
theorem overlapWithHolders_ok {claims : List ResourceClaim} (attempts : List Attempt) :
    ∃ overlap, s.overlapWithHolders task claims attempts = .ok overlap ∧
      (overlap = none → ∀ holder ∈ attempts, holder.retainsCapacity = true → holder.task ≠ task →
        ∀ held, s.heldContract holder = some held →
        ∀ claim ∈ claims, ∀ other ∈ held.claims, claimsConflict claim other = false) := by
  induction attempts with
  | nil => exact ⟨none, rfl, by simp⟩
  | cons attempt rest ih =>
    obtain ⟨overlap, hrest, hnone⟩ := ih
    rw [ContractStore.overlapWithHolders]
    split
    · next hskip =>
      refine ⟨overlap, hrest, fun h holder hmem hretains htask => ?_⟩
      rcases List.mem_cons.mp hmem with rfl | hmem
      · simp [hretains, htask] at hskip
      · exact hnone h holder hmem hretains htask
    · cases hrevision : s.revisionAtReservation attempt.id attempt.task with
      | none =>
        refine ⟨overlap, hrest, fun h holder hmem hretains htask held hheld => ?_⟩
        rcases List.mem_cons.mp hmem with rfl | hmem
        · simp [ContractStore.heldContract, hrevision] at hheld
        · exact hnone h holder hmem hretains htask held hheld
      | some revision =>
        dsimp only
        rw [claimRows_eq]
        simp only [bind, Except.bind]
        split
        · exact ⟨_, rfl, by simp⟩
        · next hconflict =>
          refine ⟨overlap, hrest, fun h holder hmem hretains htask held hheld => ?_⟩
          rcases List.mem_cons.mp hmem with rfl | hmem
          · simp only [ContractStore.heldContract, hrevision, Option.bind_some,
              Option.map_eq_some_iff] at hheld
            obtain ⟨row, hrow, rfl⟩ := hheld
            rw [hrow] at hconflict
            exact firstConflict_none hconflict
          · exact hnone h holder hmem hretains htask held hheld

/-- **The overlap check.** It answers, and with nothing only when no claim of the task's latest
contract conflicts with one that a retained attempt of another task holds. -/
theorem overlapWithRetained_ok (attempts : List Attempt) (hlatest : s.latestContract task = some candidate) :
    ∃ overlap, s.overlapWithRetained task attempts = .ok overlap ∧
      (overlap = none → ∀ holder ∈ attempts, holder.retainsCapacity = true → holder.task ≠ task →
        ∀ held, s.heldContract holder = some held →
        ∀ claim ∈ candidate.claims, ∀ other ∈ held.claims, claimsConflict claim other = false) := by
  obtain ⟨revision, hrevision, hfind⟩ := Option.bind_eq_some_iff.mp hlatest
  obtain ⟨row, hrow, rfl⟩ := Option.map_eq_some_iff.mp hfind
  obtain ⟨overlap, hloop, hnone⟩ :=
    @overlapWithHolders_ok _ s task row.contract.claims attempts
  unfold ContractStore.overlapWithRetained
  rw [hrevision]
  dsimp only
  rw [claimRows_eq, hrow]
  simp only [bind, Except.bind, Option.map_some, Option.getD_some]
  split
  · next hempty =>
    refine ⟨none, rfl, fun _ holder _ _ _ held _ claim hclaim => ?_⟩
    rw [hempty] at hclaim
    cases hclaim
  · exact ⟨overlap, hloop, hnone⟩

/-- No change is admitted by the write scopes of both. -/
def ScopesDisjoint (left right : PreparedContract) : Prop :=
  ∀ scopesLeft scopesRight : List String, left.writeScopes = some scopesLeft →
    right.writeScopes = some scopesRight → ∀ changed : List UInt8,
    ¬(inWriteScope scopesLeft changed = true ∧ inWriteScope scopesRight changed = true)

omit [Documents] in
theorem ScopesDisjoint.symm {left right : PreparedContract} (h : ScopesDisjoint left right) :
    ScopesDisjoint right left :=
  fun _ _ hleft hright changed hchanged => h _ _ hright hleft changed hchanged.symm

theorem scopesDisjoint_of_claims
    (h : ∀ claim ∈ candidate.claims, ∀ other ∈ held.claims, claimsConflict claim other = false) :
    ScopesDisjoint candidate.toPreparedContract held.toPreparedContract := by
  intro scopesLeft scopesRight hleft hright changed hchanged
  obtain ⟨rawLeft, hrawLeft⟩ := candidate.accepted
  obtain ⟨rawRight, hrawRight⟩ := held.accepted
  obtain ⟨a, ha, b, hb, hconflict⟩ := claimsConflict_of_inWriteScope hrawLeft hrawRight hleft hright
    hchanged.1 hchanged.2
  have hclaim : a.claim ∈ candidate.claims :=
    List.mem_append_left _ (List.mem_map_of_mem ha)
  have hother : b.claim ∈ held.claims := List.mem_append_left _ (List.mem_map_of_mem hb)
  rw [h _ hclaim _ hother] at hconflict
  cases hconflict

/-- An admission that passes finds the write scopes of every other holder disjoint. -/
theorem scopesDisjoint_of_verdict {env : Outside} (hlatest : s.latestContract task = some candidate)
    (hclear : s.overlapVerdict env task = none) {holder : Attempt} (hholder : holder ∈ s.retained)
    (htask : holder.task ≠ task) (hheld : s.heldContract holder = some held) :
    ScopesDisjoint candidate.toPreparedContract held.toPreparedContract := by
  obtain ⟨overlap, hoverlap, hnone⟩ := overlapWithRetained_ok s.retained hlatest
  have hoverlap_none : overlap = none := by
    unfold ContractStore.overlapVerdict at hclear
    rw [hoverlap] at hclear
    cases overlap with
    | none => rfl
    | some text => cases hclear
  have hretains : holder.retainsCapacity = true := (List.mem_filter.mp hholder).2
  exact scopesDisjoint_of_claims (hnone hoverlap_none holder hholder hretains htask held hheld)

end Overlap

/-! ## Steps that reserve nothing -/

/-- The log grew, by events none of which is a reservation. -/
def NoReservation (l l' : List Event) : Prop :=
  ∃ es, l' = l ++ es ∧ ∀ e ∈ es, e.kind ≠ .attemptReserved

namespace NoReservation

variable {l l' l'' : List Event}

theorem refl (l : List Event) : NoReservation l l := ⟨[], by simp, by simp⟩

theorem trans (h : NoReservation l l') (h' : NoReservation l' l'') : NoReservation l l'' := by
  obtain ⟨es, rfl, hes⟩ := h
  obtain ⟨es', rfl, hes'⟩ := h'
  refine ⟨es ++ es', by simp, fun e he => ?_⟩
  rcases List.mem_append.mp he with he | he
  · exact hes e he
  · exact hes' e he

theorem snoc {e : Event} (he : e.kind ≠ .attemptReserved) : NoReservation l (l ++ [e]) :=
  ⟨[e], rfl, by simpa using he⟩

theorem of_quiet (h : QuietLog l l') : NoReservation l l' := by
  obtain ⟨es, rfl, hes⟩ := h
  refine ⟨es, rfl, fun e he hkind => ?_⟩
  have htracked := hes e he
  simp [EventKind.tracked, hkind] at htracked

theorem of_records {s : Store} {es : List Event} (h : Records s es) : NoReservation l (l ++ es) := by
  refine ⟨es, rfl, fun e he hkind => ?_⟩
  have hmem := h.kind_mem e he
  simp [hkind, recordKinds] at hmem

end NoReservation

/-- What a store method other than an admission may do: it records no reservation, keeps every
attempt, and retains no attempt that was reserved and has ended. An adopted attempt has no
reservation. -/
structure Unreserved (s s' : Store) : Prop where
  log : NoReservation s.events s'.events
  kept : ∀ a ∈ s.attempts.rows, ∃ a' ∈ s'.attempts.rows, a'.id = a.id
  retained : ∀ a' ∈ s'.retained, (∃ a ∈ s.retained, a.id = a'.id ∧ a.task = a'.task) ∨
    ∀ e ∈ s.events, e.isAbout a'.id.val [.attemptReserved] = false

namespace Unreserved

variable {s s' : Store}

theorem of_same (hattempts : s'.attempts = s.attempts) (hlog : NoReservation s.events s'.events) :
    Unreserved s s' := by
  refine ⟨hlog, fun a ha => ⟨a, hattempts ▸ ha, rfl⟩, fun a ha => .inl ⟨a, ?_, rfl, rfl⟩⟩
  unfold Store.retained at ha ⊢
  rwa [hattempts] at ha

theorem of_moves {old new : Attempt} (row : s.attempts.find old.id = some old)
    (move : AttemptMoves old new) (hattempts : s'.attempts = s.attempts.update new)
    (hlog : NoReservation s.events s'.events) : Unreserved s s' := by
  refine ⟨hlog, fun a ha => ?_, fun a ha => .inl ?_⟩
  · obtain ⟨a', ha', hmove⟩ := attempt_update old row move (Table.find_of_mem ha)
    exact ⟨a', hattempts ▸ Table.mem_of_find ha', hmove.id_eq⟩
  · obtain ⟨hmem, hretains⟩ := List.mem_filter.mp ha
    rw [hattempts] at hmem
    rcases Table.mem_update hmem with rfl | ⟨hmem, -⟩
    · refine ⟨old, List.mem_filter.mpr ⟨Table.mem_of_find row, ?_⟩, move.id_eq.symm,
        move.task_eq.symm⟩
      cases hterm : old.terminationObserved with
      | false => simp [Attempt.retainsCapacity, hterm]
      | true => simp [Attempt.retainsCapacity, move.terminated hterm] at hretains
    · exact ⟨a, List.mem_filter.mpr ⟨hmem, hretains⟩, rfl, rfl⟩

end Unreserved

theorem Effect.unreserved [Digests] {env : Outside} {s s' : Store} {o : Option Claim}
    (h : Effect env s o s') : Unreserved s s' ∨ ∃ record task now, record.inputs.task = task.id ∧
      env.overlap task.id = none ∧ Reserves s s' record task now := by
  cases h with
  | reserves _ of_task clear reserved => exact .inr ⟨_, _, _, of_task, clear, reserved⟩
  | reads => exact .inl (.of_same rfl (.refl _))
  | claims claimed =>
    obtain ⟨log, es, hquiet, he, hp⟩ := claimed.log
    refine .inl (.of_same (by rw [claimed.frame]) ?_)
    rw [he]
    exact (NoReservation.of_quiet hquiet).trans (.of_records (.prepares hp))
  | settles _ settled => exact .inl (.of_same (by rw [settled.frame]) (.of_quiet settled.log))
  | expires _ only => exact .inl (.of_same (by rw [only.frame]) (.of_quiet only.log))
  | records recorded => exact .inl (.of_same rfl (.of_records recorded))
  | @starts _ _ _ record attempt _ _ _ _ _ acknowledged published =>
    obtain ⟨log, hbefore, hafter⟩ := published.log
    have hid : attempt.id = record.attempt := Table.find_key acknowledged.attemptRow
    refine .inl (.of_moves (hid ▸ acknowledged.attemptRow) .launches (by rw [published.frame]) ?_)
    exact (NoReservation.of_quiet hbefore).trans
      ((NoReservation.snoc (by simp [Event.kind, EventBody.kind])).trans (.of_quiet hafter))
  | cancels cancelled =>
    exact .inl (.of_moves cancelled.attemptRow (.cancels _) cancelled.attempts
      (.of_quiet cancelled.log))
  | ends ended quiet =>
    obtain ⟨state, left, he⟩ := ended.attempts
    exact .inl (.of_moves ended.attemptRow (.ends state left) he (.of_quiet quiet))
  | stops ended stopped =>
    obtain ⟨state, left, he⟩ := ended.attempts
    obtain ⟨log, receipt, revision, hquiet, hstop⟩ := stopped.log
    refine .inl (.of_moves ended.attemptRow (.ends state left) he ?_)
    rw [hstop]
    exact (NoReservation.of_quiet hquiet).trans (.snoc (by simp [Event.kind, EventBody.kind]))
  | completes row frame quiet =>
    exact .inl (.of_moves row .requests (by rw [frame]) (.of_quiet quiet))
  | queues queued => exact .inl (.of_same (by rw [queued.frame]) (.of_quiet queued.log))
  | adopts frame quiet => exact .inl (.of_same (by rw [frame]) (.of_quiet quiet))

/-! ## What an attempt holds -/

section Held

variable [Documents] {s s' : ContractStore} {task : TaskId} {attempt : Attempt}

theorem reservedSequence_le {id : AttemptId} {n : Nat} (h : s.reservedSequence id = some n) :
    n ≤ s.head := by
  obtain ⟨i, hi, rfl⟩ := Option.map_eq_some_iff.mp h
  obtain ⟨hlt, -⟩ := List.findIdx?_eq_some_iff_findIdx_eq.mp hi
  exact hlt

/-- Only a reservation of the attempt moves its sequence. -/
theorem reservedSequence_append {id : AttemptId} {es : List Event}
    (hevents : s'.events = s.events ++ es)
    (hes : ∀ e ∈ es, e.isAbout id.val [.attemptReserved] = false) :
    s'.reservedSequence id = s.reservedSequence id := by
  unfold ContractStore.reservedSequence
  rw [hevents, List.findIdx?_append, List.findIdx?_eq_none_iff.mpr hes]
  simp

theorem reservedSequence_noReservation (h : NoReservation s.events s'.events) (id : AttemptId) :
    s'.reservedSequence id = s.reservedSequence id := by
  obtain ⟨es, hevents, hes⟩ := h
  refine reservedSequence_append hevents fun e he => ?_
  simp [Event.isAbout, hes e he]

/-- A revision that was selected has its row. -/
theorem exists_of_revision {keep : InstalledContract → Bool} {revision : Nat}
    (h : (s.revisions task keep).max? = some revision) :
    ∃ row, s.contracts.find (task, revision) = some row := by
  have hmem := List.max?_mem h
  obtain ⟨row, hrow, rfl⟩ := List.mem_map.mp hmem
  obtain ⟨hrow, hkeep⟩ := List.mem_filter.mp hrow
  have htask : row.contract.taskId = task := by
    simp only [Bool.and_eq_true, decide_eq_true_iff] at hkeep
    exact hkeep.1
  refine ⟨row, ?_⟩
  rw [← htask]
  exact Table.find_of_mem hrow

/-- What is held depends on the sequence of the reservation and on the contracts alone. -/
theorem heldContract_congr (hseq : s'.reservedSequence attempt.id = s.reservedSequence attempt.id)
    (hcontracts : s'.contracts = s.contracts) :
    s'.heldContract attempt = s.heldContract attempt := by
  unfold ContractStore.heldContract ContractStore.revisionAtReservation ContractStore.revisions
  rw [hseq, hcontracts]

/-- A contract installed after the reservation is not held. -/
theorem heldContract_insert {row : InstalledContract}
    (hseq : s'.reservedSequence attempt.id = s.reservedSequence attempt.id)
    (hinsert : s.contracts.insert? row = some s'.contracts) (hlater : s.head < row.installedSeq) :
    s'.heldContract attempt = s.heldContract attempt := by
  cases hreserved : s.reservedSequence attempt.id with
  | none =>
    rw [hreserved] at hseq
    simp [ContractStore.heldContract, ContractStore.revisionAtReservation, hreserved, hseq]
  | some n =>
    have hn := reservedSequence_le hreserved
    have hrevision : s'.revisionAtReservation attempt.id attempt.task =
        s.revisionAtReservation attempt.id attempt.task := by
      unfold ContractStore.revisionAtReservation ContractStore.revisions
      rw [hseq, hreserved, (Table.insert?_eq_some hinsert).2]
      have hskip : ¬row.installedSeq ≤ n := by omega
      simp [List.filter_append, hskip]
    unfold ContractStore.heldContract
    rw [hrevision]
    cases hrev : s.revisionAtReservation attempt.id attempt.task with
    | none => rfl
    | some revision =>
      have hmax : (s.revisions attempt.task fun row => row.installedSeq ≤ n).max? =
          some revision := by
        rw [ContractStore.revisionAtReservation, hreserved] at hrev
        exact hrev
      obtain ⟨found, hfound⟩ := exists_of_revision hmax
      simp only [Option.bind_some]
      rw [(Table.Extends.insert? hinsert).find hfound, hfound]

end Held

/-! ## Runs -/

section Runs

variable [Digests] [Documents] {s s' : ContractStore}

/-- A step of the project: a call of the lifecycle, an installation, or another store method. -/
inductive ContractStore.Step (s : ContractStore) : ContractStore → Prop
  | call (c : Call) : Step s { s with toStore := (exec (s.admitting c) s.toStore).2 }
  | install (env : InstallOutside) (prepared : PreparedContract) :
    Step s ((installContract env prepared).commit s).2
  | other {store : Store} (h : Unreserved s.toStore store) : Step s { s with toStore := store }

/-- Contracts are installed at past sequences, reserved attempts are in their table, and the write
scopes that retained attempts of different tasks hold are disjoint. -/
structure ScopeInv (s : ContractStore) : Prop where
  installed : ∀ row ∈ s.contracts.rows, row.installedSeq ≤ s.head
  reserved : ∀ e ∈ s.events, e.kind = .attemptReserved → ∃ a ∈ s.attempts.rows, a.id.val = e.entity
  disjoint : ∀ a ∈ s.retained, ∀ b ∈ s.retained, a.task ≠ b.task → ∀ left right,
    s.heldContract a = some left → s.heldContract b = some right →
    ScopesDisjoint left.toPreparedContract right.toPreparedContract

omit [Digests] in
theorem ScopeInv.created (path : String) : ScopeInv (.created path) := by
  refine ⟨fun row h => ?_, fun e h => ?_, fun a h => ?_⟩
  · cases h
  · cases h
  · cases h

omit [Digests] in
/-- What is held depends on the identity and the task of the attempt. -/
theorem heldContract_eq {a b : Attempt} (hid : a.id = b.id) (htask : a.task = b.task) :
    s.heldContract a = s.heldContract b := by
  simp only [ContractStore.heldContract, hid, htask]

omit [Digests] in
/-- An attempt without a reservation holds nothing. -/
theorem heldContract_none {a : Attempt}
    (h : ∀ e ∈ s.events, e.isAbout a.id.val [.attemptReserved] = false) :
    s.heldContract a = none := by
  have hnone : s.reservedSequence a.id = none := by
    rw [ContractStore.reservedSequence, List.findIdx?_eq_none_iff.mpr h]
    rfl
  simp [ContractStore.heldContract, ContractStore.revisionAtReservation, hnone]

omit [Digests] in
/-- **A step that reserves nothing.** The attempts and the log changed as `Unreserved` says, and
whatever an attempt held it still holds. -/
theorem ScopeInv.unreserved (hinv : ScopeInv s) (h : Unreserved s.toStore s'.toStore)
    (hheld : ∀ a, s'.heldContract a = s.heldContract a)
    (hinstalled : ∀ row ∈ s'.contracts.rows, row.installedSeq ≤ s'.head) : ScopeInv s' := by
  refine ⟨hinstalled, fun e he hkind => ?_, fun a ha b hb htask left right hleft hright => ?_⟩
  · obtain ⟨es, hevents, hes⟩ := h.log
    rw [hevents] at he
    rcases List.mem_append.mp he with he | he
    · obtain ⟨a, ha, hid⟩ := hinv.reserved e he hkind
      obtain ⟨a', ha', hid'⟩ := h.kept a ha
      exact ⟨a', ha', by rw [hid', hid]⟩
    · exact absurd hkind (hes e he)
  · rw [hheld] at hleft hright
    have hold : ∀ a ∈ s'.retained, ∀ c, s.heldContract a = some c →
        ∃ a₀ ∈ s.retained, a₀.id = a.id ∧ a₀.task = a.task := by
      intro a ha c hc
      rcases h.retained a ha with h | h
      · exact h
      · rw [heldContract_none h] at hc
        cases hc
    obtain ⟨a₀, ha₀, hida, htaska⟩ := hold a ha left hleft
    obtain ⟨b₀, hb₀, hidb, htaskb⟩ := hold b hb right hright
    rw [← heldContract_eq hida htaska] at hleft
    rw [← heldContract_eq hidb htaskb] at hright
    exact hinv.disjoint a₀ ha₀ b₀ hb₀ (by rw [htaska, htaskb]; exact htask) left right hleft hright

/-! ### Reservations -/

section Reservation

variable {store : Store} {record : AttemptInputRecord} {task : Task} {now : Int}

/-- No reservation of a new attempt is on record. -/
theorem ScopeInv.fresh (hinv : ScopeInv s) (h : Reserves s.toStore store record task now) :
    ∀ e ∈ s.events, e.isAbout record.attempt.val [.attemptReserved] = false := by
  intro e he
  cases habout : e.isAbout record.attempt.val [.attemptReserved] with
  | false => rfl
  | true =>
    simp only [Event.isAbout, Bool.and_eq_true, decide_eq_true_iff, List.contains_iff_mem,
      List.mem_singleton] at habout
    obtain ⟨a, ha, hid⟩ := hinv.reserved e he habout.2
    have hid : a.id = record.attemptRow.id := congrArg AttemptId.mk (hid.trans habout.1)
    have hnone := (Table.insert?_eq_some h.attempts).1
    rw [← hid, Table.find_of_mem ha] at hnone
    cases hnone

/-- The attempts that are retained after a reservation. -/
theorem Reserves.retained (h : Reserves s.toStore store record task now) {a : Attempt}
    (ha : a ∈ store.retained) :
    (a ∈ s.retained ∧ a.id ≠ record.attempt) ∨ a = record.attemptRow := by
  obtain ⟨hmem, hretains⟩ := List.mem_filter.mp ha
  rcases (Table.mem_insert? h.attempts).mp hmem with hmem | rfl
  · refine .inl ⟨List.mem_filter.mpr ⟨hmem, hretains⟩, fun hid => ?_⟩
    have hid : a.id = record.attemptRow.id := hid
    have hnone := (Table.insert?_eq_some h.attempts).1
    rw [← hid, Table.find_of_mem hmem] at hnone
    cases hnone
  · exact .inr rfl

/-- What the other attempts hold stays. -/
theorem Reserves.heldContract_ne (h : Reserves s.toStore store record task now) {a : Attempt}
    (hid : a.id ≠ record.attempt) :
    ({ s with toStore := store } : ContractStore).heldContract a = s.heldContract a := by
  obtain ⟨es, hevents, hes⟩ := h.log
  rw [List.append_assoc] at hevents
  refine heldContract_congr (reservedSequence_append hevents fun e he => ?_) rfl
  rcases List.mem_append.mp he with he | he
  · rw [List.mem_singleton.mp he]
    have hval : record.attempt.val ≠ a.id.val :=
      fun hval => hid (congrArg AttemptId.mk hval.symm)
    simp [Event.isAbout, hval]
  · have hkind : e.kind ≠ .attemptReserved := by
      intro hkind
      have htracked := hes e he
      simp [EventKind.tracked, hkind] at htracked
    simp [Event.isAbout, hkind]

/-- **A new attempt holds the latest contract of its task.** -/
theorem ScopeInv.heldContract_new (hinv : ScopeInv s)
    (h : Reserves s.toStore store record task now) :
    ({ s with toStore := store } : ContractStore).heldContract record.attemptRow =
      s.latestContract record.inputs.task := by
  obtain ⟨es, hevents, -⟩ := h.log
  have hseq : ({ s with toStore := store } : ContractStore).reservedSequence record.attempt =
      some (s.head + 1) := by
    have hself : Event.isAbout ⟨record.attempt.val, 1, .attemptReserved record⟩ record.attempt.val
        [.attemptReserved] = true := by simp [Event.isAbout, Event.kind, EventBody.kind]
    unfold ContractStore.reservedSequence
    rw [hevents, List.append_assoc, List.findIdx?_append,
      List.findIdx?_eq_none_iff.mpr (hinv.fresh h), List.singleton_append, List.findIdx?_cons,
      if_pos hself]
    simp [Store.head]
  have hrevisions : s.revisions record.inputs.task (fun row => row.installedSeq ≤ s.head + 1) =
      s.revisions record.inputs.task fun _ => true := by
    unfold ContractStore.revisions
    congr 1
    apply List.filter_congr
    intro row hrow
    have hle : row.installedSeq ≤ s.head + 1 := Nat.le_succ_of_le (hinv.installed row hrow)
    simp [hle]
  have hrevision : ({ s with toStore := store } : ContractStore).revisionAtReservation
      record.attempt record.inputs.task = s.latestContractRevision record.inputs.task := by
    rw [ContractStore.revisionAtReservation, hseq]
    exact congrArg List.max? hrevisions
  change (ContractStore.revisionAtReservation _ record.attempt record.inputs.task).bind _ = _
  rw [hrevision]
  rfl

theorem ScopeInv.reserves (hinv : ScopeInv s) {env : Outside} (of_task : record.inputs.task = task.id)
    (clear : s.overlapVerdict env task.id = none)
    (h : Reserves s.toStore store record task now) : ScopeInv { s with toStore := store } := by
  have hnew := hinv.heldContract_new h
  obtain ⟨es, hevents, hes⟩ := h.log
  -- a new attempt against an old one, in either order
  have hpair : ∀ a ∈ s.retained, a.task ≠ record.inputs.task → ∀ new old,
      s.latestContract record.inputs.task = some new → s.heldContract a = some old →
      ScopesDisjoint new.toPreparedContract old.toPreparedContract := by
    intro a ha htask new old hlatest hheld
    exact scopesDisjoint_of_verdict hlatest (of_task ▸ clear) ha htask hheld
  refine ⟨fun row hrow => ?_, fun e he hkind => ?_, fun a ha b hb htask left right hleft hright => ?_⟩
  · have hle : s.head ≤ store.head := by
      simp only [Store.head, hevents, List.length_append]
      omega
    exact (hinv.installed row hrow).trans hle
  · change e ∈ store.events at he
    rw [hevents] at he
    rcases List.mem_append.mp he with he | he
    · rcases List.mem_append.mp he with he | he
      · obtain ⟨a, ha, hid⟩ := hinv.reserved e he hkind
        exact ⟨a, (Table.mem_insert? h.attempts).mpr (.inl ha), hid⟩
      · rw [List.mem_singleton.mp he]
        exact ⟨record.attemptRow, (Table.mem_insert? h.attempts).mpr (.inr rfl), rfl⟩
    · have htracked := hes e he
      simp [EventKind.tracked, hkind] at htracked
  · rcases h.retained ha with ⟨ha, hida⟩ | rfl <;> rcases h.retained hb with ⟨hb, hidb⟩ | rfl
    · rw [h.heldContract_ne hida] at hleft
      rw [h.heldContract_ne hidb] at hright
      exact hinv.disjoint a ha b hb htask left right hleft hright
    · rw [h.heldContract_ne hida] at hleft
      rw [hnew] at hright
      exact (hpair a ha htask right left hright hleft).symm
    · rw [hnew] at hleft
      rw [h.heldContract_ne hidb] at hright
      exact hpair b hb htask.symm left right hleft hright
    · exact absurd rfl htask

end Reservation

/-! ### Installations -/

omit [Digests] in
theorem installContract_ok {env : InstallOutside} {prepared : PreparedContract}
    {result : ContractInstall} (h : installContract env prepared s = .ok (result, s')) :
    s' = s ∨ ∃ row : InstalledContract, row.installedSeq = s.head + 1 ∧
      s.contracts.insert? row = some s'.contracts ∧
      ∃ e : Event, e.kind = .contractInstalled ∧ s'.toStore = s.toStore.logged [e] := by
  simp only [installContract, Tx.check_bind, Tx.require_bind, Tx.ask_bind, Tx.outside_bind] at h
  obtain ⟨parsed, -, -, -, -, h⟩ := h
  cases hexisting : s.contracts.find (parsed.taskId, parsed.contractRevision) with
  | some row =>
    rw [hexisting] at h
    simp only [Tx.require_bind, Tx.pure_ok] at h
    exact .inl h.2.2.2.symm
  | none =>
    rw [hexisting] at h
    simp only [installFresh, Tx.ask_bind, Tx.require_bind, Tx.outside_bind, Tx.write_bind,
      Tx.insert_bind, Tx.pure_ok] at h
    obtain ⟨-, -, -, -, -, t, hinsert, -, -, rfl⟩ := h
    obtain ⟨rows, hrows, rfl⟩ := Option.map_eq_some_iff.mp hinsert
    refine .inr ⟨_, ?_, hrows, _, rfl, rfl⟩
    simp [Store.head]

omit [Digests] in
theorem ScopeInv.install (hinv : ScopeInv s) {env : InstallOutside} {prepared : PreparedContract}
    {result : ContractInstall} (h : installContract env prepared s = .ok (result, s')) :
    ScopeInv s' := by
  rcases installContract_ok h with rfl | ⟨row, hsequence, hinsert, e, hkind, hstore⟩
  · exact hinv
  have hevents : s'.events = s.events ++ [e] := by
    rw [hstore]
    rfl
  have hlog : NoReservation s.events s'.events := by
    rw [hevents]
    exact .snoc (by simp [hkind])
  have hattempts : s'.attempts = s.attempts := by
    rw [hstore]
    rfl
  refine hinv.unreserved (.of_same hattempts hlog) (fun a => ?_) fun row' hrow' => ?_
  · exact heldContract_insert (reservedSequence_noReservation hlog a.id) hinsert (by omega)
  · have hhead : s'.head = s.head + 1 := by simp [Store.head, hevents]
    rcases (Table.mem_insert? hinsert).mp hrow' with hrow' | rfl
    · have hle := hinv.installed row' hrow'
      omega
    · omega

/-! ### Every step -/

omit [Digests] in
theorem ScopeInv.other (hinv : ScopeInv s) {store : Store} (h : Unreserved s.toStore store) :
    ScopeInv { s with toStore := store } := by
  refine hinv.unreserved h (fun a => heldContract_congr ?_ rfl) fun row hrow => ?_
  · exact reservedSequence_noReservation h.log a.id
  · obtain ⟨es, hevents, -⟩ := h.log
    have hle : s.head ≤ store.head := by
      simp only [Store.head, hevents, List.length_append]
      omega
    exact (hinv.installed row hrow).trans hle

theorem ScopeInv.step (hinv : ScopeInv s) (h : s.Step s') : ScopeInv s' := by
  cases h with
  | call c =>
    rcases (exec_effect (s.admitting c) s.toStore).unreserved with h | ⟨_, _, _, htask, hclear, h⟩
    · exact hinv.other h
    · exact hinv.reserves htask hclear h
  | install env prepared =>
    obtain ⟨result, s', hbody, hcommit⟩ | ⟨e, -, hcommit⟩ :=
      Tx.commit_eq (installContract env prepared) s
    · rw [hcommit]
      exact hinv.install hbody
    · rw [hcommit]
      exact hinv
  | other h => exact hinv.other h

theorem ScopeInv.reachable {path : String}
    (h : Relation.ReflTransGen ContractStore.Step (.created path) s) : ScopeInv s := by
  induction h with
  | refl => exact .created path
  | tail _ hstep ih => exact ih.step hstep

/-- While another task's retained attempt holds an overlapping contract, the overlap check names
it and no call reserves the task. -/
theorem reservation_refused {task : TaskId} {holder : Attempt} {candidate held : AcceptedContract}
    (hlatest : s.latestContract task = some candidate) (hholder : holder ∈ s.retained)
    (htask : holder.task ≠ task) (hheld : s.heldContract holder = some held)
    (hcommon : ¬ScopesDisjoint candidate.toPreparedContract held.toPreparedContract) :
    (∃ overlap, s.overlapWithRetained task s.retained = .ok (some overlap)) ∧
      ∀ call record, Admitted s.toStore (s.admitting call) record → record.inputs.task ≠ task := by
  obtain ⟨overlap, hoverlap, hnone⟩ := overlapWithRetained_ok s.retained hlatest
  have hretains : holder.retainsCapacity = true := (List.mem_filter.mp hholder).2
  refine ⟨?_, fun call record hadmitted hrecord => ?_⟩
  · cases overlap with
    | some overlap => exact ⟨overlap, hoverlap⟩
    | none =>
      exact absurd (scopesDisjoint_of_claims
        (hnone rfl holder hholder hretains htask held hheld)) hcommon
  · obtain ⟨row, now, -, hid, hclear, -⟩ := hadmitted.reserves
    rw [← hid, hrecord] at hclear
    exact hcommon (scopesDisjoint_of_verdict hlatest hclear hholder htask hheld)

/-- **Write scopes granted to concurrent holders are disjoint.** Contracts whose write scopes admit
a common path have conflicting claims; a reservation whose contract overlaps a held one is
refused; and in every reachable project no two retained attempts of different tasks, reserved
under contracts that declare a scope, admit a change to one path. -/
theorem write_scopes_of_holders_disjoint :
    (∀ (rawLeft rawRight : List UInt8) (left right : PreparedContract),
      PreparedContract.parseVerified rawLeft = .ok left →
      PreparedContract.parseVerified rawRight = .ok right →
      ∀ scopesLeft scopesRight : List String, left.writeScopes = some scopesLeft →
      right.writeScopes = some scopesRight → ∀ changed : List UInt8,
      inWriteScope scopesLeft changed = true → inWriteScope scopesRight changed = true →
      ∃ a ∈ left.scopePaths, ∃ b ∈ right.scopePaths, claimsConflict a.claim b.claim = true) ∧
    (∀ (s : ContractStore) (task : TaskId) (holder : Attempt) (candidate held : AcceptedContract),
      s.latestContract task = some candidate → holder ∈ s.retained → holder.task ≠ task →
      s.heldContract holder = some held →
      ¬ScopesDisjoint candidate.toPreparedContract held.toPreparedContract →
      (∃ overlap, s.overlapWithRetained task s.retained = .ok (some overlap)) ∧
      ∀ call record, Admitted s.toStore (s.admitting call) record →
        record.inputs.task ≠ task) ∧
    (∀ (path : String) (s : ContractStore),
      Relation.ReflTransGen ContractStore.Step (.created path) s →
      ∀ a ∈ s.retained, ∀ b ∈ s.retained, a.task ≠ b.task → ∀ left right : AcceptedContract,
      s.heldContract a = some left → s.heldContract b = some right →
      ScopesDisjoint left.toPreparedContract right.toPreparedContract) := by
  refine ⟨?_, ?_, ?_⟩
  · intro rawLeft rawRight left right hleft hright scopesLeft scopesRight hscopesLeft hscopesRight
      changed hchangedLeft hchangedRight
    exact claimsConflict_of_inWriteScope hleft hright hscopesLeft hscopesRight hchangedLeft
      hchangedRight
  · intro s task holder candidate held hlatest hholder htask hheld hcommon
    exact reservation_refused hlatest hholder htask hheld hcommon
  · intro path s hreach
    exact (ScopeInv.reachable hreach).disjoint

end Runs

/-! ## A run

Three contracts are installed: one writes a directory, one a file beside it, one a file inside it.
The first two tasks are reserved; the third is refused while the first is retained. -/

namespace Scoped

/-- The signed text of a contract that writes one path. -/
def text (task path head : String) : String :=
  "\x7b\"version\":1,\"project_store\":\"/state.db\",\"expected_head\":" ++ head ++
  ",\"task_id\":\"" ++ task ++ "\",\"contract_revision\":1,\"deliverable\":\"d\"," ++
  "\"non_goals\":\"n\",\"acceptance_policies\":[\x7b\"id\":\"p\",\"text\":\"t\"\x7d]," ++
  "\"repository\":\"/repo\",\"base_oid\":\"0000000000000000000000000000000000000000\"," ++
  "\"object_format\":\"sha1\",\"dependencies\":[],\"scope\":\x7b\"paths\":[\x7b\"path\":\"" ++ path ++
  "\",\"access\":\"write\"\x7d]\x7d,\"capability_flags\":[],\"profile_kind\":\"codex\"," ++
  "\"retry_class\":\"none\",\"result_schema_id\":\"result\",\"route\":\"verify_only\"," ++
  "\"authority\":\x7b\"id\":\"owner\",\"revision\":1,\"digest\":\"" ++
  "bbbbbbbbbbbbbbbbbbbbbbbbbbbbbbbbbbbbbbbbbbbbbbbbbbbbbbbbbbbbbbbb\"\x7d\x7d"

def document (task path : String) (head : Nat) : UntrustedContractDocument where
  version := 1
  projectStore := "/state.db"
  expectedHead := head
  taskId := ⟨task⟩
  contractRevision := 1
  deliverable := "d"
  nonGoals := "n"
  acceptancePolicies := [⟨"p", "t"⟩]
  repository := "/repo"
  baseOid := "0000000000000000000000000000000000000000"
  objectFormat := .sha1
  dependencies := []
  scope := ⟨[⟨path, "write"⟩], []⟩
  capabilityFlags := []
  profileKind := "codex"
  retryClass := "none"
  resultSchemaId := "result"
  route := .verifyOnly
  authority := ⟨"owner", 1, "bbbbbbbbbbbbbbbbbbbbbbbbbbbbbbbbbbbbbbbbbbbbbbbbbbbbbbbbbbbbbbbb"⟩

def leftRaw : List UInt8 := asBytes (text "left" "src/" "0")

def rightRaw : List UInt8 := asBytes (text "right" "docs/readme.md" "1")

def clashRaw : List UInt8 := asBytes (text "clash" "src/main.rs" "2")

def leftDigest : String := "9737e6382591e549b88c2bba50a35aceb1ddccf1c403c6c796507de5fff4ffd6"

def rightDigest : String := "58fb4a4fbdf9322a194b161687dc6e70329f7144d3294ccedf861e84dc4eb1f3"

/-- What the decoder and SHA-256 answer on the three texts. -/
@[reducible] def documents : Documents where
  decode raw :=
    if raw = leftRaw then some (document "left" "src/" 0)
    else if raw = rightRaw then some (document "right" "docs/readme.md" 1)
    else if raw = clashRaw then some (document "clash" "src/main.rs" 2)
    else none
  sha256 raw :=
    if raw = leftRaw then leftDigest
    else if raw = rightRaw then rightDigest
    else if raw = clashRaw then "19f203ca6417cdbf41c73d9a0f30ff39144ef3310107c9848e28bacf746e1028"
    else ""
  executionPolicy _ := .ok ()

/-- The sample digests, told apart by the task. -/
@[reducible] def digests : Digests := { Sample.digests with
  inputs i :=
    if i.task.val = "left" then "1111111111111111111111111111111111111111111111111111111111111111"
    else "9999999999999999999999999999999999999999999999999999999999999999"
  identity i :=
    if i.cwd = "/left" then "2222222222222222222222222222222222222222222222222222222222222222"
    else "cccccccccccccccccccccccccccccccccccccccccccccccccccccccccccccccc"
  grant g :=
    if g.scope.task.val = "left" then
      "3333333333333333333333333333333333333333333333333333333333333333"
    else "dddddddddddddddddddddddddddddddddddddddddddddddddddddddddddddddd" }

def leftInputs : LaunchInputs := { Sample.inputs with
  task := ⟨"left"⟩
  taskContract := some ⟨"left", 1, leftDigest⟩
  binding := "left-binding" }

def rightInputs : LaunchInputs := { Sample.inputs with
  task := ⟨"right"⟩
  taskContract := some ⟨"right", 1, rightDigest⟩
  binding := "right-binding"
  bindingDigest := "cccccccccccccccccccccccccccccccccccccccccccccccccccccccccccccccc"
  approval := ⟨"approval-dddddddddddddddddddddddddddddddddddddddddddddddddddddddddddddddd", 1,
    "dddddddddddddddddddddddddddddddddddddddddddddddddddddddddddddddd"⟩ }

def grant (task binding : String) : ApprovalGrant := { Sample.grant with
  scope := { Sample.grant.scope with task := ⟨task⟩, target := binding } }

/-- Three queued tasks, two of them with a binding and an approval. -/
def store : Store := { Store.created "/state.db" with
  tasks := ⟨[⟨⟨"left"⟩, 3, .queued, "Left", none⟩, ⟨⟨"right"⟩, 3, .queued, "Right", none⟩,
    ⟨⟨"clash"⟩, 3, .queued, "Clash", none⟩], by decide⟩
  grants := ⟨[⟨leftInputs.approval.id, grant "left" "left-binding"⟩,
    ⟨rightInputs.approval.id, grant "right" "right-binding"⟩], by decide⟩
  bindings := ⟨[⟨"left-binding", some ⟨"left"⟩, 1,
      ⟨"", "/s", "w", "", "", "/left", "", "", "", "", "", "", "", none⟩⟩,
    ⟨"right-binding", some ⟨"right"⟩, 1,
      ⟨"", "/s", "w", "", "", "/right", "", "", "", "", "", "", "", none⟩⟩], by decide⟩
  queue := ⟨[⟨⟨"left"⟩, 0, 0, 1, []⟩, ⟨⟨"right"⟩, 0, 0, 2, []⟩], by decide⟩
  control := ⟨1, 1, .active, false, none⟩
  policy := ⟨2, 2, 3⟩ }

section

attribute [local instance] documents digests

/-- Install a signed text. -/
def install (raw : List UInt8) (s : ContractStore) : ContractStore :=
  match PreparedContract.parseVerified raw with
  | .ok contract => ((installContract {} contract).commit s).2
  | .error _ => s

/-- Reserve one preparation. -/
def reserveOne (inputs : LaunchInputs) (head : Nat) (s : ContractStore) : ContractStore :=
  { s with toStore := (exec
      (s.admitting ⟨.admitPrepared [inputs] head 100 false none, Sample.outside⟩) s.toStore).2 }

def project : ContractStore :=
  reserveOne rightInputs 6 (reserveOne leftInputs 3
    (install clashRaw (install rightRaw (install leftRaw ⟨store, .empty⟩))))

theorem install_reachable {path : String} {raw : List UInt8} {s : ContractStore}
    (h : Relation.ReflTransGen ContractStore.Step (.created path) s) :
    Relation.ReflTransGen ContractStore.Step (.created path) (install raw s) := by
  unfold install
  split
  · exact h.tail (.install {} _)
  · exact h

theorem project_reachable :
    Relation.ReflTransGen ContractStore.Step (.created "/state.db") project := by
  have hstore : Unreserved (Store.created "/state.db") store :=
    .of_same rfl (.refl _)
  have hempty : Relation.ReflTransGen ContractStore.Step (.created "/state.db") ⟨store, .empty⟩ :=
    .single (.other hstore)
  unfold project
  exact ((install_reachable (install_reachable (install_reachable hempty))).tail (.call _)).tail
    (.call _)

/-- Both attempts are retained, each with its own contract. -/
theorem project_holders :
    (project.retained.map fun a => (a.task.val, (project.heldContract a).map (·.writeScopes))) =
        [("left", some (some ["src/"])), ("right", some (some ["docs/readme.md"]))] ∧
      (project.latestContract ⟨"clash"⟩).map (·.writeScopes) = some (some ["src/main.rs"]) := by
  decide +kernel

end

end Scoped

theorem write_scopes_of_holders_disjoint_sample :
    letI := Scoped.documents
    letI := Scoped.digests
    (∃ left clash : AcceptedContract, left.writeScopes = some ["src/"] ∧
      clash.writeScopes = some ["src/main.rs"] ∧ ∃ a ∈ left.scopePaths, ∃ b ∈ clash.scopePaths,
        claimsConflict a.claim b.claim = true) ∧
      (∃ overlap, Scoped.project.overlapWithRetained ⟨"clash"⟩ Scoped.project.retained =
        .ok (some overlap)) ∧
      ∀ changed, ¬(inWriteScope ["src/"] changed = true ∧
        inWriteScope ["docs/readme.md"] changed = true) := by
  let _ := Scoped.documents
  let _ := Scoped.digests
  obtain ⟨hconflict, hrefused, hdisjoint⟩ := write_scopes_of_holders_disjoint
  obtain ⟨hholders, hclash⟩ := Scoped.project_holders
  obtain ⟨a, _, hlist, ha, hrest⟩ := List.map_eq_cons_iff.mp hholders
  obtain ⟨b, _, rfl, hb, -⟩ := List.map_eq_cons_iff.mp hrest
  obtain ⟨htaska, hheld⟩ := Prod.mk.inj ha
  obtain ⟨htaskb, hheld'⟩ := Prod.mk.inj hb
  obtain ⟨left, hleft, hleftScopes⟩ := Option.map_eq_some_iff.mp hheld
  obtain ⟨right, hright, hrightScopes⟩ := Option.map_eq_some_iff.mp hheld'
  obtain ⟨clash, hclash, hclashScopes⟩ := Option.map_eq_some_iff.mp hclash
  have hmem : a ∈ Scoped.project.retained ∧ b ∈ Scoped.project.retained := by
    rw [hlist]
    simp
  have hinside : inWriteScope ["src/"] (asBytes "src/main.rs") = true ∧
      inWriteScope ["src/main.rs"] (asBytes "src/main.rs") = true := by decide +kernel
  refine ⟨⟨left, clash, hleftScopes, hclashScopes, ?_⟩, ?_, ?_⟩
  · obtain ⟨_, hrawLeft⟩ := left.accepted
    obtain ⟨_, hrawClash⟩ := clash.accepted
    exact hconflict _ _ _ _ hrawLeft hrawClash _ _ hleftScopes hclashScopes _ hinside.1 hinside.2
  · have htask : a.task ≠ ⟨"clash"⟩ := fun h => by simp [h] at htaska
    refine (hrefused _ _ a clash left hclash hmem.1 htask hleft fun h => ?_).1
    exact h _ _ hclashScopes hleftScopes _ hinside.symm
  · have htask : a.task ≠ b.task := fun h => by simp [h, htaskb] at htaska
    have hpair := hdisjoint _ _ Scoped.project_reachable a hmem.1 b hmem.2 htask left right hleft
      hright
    exact hpair _ _ hleftScopes hrightScopes

end Herdr
