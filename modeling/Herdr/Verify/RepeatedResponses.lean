import Mathlib.Algebra.BigOperators.Group.List.Basic
import Mathlib.Data.List.Induction
import Mathlib.Data.String.Basic
import Herdr.Lib.Topological
import Herdr.Telemetry.Ledger

/-!
# Repeated responses

The ledger remembers one digest for each response, that of its first accepted record; the totals
are taken over the records that no earlier one repeats. The two agree as long as no other digest
of a response comes twice.
-/

namespace Herdr.Accounting

variable {db : Sources} {u e f : UsageRow} {session response : String} {responses : Responses}

/-! ## Normalization -/

theorem counter_some {value : Option Int} {v : Int} (h : counter value = some v) : value = some v :=
  (Option.filter_eq_some_iff.mp h).1

/-- The normalized input, output and reasoning are the reported ones. -/
theorem normalize_some {native : Native} {claude : Bool} {n : Normalized}
    (h : normalize native claude = some n) : native.input = some n.input ∧
      native.output = some n.output ∧ native.reasoningOutput = some n.reasoning := by
  simp only [normalize, Option.bind_eq_bind, Option.bind_eq_some_iff] at h
  obtain ⟨input, hinput, cached, -, write, -, output, houtput, reasoning, hreasoning, total, -, h⟩ := h
  split at h
  · cases h
    exact ⟨counter_some hinput, counter_some houtput, counter_some hreasoning⟩
  · cases h

/-! ## The loop over the records -/

/-- A record that is looked up in the responses. -/
def Sources.accepts (db : Sources) (u : UsageRow) : Bool :=
  !db.quarantined u && u.accepted && u.normalized.isSome

/-- The responses after one more record. -/
def Sources.remember (db : Sources) (responses : Responses) (u : UsageRow) : Responses :=
  (classify responses (db.quarantined u) u).2.2

theorem accepts_iff : db.accepts u = true ↔
    db.quarantined u = false ∧ u.accepted = true ∧ ∃ n, u.normalized = some n := by
  simp [Sources.accepts, Option.isSome_iff_exists, and_assoc]

/-- The records of a response. -/
def UsageRow.answers (u : UsageRow) (session response : String) : Bool :=
  u.session = session && u.responseId = some response

/-- Any property of the entries of the loop follows from what it is of a record after any others. -/
theorem filterMap_deltas {β : Type} (fe : Entry → Option β) (fu : UsageRow → Option β)
    {rows : List UsageRow}
    (h : ∀ pre u post, rows = pre ++ u :: post →
      fe (db.deltaEntry (pre.foldl db.remember responses) u) = fu u) :
    (db.deltas responses rows).filterMap fe = rows.filterMap fu := by
  induction rows generalizing responses with
  | nil => rfl
  | cons u rows ih =>
    have hrest := @ih (db.remember responses u) fun pre v post hpre => by
      have := h (u :: pre) v post (by rw [hpre, List.cons_append])
      rwa [List.foldl_cons] at this
    have hfirst := h [] u rows rfl
    rw [List.foldl_nil] at hfirst
    unfold Sources.deltas
    unfold Sources.remember at hrest
    rw [List.filterMap_cons, List.filterMap_cons, hfirst, hrest]

/-- Every entry of the loop is that of a record after the ones before it. -/
theorem mem_deltas {rows : List UsageRow} {entry : Entry} :
    entry ∈ db.deltas responses rows ↔ ∃ pre u post, rows = pre ++ u :: post ∧
      entry = db.deltaEntry (pre.foldl db.remember responses) u := by
  induction rows generalizing responses with
  | nil => simp [Sources.deltas]
  | cons u rows ih =>
    unfold Sources.deltas
    rw [List.mem_cons, ih]
    constructor
    · rintro (rfl | ⟨pre, v, post, rfl, rfl⟩)
      · exact ⟨[], u, rows, rfl, rfl⟩
      · exact ⟨u :: pre, v, post, rfl, rfl⟩
    · rintro ⟨pre, v, post, hpre, rfl⟩
      cases pre with
      | nil =>
        obtain ⟨rfl, rfl⟩ := List.cons.inj hpre
        exact .inl rfl
      | cons w pre =>
        obtain ⟨rfl, rfl⟩ := List.cons.inj hpre
        exact .inr ⟨pre, v, post, rfl, rfl⟩

/-- A record adds its digest for the first accepted record of its response, and nothing else. -/
theorem lookup_remember : (db.remember responses u).lookup (session, response) =
    (responses.lookup (session, response)).or
      (if db.accepts u && u.answers session response then some u.payloadDigest else none) := by
  by_cases haccepts : db.accepts u = true
  · obtain ⟨hquarantined, haccepted, n, hn⟩ := accepts_iff.mp haccepts
    rw [haccepts, Bool.true_and, Sources.remember, classify.eq_def, hquarantined, haccepted, hn]
    cases hresponse : u.responseId with
    | none => simp [UsageRow.answers, hresponse]
    | some own =>
      have hanswers : u.answers session response = true ↔ (session, response) = (u.session, own) := by
        simp only [UsageRow.answers, hresponse, Bool.and_eq_true, decide_eq_true_eq,
          Option.some.injEq, Prod.mk.injEq]
        exact ⟨fun h => ⟨h.1.symm, h.2.symm⟩, fun h => ⟨h.1.symm, h.2.symm⟩⟩
      cases hfirst : responses.lookup (u.session, own) with
      | some first =>
        have hsame : (if first = u.payloadDigest then
            (Disposition.duplicate, some responseRepeated, responses)
            else (Disposition.accepted, none, responses)).2.2 = responses := by
          split <;> rfl
        dsimp only
        rw [hfirst]
        dsimp only
        rw [hsame]
        split
        · next h => rw [hanswers.mp h, hfirst, Option.some_or]
        · rw [Option.or_none]
      | none =>
        dsimp only
        rw [hfirst]
        dsimp only
        rw [List.lookup_cons]
        by_cases h : (session, response) = (u.session, own)
        · rw [hanswers.mpr h, h, hfirst, beq_self_eq_true, Option.none_or, if_pos rfl]
        · rw [if_neg (mt hanswers.mp h), Option.or_none, beq_eq_false_iff_ne.mpr h]
  · have hsame : db.remember responses u = responses := by
      unfold Sources.remember classify
      split
      · rfl
      · next hquarantined haccepted hn =>
        exact absurd (accepts_iff.mpr ⟨hquarantined, haccepted, _, hn⟩) haccepts
      · rfl
      · rfl
    rw [hsame, Bool.eq_false_iff.mpr haccepts, Bool.false_and, if_neg Bool.false_ne_true,
      Option.or_none]

/-- **The responses hold the digest of the first accepted record.** -/
theorem lookup_responses (pre : List UsageRow) :
    (pre.foldl db.remember []).lookup (session, response) =
      (pre.find? fun e => db.accepts e && e.answers session response).map (·.payloadDigest) := by
  induction pre using List.reverseRecOn with
  | nil => rfl
  | append_singleton pre u ih =>
    rw [List.foldl_append, List.foldl_cons, List.foldl_nil, lookup_remember, ih, List.find?_append]
    cases pre.find? fun e => db.accepts e && e.answers session response with
    | some e => rfl
    | none =>
      rw [Option.map_none, Option.none_or, Option.none_or, List.find?_singleton]
      split <;> rfl

/-- The record repeats what the responses hold. -/
def Hit (responses : Responses) (u : UsageRow) : Prop :=
  ∃ response, u.responseId = some response ∧
    responses.lookup (u.session, response) = some u.payloadDigest

theorem classify_of_hit (haccepts : db.accepts u = true) (h : Hit responses u) :
    (classify responses (db.quarantined u) u).1 = .duplicate ∧
      (classify responses (db.quarantined u) u).2.1 = some responseRepeated := by
  obtain ⟨response, hresponse, hfirst⟩ := h
  obtain ⟨hquarantined, haccepted, n, hn⟩ := accepts_iff.mp haccepts
  rw [classify.eq_def, hquarantined, haccepted, hn]
  dsimp only
  rw [hresponse]
  dsimp only
  rw [hfirst]
  dsimp only
  rw [if_pos rfl]
  exact ⟨rfl, rfl⟩

theorem classify_of_miss (haccepts : db.accepts u = true) (h : ¬Hit responses u) :
    (classify responses (db.quarantined u) u).1 = .accepted ∧
      (classify responses (db.quarantined u) u).2.1 = none := by
  obtain ⟨hquarantined, haccepted, n, hn⟩ := accepts_iff.mp haccepts
  rw [classify.eq_def, hquarantined, haccepted, hn]
  dsimp only
  split
  · exact ⟨rfl, rfl⟩
  · next response hresponse =>
    split
    · next first hfirst =>
      have hne : first ≠ u.payloadDigest := fun he => h ⟨response, hresponse, he ▸ hfirst⟩
      rw [if_neg hne]
      exact ⟨rfl, rfl⟩
    · exact ⟨rfl, rfl⟩

/-- The other observations of a record are duplicates, so the first one decides. -/
theorem counted_deltaEntry (hquarantined : db.quarantined u = false) :
    (db.deltaEntry responses u).counted = true ↔
      (classify responses (db.quarantined u) u).1 = .accepted := by
  simp [Entry.counted, Sources.deltaEntry, hquarantined]

/-! ## Records in order -/

theorem usageLe_ordinal (h : Sources.usageLe e u) (hsession : e.session = u.session) :
    e.ordinal ≤ u.ordinal := by
  rcases h with h | h
  · rw [hsession] at h
    exact absurd h (lt_irrefl _)
  · exact h.2

instance : Std.Total Sources.usageLe where
  total a b := by
    rcases lt_trichotomy a.session b.session with h | h | h
    · exact .inl (.inl h)
    · exact (le_total a.ordinal b.ordinal).imp (fun hle => .inr ⟨h, hle⟩) fun hle => .inr ⟨h.symm, hle⟩
    · exact .inr (.inl h)

instance : IsTrans UsageRow Sources.usageLe where
  trans a b c hab hbc := by
    rcases hab with hab | ⟨hab, hle⟩
    · rcases hbc with hbc | ⟨hbc, -⟩
      · exact .inl (lt_trans hab hbc)
      · exact .inl (hbc ▸ hab)
    · rcases hbc with hbc | ⟨hbc, hle'⟩
      · exact .inl (hab ▸ hbc)
      · exact .inr ⟨hab.trans hbc, hle.trans hle'⟩

/-- The records before one of a session are those with a smaller ordinal. -/
theorem mem_before {pre post : List UsageRow}
    (h : db.usage.rows.insertionSort Sources.usageLe = pre ++ u :: post)
    (hsession : e.session = u.session) :
    e ∈ pre ↔ e ∈ db.usage.rows ∧ e.ordinal < u.ordinal := by
  have hsorted := List.pairwise_insertionSort Sources.usageLe db.usage.rows
  have hperm := List.perm_insertionSort Sources.usageLe db.usage.rows
  have hnodup := (hperm.map UsageRow.key).nodup_iff.mpr db.usage.nodup
  rw [h] at hsorted hperm hnodup
  obtain ⟨-, hpost, hpre⟩ := List.pairwise_append.mp hsorted
  constructor
  · intro he
    refine ⟨hperm.mem_iff.mp (List.mem_append_left _ he), lt_of_le_of_ne
      (usageLe_ordinal (hpre e he u List.mem_cons_self) hsession) fun hordinal => ?_⟩
    rw [List.map_append, List.nodup_append] at hnodup
    exact hnodup.2.2 _ (List.mem_map_of_mem he) _ (List.mem_map_of_mem List.mem_cons_self)
      (Prod.ext hsession hordinal)
  · rintro ⟨he, hlt⟩
    rcases List.mem_append.mp (hperm.mem_iff.mpr he) with he | he
    · exact he
    · rcases List.mem_cons.mp he with rfl | he
      · exact absurd hlt (lt_irrefl _)
      · have hle := usageLe_ordinal ((List.pairwise_cons.mp hpost).1 e he) hsession.symm
        exact absurd hlt (not_lt.mpr hle)

/-! ## Plain sources -/

/-- No quarantine, every accepted row normalizable and no OTLP session. -/
structure Sources.Plain (db : Sources) : Prop where
  unquarantined : ∀ u ∈ db.usage.rows, db.quarantined u = false
  normalizable : ∀ u ∈ db.usage.rows, u.accepted = true → ∃ n, u.normalized = some n
  native : (∀ u ∈ db.usage.rows, likeStart u.session "otlp:" = false) ∧
    ∀ r ∈ db.rollouts.rows, likeStart r.session "otlp:" = false

theorem startsWith_otlp {text : String} (h : likeStart text "otlp:" = false) :
    startsWith text "otlp:" = false := by
  rw [Bool.eq_false_iff] at h ⊢
  intro hstart
  have hlower := (List.isPrefixOf_iff_prefix.mp hstart).map Char.toLower
  exact h (List.isPrefixOf_iff_prefix.mpr hlower)

theorem mem_cumulatives {high : Option (String × Int)} {rollouts : List RolloutSource}
    {entry : Entry} (h : entry ∈ Sources.cumulatives high rollouts) :
    entry.basis = .cumulative ∧ ∃ r ∈ rollouts, entry.session = r.session := by
  induction rollouts generalizing high with
  | nil => cases h
  | cons r rest ih =>
    have hrest {high} (h : entry ∈ Sources.cumulatives high rest) :
        entry.basis = .cumulative ∧ ∃ s ∈ r :: rest, entry.session = s.session := by
      obtain ⟨hbasis, s, hs, hsession⟩ := ih h
      exact ⟨hbasis, s, List.mem_cons_of_mem _ hs, hsession⟩
    have hcons {high native disposition reason}
        (h : entry ∈ Sources.totalEntry r native disposition reason :: Sources.cumulatives high rest) :
        entry.basis = .cumulative ∧ ∃ s ∈ r :: rest, entry.session = s.session := by
      rcases List.mem_cons.mp h with rfl | h
      · exact ⟨rfl, r, List.mem_cons_self, rfl⟩
      · exact hrest h
    unfold Sources.cumulatives at h
    split at h
    · exact hrest h
    · dsimp only at h
      split at h
      · exact hcons h
      · split at h
        · exact hcons h
        · split at h <;> exact hcons h
      · exact hcons h

/-- The records of the whole table, in order. -/
def Sources.inOrder (db : Sources) : List UsageRow := db.usage.rows.insertionSort usageLe

theorem mem_inOrder : u ∈ db.inOrder ↔ u ∈ db.usage.rows := List.mem_insertionSort _

/-- Without an OTLP session no surface takes precedence. -/
theorem Sources.Plain.derive (h : db.Plain) : db.derive = db.deltas [] db.inOrder ++
    Sources.cumulatives none (db.rollouts.rows.insertionSort Sources.rolloutLe) := by
  unfold Sources.derive Sources.deriveScoped Sources.applyPrecedence
  rw [List.filter_true, List.filter_true, if_neg]
  · rfl
  · rw [List.any_eq_true]
    rintro ⟨entry, hentry, hotlp⟩
    have hnot : startsWith entry.session "otlp:" = false := by
      rcases List.mem_append.mp hentry with hentry | hentry
      · obtain ⟨pre, u, post, hpre, rfl⟩ := mem_deltas.mp hentry
        refine startsWith_otlp (h.native.1 u (mem_inOrder.mp ?_))
        rw [Sources.inOrder, hpre]
        exact List.mem_append_right _ List.mem_cons_self
      · obtain ⟨-, r, hr, hsession⟩ := mem_cumulatives hentry
        rw [hsession]
        exact startsWith_otlp (h.native.2 r ((List.mem_insertionSort _).mp hr))
    rw [hnot] at hotlp
    cases hotlp

/-- The entry is that of the record. -/
def Entry.Of (entry : Entry) (u : UsageRow) : Prop :=
  entry.basis = .delta ∧ entry.session = u.session ∧ entry.position = u.ordinal

theorem exists_entry (h : db.Plain) (hu : u ∈ db.usage.rows) : ∃ entry ∈ db.derive, entry.Of u := by
  obtain ⟨pre, post, hpre⟩ := List.append_of_mem (mem_inOrder.mpr hu)
  refine ⟨db.deltaEntry (pre.foldl db.remember []) u, ?_, rfl, rfl, rfl⟩
  rw [h.derive]
  exact List.mem_append_left _ (mem_deltas.mpr ⟨pre, u, post, hpre, rfl⟩)

/-- The entry of a record is that of the loop, after the records before it. -/
theorem entry_eq (h : db.Plain) (hu : u ∈ db.usage.rows) {entry : Entry} (hentry : entry ∈ db.derive)
    (hof : entry.Of u) : ∃ pre post, db.inOrder = pre ++ u :: post ∧
      entry = db.deltaEntry (pre.foldl db.remember []) u := by
  rw [h.derive] at hentry
  obtain ⟨hbasis, hsession, hposition⟩ := hof
  rcases List.mem_append.mp hentry with hentry | hentry
  · obtain ⟨pre, v, post, hpre, rfl⟩ := mem_deltas.mp hentry
    have hv : v ∈ db.usage.rows :=
      mem_inOrder.mp (hpre ▸ List.mem_append_right _ List.mem_cons_self)
    obtain rfl := Table.eq_of_mem hv hu (Prod.ext hsession hposition)
    exact ⟨pre, post, hpre, rfl⟩
  · rw [(mem_cumulatives hentry).1] at hbasis
    cases hbasis

/-! ## Repeats -/

/-- An earlier accepted record of the session has the same response and the same payload. -/
def Sources.Repeats (db : Sources) (u : UsageRow) : Prop :=
  ∃ e ∈ db.usage.rows, e.session = u.session ∧ e.accepted = true ∧ e.ordinal < u.ordinal ∧
    u.responseId ≠ none ∧ e.responseId = u.responseId ∧ e.payloadDigest = u.payloadDigest

/-- The digest of the first accepted record of `u`'s response is that of `u`. -/
def Sources.FirstDigest (db : Sources) (u : UsageRow) : Prop :=
  ∀ f ∈ db.usage.rows, f.accepted = true → f.session = u.session → f.responseId = u.responseId →
    (∀ g ∈ db.usage.rows, g.accepted = true → g.session = u.session →
      g.responseId = u.responseId → f.ordinal ≤ g.ordinal) → f.payloadDigest = u.payloadDigest

theorem nativeCounted_iff : db.nativeCounted u = true ↔ u.accepted = true ∧ ¬db.Repeats u := by
  have hany : (db.usage.rows.any fun e => e.session = u.session && e.accepted &&
      e.responseId.isSome && e.responseId = u.responseId &&
      digestKey e.payloadDigest = digestKey u.payloadDigest && e.payloadDigest = u.payloadDigest &&
      e.ordinal < u.ordinal) = true ↔ db.Repeats u := by
    rw [List.any_eq_true]
    simp only [Bool.and_eq_true, decide_eq_true_eq, Sources.Repeats]
    refine exists_congr fun e => and_congr_right fun _ => ⟨?_, ?_⟩
    · rintro ⟨⟨⟨⟨⟨⟨hsession, haccepted⟩, hsome⟩, hresponse⟩, -⟩, hdigest⟩, hlt⟩
      rw [hresponse] at hsome
      exact ⟨hsession, haccepted, hlt, Option.isSome_iff_ne_none.mp hsome, hresponse, hdigest⟩
    · rintro ⟨hsession, haccepted, hlt, hsome, hresponse, hdigest⟩
      rw [← hresponse] at hsome
      exact ⟨⟨⟨⟨⟨⟨hsession, haccepted⟩, Option.isSome_iff_ne_none.mpr hsome⟩, hresponse⟩,
        by rw [hdigest]⟩, hdigest⟩, hlt⟩
  rw [Sources.nativeCounted, Bool.and_eq_true, Bool.not_eq_true', Bool.eq_false_iff, Ne, hany]

section Split

variable {pre post : List UsageRow}

/-- The first record of the response before `u`. -/
theorem hit_iff (h : db.Plain) (hpre : db.inOrder = pre ++ u :: post) :
    Hit (pre.foldl db.remember []) u ↔ u.responseId ≠ none ∧ ∃ f, f ∈ db.usage.rows ∧
      f.accepted = true ∧ f.session = u.session ∧ f.responseId = u.responseId ∧
      f.ordinal < u.ordinal ∧ f.payloadDigest = u.payloadDigest ∧
      ∀ g ∈ db.usage.rows, g.accepted = true → g.session = u.session →
        g.responseId = u.responseId → f.ordinal ≤ g.ordinal := by
  have hfind {response : String} (hresponse : u.responseId = some response) (g : UsageRow)
      (hg : g ∈ db.usage.rows) : (db.accepts g && g.answers u.session response) = true ↔
        g.accepted = true ∧ g.session = u.session ∧ g.responseId = u.responseId := by
    rw [Bool.and_eq_true, UsageRow.answers, hresponse]
    simp only [Bool.and_eq_true, decide_eq_true_eq]
    exact and_congr_left fun _ => ⟨fun haccepts => (accepts_iff.mp haccepts).2.1, fun haccepted =>
      accepts_iff.mpr ⟨h.unquarantined g hg, haccepted, h.normalizable g hg haccepted⟩⟩
  -- what is found is before `u`, and nothing before it is of the response
  have hfound {response : String} (hresponse : u.responseId = some response) {f : UsageRow}
      (hf : pre.find? (fun e => db.accepts e && e.answers u.session response) = some f) :
      f ∈ db.usage.rows ∧ (f.accepted = true ∧ f.session = u.session ∧
        f.responseId = u.responseId) ∧ f.ordinal < u.ordinal ∧
      ∀ g ∈ db.usage.rows, g.accepted = true → g.session = u.session →
        g.responseId = u.responseId → f.ordinal ≤ g.ordinal := by
    obtain ⟨hp, first, rest, hsplit, hnone⟩ := List.find?_eq_some_iff_append.mp hf
    have hmem : f ∈ pre := by
      rw [hsplit]
      exact List.mem_append_right _ List.mem_cons_self
    have hrows : f ∈ db.usage.rows :=
      mem_inOrder.mp (hpre ▸ List.mem_append_left _ hmem)
    have hf' := (hfind hresponse f hrows).mp hp
    have hprefix : db.inOrder = first ++ f :: (rest ++ u :: post) := by
      rw [hpre, hsplit, List.append_assoc, List.cons_append]
    refine ⟨hrows, hf', ((mem_before hpre hf'.2.1).mp hmem).2, fun g hg hacc hses hres => ?_⟩
    by_contra hlt
    have hbefore := (mem_before hprefix (hses.trans hf'.2.1.symm)).mpr ⟨hg, not_le.mp hlt⟩
    have hnot := hnone g hbefore
    rw [(hfind hresponse g hg).mpr ⟨hacc, hses, hres⟩] at hnot
    cases hnot
  constructor
  · rintro ⟨response, hresponse, hlookup⟩
    rw [lookup_responses, Option.map_eq_some_iff] at hlookup
    obtain ⟨f, hf, hdigest⟩ := hlookup
    obtain ⟨hrows, ⟨hacc, hses, hres⟩, hlt, hleast⟩ := hfound hresponse hf
    refine ⟨?_, f, hrows, hacc, hses, hres, hlt, hdigest, hleast⟩
    rw [hresponse]
    exact Option.some_ne_none _
  · rintro ⟨hsome, f, hrows, hacc, hses, hres, hlt, hdigest, hleast⟩
    obtain ⟨response, hresponse⟩ := Option.ne_none_iff_exists'.mp hsome
    refine ⟨response, hresponse, ?_⟩
    rw [lookup_responses, Option.map_eq_some_iff]
    have hmem := (mem_before hpre hses).mpr ⟨hrows, hlt⟩
    cases hf : pre.find? fun e => db.accepts e && e.answers u.session response with
    | none =>
      have hnot := List.find?_eq_none.mp hf f hmem
      exact absurd ((hfind hresponse f hrows).mpr ⟨hacc, hses, hres⟩) hnot
    | some f' =>
      obtain ⟨hrows', ⟨hacc', hses', hres'⟩, -, hleast'⟩ := hfound hresponse hf
      have hordinal : f'.ordinal = f.ordinal :=
        le_antisymm (hleast' f hrows hacc hses hres) (hleast f' hrows' hacc' hses' hres')
      obtain rfl := Table.eq_of_mem hrows' hrows (Prod.ext (hses'.trans hses.symm) hordinal)
      exact ⟨f', rfl, hdigest⟩

/-- What is found was repeated. -/
theorem repeats_of_hit (h : db.Plain) (hpre : db.inOrder = pre ++ u :: post)
    (hit : Hit (pre.foldl db.remember []) u) : db.Repeats u ∧ db.FirstDigest u := by
  obtain ⟨hsome, f, hrows, hacc, hses, hres, hlt, hdigest, hleast⟩ := (hit_iff h hpre).mp hit
  refine ⟨⟨f, hrows, hses, hacc, hlt, hsome, hres, hdigest⟩, fun g hg hacc' hses' hres' hleast' => ?_⟩
  have hordinal : g.ordinal = f.ordinal :=
    le_antisymm (hleast' f hrows hacc hses hres) (hleast g hg hacc' hses' hres')
  obtain rfl := Table.eq_of_mem hg hrows (Prod.ext (hses'.trans hses.symm) hordinal)
  exact hdigest

/-- A repeat of the first digest is found. -/
theorem hit_of_repeats (h : db.Plain) (hpre : db.inOrder = pre ++ u :: post)
    (hrepeats : db.Repeats u) (hfirst : db.FirstDigest u) : Hit (pre.foldl db.remember []) u := by
  obtain ⟨e, he, hses, hacc, hlt, hsome, hres, -⟩ := hrepeats
  have hmem (g : UsageRow) : g ∈ db.usage.rows.filter (fun g => g.accepted &&
      (g.session = u.session && g.responseId = u.responseId)) ↔ g ∈ db.usage.rows ∧
      g.accepted = true ∧ g.session = u.session ∧ g.responseId = u.responseId := by
    simp
  -- the first of the records that answer the response
  obtain ⟨f, hf, hleast⟩ := Topological.exists_first_of_trans
    (r := fun g g' : UsageRow => g.ordinal < g'.ordinal) (fun g => lt_irrefl g.ordinal) lt_trans
    (List.ne_nil_of_mem ((hmem e).mpr ⟨he, hacc, hses, hres⟩))
  obtain ⟨hrows, hacc', hses', hres'⟩ := (hmem f).mp hf
  have hleast' (g) (hg : g ∈ db.usage.rows) (hacc : g.accepted = true)
      (hses : g.session = u.session) (hres : g.responseId = u.responseId) :
      f.ordinal ≤ g.ordinal := not_lt.mp (hleast g ((hmem g).mpr ⟨hg, hacc, hses, hres⟩))
  exact (hit_iff h hpre).mpr ⟨hsome, f, hrows, hacc', hses', hres',
    (hleast' e he hacc hses hres).trans_lt hlt, hfirst f hrows hacc' hses' hres' hleast', hleast'⟩

end Split

/-! ## The claim -/

/-- A repeated response is counted once on every path. -/
structure Sources.CountedOnce (db : Sources) : Prop where
  repeated : ∀ u ∈ db.usage.rows, u.accepted = true → ∀ entry ∈ db.derive, entry.Of u →
    (entry.provenance.head? = some ⟨u.path, .duplicate, some responseRepeated⟩ ↔ db.Repeats u)
  counted : ∀ u ∈ db.usage.rows, ∀ entry ∈ db.derive, entry.Of u →
    (entry.counted = true ↔ db.nativeCounted u = true)
  totals : ∀ session, usageTotals db.derive session = db.nativeTotals session

/-- A record is repeated by the loop exactly when it is found. -/
theorem repeated_iff (hacc : db.accepts u = true) :
    (db.deltaEntry responses u).provenance.head? =
      some ⟨u.path, .duplicate, some responseRepeated⟩ ↔ Hit responses u := by
  have hhead : (db.deltaEntry responses u).provenance.head? =
      some ⟨u.path, (classify responses (db.quarantined u) u).1,
        (classify responses (db.quarantined u) u).2.1⟩ := rfl
  rw [hhead]
  by_cases hit : Hit responses u
  · rw [(classify_of_hit hacc hit).1, (classify_of_hit hacc hit).2]
    exact ⟨fun _ => hit, fun _ => rfl⟩
  · rw [(classify_of_miss hacc hit).1]
    exact ⟨nofun, fun h => absurd h hit⟩

/-- The loop counts the accepted records that it does not find. -/
theorem counted_iff (h : db.Plain) (hu : u ∈ db.usage.rows) :
    (db.deltaEntry responses u).counted = true ↔ u.accepted = true ∧ ¬Hit responses u := by
  have hquarantined := h.unquarantined u hu
  rw [counted_deltaEntry hquarantined]
  by_cases hacc : u.accepted = true
  · have haccepts := accepts_iff.mpr ⟨hquarantined, hacc, h.normalizable u hu hacc⟩
    by_cases hit : Hit responses u
    · rw [(classify_of_hit haccepts hit).1]
      exact ⟨nofun, fun h => absurd hit h.2⟩
    · rw [(classify_of_miss haccepts hit).1]
      exact ⟨fun _ => ⟨hacc, hit⟩, fun _ => rfl⟩
  · rw [hquarantined, classify.eq_def, Bool.eq_false_iff.mpr hacc]
    exact ⟨nofun, fun h => absurd h.1 Bool.false_ne_true⟩

/-- The totals of a session are the sums over the counted records. -/
theorem totals_eq (h : db.Plain) (hcounted : ∀ u ∈ db.usage.rows, ∀ entry ∈ db.derive, entry.Of u →
    (entry.counted = true ↔ db.nativeCounted u = true)) (session : String) :
    usageTotals db.derive session = db.nativeTotals session := by
  have hcount : (db.derive.filter fun e => e.session = session && e.counted).filterMap
      (·.normalized) = (db.inOrder.filter fun u => u.session = session &&
        db.nativeCounted u).filterMap (·.normalized) := by
    have hnone : ((Sources.cumulatives none
        (db.rollouts.rows.insertionSort Sources.rolloutLe)).filter fun e =>
          e.session = session && e.counted) = [] := by
      refine List.filter_eq_nil_iff.mpr fun entry hentry => ?_
      simp [Entry.counted, (mem_cumulatives hentry).1]
    have hmem := h.derive
    rw [h.derive, List.filter_append, hnone, List.append_nil, List.filterMap_filter,
      List.filterMap_filter]
    refine filterMap_deltas _ _ fun pre u post hpre => ?_
    have hu : u ∈ db.usage.rows :=
      mem_inOrder.mp (hpre ▸ List.mem_append_right _ List.mem_cons_self)
    have hentry : db.deltaEntry (pre.foldl db.remember []) u ∈ db.derive := by
      rw [hmem]
      exact List.mem_append_left _ (mem_deltas.mpr ⟨pre, u, post, hpre, rfl⟩)
    have hsame := Bool.eq_iff_iff.mpr (hcounted u hu _ hentry ⟨rfl, rfl, rfl⟩)
    rw [hsame]
    rfl
  unfold Sources.nativeTotals
  split
  · rfl
  · have hsum (f : Normalized → Int) (g : Native → Option Int)
        (hfg : ∀ native claude n, normalize native claude = some n → g native = some (f n)) :
        (((db.inOrder.filter fun u => u.session = session && db.nativeCounted u).filterMap
          (·.normalized)).map f).sum =
        ((db.usage.rows.filter fun u => u.session = session && db.nativeCounted u).filterMap
          fun u => g u.native).sum := by
      have hvalues : ∀ u ∈ db.inOrder.filter fun u => u.session = session && db.nativeCounted u,
          u.normalized.map f = g u.native := by
        intro u hu
        obtain ⟨hu, hcounted⟩ := List.mem_filter.mp hu
        rw [Bool.and_eq_true, nativeCounted_iff] at hcounted
        obtain ⟨n, hn⟩ := h.normalizable u (mem_inOrder.mp hu) hcounted.2.1
        rw [hn, hfg _ _ n hn]
        rfl
      rw [List.map_filterMap, List.filterMap_congr hvalues]
      exact (((List.perm_insertionSort _ _).filter _).filterMap _).sum_eq
    unfold usageTotals
    rw [hcount]
    refine congr (congr (congrArg Totals.mk ?_) ?_) ?_
    · exact hsum (·.input) (·.input) fun _ _ _ hn => (normalize_some hn).1
    · exact hsum (·.output) (·.output) fun _ _ _ hn => (normalize_some hn).2.1
    · exact hsum (·.reasoning) (·.reasoningOutput) fun _ _ _ hn => (normalize_some hn).2.2

/-- **A repeated response is counted once** exactly when no digest of a response but that of its
first accepted record comes twice. -/
theorem repeated_response_counted_once (hplain : db.Plain) : db.CountedOnce ↔
    ∀ u ∈ db.usage.rows, u.accepted = true → db.Repeats u → db.FirstDigest u := by
  constructor
  · intro h u hu hacc hrepeats
    obtain ⟨entry, hentry, hof⟩ := exists_entry hplain hu
    have hduplicate := (h.repeated u hu hacc entry hentry hof).mpr hrepeats
    obtain ⟨pre, post, hpre, rfl⟩ := entry_eq hplain hu hentry hof
    have haccepts := accepts_iff.mpr
      ⟨hplain.unquarantined u hu, hacc, hplain.normalizable u hu hacc⟩
    exact (repeats_of_hit hplain hpre ((repeated_iff haccepts).mp hduplicate)).2
  · intro h
    have hhit (u) (hu : u ∈ db.usage.rows) (hacc : u.accepted = true) {pre post}
        (hpre : db.inOrder = pre ++ u :: post) :
        Hit (pre.foldl db.remember []) u ↔ db.Repeats u :=
      ⟨fun hit => (repeats_of_hit hplain hpre hit).1, fun hrepeats =>
        hit_of_repeats hplain hpre hrepeats (h u hu hacc hrepeats)⟩
    have hcounted : ∀ u ∈ db.usage.rows, ∀ entry ∈ db.derive, entry.Of u →
        (entry.counted = true ↔ db.nativeCounted u = true) := by
      intro u hu entry hentry hof
      obtain ⟨pre, post, hpre, rfl⟩ := entry_eq hplain hu hentry hof
      rw [counted_iff hplain hu, nativeCounted_iff]
      exact and_congr_right fun hacc => not_congr (hhit u hu hacc hpre)
    refine ⟨?_, hcounted, totals_eq hplain hcounted⟩
    intro u hu hacc entry hentry hof
    obtain ⟨pre, post, hpre, rfl⟩ := entry_eq hplain hu hentry hof
    have haccepts := accepts_iff.mpr
      ⟨hplain.unquarantined u hu, hacc, hplain.normalizable u hu hacc⟩
    rw [repeated_iff haccepts, hhit u hu hacc hpre]

/-- A record of one response, ten tokens in and five out. -/
def answer (ordinal : Int) (payload : String) : UsageRow where
  session := "session"
  ordinal
  path := "path"
  responseId := some "response"
  turnId := none
  model := some "model"
  payloadDigest := payload
  native := ⟨some 10, some 0, some 0, some 5, some 0, some 15⟩
  accepted := true
  reason := none

/-- A response whose second payload is recorded again. -/
def alternating : Sources where
  usage := ⟨[answer 1 "sha256:aa", answer 2 "sha256:bb", answer 3 "sha256:bb"], by decide⟩
  quarantine := []
  rollouts := .empty

/-- A response recorded again with its first payload, between two of another payload. -/
def replayed : Sources where
  usage := ⟨[answer 1 "sha256:aa", answer 2 "sha256:bb", answer 3 "sha256:aa"], by decide⟩
  quarantine := []
  rollouts := .empty

theorem plain_alternating : alternating.Plain where
  unquarantined := fun _ _ => rfl
  normalizable := by
    have h : ∀ u ∈ alternating.usage.rows, u.normalized.isSome = true := by decide +kernel
    exact fun u hu _ => Option.isSome_iff_exists.mp (h u hu)
  native := by decide +kernel

theorem plain_replayed : replayed.Plain where
  unquarantined := fun _ _ => rfl
  normalizable := by
    have h : ∀ u ∈ replayed.usage.rows, u.normalized.isSome = true := by decide +kernel
    exact fun u hu _ => Option.isSome_iff_exists.mp (h u hu)
  native := by decide +kernel

/-- The ledger counts all three records, the native totals two. -/
theorem alternating_counted_thrice : alternating.Plain ∧ ¬alternating.CountedOnce ∧
    usageTotals alternating.derive "session" = ⟨30, 15, 0⟩ ∧
    alternating.nativeTotals "session" = ⟨20, 10, 0⟩ := by
  have hledger : usageTotals alternating.derive "session" = ⟨30, 15, 0⟩ := by decide +kernel
  have hnative : alternating.nativeTotals "session" = ⟨20, 10, 0⟩ := by decide +kernel
  refine ⟨plain_alternating, fun h => ?_, hledger, hnative⟩
  have heq := h.totals "session"
  rw [hledger, hnative] at heq
  exact absurd heq (by decide)

theorem repeated_response_counted_once_replayed : replayed.CountedOnce := by
  refine (repeated_response_counted_once plain_replayed).mpr ?_
  unfold Sources.Repeats Sources.FirstDigest
  decide +kernel

end Herdr.Accounting
