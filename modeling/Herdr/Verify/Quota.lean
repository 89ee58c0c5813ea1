import Mathlib.Data.List.Dedup
import Mathlib.Data.List.Induction
import Mathlib.Tactic.Ring
import Herdr.Lib.Folds
import Herdr.Telemetry.Quota

/-!
# Quota windows never subtract

The replay keeps one track for each account, limit and kind: the closed windows, the current one
and the observations. A step of the replay is a step of one track; a track opens windows at larger
resets only, raises the current window by trusted values only, and counts what names it.
-/

namespace Herdr.Quota

/-! ## Decimal text -/

/-- A fraction without its trailing zeros, filled up again. -/
theorem rdropWhile_fill {l : List Char} :
    l.rdropWhile (· = '0') ++ List.replicate (l.length - (l.rdropWhile (· = '0')).length) '0' = l := by
  have hsplit := @List.rdropWhile_append_rtakeWhile Char (fun c => c = '0') l
  have hlen := congrArg List.length hsplit
  rw [List.length_append] at hlen
  have hzeros : l.rtakeWhile (· = '0') =
      List.replicate (l.rtakeWhile (· = '0')).length '0' := by
    refine List.eq_replicate_iff.mpr ⟨rfl, fun c hc => ?_⟩
    simpa using List.mem_rtakeWhile_imp hc
  have hcount : l.length - (l.rdropWhile (· = '0')).length = (l.rtakeWhile (· = '0')).length := by
    omega
  rw [hcount, ← hzeros]
  exact hsplit

theorem toList_toString (n : Nat) : (toString (n : Int)).toList = Nat.toDigits 10 n :=
  Nat.toList_repr

theorem toDigits_isDigit {n : Nat} {c : Char} (h : c ∈ Nat.toDigits 10 n) : c.isDigit = true :=
  Nat.isDigit_of_mem_toDigits (by decide) (by decide) h

theorem point_not_mem {l : List Char} (h : ∀ c ∈ l, c.isDigit = true) : '.' ∉ l := by
  intro hmem
  have hdigit := h '.' hmem
  revert hdigit
  decide

/-- Reading a text whose digits are split at the point. -/
theorem percent_eq {text : String} {whole fraction : List Char} {rest : Option (List Char)}
    (hsplit : Decimal.splitPoint text.toList = (whole, rest)) (hrest : rest.getD [] = fraction)
    (hwhole : whole ≠ []) (hlen : whole.length ≤ 3) (hplaces : fraction.length ≤ places)
    (hdigits : ∀ c ∈ whole, c.isDigit = true) (hdigits' : ∀ c ∈ fraction, c.isDigit = true)
    (hlast : text.toList.getLast? ≠ some '.') {v : Int}
    (hv : (Nat.ofDigitChars 10 whole 0 * 10 ^ places + Nat.ofDigitChars 10
      (fraction ++ List.replicate (places - fraction.length) '0') 0 : Int) = v)
    (hle : v ≤ hundred) : percent text = some v := by
  have hwhole' : whole.all Char.isDigit = true := List.all_eq_true.mpr hdigits
  have hfraction : fraction.all Char.isDigit = true := List.all_eq_true.mpr hdigits'
  have hplain : ¬(whole = [] ∨ 3 < whole.length ∨ places < fraction.length ∨
      (!whole.all Char.isDigit) = true ∨ (!fraction.all Char.isDigit) = true ∨
      text.toList.getLast? = some '.') := by
    rw [hwhole', hfraction]
    rintro (h | h | h | h | h | h)
    · exact hwhole h
    · omega
    · omega
    · cases h
    · cases h
    · exact hlast h
  unfold percent
  rw [hsplit]
  dsimp only
  rw [hrest, if_neg hplain, hv, if_pos hle]

/-- The digits of a value after its point. -/
theorem length_padStart {n : Nat} (h : n < 10 ^ places) :
    (Decimal.padStart places (Nat.toDigits 10 n)).length = places := by
  have hle := (Nat.length_toDigits_le_iff (b := 10) (by decide) (by decide : 0 < places)).mpr h
  rw [Decimal.padStart, List.length_append, List.length_replicate]
  omega

theorem ofDigitChars_padStart (n : Nat) :
    Nat.ofDigitChars 10 (Decimal.padStart places (Nat.toDigits 10 n)) 0 = n := by
  rw [Decimal.padStart, Nat.ofDigitChars_append, Nat.ofDigitChars_replicate_zero, Nat.mul_zero]
  exact Nat.ofDigitChars_ten_toDigits

theorem padStart_isDigit {n : Nat} {c : Char}
    (h : c ∈ Decimal.padStart places (Nat.toDigits 10 n)) : c.isDigit = true := by
  rcases List.mem_append.mp h with h | h
  · rw [List.eq_of_mem_replicate h]
    decide
  · exact toDigits_isDigit h

/-- **The text of a value reads back.** -/
theorem percent_display {v : Int} (hnonneg : 0 ≤ v) (hle : v ≤ hundred) :
    percent (display v) = some v := by
  obtain ⟨n, rfl⟩ := Int.eq_ofNat_of_zero_le hnonneg
  have hn : n ≤ 100 * 10 ^ 12 := by
    unfold hundred places at hle
    omega
  have hdiv : ((n : Int).tdiv (10 ^ places)) = ((n / 10 ^ 12 : Nat) : Int) := rfl
  have hmod : ((n : Int).tmod (10 ^ places)) = ((n % 10 ^ 12 : Nat) : Int) := rfl
  have hvalue : ((n / 10 ^ 12 : Nat) : Int) * 10 ^ places + ((n % 10 ^ 12 : Nat) : Int) = n := by
    unfold places
    omega
  have hshort : n % 10 ^ 12 < 10 ^ places := Nat.mod_lt _ (by decide)
  have hlen : (Nat.toDigits 10 (n / 10 ^ 12)).length ≤ 3 :=
    (Nat.length_toDigits_le_iff (by decide) (by decide)).mpr (by omega)
  have hwhole : Nat.toDigits 10 (n / 10 ^ 12) ≠ [] := Nat.toDigits_ne_nil
  have hpoint : '.' ∉ Nat.toDigits 10 (n / 10 ^ 12) := point_not_mem fun _ h => toDigits_isDigit h
  generalize hfraction : (Decimal.padStart places (Nat.toDigits 10 (n % 10 ^ 12))).rdropWhile
    (· = '0') = fraction
  have hfill : fraction ++ List.replicate (places - fraction.length) '0' =
      Decimal.padStart places (Nat.toDigits 10 (n % 10 ^ 12)) := by
    have h := @rdropWhile_fill (Decimal.padStart places (Nat.toDigits 10 (n % 10 ^ 12)))
    rwa [hfraction, length_padStart hshort] at h
  have hdigits : ∀ c ∈ fraction, c.isDigit = true := fun c hc =>
    padStart_isDigit (hfill ▸ List.mem_append_left _ hc)
  have hplaces : fraction.length ≤ places := by
    have h := congrArg List.length hfill
    rw [length_padStart hshort, List.length_append, List.length_replicate] at h
    omega
  have hsum : (Nat.ofDigitChars 10 (Nat.toDigits 10 (n / 10 ^ 12)) 0 * 10 ^ places +
      Nat.ofDigitChars 10 (fraction ++ List.replicate (places - fraction.length) '0') 0 : Int) = n := by
    rw [hfill, ofDigitChars_padStart, Nat.ofDigitChars_ten_toDigits]
    exact hvalue
  -- the last character is a digit
  have hlast {l : List Char} (h : ∀ c ∈ l, c.isDigit = true) : l.getLast? ≠ some '.' := fun he =>
    point_not_mem h (List.mem_of_getLast? he)
  unfold display
  rw [hdiv, hmod, toList_toString]
  dsimp only
  rw [hfraction]
  by_cases hnil : fraction = []
  · rw [if_pos hnil]
    refine @percent_eq _ _ fraction none ?_ hnil.symm hwhole hlen hplaces
      (fun _ h => toDigits_isDigit h) hdigits ?_ _ hsum hle
    · rw [toList_toString]
      exact Decimal.splitPoint_of_not_mem hpoint
    · rw [toList_toString]
      exact hlast fun _ h => toDigits_isDigit h
  · rw [if_neg hnil]
    have htext : (toString ((n / 10 ^ 12 : Nat) : Int) ++ "." ++ String.ofList fraction).toList =
        Nat.toDigits 10 (n / 10 ^ 12) ++ '.' :: fraction := by
      rw [String.toList_append, String.toList_append, toList_toString, List.append_assoc]
      exact congrArg _ (congrArg _ String.toList_ofList)
    refine @percent_eq _ _ fraction (some fraction) ?_ rfl hwhole hlen hplaces
      (fun _ h => toDigits_isDigit h) hdigits ?_ _ hsum hle
    · rw [htext]
      exact Decimal.splitPoint_append hpoint
    · rw [htext, List.getLast?_append_of_ne_nil _ (List.cons_ne_nil _ _),
        List.getLast?_cons_of_ne_nil hnil]
      exact hlast hdigits

/-! ## Names of windows -/

theorem toString_injective {a b : Int} (h : toString a = toString b) : a = b := by
  have hnat {m n : Nat} (h : Nat.repr m = Nat.repr n) : m = n := by
    have hdigits : Nat.toDigits 10 m = Nat.toDigits 10 n := by
      rw [← Nat.toList_repr, ← Nat.toList_repr, h]
    have hvalue := congrArg (Nat.ofDigitChars 10 · 0) hdigits
    simpa only [Nat.ofDigitChars_ten_toDigits] using hvalue
  have hsign {m n : Nat} (h : Nat.repr m = "-" ++ Nat.repr n) : False := by
    have hlist := congrArg String.toList h
    rw [Nat.toList_repr, String.toList_append] at hlist
    have hmem : '-' ∈ Nat.toDigits 10 m := by
      rw [hlist]
      simp
    have hdigit := toDigits_isDigit hmem
    revert hdigit
    decide
  cases a with
  | ofNat m =>
    cases b with
    | ofNat n => exact congrArg Int.ofNat (hnat h)
    | negSucc n => exact (hsign h).elim
  | negSucc m =>
    cases b with
    | ofNat n => exact (hsign h.symm).elim
    | negSucc n =>
      have hrepr := hnat ((String.append_right_inj "-").mp h)
      exact congrArg Int.negSucc (Nat.succ_injective hrepr)

theorem windowId_injective {key : Key} {a b : Int} (h : windowId key a = windowId key b) : a = b :=
  toString_injective ((String.append_right_inj _).mp h)

/-! ## Tracks -/

/-- What the replay holds for one key. -/
structure Track where
  closed : List Window := []
  current : Option Window := none
  log : List Observation := []

/-- The windows in the order of their opening. -/
def Track.windows (t : Track) : List Window := t.closed ++ t.current.toList

/-- The key that an observation is of. -/
def Observation.key? (o : Observation) : Option Key :=
  o.account.bind fun account => o.limit.map fun limit => ⟨account, limit, o.kind⟩

def Replay.track (st : Replay) (k : Key) : Track where
  closed := st.done.filter (·.key = k)
  current := st.current.find k
  log := st.observations.filter (·.key? = some k)

/-- A snapshot that was found complete. -/
structure Snapshot.Complete (s : Snapshot) : Prop where
  nonneg : 0 ≤ s.used
  used : s.used ≤ hundred
  start : startFits s.minutes s.resets = true

/-- A trusted observation of a value. -/
structure Observation.Trusts (o : Observation) (id : String) (used : Int) : Prop where
  names : o.windowId = some id
  trust : o.trust = .trusted
  value : o.used.bind percent = some used

/-- **What a reading does to a track.** -/
inductive Track.Step (k : Key) (t : Track) : Track → Prop
  | stays : Step k t t
  | notes (o : Observation) (unnamed : o.windowId = none) :
    Step k t { t with log := t.log ++ [o] }
  | opens (s : Snapshot) (evidence : Evidence) (o : Observation) (key : s.key = k)
    (complete : s.Complete) (trusts : o.Trusts (windowId k s.resets) s.used)
    (later : ∀ w, t.current = some w → w.resets < s.resets) :
    Step k t ⟨t.closed ++ t.current.toList, some (Window.opened s evidence), t.log ++ [o]⟩
  | raises (w : Window) (s : Snapshot) (o : Observation) (current : t.current = some w)
    (complete : s.Complete) (le : w.used ≤ s.used) (trusts : o.Trusts w.id s.used) :
    Step k t { t with current := some (w.raise s), log := t.log ++ [o] }
  | flags (w : Window) (o : Observation) (current : t.current = some w)
    (names : o.windowId = some w.id) (trust : o.trust = .usedDecreased) :
    Step k t { t with current := some w.flag, log := t.log ++ [o] }

/-- What holds of a window itself. -/
structure Window.Held (k : Key) (w : Window) : Prop where
  key : w.key = k
  id : w.id = windowId k w.resets
  nonneg : 0 ≤ w.firstUsed
  rises : w.firstUsed ≤ w.used
  used : w.used ≤ hundred
  start : startFits w.minutes w.resets = true

/-- The observations that name a window, with a trust. -/
def named (log : List Observation) (id : String) (trust : Trust) : List Observation :=
  log.filter fun o => o.windowId = some id && o.trust = trust

/-- A window counts what names it: its trusted values never decrease, from the first to the last. -/
structure Tally (log : List Observation) (w : Window) : Prop where
  values : ∃ vs : List Int, (named log w.id .trusted).map (fun o => o.used.bind percent) = vs.map some ∧
    vs.Pairwise (· ≤ ·) ∧ vs.head? = some w.firstUsed ∧ vs.getLast? = some w.used
  observations : w.observations = (named log w.id .trusted).length
  flagged : w.flagged = (named log w.id .usedDecreased).length

structure Track.Sound (k : Key) (t : Track) : Prop where
  held : ∀ w ∈ t.windows, w.Held k
  increasing : t.windows.Pairwise fun w w' => w.resets < w'.resets
  tally : ∀ w ∈ t.windows, Tally t.log w
  names : ∀ o ∈ t.log, ∀ id, o.windowId = some id → ∃ w ∈ t.windows, w.id = id
  first : t.current = none → t.closed = []

section Tracks

variable {k : Key} {t t' : Track} {w w' : Window} {s : Snapshot} {o : Observation}
  {log : List Observation} {id : String} {trust : Trust}

theorem named_concat_of_ne (h : o.windowId ≠ some id) : named (log ++ [o]) id trust = named log id trust := by
  simp [named, h]

theorem named_concat_of_trust (h : o.trust ≠ trust) : named (log ++ [o]) id trust = named log id trust := by
  simp [named, h]

theorem named_concat (h : o.windowId = some id) (ht : o.trust = trust) :
    named (log ++ [o]) id trust = named log id trust ++ [o] := by
  simp [named, h, ht]

/-- An observation that does not name the window. -/
theorem Tally.other (h : Tally log w) (hne : o.windowId ≠ some w.id) : Tally (log ++ [o]) w where
  values := by
    rw [named_concat_of_ne hne]
    exact h.values
  observations := by
    rw [named_concat_of_ne hne]
    exact h.observations
  flagged := by
    rw [named_concat_of_ne hne]
    exact h.flagged

theorem Tally.raise (h : Tally log w) (ho : o.Trusts w.id s.used) (hle : w.used ≤ s.used) :
    Tally (log ++ [o]) (w.raise s) where
  values := by
    obtain ⟨values, hmap, hsorted, hhead, hlast⟩ := h.values
    have hall : ∀ v ∈ values, v ≤ s.used := by
      induction values using List.reverseRecOn with
      | nil => cases hhead
      | append_singleton init last =>
        rw [List.getLast?_concat] at hlast
        cases hlast
        intro v hv
        rcases List.mem_append.mp hv with hv | hv
        · exact ((List.pairwise_append.mp hsorted).2.2 v hv _ (List.mem_singleton_self _)).trans hle
        · rw [List.mem_singleton.mp hv]
          exact hle
    refine ⟨values ++ [s.used], ?_, ?_, ?_, List.getLast?_concat⟩
    · have hname : named (log ++ [o]) (w.raise s).id .trusted = named log w.id .trusted ++ [o] :=
        named_concat ho.names ho.trust
      rw [hname, List.map_append, List.map_append, hmap, List.map_singleton, ho.value]
      rfl
    · exact List.pairwise_append.mpr ⟨hsorted, List.pairwise_singleton _ _, fun v hv u hu => by
        rw [List.mem_singleton.mp hu]
        exact hall v hv⟩
    · cases values with
      | nil => cases hhead
      | cons v values => exact hhead
  observations := by
    have hname : named (log ++ [o]) (w.raise s).id .trusted = named log w.id .trusted ++ [o] :=
      named_concat ho.names ho.trust
    rw [hname, List.length_append, ← h.observations]
    rfl
  flagged := by
    have hname : named (log ++ [o]) (w.raise s).id .usedDecreased = named log w.id .usedDecreased :=
      named_concat_of_trust (by rw [ho.trust]; nofun)
    rw [hname, ← h.flagged]
    rfl

theorem Tally.flag (h : Tally log w) (hnames : o.windowId = some w.id)
    (htrust : o.trust = .usedDecreased) : Tally (log ++ [o]) w.flag where
  values := by
    have hname : named (log ++ [o]) w.flag.id .trusted = named log w.id .trusted :=
      named_concat_of_trust (by rw [htrust]; nofun)
    rw [hname]
    exact h.values
  observations := by
    have hname : named (log ++ [o]) w.flag.id .trusted = named log w.id .trusted :=
      named_concat_of_trust (by rw [htrust]; nofun)
    rw [hname, ← h.observations]
    rfl
  flagged := by
    have hname : named (log ++ [o]) w.flag.id .usedDecreased = named log w.id .usedDecreased ++ [o] :=
      named_concat hnames htrust
    rw [hname, List.length_append, ← h.flagged]
    rfl

/-- The first observation of a window. -/
theorem Tally.opened (hnone : ∀ o' ∈ log, o'.windowId ≠ some (windowId s.key s.resets))
    (ho : o.Trusts (windowId s.key s.resets) s.used) (evidence : Evidence) :
    Tally (log ++ [o]) (Window.opened s evidence) := by
  have hnil (trust : Trust) : named log (windowId s.key s.resets) trust = [] := by
    refine List.filter_eq_nil_iff.mpr fun o' ho' => ?_
    simp [hnone o' ho']
  have htrusted : named (log ++ [o]) (Window.opened s evidence).id .trusted = [o] := by
    have hname : named (log ++ [o]) (windowId s.key s.resets) .trusted =
        named log (windowId s.key s.resets) .trusted ++ [o] := named_concat ho.names ho.trust
    rwa [hnil] at hname
  have hflagged : named (log ++ [o]) (Window.opened s evidence).id .usedDecreased = [] := by
    have hname : named (log ++ [o]) (windowId s.key s.resets) .usedDecreased =
        named log (windowId s.key s.resets) .usedDecreased :=
      named_concat_of_trust (by rw [ho.trust]; nofun)
    rwa [hnil] at hname
  refine ⟨⟨[s.used], ?_, List.pairwise_singleton _ _, rfl, rfl⟩, ?_, ?_⟩
  · rw [htrusted, List.map_singleton, ho.value]
    rfl
  · rw [htrusted]
    rfl
  · rw [hflagged]
    rfl

theorem Window.Held.ne (h : w.Held k) (h' : w'.Held k) (hne : w.resets ≠ w'.resets) : w.id ≠ w'.id := by
  rw [h.id, h'.id]
  exact fun he => hne (windowId_injective he)

theorem Window.Held.opened (h : s.Complete) (hkey : s.key = k) (evidence : Evidence) :
    (Window.opened s evidence).Held k where
  key := hkey
  id := hkey ▸ rfl
  nonneg := h.nonneg
  rises := Int.le_refl _
  used := h.used
  start := h.start

theorem Window.Held.raise (h : w.Held k) (hs : s.Complete) (hle : w.used ≤ s.used) :
    (w.raise s).Held k where
  key := h.key
  id := h.id
  nonneg := h.nonneg
  rises := h.rises.trans hle
  used := hs.used
  start := h.start

theorem Window.Held.flag (h : w.Held k) : w.flag.Held k :=
  ⟨h.key, h.id, h.nonneg, h.rises, h.used, h.start⟩

theorem Track.windows_eq (h : t.current = some w) : t.windows = t.closed ++ [w] := by
  rw [Track.windows, h]
  rfl

/-- Another value of the current window, with the same name and reset. -/
theorem Track.Sound.update (ht : t.Sound k) (hcurrent : t.current = some w) (hheld : w'.Held k)
    (hresets : w'.resets = w.resets) (ho : o.windowId = some w.id)
    (htally : Tally (t.log ++ [o]) w') :
    Track.Sound k { t with current := some w', log := t.log ++ [o] } := by
  have hwindows := t.windows_eq hcurrent
  have hmem : w ∈ t.windows := hwindows ▸ List.mem_append_right _ (List.mem_singleton_self _)
  have hid : w'.id = w.id := by rw [hheld.id, (ht.held w hmem).id, hresets]
  have hsplit := List.pairwise_append.mp (hwindows ▸ ht.increasing)
  have hold : ∀ v ∈ t.closed, v ∈ t.windows := fun v hv => hwindows ▸ List.mem_append_left _ hv
  refine ⟨?_, ?_, ?_, ?_, nofun⟩
  · intro v hv
    rcases List.mem_append.mp hv with hv | hv
    · exact ht.held v (hold v hv)
    · exact List.mem_singleton.mp hv ▸ hheld
  · refine List.pairwise_append.mpr ⟨hsplit.1, List.pairwise_singleton _ _, fun v hv u hu => ?_⟩
    rw [List.mem_singleton.mp hu, hresets]
    exact hsplit.2.2 v hv w (List.mem_singleton_self _)
  · intro v hv
    rcases List.mem_append.mp hv with hv | hv
    · have hlt := hsplit.2.2 v hv w (List.mem_singleton_self _)
      refine (ht.tally v (hold v hv)).other fun he => ?_
      exact (ht.held v (hold v hv)).ne (ht.held w hmem) (by omega)
        (Option.some.inj (he.symm.trans ho))
    · exact List.mem_singleton.mp hv ▸ htally
  · intro o' ho' id hid'
    rcases List.mem_append.mp ho' with ho' | ho'
    · obtain ⟨v, hv, hvid⟩ := ht.names o' ho' id hid'
      rcases List.mem_append.mp (hwindows ▸ hv) with hv | hv
      · exact ⟨v, List.mem_append_left _ hv, hvid⟩
      · refine ⟨w', List.mem_append_right _ (List.mem_singleton_self _), hid.trans ?_⟩
        rwa [List.mem_singleton.mp hv] at hvid
    · rw [List.mem_singleton.mp ho', ho] at hid'
      exact ⟨w', List.mem_append_right _ (List.mem_singleton_self _), hid.trans (Option.some.inj hid')⟩

/-- A window of a larger reset. -/
theorem Track.Sound.opens (ht : t.Sound k) (hkey : s.key = k) (hs : s.Complete)
    (ho : o.Trusts (windowId k s.resets) s.used)
    (hlater : ∀ w, t.current = some w → w.resets < s.resets) (evidence : Evidence) :
    Track.Sound k ⟨t.closed ++ t.current.toList, some (Window.opened s evidence), t.log ++ [o]⟩ := by
  have hheld := Window.Held.opened hs hkey evidence
  have hbelow : ∀ v ∈ t.windows, v.resets < s.resets := by
    intro v hv
    cases hcurrent : t.current with
    | none =>
      rw [Track.windows, hcurrent, ht.first hcurrent] at hv
      cases hv
    | some w =>
      have hlt := hlater w hcurrent
      rw [t.windows_eq hcurrent] at hv
      rcases List.mem_append.mp hv with hv | hv
      · have hv' := (List.pairwise_append.mp (t.windows_eq hcurrent ▸ ht.increasing)).2.2 v hv w
          (List.mem_singleton_self _)
        omega
      · exact List.mem_singleton.mp hv ▸ hlt
  have hfresh : ∀ v ∈ t.windows, v.id ≠ windowId k s.resets := fun v hv he => by
    rw [(ht.held v hv).id] at he
    have heq := windowId_injective he
    have hlt := hbelow v hv
    omega
  refine ⟨?_, ?_, ?_, ?_, nofun⟩
  · intro v hv
    rcases List.mem_append.mp hv with hv | hv
    · exact ht.held v hv
    · exact List.mem_singleton.mp hv ▸ hheld
  · refine List.pairwise_append.mpr ⟨ht.increasing, List.pairwise_singleton _ _, fun v hv u hu => ?_⟩
    rw [List.mem_singleton.mp hu]
    exact hbelow v hv
  · intro v hv
    rcases List.mem_append.mp hv with hv | hv
    · refine (ht.tally v hv).other fun he => hfresh v hv ?_
      exact Option.some.inj (he.symm.trans ho.names)
    · rw [List.mem_singleton.mp hv]
      subst hkey
      refine Tally.opened (fun o' ho' hid => ?_) ho evidence
      obtain ⟨v, hv, hvid⟩ := ht.names o' ho' _ hid
      exact hfresh v hv hvid
  · intro o' ho' id hid
    rcases List.mem_append.mp ho' with ho' | ho'
    · obtain ⟨v, hv, hvid⟩ := ht.names o' ho' id hid
      exact ⟨v, List.mem_append_left _ hv, hvid⟩
    · rw [List.mem_singleton.mp ho', ho.names] at hid
      exact ⟨_, List.mem_append_right _ (List.mem_singleton_self _), hheld.id.trans (Option.some.inj hid)⟩

/-- **A step keeps a track sound.** -/
theorem Track.Step.sound (h : t.Step k t') (ht : t.Sound k) : t'.Sound k := by
  cases h with
  | stays => exact ht
  | notes o unnamed =>
    refine ⟨ht.held, ht.increasing, fun w hw => (ht.tally w hw).other ?_, ?_, ht.first⟩
    · rw [unnamed]
      nofun
    · intro o' ho' id hid
      rcases List.mem_append.mp ho' with ho' | ho'
      · exact ht.names o' ho' id hid
      · rw [List.mem_singleton.mp ho', unnamed] at hid
        cases hid
  | opens s evidence o key complete trusts later => exact ht.opens key complete trusts later evidence
  | raises w s o current complete le trusts =>
    have hmem : w ∈ t.windows := t.windows_eq current ▸ List.mem_append_right _ (List.mem_singleton_self _)
    exact ht.update current ((ht.held w hmem).raise complete le) rfl trusts.names
      ((ht.tally w hmem).raise trusts le)
  | flags w o current names trust =>
    have hmem : w ∈ t.windows := t.windows_eq current ▸ List.mem_append_right _ (List.mem_singleton_self _)
    exact ht.update current (ht.held w hmem).flag rfl names ((ht.tally w hmem).flag names trust)

end Tracks

/-! ## Readings -/

theorem fit_eq_some {n v : Int} : fit n = some v ↔ (i64Min ≤ n ∧ n ≤ i64Max) ∧ n = v := by
  unfold fit
  split
  next h => simp only [h, Option.some.injEq, true_and, and_self]
  next h => simp only [h, false_and, reduceCtorEq]

theorem percent_bounds {text : String} {v : Int} (h : percent text = some v) :
    0 ≤ v ∧ v ≤ hundred := by
  unfold percent at h
  dsimp only at h
  split at h
  · cases h
  · split at h
    next hle =>
      obtain rfl := Option.some.inj h
      refine ⟨Int.add_nonneg (Int.mul_nonneg (Int.natCast_nonneg _) ?_) (Int.natCast_nonneg _), hle⟩
      exact Int.le_of_lt (Int.pow_pos (by decide))
    next => cases h

section Readings

variable {r : Reading} {s : Snapshot} {t : Track} {v : Verdict} {w : Window}

/-- What a complete reading says. -/
structure Reading.Reads (r : Reading) (s : Snapshot) : Prop where
  complete : s.Complete
  used : r.fields.used.bind percent = some s.used
  resets : r.resets = some s.resets
  account : r.row.account = some s.key.account
  homes : ¬1 < r.row.homeCount
  limit : r.row.limit = some s.key.limit
  kind : r.kind = s.key.kind

theorem Reading.judge_ok (h : r.judge = .ok s) : r.Reads s := by
  unfold Reading.judge at h
  split at h
  · cases h
  next hhomes =>
    split at h
    · cases h
    · split at h
      next account limit used minutes resets haccount hlimit hused hminutes hresets =>
        split at h
        next value hvalue =>
          split at h
          next hstart =>
            cases h
            refine ⟨⟨(percent_bounds hvalue).1, (percent_bounds hvalue).2, hstart⟩, ?_, hresets,
              haccount, fun hmany => hhomes ⟨?_, hmany⟩, hlimit, rfl⟩
            · rw [hused]
              exact hvalue
            · rw [haccount]
              rfl
          next => cases h
        next => cases h
      next => cases h

/-- An account is read off the homes, so there is one. -/
theorem SnapshotRow.homeCount_eq {row : SnapshotRow} (h : row.account.isSome)
    (hle : ¬1 < row.homeCount) : row.homeCount = 1 := by
  have hpos : 0 < row.homeCount := by
    refine List.length_pos_iff.mpr fun hnil => ?_
    have hnone : row.homes = [] := (List.dedup_eq_nil _).mp hnil
    rw [SnapshotRow.account, hnone] at h
    cases h
  omega

theorem Reading.Reads.key? (h : r.Reads s) (trust : Trust) (names : Option String) :
    (r.observation trust names).key? = some s.key := by
  have hone := SnapshotRow.homeCount_eq (by rw [h.account]; rfl) h.homes
  have haccount : (r.observation trust names).account = some s.key.account := by
    rw [Reading.observation, h.account, Option.filter_some, decide_eq_true hone]
    rfl
  have hlimit : (r.observation trust names).limit = some s.key.limit := h.limit
  have hkind : (r.observation trust names).kind = s.key.kind := h.kind
  rw [Observation.key?, haccount, hlimit, hkind]
  rfl

theorem Reading.Reads.trusts (h : r.Reads s) (id : String) :
    (r.observation .trusted (some id)).Trusts id s.used where
  names := rfl
  trust := rfl
  value := by
    have hused : (r.observation .trusted (some id)).used = some (display s.used) := by
      rw [Reading.observation, h.used]
      rfl
    rw [hused, Option.bind_some]
    exact percent_display h.complete.nonneg h.complete.used

/-! ## The arms of the replay -/

/-- The arms, without their arithmetic. -/
theorem weigh_cases {current : Option Window} (h : weigh current s = some v) :
    (current = none ∧ v = ⟨.trusted, some (windowId s.key s.resets), .opened s .firstObservation, none⟩) ∨
    ∃ w, current = some w ∧ |s.resets - w.resets| ≤ i64Max ∧ (v = w.observe s ∨
      v = ⟨.windowRegressed, none, w, none⟩ ∨
      w.resets < s.resets ∧ ∃ evidence,
        v = ⟨.trusted, some (windowId s.key s.resets), .opened s evidence, some w⟩) := by
  cases current with
  | none =>
    cases h
    exact .inl ⟨rfl, rfl⟩
  | some w =>
    obtain ⟨apart, happart, h⟩ := Option.bind_eq_some_iff.mp h
    obtain ⟨dist, hdist, h⟩ := Option.bind_eq_some_iff.mp h
    obtain ⟨-, rfl⟩ := fit_eq_some.mp happart
    obtain ⟨hfits, rfl⟩ := fit_eq_some.mp hdist
    refine .inr ⟨w, rfl, hfits.2, ?_⟩
    split at h
    · exact .inl (Option.some.inj h).symm
    · split at h
      next hlt => exact .inr (.inr ⟨hlt, _, (Option.some.inj h).symm⟩)
      next =>
        split at h
        · exact .inr (.inl (Option.some.inj h).symm)
        · exact .inl (Option.some.inj h).symm

/-- The windows of a verdict are of the key of the current window. -/
theorem Window.observe_key (h : w.key = s.key) :
    (w.observe s).current.key = s.key ∧ (w.observe s).closed = none := by
  unfold Window.observe
  split
  · exact ⟨h, rfl⟩
  · split
    · exact ⟨h, rfl⟩
    · exact ⟨h, rfl⟩

theorem weigh_key {current : Option Window} (h : weigh current s = some v)
    (hcurrent : ∀ w, current = some w → w.key = s.key) :
    v.current.key = s.key ∧ ∀ w, v.closed = some w → w.key = s.key := by
  rcases weigh_cases h with ⟨-, rfl⟩ | ⟨w, hw, -, rfl | rfl | ⟨-, evidence, rfl⟩⟩
  · refine ⟨rfl, fun u hu => ?_⟩
    cases hu
  · obtain ⟨hkey, hclosed⟩ := Window.observe_key (hcurrent w hw)
    refine ⟨hkey, fun u hu => ?_⟩
    rw [hclosed] at hu
    cases hu
  · refine ⟨hcurrent w hw, fun u hu => ?_⟩
    cases hu
  · refine ⟨rfl, fun u hu => ?_⟩
    cases hu
    exact hcurrent w hw

/-- The current window keeps its reset until another is opened. -/
theorem weigh_resets {current : Option Window} (h : weigh current s = some v) :
    v.current.resets = s.resets ∨ ∃ w, current = some w ∧ v.current.resets = w.resets := by
  rcases weigh_cases h with ⟨-, rfl⟩ | ⟨w, hw, -, rfl | rfl | ⟨-, evidence, rfl⟩⟩
  · exact .inl rfl
  · refine .inr ⟨w, hw, ?_⟩
    unfold Window.observe
    split
    · rfl
    · split <;> rfl
  · exact .inr ⟨w, hw, rfl⟩
  · exact .inl rfl

/-- **The arms are steps of the track of the key.** -/
theorem weigh_step (hreads : r.Reads s) (h : weigh t.current s = some v) :
    t.Step s.key ⟨t.closed ++ v.closed.toList, some v.current,
      t.log ++ [r.observation v.trust v.names]⟩ := by
  have hkeep {current : Option Window} {o : Observation} : (⟨t.closed ++ [], current, t.log ++ [o]⟩ : Track) =
      { t with current, log := t.log ++ [o] } := by
    rw [List.append_nil]
  rcases weigh_cases h with ⟨hnone, rfl⟩ | ⟨w, hw, -, rfl | rfl | ⟨hlt, evidence, rfl⟩⟩
  · have hstep := @Track.Step.opens s.key t s .firstObservation _ rfl hreads.complete
      (hreads.trusts _) (fun u hu => by
        rw [hnone] at hu
        cases hu)
    rw [hnone] at hstep
    exact hstep
  · unfold Window.observe
    split
    · have hstep := @Track.Step.notes s.key t (r.observation .windowConflict none) rfl
      dsimp only [Option.toList_none]
      rw [hkeep, ← hw]
      exact hstep
    · split
      · dsimp only [Option.toList_none]
        rw [hkeep]
        exact .flags w _ hw rfl rfl
      next hle =>
        dsimp only [Option.toList_none]
        rw [hkeep]
        exact .raises w s _ hw hreads.complete (by omega) (hreads.trusts _)
  · have hstep := @Track.Step.notes s.key t (r.observation .windowRegressed none) rfl
    dsimp only [Option.toList_none]
    rw [hkeep, ← hw]
    exact hstep
  · have hstep := @Track.Step.opens s.key t s evidence _ rfl hreads.complete
      (hreads.trusts _) (fun u hu => by
        rw [hw] at hu
        cases hu
        exact hlt)
    rw [hw] at hstep
    exact hstep

end Readings

/-! ## Runs -/

theorem Table.rows_filter_key {α κ : Type} [DecidableEq κ] {key : α → κ} {t : Table α key} {k : κ} :
    t.rows.filter (key · = k) = (t.find k).toList := by
  have hhead : (t.rows.filter (key · = k)).head? = t.find k := List.head?_filter
  have hmem : ∀ a ∈ t.rows.filter (key · = k), a ∈ t.rows ∧ key a = k := fun a ha => by
    simpa using List.mem_filter.mp ha
  have hnodup : ((t.rows.filter (key · = k)).map key).Nodup := t.nodup.sublist (List.filter_sublist.map _)
  rw [← hhead]
  cases hrows : t.rows.filter (key · = k) with
  | nil => rfl
  | cons a rest =>
    cases rest with
    | nil => rfl
    | cons b rest =>
      rw [hrows] at hmem hnodup
      have ha := (hmem a (List.mem_cons_self ..)).2
      have hb := (hmem b (List.mem_cons_of_mem _ (List.mem_cons_self ..))).2
      rw [List.map_cons, List.nodup_cons] at hnodup
      refine absurd ?_ hnodup.1
      rw [ha, ← hb]
      exact List.mem_map_of_mem (List.mem_cons_self ..)

section Runs

variable {st st' : Replay} {r : Reading} {k : Key} {rows : List SnapshotRow}

structure Replay.Sound (st : Replay) : Prop where
  track : ∀ k, (st.track k).Sound k
  keyed : ∀ o ∈ st.observations, o.windowId ≠ none → o.key?.isSome

theorem Replay.step_cases (h : st.step (fun _ => none) r = some st') :
    (∃ trust, r.judge = .error trust ∧ st' = { st with observations := st.observations ++ [r.observation trust none] }) ∨
    ∃ s v, r.judge = .ok s ∧ weigh (st.current.find s.key) s = some v ∧
      st' = {
        current := st.current.upsert v.current
        done := st.done ++ v.closed.toList
        observations := st.observations ++ [r.observation v.trust v.names] } := by
  unfold Replay.step at h
  cases hjudge : r.judge with
  | error trust =>
    rw [hjudge] at h
    exact .inl ⟨trust, rfl, (Option.some.inj h).symm⟩
  | ok s =>
    rw [hjudge] at h
    obtain ⟨v, hv, h⟩ := Option.bind_eq_some_iff.mp h
    rw [Option.or_none] at hv
    exact .inr ⟨s, v, rfl, hv, (Option.some.inj h).symm⟩

/-- **A step of the replay is a step of each track.** -/
theorem Replay.track_step (h : st.step (fun _ => none) r = some st') (k : Key) :
    (st.track k).Step k (st'.track k) := by
  rcases Replay.step_cases h with ⟨trust, -, rfl⟩ | ⟨s, v, hjudge, hv, rfl⟩
  · -- an unnamed observation, of this key or not
    by_cases hk : (r.observation trust none).key? = some k
    · have hlog : (st.observations ++ [r.observation trust none]).filter (·.key? = some k) =
          st.observations.filter (·.key? = some k) ++ [r.observation trust none] := by
        simp [hk]
      have hstep := @Track.Step.notes k (st.track k) (r.observation trust none) rfl
      unfold Replay.track at hstep ⊢
      rw [hlog]
      exact hstep
    · have hlog : (st.observations ++ [r.observation trust none]).filter (·.key? = some k) =
          st.observations.filter (·.key? = some k) := by
        simp [hk]
      have hstep := @Track.Step.stays k (st.track k)
      unfold Replay.track at hstep ⊢
      rw [hlog]
      exact hstep
  · have hreads := Reading.judge_ok hjudge
    have hkey? := hreads.key? v.trust v.names
    obtain ⟨hcurrent, hclosed⟩ := weigh_key hv fun w hw => Table.find_key hw
    by_cases hk : s.key = k
    · subst hk
      have hstep := @weigh_step r s (st.track s.key) v hreads hv
      have hdone : (st.done ++ v.closed.toList).filter (·.key = s.key) =
          st.done.filter (·.key = s.key) ++ v.closed.toList := by
        rw [List.filter_append]
        refine congrArg _ (List.filter_eq_self.mpr fun w hw => ?_)
        exact decide_eq_true (hclosed w (Option.mem_toList.mp hw))
      have hfind : (st.current.upsert v.current).find s.key = some v.current := by
        rw [← hcurrent]
        exact Table.find_upsert_self
      have hlog : (st.observations ++ [r.observation v.trust v.names]).filter (·.key? = some s.key) =
          st.observations.filter (·.key? = some s.key) ++ [r.observation v.trust v.names] := by
        simp [hkey?]
      unfold Replay.track at hstep ⊢
      rw [hdone, hfind, hlog]
      exact hstep
    · have hdone : (st.done ++ v.closed.toList).filter (·.key = k) = st.done.filter (·.key = k) := by
        rw [List.filter_append]
        refine (congrArg _ (List.filter_eq_nil_iff.mpr fun w hw => ?_)).trans (List.append_nil _)
        have hwkey := hclosed w (Option.mem_toList.mp hw)
        exact fun h => hk (hwkey.symm.trans (of_decide_eq_true h))
      have hfind : (st.current.upsert v.current).find k = st.current.find k :=
        Table.find_upsert_ne fun h => hk (hcurrent.symm.trans h)
      have hlog : (st.observations ++ [r.observation v.trust v.names]).filter (·.key? = some k) =
          st.observations.filter (·.key? = some k) := by
        simp [hkey?, hk]
      have hstep := @Track.Step.stays k (st.track k)
      unfold Replay.track at hstep ⊢
      rw [hdone, hfind, hlog]
      exact hstep

theorem Replay.Sound.step (hst : st.Sound) (h : st.step (fun _ => none) r = some st') : st'.Sound where
  track k := (Replay.track_step h k).sound (hst.track k)
  keyed := by
    intro o ho hnamed
    rcases Replay.step_cases h with ⟨trust, -, rfl⟩ | ⟨s, v, hjudge, -, rfl⟩
    · rcases List.mem_append.mp ho with ho | ho
      · exact hst.keyed o ho hnamed
      · rw [List.mem_singleton.mp ho] at hnamed
        exact absurd rfl hnamed
    · rcases List.mem_append.mp ho with ho | ho
      · exact hst.keyed o ho hnamed
      · rw [List.mem_singleton.mp ho, (Reading.judge_ok hjudge).key?]
        rfl

/-- The windows of a key. -/
theorem Replay.windows_filter : st.windows.filter (·.key = k) = (st.track k).windows := by
  rw [Replay.windows, List.filter_append, Table.rows_filter_key]
  rfl

/-! ## Stored windows -/

/-- What a window counts: its trusted values never decrease, the first and the largest are kept. -/
structure Window.Counts (log : List Observation) (w : Window) : Prop where
  values : ∃ vs : List Int, (named log w.id .trusted).map (fun o => o.used.bind percent) = vs.map some ∧
    vs.Pairwise (· ≤ ·) ∧ vs.head? = some w.firstUsed ∧ w.used ∈ vs ∧ ∀ v ∈ vs, v ≤ w.used
  observations : w.observations = (named log w.id .trusted).length
  flagged : w.flagged = (named log w.id .usedDecreased).length

/-- A row shows the values of its window. -/
structure WindowRow.Shows (row : WindowRow) (w : Window) : Prop where
  window : row.window = w
  windowStart : row.windowStart = w.resets - w.minutes * 60000
  firstUsed : percent row.firstUsed = some w.firstUsed
  used : percent row.used = some w.used
  remaining : percent row.remaining = some (hundred - w.used)
  observedIncrease : percent row.observedIncrease = some (w.used - w.firstUsed)
  nonneg : 0 ≤ w.used - w.firstUsed

structure WindowsSound (st : Replay) (rows : List WindowRow) : Prop where
  increasing : ∀ k, (st.windows.filter (·.key = k)).Pairwise fun w w' => w.resets < w'.resets
  distinct : ∀ k, ((st.windows.filter (·.key = k)).map Window.id).Nodup
  counts : ∀ w ∈ st.windows, w.Counts (st.observations.filter (·.key? = some w.key))
  names : ∀ o ∈ st.observations, ∀ id, o.windowId = some id →
    ∃ w ∈ st.windows, w.id = id ∧ o.key? = some w.key
  shows : List.Forall₂ WindowRow.Shows rows st.windows

theorem Tally.counts {log : List Observation} {w : Window} (h : Tally log w) : w.Counts log where
  values := by
    obtain ⟨vs, hmap, hsorted, hhead, hlast⟩ := h.values
    refine ⟨vs, hmap, hsorted, hhead, List.mem_of_getLast? hlast, fun v hv => ?_⟩
    induction vs using List.reverseRecOn with
    | nil => cases hv
    | append_singleton init last =>
      rw [List.getLast?_concat] at hlast
      cases hlast
      rcases List.mem_append.mp hv with hv | hv
      · exact (List.pairwise_append.mp hsorted).2.2 v hv _ (List.mem_singleton_self _)
      · rw [List.mem_singleton.mp hv]
  observations := h.observations
  flagged := h.flagged

/-- A window that was opened has a start. -/
theorem Window.Held.row {w : Window} (h : w.Held k) : ∃ row, w.row = some row ∧ row.Shows w := by
  have hstart := h.start
  unfold startFits at hstart
  obtain ⟨-, hstart⟩ := Bool.and_eq_true_iff.mp hstart
  obtain ⟨start, hstart⟩ := Option.isSome_iff_exists.mp hstart
  obtain ⟨length, hlength, hsub⟩ := Option.bind_eq_some_iff.mp hstart
  obtain ⟨-, rfl⟩ := fit_eq_some.mp hlength
  obtain ⟨-, rfl⟩ := fit_eq_some.mp hsub
  have hnonneg := h.nonneg
  have hrises := h.rises
  have hused := h.used
  have hfirst : percent (display w.firstUsed) = some w.firstUsed :=
    percent_display hnonneg (hrises.trans hused)
  have hlast : percent (display w.used) = some w.used := percent_display (hnonneg.trans hrises) hused
  have hremaining : percent (display (hundred - w.used)) = some (hundred - w.used) :=
    percent_display (by omega) (by omega)
  have hincrease : percent (display (w.used - w.firstUsed)) = some (w.used - w.firstUsed) :=
    percent_display (by omega) (by omega)
  refine ⟨{
    window := w
    windowStart := w.resets - w.minutes * 60000
    firstUsed := display w.firstUsed
    used := display w.used
    remaining := display (hundred - w.used)
    observedIncrease := display (w.used - w.firstUsed) }, ?_, ?_⟩
  · unfold Window.row
    rw [hlength, Option.bind_eq_bind, Option.bind_some, hsub, Option.bind_some]
  · constructor
    · rfl
    · rfl
    · dsimp only
      exact hfirst
    · dsimp only
      exact hlast
    · dsimp only
      exact hremaining
    · dsimp only
      exact hincrease
    · exact Int.sub_nonneg_of_le hrises

/-- **The windows of a replay.** -/
theorem Replay.Sound.windows (hst : st.Sound) :
    ∃ stored, st.rows = some stored ∧ WindowsSound st stored := by
  have hmem {w : Window} (hw : w ∈ st.windows) : w ∈ (st.track w.key).windows := by
    rw [← Replay.windows_filter]
    exact List.mem_filter.mpr ⟨hw, decide_eq_true rfl⟩
  have hstored : ∀ ws : List Window, (∀ w ∈ ws, w ∈ st.windows) →
      ∃ stored, ws.mapM Window.row = some stored ∧ List.Forall₂ WindowRow.Shows stored ws := by
    intro ws
    induction ws with
    | nil => exact fun _ => ⟨[], rfl, .nil⟩
    | cons w ws ih =>
      intro hws
      have hw := hmem (hws w (List.mem_cons_self ..))
      obtain ⟨row, hrow, hshows⟩ := ((hst.track w.key).held w hw).row
      obtain ⟨stored, hmap, hforall⟩ := ih fun u hu => hws u (List.mem_cons_of_mem _ hu)
      refine ⟨row :: stored, ?_, .cons hshows hforall⟩
      rw [List.mapM_cons, hrow, hmap]
      rfl
  obtain ⟨stored, hrows, hshows⟩ := hstored st.windows fun _ hw => hw
  refine ⟨stored, hrows, ?_, ?_, ?_, ?_, hshows⟩
  · intro k
    rw [Replay.windows_filter]
    exact (hst.track k).increasing
  · intro k
    rw [Replay.windows_filter]
    refine List.pairwise_map.mpr ((hst.track k).increasing.imp_of_mem fun {w w'} hw hw' hlt => ?_)
    exact ((hst.track k).held w hw).ne ((hst.track k).held w' hw') (by omega)
  · exact fun w hw => ((hst.track w.key).tally w (hmem hw)).counts
  · intro o ho id hid
    obtain ⟨k, hk⟩ := Option.isSome_iff_exists.mp (hst.keyed o ho (by rw [hid]; nofun))
    have hlog : o ∈ (st.track k).log := List.mem_filter.mpr ⟨ho, decide_eq_true hk⟩
    obtain ⟨w, hw, hwid⟩ := (hst.track k).names o hlog id hid
    refine ⟨w, ?_, hwid, hk.trans (congrArg _ ((hst.track k).held w hw).key.symm)⟩
    rw [← Replay.windows_filter] at hw
    exact (List.mem_filter.mp hw).1

/-! ## The difference of two resets -/

/-- No complete snapshot resets `2 ^ 63` ms or more away from the window that is current for its
key when it arrives. -/
def InRange (rows : List SnapshotRow) : Prop :=
  ∀ before r after (st : Replay) s w, rows.flatMap SnapshotRow.readings = before ++ r :: after →
    before.foldlM (Replay.step fun _ => none) {} = some st → r.judge = .ok s →
    st.current.find s.key = some w → |s.resets - w.resets| ≤ i64Max

/-- Resets that are not negative are never that far apart. -/
theorem inRange_of_nonneg (h : ∀ r ∈ rows.flatMap SnapshotRow.readings, ∀ s, r.judge = .ok s →
    0 ≤ s.resets) : InRange rows := by
  intro before r after st s w hsplit hbefore hjudge hfind
  have hbounds : ∀ r ∈ rows.flatMap SnapshotRow.readings, ∀ s, r.judge = .ok s →
      0 ≤ s.resets ∧ s.resets ≤ i64Max := by
    intro r hr s hjudge
    refine ⟨h r hr s hjudge, ?_⟩
    obtain ⟨seconds, -, hmul⟩ := Option.bind_eq_some_iff.mp (Reading.judge_ok hjudge).resets
    obtain ⟨hfits, hresets⟩ := fit_eq_some.mp hmul
    rw [← hresets]
    exact hfits.2
  have hcurrent : ∀ k w, st.current.find k = some w → 0 ≤ w.resets ∧ w.resets ≤ i64Max := by
    refine foldlM_invariant (I := fun st => ∀ k w, st.current.find k = some w →
      0 ≤ w.resets ∧ w.resets ≤ i64Max) (fun k w hfind => ?_) ?_ hbefore
    · cases hfind
    intro st r hr st' hst hstep k w hfind
    have hr' : r ∈ rows.flatMap SnapshotRow.readings := hsplit ▸ List.mem_append_left _ hr
    rcases Replay.step_cases hstep with ⟨trust, -, rfl⟩ | ⟨s, v, hjudge, hv, rfl⟩
    · exact hst k w hfind
    · rw [Table.find_upsert] at hfind
      split at hfind
      · cases hfind
        rcases weigh_resets hv with hresets | ⟨u, hu, hresets⟩
        · rw [hresets]
          exact hbounds r hr' s hjudge
        · rw [hresets]
          exact hst _ u hu
      · exact hst k w hfind
  have hs := hbounds r (hsplit ▸ List.mem_append_right _ (List.mem_cons_self ..)) s hjudge
  have hw := hcurrent _ w hfind
  refine abs_le.mpr ⟨?_, ?_⟩ <;> omega

end Runs

end Herdr.Quota
