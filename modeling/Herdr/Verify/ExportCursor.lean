import Herdr.Telemetry.ExportCursor

/-!
# A sealed cursor opens

A token of `Keyring::seal` is split, decoded and authenticated by `Keyring::open` as it was sealed,
if its payload is not too long, and the reserved fields of the payload are those of the seal.
-/

namespace Herdr.ExportCursor

variable {lib : Libraries}

/-! ## The fields of a payload -/

theorem lookup_cons (name k : String) (v : Value) (fields : Fields) :
    ((name, v) :: fields).lookup k = if k = name then some v else fields.lookup k := by
  rw [List.lookup_cons]
  by_cases h : k = name
  · rw [if_pos h, h, beq_self_eq_true]
  · rw [if_neg h, beq_eq_false_iff_ne.mpr h]

theorem lookup_insert {fields : Fields} {name : String} (v : Value) (k : String)
    (hnew : fields.lookup name = none) :
    (insert name v fields).lookup k = if k = name then some v else fields.lookup k := by
  induction fields with
  | nil => exact lookup_cons name k v []
  | cons field fields ih =>
    obtain ⟨first, w⟩ := field
    rw [lookup_cons] at hnew
    rw [insert]
    split
    · rw [lookup_cons]
    · split at hnew
      · cases hnew
      · next hne =>
        rw [lookup_cons, lookup_cons, ih hnew]
        by_cases hk : k = first
        · rw [if_pos hk, if_neg (hk ▸ Ne.symm hne), if_pos hk]
        · rw [if_neg hk, if_neg hk]

theorem lookup_orInsert (fields : Fields) (name : String) (v : Value) (k : String) :
    (orInsert fields name v).lookup k =
      (fields.lookup k).or (if k = name then some v else none) := by
  unfold orInsert
  cases hname : fields.lookup name with
  | some w =>
    rw [Option.isSome_some, if_pos rfl]
    split
    · next h => rw [h, hname, Option.some_or]
    · rw [Option.or_none]
  | none =>
    rw [Option.isSome_none, if_neg Bool.false_ne_true, lookup_insert v k hname]
    split
    · next h => rw [h, hname, Option.none_or]
    · rw [Option.or_none]

/-- The fields that are there stay, and of those that are added the first of a name counts. -/
theorem lookup_merge (base fields : Fields) (k : String) :
    (fields.foldl (fun p f => orInsert p f.1 f.2) base).lookup k =
      (base.lookup k).or (fields.lookup k) := by
  induction fields generalizing base with
  | nil => rw [List.foldl_nil, List.lookup_nil, Option.or_none]
  | cons field fields ih =>
    rw [List.foldl_cons, ih, lookup_orInsert, lookup_cons, Option.or_assoc]
    split
    · rw [Option.some_or]
    · rw [Option.none_or]

/-- The names that a position cannot set. -/
def reservedNames : List String := ["exp", "iat", "kid", "kind", "project", "v"]

variable {kind project : String} {now exp : Int64} {kid : String} {fields : Fields}

theorem payload_get (k : String) :
    (payload kind project now exp kid (.object fields)).get k =
      (((reserved kind project now exp kid).lookup k).or (fields.lookup k)).getD .null :=
  congrArg (fun v : Option Value => v.getD .null) (lookup_merge _ fields k)

/-- A payload with the sealed fields, and those of the position under all other names. -/
structure Sealed (kind project : String) (now exp : Int64) (kid : String) (position opened : Value) :
    Prop where
  v : opened.get "v" = .int 2
  kind : opened.get "kind" = .string kind
  kid : opened.get "kid" = .string kid
  project : opened.get "project" = .string project
  iat : opened.get "iat" = .int now.toInt
  exp : opened.get "exp" = .int exp.toInt
  others : ∀ name ∉ reservedNames, opened.get name = position.get name

theorem reserved_lookup {name : String} (h : name ∉ reservedNames) :
    (reserved kind project now exp kid).lookup name = none := by
  rw [List.lookup_eq_none_iff]
  intro field hfield
  rw [bne_iff_ne]
  rintro rfl
  exact h (List.mem_map_of_mem hfield : field.1 ∈ (reserved kind project now exp kid).map Prod.fst)

/-- **No position can change a reserved field.** -/
theorem payload_sealed : Sealed kind project now exp kid (.object fields)
    (payload kind project now exp kid (.object fields)) := by
  refine ⟨payload_get _, payload_get _, payload_get _, payload_get _, payload_get _, payload_get _,
    fun name hname => ?_⟩
  rw [payload_get, reserved_lookup hname, Option.none_or]
  rfl

/-! ## The token -/

theorem equal_self (a : List UInt8) : equal a a = true := by
  unfold equal
  rw [decide_eq_true rfl, Bool.true_and, decide_eq_true_eq]
  induction a with
  | nil => rfl
  | cons x a ih =>
    rw [List.zip_cons_cons, List.foldl_cons]
    dsimp only
    rw [UInt8.xor_self, UInt8.or_zero, ih]

theorem splitOn_token (key : Key) (text : List UInt8) :
    (token lib key text).splitOn 46 =
      [[99, 50], Hex.encode text, Hex.encode (hmac lib key.bytes text).toList] := by
  have hdot : ∀ bytes : List UInt8, ∀ b ∈ Hex.encode bytes, (b == 46) = false := fun bytes b hb =>
    beq_eq_false_iff_ne.mpr (Hex.ne_of_mem_encode hb rfl)
  have hstart : ∀ b ∈ ([99, 50] : List UInt8), (b == 46) = false := by simp
  have hpoint : ((46 : UInt8) == 46) = true := beq_self_eq_true 46
  unfold token List.splitOn
  rw [List.splitOnP_append_cons_of_forall_mem hstart _ hpoint,
    List.splitOnP_append_cons_of_forall_mem (hdot text) _ hpoint,
    List.splitOnP_eq_singleton (hdot _)]

variable {ring : Keyring} {file : KeyFile} {key : Key} {text : List UInt8}

/-- A token of the right key is opened as its payload. -/
theorem open_token (hload : ring.load lib file false = .ok (some key))
    (hsize : text.length ≤ maxPayload) {opened : Value} (hdecode : lib.decode text = some opened) :
    ring.openCursor lib file kind project now (token lib key text) =
      checked key kind project now opened := by
  have hlength : (Hex.encode (hmac lib key.bytes text).toList).length = 64 := by
    rw [Hex.length_encode, Vector.length_toList]
  unfold Keyring.openCursor
  rw [splitOn_token]
  dsimp only
  rw [if_neg, Hex.decode_encode, Hex.decode_encode]
  · dsimp only
    rw [hload]
    dsimp only
    rw [equal_self, if_pos rfl, hdecode]
  · rw [Hex.length_encode, hlength]
    rintro (h | h | h)
    · exact h rfl
    · omega
    · exact h rfl

/-- A token of a long payload is not opened, with any key. -/
theorem open_long (hsize : maxPayload < text.length) :
    ring.openCursor lib file kind project now (token lib key text) = .error invalid := by
  unfold Keyring.openCursor
  rw [splitOn_token]
  dsimp only
  rw [if_pos]
  rw [Hex.length_encode]
  right; left
  omega

/-! ## Sealing and opening -/

/-- The checks of a sealed payload. -/
theorem Sealed.checked {t : Int64} {kind' project' : String} {position opened : Value}
    (h : Sealed kind project now exp key.id position opened) :
    checked key kind' project' t opened =
      if exp ≤ t then .error (expired exp.toInt)
      else if project ≠ project' then .error foreign
      else if kind ≠ kind' then .error invalid
      else .ok opened := by
  have hexp : (opened.get "exp").asI64 = some exp.toInt := by
    rw [h.exp, Value.asI64, if_pos ⟨exp.le_toInt, exp.toInt_lt⟩]
  have hv : (opened.get "v").asI64 = some 2 := by rw [h.v]; rfl
  unfold ExportCursor.checked
  rw [hexp, hv, h.kid, h.project, h.kind]
  simp only [Value.asStr, ne_eq, not_true_eq_false, if_false, Option.some.injEq, false_or,
    Int64.le_iff_toInt_le]

/-- **A sealed cursor opens.** With the key of the seal, a cursor whose payload has at most 4096
bytes is opened as its payload by the same kind and project until it expires, and refused
otherwise; a longer one is refused always. -/
theorem seal_opens {ring' : Keyring} {file' : KeyFile} {tok : List UInt8}
    (hseal : ring.seal lib file kind project now (.object fields) = .ok (tok, exp))
    (hload : ring.load lib file true = .ok (some key))
    (hsame : ring'.load lib file' false = .ok (some key))
    (hjson : lib.decode (lib.encode (payload kind project now exp key.id (.object fields))) =
      some (payload kind project now exp key.id (.object fields))) :
    exp = now + ttl ∧
    ((lib.encode (payload kind project now exp key.id (.object fields))).length ≤ maxPayload →
      (∀ t < exp, ∃ opened, ring'.openCursor lib file' kind project t tok = .ok opened ∧
        Sealed kind project now exp key.id (.object fields) opened) ∧
      (∀ t, exp ≤ t → ∀ kind' project', ring'.openCursor lib file' kind' project' t tok =
        .error (expired exp.toInt)) ∧
      ∀ t kind' project', kind' ≠ kind ∨ project' ≠ project →
        ∃ refusal, ring'.openCursor lib file' kind' project' t tok = .error refusal) ∧
    (maxPayload < (lib.encode (payload kind project now exp key.id (.object fields))).length →
      ∀ t kind' project', ring'.openCursor lib file' kind' project' t tok = .error invalid) := by
  unfold Keyring.seal at hseal
  rw [hload] at hseal
  obtain ⟨rfl, rfl⟩ := Prod.mk.inj (Except.ok.inj hseal)
  have hsealed : Sealed kind project now (now + ttl) key.id (.object fields) _ := payload_sealed
  refine ⟨rfl, fun hsize => ?_, fun hsize t kind' project' => open_long hsize⟩
  have hopen : ∀ t kind' project', ring'.openCursor lib file' kind' project' t
      (token lib key (lib.encode (payload kind project now (now + ttl) key.id (.object fields)))) =
        _ := fun t kind' project' => (open_token hsame hsize hjson).trans hsealed.checked
  refine ⟨fun t ht => ⟨_, ?_, hsealed⟩, fun t ht kind' project' => ?_, fun t kind' project' hne => ?_⟩
  · rw [hopen, if_neg (Int64.not_le.mpr ht), if_neg (by simp), if_neg (by simp)]
  · rw [hopen, if_pos ht]
  · rw [hopen]
    split
    · exact ⟨_, rfl⟩
    · split
      · exact ⟨_, rfl⟩
      · next hproject =>
        rw [if_pos]
        · exact ⟨_, rfl⟩
        · rcases hne with hkind | hother
          · exact hkind.symm
          · exact absurd (not_not.mp hproject).symm hother

/-- The keyring that sealed opens with the same key, whatever has become of the file. -/
theorem load_loaded (h : ring.load lib file true = .ok (some key)) (file' : KeyFile) :
    (ring.loaded lib file true).load lib file' false = .ok (some key) := by
  unfold Keyring.loaded
  rw [h]
  rfl

/-! ## Two cursors -/

/-- The text of a value without doubles, in UTF-8. -/
def sampleText (v : Value) : List UInt8 :=
  (v.compact fun _ => ['0', '.', '0']).flatMap String.utf8EncodeChar

/-- Libraries that decode the text of one value. -/
def sampleLibraries (known : Value) : Libraries where
  encode := sampleText
  decode bytes := if bytes = sampleText known then some known else none
  sha256 _ := Vector.replicate 32 7

def sampleKey : Key := ⟨Vector.replicate 32 1, "0707070707070707"⟩

def sampleRing : Keyring := ⟨true, some sampleKey⟩

def sampleFile : KeyFile := ⟨.ok (some sampleKey.bytes), .ok (some sampleKey.bytes)⟩

def samplePosition : Fields :=
  [("bucket", .string "numerator"), ("kid", .string "forged"), ("next", .int 100)]

def sampleNow : Int64 := 1700000000000

def samplePayload (fields : Fields) : Value :=
  payload "analytics-drill" "sha256:ab" sampleNow (sampleNow + ttl) sampleKey.id (.object fields)

theorem sample_seal (fields : Fields) :
    sampleRing.seal (sampleLibraries (samplePayload fields)) sampleFile "analytics-drill"
      "sha256:ab" sampleNow (.object fields) =
        .ok (token (sampleLibraries (samplePayload fields)) sampleKey
          (sampleText (samplePayload fields)), sampleNow + ttl) := rfl

theorem sample_decode (fields : Fields) :
    (sampleLibraries (samplePayload fields)).decode
      ((sampleLibraries (samplePayload fields)).encode (samplePayload fields)) =
        some (samplePayload fields) := if_pos rfl

/-- The forged key id is not taken over. -/
theorem seal_opens_sample : ∃ tok opened,
    sampleRing.seal (sampleLibraries (samplePayload samplePosition)) sampleFile "analytics-drill"
      "sha256:ab" sampleNow (.object samplePosition) = .ok (tok, sampleNow + ttl) ∧
    sampleRing.openCursor (sampleLibraries (samplePayload samplePosition)) sampleFile
      "analytics-drill" "sha256:ab" (sampleNow + 900000) tok = .ok opened ∧
    opened.get "kid" = .string "0707070707070707" ∧ opened.get "next" = .int 100 := by
  have hsize : (sampleText (samplePayload samplePosition)).length ≤ maxPayload := by
    decide +kernel
  obtain ⟨-, hopens, -⟩ := seal_opens (sample_seal samplePosition) rfl
    (rfl : sampleRing.load _ sampleFile false = .ok (some sampleKey)) (sample_decode samplePosition)
  obtain ⟨opened, hopen, hsealed⟩ := (hopens hsize).1 (sampleNow + 900000) (by decide)
  exact ⟨_, opened, sample_seal samplePosition, hopen, hsealed.kid,
    hsealed.others "next" (by decide)⟩

/-! A text is at least as long as what it is made of. -/

theorem length_le_flatMap {α β : Type*} {f : α → List β} (hf : ∀ a, 0 < (f a).length) (l : List α) :
    l.length ≤ (l.flatMap f).length := by
  induction l with
  | nil => exact Nat.zero_le _
  | cons a l ih =>
    have hpos := hf a
    rw [List.flatMap_cons, List.length_append, List.length_cons]
    omega

theorem compactFields_length (double : UInt64 → List Char) {name : String} {v : Value}
    {fields : Fields} (h : (name, v) ∈ fields) :
    (v.compact double).length ≤ (Value.compactFields double fields).length := by
  induction fields with
  | nil => cases h
  | cons field fields ih =>
    obtain ⟨first, w⟩ := field
    cases fields with
    | nil =>
      obtain ⟨rfl, rfl⟩ := Prod.mk.inj (List.mem_singleton.mp h)
      rw [Value.compactFields, List.length_append, List.length_cons]
      omega
    | cons g rest =>
      rw [Value.compactFields, List.length_append, List.length_append, List.length_cons,
        List.length_cons]
      rcases List.mem_cons.mp h with hsame | h
      · obtain ⟨rfl, rfl⟩ := Prod.mk.inj hsame
        omega
      · have hrest := ih h
        omega
      · exact List.cons_ne_nil _ _

/-- A payload is at least as long as any text of the position. -/
theorem payload_length {name s : String} (hnew : name ∉ reservedNames)
    (h : fields.lookup name = some (.string s)) :
    s.toList.length ≤ (sampleText (payload kind project now exp kid (.object fields))).length := by
  have hlookup : (fields.foldl (fun p f => orInsert p f.1 f.2)
      (reserved kind project now exp kid)).lookup name = some (.string s) := by
    rw [lookup_merge, reserved_lookup hnew, Option.none_or, h]
  obtain ⟨before, after, hsplit, -⟩ := List.lookup_eq_some_iff.mp hlookup
  have hmem : (name, Value.string s) ∈ fields.foldl (fun p f => orInsert p f.1 f.2)
      (reserved kind project now exp kid) := by
    rw [hsplit]
    exact List.mem_append_right _ List.mem_cons_self
  have hescape : ∀ c, 0 < (Json.escape c).length := by
    intro c
    unfold Json.escape
    split_ifs <;> exact Nat.succ_pos _
  have hutf8 : ∀ c, 0 < (String.utf8EncodeChar c).length := by
    intro c
    rw [String.length_utf8EncodeChar]
    exact c.utf8Size_pos
  calc
    s.toList.length ≤ (s.toList.flatMap Json.escape).length := length_le_flatMap hescape _
    _ ≤ (Value.compact (fun _ => ['0', '.', '0']) (.string s)).length := by
      rw [Value.compact, Json.string, String.toList_ofList, List.length_append, List.length_cons]
      omega
    _ ≤ (Value.compactFields (fun _ => ['0', '.', '0']) _).length := compactFields_length _ hmem
    _ ≤ (Value.compact (fun _ => ['0', '.', '0'])
        (payload kind project now exp kid (.object fields))).length := by
      rw [payload, Value.compact, List.length_append, List.length_cons]
      exact (Nat.le_succ _).trans (Nat.le_add_right _ _)
    _ ≤ _ := length_le_flatMap hutf8 _

def longPosition : Fields := [("request", .string (String.ofList (List.replicate 5000 'x')))]

/-- **A long position**: the cursor is sealed, and refused as malformed at once. -/
theorem long_position_refused : ∃ tok,
    sampleRing.seal (sampleLibraries (samplePayload longPosition)) sampleFile "analytics-drill"
      "sha256:ab" sampleNow (.object longPosition) = .ok (tok, sampleNow + ttl) ∧
    sampleNow < sampleNow + ttl ∧
    sampleRing.openCursor (sampleLibraries (samplePayload longPosition)) sampleFile
      "analytics-drill" "sha256:ab" sampleNow tok = .error invalid := by
  have hsize : maxPayload < (sampleText (samplePayload longPosition)).length := by
    have hlookup : longPosition.lookup "request" =
        some (.string (String.ofList (List.replicate 5000 'x'))) := rfl
    have hlength : _ ≤ (sampleText (samplePayload longPosition)).length :=
      payload_length (by decide) hlookup
    rw [String.toList_ofList, List.length_replicate] at hlength
    have hlong : maxPayload < 5000 := by decide
    exact hlong.trans_le hlength
  exact ⟨_, sample_seal longPosition, by decide, open_long hsize⟩

end Herdr.ExportCursor
