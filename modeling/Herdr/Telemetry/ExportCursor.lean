import Herdr.Domain.Value
import Herdr.Lib.Hex

/-!
# Page cursors

`telemetry/export/cursor.rs`: a cursor is `c2.<hex payload>.<hex mac>`. A token is the list of its
bytes.
-/

namespace Herdr.ExportCursor

/-- `TTL_MS`. -/
def ttl : Int64 := 30 * 60 * 1000

/-- `MAX_PAYLOAD`. -/
def maxPayload : Nat := 4096

/-- What comes from libraries: the compact JSON text of a value, the value of a JSON text, and
SHA-256. -/
structure Libraries where
  encode : Value → List UInt8
  decode : List UInt8 → Option Value
  sha256 : List UInt8 → Vector UInt8 32

variable (lib : Libraries)

/-! ## Keys -/

/-- `hmac`. -/
def hmac (key : Vector UInt8 32) (msg : List UInt8) : Vector UInt8 32 :=
  let block := key.toList ++ List.replicate 32 0
  let ipad := block.map (· ^^^ 0x36)
  let opad := block.map (· ^^^ 0x5c)
  lib.sha256 (opad ++ (lib.sha256 (ipad ++ msg)).toList)

/-- `equal`. -/
def equal (a b : List UInt8) : Bool :=
  a.length = b.length && (a.zip b).foldl (fun acc (x, y) => acc ||| (x ^^^ y)) 0 = 0

/-- The key with its id. -/
structure Key where
  bytes : Vector UInt8 32
  id : String

/-- The key of some bytes: its id is the beginning of their digest. -/
def keyOf (bytes : Vector UInt8 32) : Key :=
  let digest := lib.sha256 ("herdr-projects/cursor-key:".toUTF8.toList ++ bytes.toList)
  ⟨bytes, String.ofList (((Hex.encode digest.toList).take 16).map fun b => Char.ofNat b.toNat)⟩

/-- What reading the key file gives, before and after its creation. -/
structure KeyFile where
  read : Except String (Option (Vector UInt8 32))
  create : Except String (Option (Vector UInt8 32))

/-- The keyring: whether there is a directory for the file, and the key once it is loaded. -/
structure Keyring where
  dir : Bool
  key : Option Key

/-- `Keyring::key`. -/
def Keyring.load (ring : Keyring) (file : KeyFile) (create : Bool) : Except String (Option Key) :=
  match ring.key with
  | some key => .ok (some key)
  | none =>
    if ring.dir then
      match file.read with
      | .error error => .error error
      | .ok (some bytes) => .ok (some (keyOf lib bytes))
      | .ok none =>
        if create then
          match file.create with
          | .error error => .error error
          | .ok (some bytes) => .ok (some (keyOf lib bytes))
          | .ok none => .error "cursor key vanished after creation"
        else .ok none
    else if create then .error "cursor key unavailable: HOME is not set"
    else .ok none

/-- The keyring keeps the key that it has loaded. -/
def Keyring.loaded (ring : Keyring) (file : KeyFile) (create : Bool) : Keyring :=
  match ring.load lib file create with
  | .ok (some key) => { ring with key := some key }
  | _ => ring

/-! ## Payloads -/

abbrev Fields := List (String × Value)

/-- A new field at its place in the order of the keys. -/
def insert (name : String) (v : Value) : Fields → Fields
  | [] => [(name, v)]
  | field :: fields =>
    if name < field.1 then (name, v) :: field :: fields else field :: insert name v fields

/-- `entry(name).or_insert(v)`. -/
def orInsert (fields : Fields) (name : String) (v : Value) : Fields :=
  if (fields.lookup name).isSome then fields else insert name v fields

/-- The fields that a position cannot set. -/
def reserved (kind project : String) (now exp : Int64) (kid : String) : Fields :=
  [("exp", .int exp.toInt), ("iat", .int now.toInt), ("kid", .string kid), ("kind", .string kind),
    ("project", .string project), ("v", .int 2)]

/-- The reserved fields, and those of the position that are not reserved. -/
def payload (kind project : String) (now exp : Int64) (kid : String) (position : Value) : Value :=
  .object (match position with
    | .object fields => fields.foldl (fun p f => orInsert p f.1 f.2)
        (reserved kind project now exp kid)
    | _ => reserved kind project now exp kid)

/-- The text of a cursor. -/
def token (key : Key) (text : List UInt8) : List UInt8 :=
  [99, 50] ++ 46 :: (Hex.encode text ++ 46 :: Hex.encode (hmac lib key.bytes text).toList)

/-- `Keyring::seal`. -/
def Keyring.seal (ring : Keyring) (file : KeyFile) (kind project : String) (now : Int64)
    (position : Value) : Except String (List UInt8 × Int64) :=
  match ring.load lib file true with
  | .error error => .error error
  | .ok none => .error "cursor key unavailable"
  | .ok (some key) =>
    let exp := now + ttl
    .ok (token lib key (lib.encode (payload kind project now exp key.id position)), exp)

/-! ## Opening -/

/-- A refusal: its code and its detail. -/
structure Refusal where
  code : String
  detail : Value

def invalid : Refusal := ⟨"invalid_cursor", .object []⟩

def revoked : Refusal :=
  ⟨"cursor_revoked", .object [("detail",
    .string "the cursor key was rotated or removed; start again without --cursor")]⟩

def unusable (error : String) : Refusal :=
  ⟨"cursor_key_unusable", .object [("detail", .string error)]⟩

def expired (exp : Int) : Refusal :=
  ⟨"cursor_expired", .object [("detail", .string "start again without --cursor"),
    ("expired_unix_ms", .int exp)]⟩

def foreign : Refusal :=
  ⟨"cursor_foreign_project", .object [("detail",
    .string "a cursor is valid only for the project that issued it")]⟩

/-- The checks of an authentic payload. -/
def checked (key : Key) (kind project : String) (now : Int64) (opened : Value) :
    Except Refusal Value :=
  if (opened.get "kid").asStr ≠ some key.id then .error revoked
  else match (opened.get "exp").asI64 with
    | none => .error invalid
    | some exp =>
      if exp ≤ now.toInt then .error (expired exp)
      else if (opened.get "project").asStr ≠ some project then .error foreign
      else if (opened.get "v").asI64 ≠ some 2 ∨ (opened.get "kind").asStr ≠ some kind then
        .error invalid
      else .ok opened

/-- `Keyring::open`. -/
def Keyring.openCursor (ring : Keyring) (file : KeyFile) (kind project : String) (now : Int64)
    (token : List UInt8) : Except Refusal Value :=
  match token.splitOn 46 with
  | [start, body, mac] =>
    if start ≠ [99, 50] ∨ 2 * maxPayload < body.length ∨ mac.length ≠ 64 then .error invalid
    else match Hex.decode body, Hex.decode mac with
      | some bytes, some mac =>
        match ring.load lib file false with
        | .error error => .error (unusable error)
        | .ok none => .error revoked
        | .ok (some key) =>
          if equal (hmac lib key.bytes bytes).toList mac then
            match lib.decode bytes with
            | none => .error invalid
            | some opened => checked key kind project now opened
          -- an authentic key id is not needed to tell that the key was rotated
          else if (lib.decode bytes).any fun p => (p.get "kid").asStr.any (· ≠ key.id) then
            .error revoked
          else .error invalid
      | _, _ => .error invalid
  | _ => .error invalid

end Herdr.ExportCursor
