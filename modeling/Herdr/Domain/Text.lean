import Mathlib.Algebra.Order.Ring.Int

/-!
# Texts

The character classes and bounds that the store's input checks use, on the characters and the
UTF-8 length of a string, and the JSON texts of `serde_json` for the records whose text is
compared.
-/

namespace Herdr

/-- `char::is_control`: the Unicode category `Cc`. -/
def isControl (c : Char) : Bool := c.val ≤ 0x1f || (0x7f ≤ c.val && c.val ≤ 0x9f)

/-- `char::is_whitespace`: the Unicode property `White_Space`. -/
def isWhitespace (c : Char) : Bool :=
  (0x9 ≤ c.val && c.val ≤ 0xd) || c.val = 0x20 || c.val = 0x85 || c.val = 0xa0 || c.val = 0x1680 ||
    (0x2000 ≤ c.val && c.val ≤ 0x200a) || c.val = 0x2028 || c.val = 0x2029 || c.val = 0x202f ||
    c.val = 0x205f || c.val = 0x3000

/-- `value.trim().is_empty()`. -/
def trimEmpty (value : String) : Bool := value.toList.all isWhitespace

/-- `value.chars().any(char::is_control)`. -/
def hasControl (value : String) : Bool := value.toList.any isControl

/-- The characters of a lowercase hexadecimal digest. -/
def lowerHex (c : Char) : Bool := ('0' ≤ c && c ≤ '9') || ('a' ≤ c && c ≤ 'f')

def asciiHex (c : Char) : Bool := lowerHex c || ('A' ≤ c && c ≤ 'F')

def asciiAlphanumeric (c : Char) : Bool :=
  ('0' ≤ c && c ≤ '9') || ('a' ≤ c && c ≤ 'z') || ('A' ≤ c && c ≤ 'Z')

/-- 64 lowercase hexadecimal digits. -/
def digest64 (value : String) : Bool := value.utf8ByteSize = 64 && value.toList.all lowerHex

/-- `Path::is_absolute` on Unix. -/
def isAbsolute (path : String) : Bool := path.toList.head? = some '/'

namespace Json

private def hexDigit (n : Nat) : Char :=
  if n < 10 then Char.ofNat (48 + n) else Char.ofNat (87 + n)

/-- The escapes of `serde_json`: the short ones, and `\u00xx` for the other control characters
below a blank. -/
def escape (c : Char) : List Char :=
  if c = '"' then ['\\', '"']
  else if c = '\\' then ['\\', '\\']
  else if c.toNat = 8 then ['\\', 'b']
  else if c.toNat = 9 then ['\\', 't']
  else if c.toNat = 10 then ['\\', 'n']
  else if c.toNat = 12 then ['\\', 'f']
  else if c.toNat = 13 then ['\\', 'r']
  else if c.toNat < 32 then
    ['\\', 'u', '0', '0', hexDigit (c.toNat / 16), hexDigit (c.toNat % 16)]
  else [c]

def string (value : String) : String :=
  String.ofList ('"' :: value.toList.flatMap escape ++ ['"'])

/-- An object with its fields in the order of the record's declaration. -/
def object (fields : List (String × String)) : String :=
  "\x7b" ++ ",".intercalate (fields.map fun f => string f.1 ++ ":" ++ f.2) ++ "\x7d"

def array (items : List String) : String := "[" ++ ",".intercalate items ++ "]"

/-- A field that `skip_serializing_if = "Option::is_none"` leaves out. -/
def optional (name : String) : Option String → List (String × String)
  | some value => [(name, value)]
  | none => []

end Json

end Herdr
