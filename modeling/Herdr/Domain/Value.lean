import Mathlib.Data.String.Basic
import Herdr.Domain.Text

/-!
# JSON values

`serde_json::Value`. The fields of an object stand in the order of their keys.
-/

namespace Herdr

inductive Value where
  | null
  | bool (b : Bool)
  | int (n : Int)
  /-- A finite double, as its bits. -/
  | float (bits : UInt64)
  | string (s : String)
  | array (items : List Value)
  | object (fields : List (String × Value))

namespace Value

/-- `value[name]`: null for an absent field and for a value that is no object. -/
def get (v : Value) (name : String) : Value :=
  match v with
  | object fields => (fields.lookup name).getD null
  | _ => null

def asStr : Value → Option String
  | string s => some s
  | _ => none

def asI64 : Value → Option Int
  | int n => if -2 ^ 63 ≤ n ∧ n < 2 ^ 63 then some n else none
  | _ => none

/-- The items of an array, none for another value. -/
def items : Value → List Value
  | array items => items
  | _ => []

mutual

/-- The compact text of a value, with the texts of the doubles. -/
def compact (double : UInt64 → List Char) : Value → List Char
  | null => ['n', 'u', 'l', 'l']
  | bool b => (toString b).toList
  | int n => (toString n).toList
  | float bits => double bits
  | string s => (Json.string s).toList
  | array items => '[' :: compactItems double items ++ [']']
  | object fields => '\x7b' :: compactFields double fields ++ ['\x7d']

def compactItems (double : UInt64 → List Char) : List Value → List Char
  | [] => []
  | [v] => compact double v
  | v :: items => compact double v ++ ',' :: compactItems double items

def compactFields (double : UInt64 → List Char) : List (String × Value) → List Char
  | [] => []
  | [(name, v)] => (Json.string name).toList ++ ':' :: compact double v
  | (name, v) :: fields =>
    (Json.string name).toList ++ ':' :: compact double v ++ ',' :: compactFields double fields

end

end Value

end Herdr
