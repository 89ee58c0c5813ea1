import Mathlib.Data.List.Destutter
import Mathlib.Data.List.Sort
import Mathlib.Data.Nat.Log
import Mathlib.Data.Prod.Lex
import Mathlib.Data.String.Basic
import Herdr.Domain.Text
import Herdr.Lib.Decimal
import Herdr.Lib.Extremes
import Herdr.Lib.Table

/-!
# Prices

`src/telemetry/accounting/cost.rs`: amounts as exact decimals over `i128`, the rate cards that
are imported, the price of one entry of the ledger and the sums over priced entries. An unchecked
`i128` operation that leaves its range is the fault `overflow`.
-/

namespace Herdr.Cost

open Decimal (padStart point splitPoint trim)

/-! ## Decimals -/

inductive Fault where
  | refused (message : String)
  /-- An operation that the source does not check left the range of `i128`. -/
  | overflow
deriving DecidableEq, Repr

def Fault.context (message : String) : Fault → Fault
  | .refused reason => .refused (message ++ ": " ++ reason)
  | .overflow => .overflow

def ensure (p : Prop) [Decidable p] (message : String) : Except Fault Unit :=
  if p then .ok () else .error (.refused message)

/-- `-2^127 ≤ n < 2^127`, by the absolute values. -/
def inI128 (n : Int) : Bool := n.toNat < 2 ^ 127 && (-n).toNat ≤ 2 ^ 127

/-- The result of an operation that is not checked. -/
def i128 (n : Int) : Except Fault Int := if inI128 n then .ok n else .error .overflow

/-- The result of a checked operation. -/
def checked (n : Int) : Option Int := if inI128 n then some n else none

abbrev Dec := Decimal

namespace Dec

def zero : Dec := ⟨0, 0⟩

/-- The debug text of a string, without escapes. -/
def quoted (text : String) : String := "\"" ++ text ++ "\""

/-- The bytes of a text. -/
def byteLen (text : List Char) : Nat := (text.map Char.utf8Size).sum

/-- `Dec::parse`; 36 digits fit an `i128`. -/
def parse (text : String) : Except Fault Dec := do
  let (whole, rest) := splitPoint text.toList
  let fraction := rest.getD []
  ensure (whole ≠ [] ∧ (whole ++ fraction).all Char.isDigit = true ∧
      (rest.isSome = true → fraction ≠ []) ∧ byteLen whole + byteLen fraction ≤ 36)
    (quoted text ++ " is not a plain non-negative decimal")
  pure (trim (Nat.ofDigitChars 10 (whole ++ fraction) 0) fraction.length)

/-- `Dec::rate`. -/
def rate (text : String) : Except Fault Dec := do
  let (whole, rest) := splitPoint text.toList
  let fraction := rest.getD []
  ensure (byteLen fraction ≤ 12 ∧ byteLen whole + byteLen fraction ≤ 18)
    ("rate " ++ quoted text ++ " has more than 18 digits or 12 decimal places")
  (parse text).mapError (Fault.context ("rate " ++ quoted text))

/-- `Dec::at`. -/
def atScale (d : Dec) (scale : Nat) : Except Fault Int := do
  let power ← i128 (10 ^ (scale - d.scale))
  i128 (d.mantissa * power)

/-- The mantissa at a larger scale, checked. -/
def widen (d : Dec) (scale : Nat) : Option Int := do
  let power ← checked (10 ^ (scale - d.scale))
  checked (d.mantissa * power)

/-- The mantissa of a sum at the larger of two scales. -/
def sumMantissa (a b : Dec) : Option Int := do
  let x ← a.widen (max a.scale b.scale)
  let y ← b.widen (max a.scale b.scale)
  checked (x + y)

/-- `Dec::add`. -/
def add (a b : Dec) : Except Fault Dec :=
  match a.sumMantissa b with
  | some m => .ok (trim m (max a.scale b.scale))
  | none => .error (.refused "amount overflows exact arithmetic")

/-- `Dec::times`. -/
def times (d : Dec) (tokens : Int) (places : Nat) : Except Fault Dec := do
  let m ← i128 (d.mantissa * tokens)
  pure (trim m (d.scale + places))

/-- `Dec::rounded` of an amount that is not negative. -/
def roundedPlain (d : Dec) (places : Nat) : Except Fault String := do
  let value ← if d.scale ≤ places then d.atScale places
    else do
      let divisor ← i128 (10 ^ (d.scale - places))
      let sum ← i128 (d.mantissa + divisor / 2)
      pure (sum / divisor)
  pure (String.ofList (point (padStart (places + 1) (Nat.toDigits 10 value.toNat)) places))

/-- `Dec::rounded`. -/
def rounded (d : Dec) (places : Nat) : Except Fault String :=
  if d.mantissa < 0 then do
    let m ← i128 (-d.mantissa)
    let text ← roundedPlain ⟨m, d.scale⟩ places
    pure ("-" ++ text)
  else d.roundedPlain places

/-- `Display`. -/
def text (d : Dec) : Except Fault String := d.rounded d.scale

end Dec

/-- `TEXT_PLACES`. -/
def textPlaces : Nat := 6

/-! ## Rate cards -/

/-- `CATEGORIES`. -/
def categories : List String := ["input", "cache_read", "cache_write", "output"]

structure Includes where
  discounts : Bool
  taxes : Bool
  fees : Bool
deriving DecidableEq, Repr

structure RateFile where
  category : String
  cacheTier : String
  rate : String
deriving DecidableEq, Repr

structure CardFile where
  cardId : String
  version : Int
  provider : String
  product : String
  models : List String
  currency : String
  rateUnit : Int
  effectiveFromUnixMs : Int
  effectiveToUnixMs : Option Int
  includes : Includes
  source : String
  rates : List RateFile
deriving DecidableEq, Repr

/-- `name`: 1-128 printable ASCII characters without spaces. -/
def nameOk (s : String) : Bool :=
  s ≠ "" && s.utf8ByteSize ≤ 128 && s.toList.all fun c => '!' ≤ c && c ≤ '~'

def RateFile.key (r : RateFile) : String × String := (r.category, r.cacheTier)

/-- The derived order of rates. -/
def RateFile.le (a b : RateFile) : Prop :=
  toLex (a.category, toLex (a.cacheTier, a.rate)) ≤ toLex (b.category, toLex (b.cacheTier, b.rate))

instance : DecidableRel RateFile.le := fun a b =>
  inferInstanceAs (Decidable (toLex (a.category, toLex (a.cacheTier, a.rate)) ≤
    toLex (b.category, toLex (b.cacheTier, b.rate))))

/-- One rate of a card, checked and in canonical form. -/
def RateFile.canonical (r : RateFile) : Except Fault RateFile := do
  ensure (r.category ∈ categories) ("rate category " ++ Dec.quoted r.category ++
    " is not one of [\"input\", \"cache_read\", \"cache_write\", \"output\"]")
  ensure (r.cacheTier = "" ∨ nameOk r.cacheTier = true)
    "cache_tier must be printable ASCII without spaces"
  let d ← Dec.rate r.rate
  let text ← d.text
  pure { r with rate := text }

/-- `canonical`. -/
def canonical (card : CardFile) : Except Fault CardFile := do
  ensure (nameOk card.cardId = true)
    "card_id must be 1-128 printable ASCII characters without spaces"
  ensure (0 < card.version) "version must be positive"
  ensure (nameOk card.provider = true ∧ nameOk card.product = true)
    "provider and product must be 1-128 printable ASCII characters without spaces"
  ensure (trimEmpty card.source = false ∧ card.source.utf8ByteSize ≤ 512)
    "source must be 1-512 characters"
  ensure (card.currency.utf8ByteSize = 3 ∧
      (card.currency.toList.all fun c => 'A' ≤ c && c ≤ 'Z') = true)
    "currency must be an ISO 4217 code such as USD"
  ensure (∃ k ∈ List.range 10, (10 : Int) ^ k = card.rateUnit)
    "rate_unit must be a power of ten from 1 to 1000000000"
  ensure ((card.effectiveToUnixMs.all fun t => card.effectiveFromUnixMs < t) = true)
    "effective_to_unix_ms must be after effective_from_unix_ms"
  let models := (card.models.insertionSort (· ≤ ·)).destutter (· ≠ ·)
  ensure (models ≠ [] ∧ models.all nameOk = true) "models must list at least one model name"
  ensure (card.rates ≠ []) "rates must not be empty"
  let rates ← card.rates.mapM RateFile.canonical
  let rates := rates.insertionSort RateFile.le
  let distinct := rates.destutter fun a b => a.key ≠ b.key
  ensure (distinct.length = rates.length) "a category and cache tier may have only one rate"
  pure { card with
    models := models
    rates := distinct }

/-- A card version as a reprice reads it back. -/
structure Card where
  id : String
  version : Int
  provider : String
  currency : String
  places : Nat
  effectiveFrom : Int
  effectiveTo : Option Int
  /-- A category, a cache tier and its rate. -/
  rates : List (String × String × Dec)
deriving DecidableEq, Repr

/-- The product and the models of a card, and the card. -/
abbrev Listed := String × List String × Card

def RateFile.load (r : RateFile) : Except Fault (String × String × Dec) := do
  let d ← Dec.rate r.rate
  pure (r.category, r.cacheTier, d)

/-- `cards`, for one imported card. -/
def CardFile.load (c : CardFile) : Except Fault Listed := do
  let rates ← c.rates.mapM RateFile.load
  pure (c.product, c.models, {
    id := c.cardId
    version := c.version
    provider := c.provider
    currency := c.currency
    places := Nat.log 10 c.rateUnit.toNat
    effectiveFrom := c.effectiveFromUnixMs
    effectiveTo := c.effectiveToUnixMs
    rates := rates })

/-! ## Prices -/

/-- `[new_input, cache_read, cache_write, output]`. -/
abbrev Quantities := Int × Int × Int × Int

/-- The categories of an entry with their tokens. -/
def billed (q : Quantities) : List (String × Int) :=
  [("input", q.1), ("cache_read", q.2.1), ("cache_write", q.2.2.1), ("output", q.2.2.2)]

/-- The rates of a category, by cache tier. -/
def Card.ratesOf (card : Card) (category : String) : List Dec :=
  (card.rates.filter fun r => r.1 = category).map (·.2.2)

def missingRate (category : String) : String :=
  if category = "input" then "input_rate_missing"
  else if category = "cache_read" then "cache_read_rate_missing"
  else if category = "cache_write" then "cache_write_convention_unknown"
  else "output_rate_missing"

/-- The total so far, and the amount of each category. -/
abbrev Amounts := Dec × List (String × String)

/-- The loop of `price` over the categories. -/
def Card.bill (card : Card) : List (String × Int) → Amounts → Except Fault Amounts
  | [], amounts => .ok amounts
  | (category, tokens) :: rest, (total, components) =>
    if tokens = 0 then card.bill rest (total, components)
    else match card.ratesOf category with
      | [] => .error (.refused (missingRate category))
      | [rate] => do
        let amount ← rate.times tokens card.places
        let total ← (total.add amount).mapError fun _ => .refused "amount_overflow"
        let text ← amount.text
        card.bill rest (total, components ++ [(category, text)])
      | _ => .error (.refused "cache_tier_unknown")

/-- The cards of a product and model that overlap a usage interval. -/
def overlapping (cards : List Listed) (product model : String) (usage : Int × Int) : List Card :=
  (cards.filter fun c => c.1 = product && c.2.1.contains model &&
    c.2.2.effectiveFrom ≤ usage.2 && c.2.2.effectiveTo.all fun t => usage.1 < t).map (·.2.2)

/-- A reported provider keeps the cards of that provider alone. -/
def ofProvider (provider : Option String) (found : List Card) : List Card :=
  provider.elim found fun p => found.filter fun c => c.provider = p

/-- `price`. -/
def price (cards : List Listed) (product model : String) (provider : Option String)
    (usage : Int × Int) (q : Quantities) : Except Fault (Card × Amounts) := do
  let found := overlapping cards product model usage
  let kept := ofProvider provider found
  ensure (found ≠ [] → kept ≠ []) "provider_mismatch"
  match maxBy (fun a b => cmp a.version b.version) kept with
  | none => .error (.refused "no_rate_card")
  | some card =>
    ensure (¬kept.any fun c => c.id ≠ card.id) "ambiguous_rate_cards"
    ensure (card.effectiveFrom ≤ usage.1 ∧ card.effectiveTo.all fun t => usage.2 < t)
      "rate_change_within_usage_interval"
    let amounts ← card.bill (billed q) (Dec.zero, [])
    pure (card, amounts)

/-! ## Sums -/

/-- What `summarize` reads of a valuation. -/
structure Valued where
  priced : Bool
  currency : Option String
  amount : Option String
  reason : Option String
deriving DecidableEq, Repr

/-- The sums by currency, and how many entries are unpriced for each reason. -/
structure Sums where
  byCurrency : Table (String × Dec) Prod.fst
  unpriced : Table (String × Nat) Prod.fst

def required {α : Type} (o : Option α) (message : String) : Except Fault α :=
  o.elim (.error (.refused message)) .ok

/-- One turn of the loop of `summarize`. -/
def Sums.take (s : Sums) (v : Valued) : Except Fault Sums :=
  if v.priced then do
    let text ← required v.amount "priced valuation without amount"
    let amount ← Dec.parse text
    let currency ← required v.currency "priced valuation without currency"
    let sum ← (((s.byCurrency.find currency).map Prod.snd).getD Dec.zero).add amount
    pure { s with byCurrency := s.byCurrency.upsert (currency, sum) }
  else
    let reason := v.reason.getD ""
    .ok { s with unpriced :=
      s.unpriced.upsert (reason, ((s.unpriced.find reason).map Prod.snd).getD 0 + 1) }

inductive Estimate where
  | unavailable (reason : String)
  | complete (currency amount : String)
  /-- A priced subset. -/
  | subset (currency pricedAmount : String)
  | mixedCurrency (pricedByCurrency : List (String × String))
deriving DecidableEq, Repr

/-- The sums as text. -/
def Sums.texts (s : Sums) : Except Fault (List (String × String)) :=
  s.byCurrency.rows.mapM fun sum => do
    let text ← sum.2.text
    pure (sum.1, text)

/-- `summarize`: the estimate, and how many entries are priced. -/
def summarize (entries : List Valued) : Except Fault (Estimate × Nat) := do
  let sums ← entries.foldlM Sums.take ⟨.empty, .empty⟩
  let priced := entries.length - (sums.unpriced.rows.map Prod.snd).sum
  let texts ← sums.texts
  pure (match texts with
    | [] => .unavailable "no_priced_entries"
    | [(currency, amount)] =>
      if priced = entries.length then .complete currency amount else .subset currency amount
    | texts => .mixedCurrency texts, priced)

end Herdr.Cost
