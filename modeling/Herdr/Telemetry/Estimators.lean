import Herdr.Lib.Generator

/-!
# Estimators

The generator of the percentile bootstrap and the integer square root of
`src/telemetry/analytics/estimators.rs`.
-/

namespace Herdr.Estimators

/-! ## The bootstrap generator -/

/-- SplitMix64, the declared bootstrap generator of `percentile_bootstrap.v1`. -/
structure SplitMix64 where
  state : UInt64
deriving DecidableEq, Repr

namespace SplitMix64

/-- The two xor-shift multiplies of a state, wrapping. -/
def output (z : UInt64) : UInt64 :=
  let z := (z ^^^ (z >>> 30)) * 0xbf58476d1ce4e5b9
  let z := (z ^^^ (z >>> 27)) * 0x94d049bb133111eb
  z ^^^ (z >>> 31)

def nextU64 (rng : SplitMix64) : UInt64 × SplitMix64 :=
  let rng : SplitMix64 := ⟨rng.state + 0x9e3779b97f4a7c15⟩
  (output rng.state, rng)

/-- The first number that is not drawn uniformly. -/
def limit (k : UInt64) : UInt64 := 0xffffffffffffffff - 0xffffffffffffffff % k

/-- `below`, for so many turns of its loop. -/
def below (k : UInt64) (draws : Nat) (rng : SplitMix64) : Option (UInt64 × SplitMix64) :=
  (Generator.reject nextU64 (fun x => x < limit k) draws rng).map fun p => (p.1 % k, p.2)

end SplitMix64

/-! ## Integer square root -/

/-- An addition of `u128` values, which must not overflow. -/
def add128 (a b : Nat) : Option Nat := if a + b < 2 ^ 128 then some (a + b) else none

/-- A division, which must not be by zero. -/
def div128 (a b : Nat) : Option Nat := if b = 0 then none else some (a / b)

/-- `while y < x { x = y; y = (x + n / x) / 2; } x`. -/
def isqrtLoop (n x y : Nat) : Option Nat :=
  if y < x then do
    let quotient ← div128 n y
    let sum ← add128 y quotient
    isqrtLoop n y (sum / 2)
  else some x
termination_by x

/-- `n.div_ceil(2)`. -/
def divCeil2 (n : Nat) : Nat := if 0 < n % 2 then n / 2 + 1 else n / 2

/-- Integer square root `floor(√n)` by Newton's method on integers. -/
def isqrt (n : Nat) : Option Nat := if n < 2 then some n else isqrtLoop n n (divCeil2 n)

end Herdr.Estimators
