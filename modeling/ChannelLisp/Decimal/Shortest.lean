import ChannelLisp.Decimal.Binary64

/-!
The shortest decimal of a double. The reals that round to `m · 2 ^ q` form an interval, closed
if `m` is even; half as wide below a power of two. Of the grids `10 ^ e · ℕ`, the coarsest one
with a point in the interval is taken, and on it the point nearest to the value.
-/

namespace ChannelLisp.Decimal

open ChannelLisp.Binary64

/-- A decimal `digits · 10 ^ exponent`. -/
structure Scientific where
  digits : Nat
  exponent : Int
deriving DecidableEq, Repr

/-- The ends of the rounding interval and the value, as multiples of `2 ^ (q - 2)`. -/
structure Interval where
  lower : Nat
  value : Nat
  upper : Nat
  closed : Bool

def Interval.of (m : Nat) (q : Int) : Interval where
  lower := if m = Nat.pow 2 52 ∧ leastExponent < q then 4 * m - 1 else 4 * m - 2
  value := 4 * m
  upper := 4 * m + 2
  closed := m % 2 == 0

/-- The point of the grid `10 ^ e · ℕ` that lies in the interval and is nearest to its value;
of two that are equally near, the greater. -/
def nearest? (i : Interval) (q e : Int) : Option Nat :=
  -- all quantities are multiples of one unit, so they compare as naturals
  let two := Nat.pow 2 (q - 2).toNat * Nat.pow 10 (-e).toNat
  let ten := Nat.pow 2 (2 - q).toNat * Nat.pow 10 e.toNat
  let below := i.value * two / ten
  let above := below + 1
  let lowFits := if i.closed then i.lower * two ≤ below * ten else i.lower * two < below * ten
  let highFits := if i.closed then above * ten ≤ i.upper * two else above * ten < i.upper * two
  if lowFits ∧ highFits then
    if above * ten - i.value * two ≤ i.value * two - below * ten then some above else some below
  else if lowFits then some below
  else if highFits then some above
  else none

def search (i : Interval) (q : Int) : Nat → Int → Scientific
  | 0, e =>
    ⟨i.value * Nat.pow 2 (q - 2).toNat * Nat.pow 10 (-e).toNat
      / (Nat.pow 2 (2 - q).toNat * Nat.pow 10 e.toNat), e⟩
  | n + 1, e =>
    match nearest? i q e with
    | some d => ⟨d, e⟩
    | none => search i q n (e - 1)

/-- A power of ten above every real that rounds to `m · 2 ^ q`. -/
def topExponent (m : Nat) (q : Int) : Int :=
  (m.log2 + 2 + q) * 30103 / 100000 + 1

/-- The shortest decimal that rounds to `m · 2 ^ q`. Seventeen digits suffice for any double,
so twenty-four grids are enough. -/
def shortest (m : Nat) (q : Int) : Scientific :=
  search (.of m q) q 24 (topExponent m q)

end ChannelLisp.Decimal
