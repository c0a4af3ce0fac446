/-!
The exact value of a double. A finite double is `± m · 2 ^ q` with `m < 2 ^ 53` and
`-1074 ≤ q`; `Binary64.view` reads `m` and `q` off the bits and `Binary64.ofParts` writes them
back. On that view the remainder of a division is a remainder of naturals.
-/

namespace ChannelLisp.Binary64

inductive View where
  | nan
  | infinite (negative : Bool)
  /-- The value `m · 2 ^ q`, negated if `negative`. -/
  | finite (negative : Bool) (m : Nat) (q : Int)

def leastExponent : Int := -1074

/-- The view of a 64-bit pattern: sign, eleven bits of exponent, 52 bits of fraction. -/
def viewBits (w : Nat) : View :=
  let negative := decide (Nat.pow 2 63 ≤ w)
  let biased : Nat := w / Nat.pow 2 52 % Nat.pow 2 11
  let fraction := w % Nat.pow 2 52
  if biased = 2047 then
    if fraction = 0 then .infinite negative else .nan
  else if biased = 0 then .finite negative fraction leastExponent
  else .finite negative (Nat.pow 2 52 + fraction) ((biased : Int) - 1075)

def view (x : Float) : View := viewBits x.toBits.toNat

/-- The bits of `m · 2 ^ q`, for `m < 2 ^ 53` and an exponent in the range of doubles. -/
def magnitudeBits (m : Nat) (q : Int) : Nat :=
  if m = 0 then 0
  else
    let shift := min (52 - m.log2) (q - leastExponent).toNat
    let m' := m * Nat.pow 2 shift
    let one := Nat.pow 2 52
    if m' < one then m' else (q - shift + 1075).toNat * one + (m' - one)

def ofParts (negative : Bool) (m : Nat) (q : Int) : Float :=
  Float.ofBits (UInt64.ofNat ((if negative then Nat.pow 2 63 else 0) + magnitudeBits m q))

def nan : Float := 0.0 / 0.0

/-- The remainder of the division of `x` by `y` rounded toward zero. It is exact and has the
sign of `x`. -/
def truncRem (x y : Float) : Float :=
  match view x, view y with
  | .finite s m q, .finite _ m' q' =>
    if m' = 0 then nan
    else
      let e := min q q'
      ofParts s (m * Nat.pow 2 (q - e).toNat % (m' * Nat.pow 2 (q' - e).toNat)) e
  | .finite _ _ _, .infinite _ => x
  | _, _ => nan

/-- The remainder that is not negative, up to the rounding of one addition. -/
def euclidRem (x y : Float) : Float :=
  let r := truncRem x y
  if r < 0.0 then r + y.abs else r

end ChannelLisp.Binary64
