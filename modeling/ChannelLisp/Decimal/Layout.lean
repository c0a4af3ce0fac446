import ChannelLisp.Decimal.Shortest

/-!
The text of a double: its shortest decimal, written positionally while the leading digit is
near the point and with an exponent otherwise.
-/

namespace ChannelLisp.Decimal

open ChannelLisp.Binary64

/-- Where positional notation starts and ends, by the power of ten of the leading digit, and
the texts of what has no digits. -/
structure Layout where
  least : Int
  greatest : Int
  nan : String
  infinity : String

def zeros (n : Nat) : List Char := List.replicate n '0'

/-- Digits with the point after `whole` of them; at least one digit stands on either side. -/
def pointed (ds : List Char) (whole : Int) : List Char :=
  if whole ≤ 0 then '0' :: '.' :: zeros (-whole).toNat ++ ds
  else
    let n := whole.toNat
    let front := ds.take n ++ zeros (n - ds.length)
    let back := ds.drop n
    front ++ '.' :: (if back = [] then ['0'] else back)

/-- One digit, the other digits after a point if there are any, and the exponent. -/
def withExponent (ds : List Char) (exponent : Int) : List Char :=
  let mantissa :=
    match ds with
    | d :: d' :: rest => d :: '.' :: d' :: rest
    | _ => ds
  mantissa ++ 'e' :: (toString exponent).toList

/-- A positive decimal. -/
def Layout.scientific (l : Layout) (x : Scientific) : List Char :=
  let ds := Nat.toDigits 10 x.digits
  let leading := x.exponent + ds.length - 1
  if l.least ≤ leading ∧ leading ≤ l.greatest then pointed ds (leading + 1)
  else withExponent ds leading

def sign (negative : Bool) : List Char := if negative then ['-'] else []

def Layout.text (l : Layout) (x : Float) : String :=
  match view x with
  | .nan => l.nan
  | .infinite s => String.ofList (sign s ++ l.infinity.toList)
  | .finite s 0 _ => String.ofList (sign s ++ ['0', '.', '0'])
  | .finite s m q => String.ofList (sign s ++ l.scientific (shortest m q))

end ChannelLisp.Decimal
