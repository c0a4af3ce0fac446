import ChannelLisp.Word

/-!
Numerals. An atom that starts like a number must be one: an integer in the range of 64 bits,
or else a decimal with an optional fraction and an optional exponent.
-/

namespace ChannelLisp.Numeral

/-- The text starts with a digit, or with a sign or a point and then a digit. -/
def looksNumeric : List Char → Bool
  | '+' :: d :: _ | '-' :: d :: _ | '.' :: d :: _ => d.isDigit
  | c :: _ => c.isDigit
  | [] => false

def value (ds : List Char) : Nat :=
  ds.foldl (fun n d => 10 * n + (d.toNat - '0'.toNat)) 0

def signed : List Char → Bool × List Char
  | '-' :: cs => (true, cs)
  | '+' :: cs => (false, cs)
  | cs => (false, cs)

/-- One digit or more and nothing else. -/
def digits? (cs : List Char) : Option Nat :=
  if cs ≠ [] ∧ cs.all Char.isDigit then some (value cs) else none

def signedDigits? (cs : List Char) : Option Int :=
  let (negative, ds) := signed cs
  (digits? ds).map fun n => if negative then -(n : Int) else n

def int? (cs : List Char) : Option Int64 := (signedDigits? cs).bind Word.ofInt?

/-- A power of ten beyond which every decimal is infinite or zero as a double. -/
def exponentBound : Int := 400

/-- The double nearest to `m · 10 ^ e`. -/
def scale (m : Nat) (e : Int) : Float :=
  let leading := e + (Nat.toDigits 10 m).length
  if m = 0 ∨ leading < -exponentBound then 0.0
  else if exponentBound < leading then 1.0 / 0.0
  else Float.ofScientific m (e < 0) e.natAbs

/-- The part of a decimal after its digits: nothing, or the mark of an exponent and the
exponent. -/
def exponent? : List Char → Option Int
  | [] => some 0
  | 'e' :: cs | 'E' :: cs => signedDigits? cs
  | _ => none

def magnitude? (cs : List Char) : Option Float :=
  let whole := cs.takeWhile Char.isDigit
  let (fraction, rest) :=
    match cs.dropWhile Char.isDigit with
    | '.' :: rest => (rest.takeWhile Char.isDigit, rest.dropWhile Char.isDigit)
    | rest => ([], rest)
  if whole ++ fraction = [] then none
  else (exponent? rest).map fun e => scale (value (whole ++ fraction)) (e - fraction.length)

def float? (cs : List Char) : Option Float :=
  let (negative, rest) := signed cs
  (magnitude? rest).map fun x => if negative then -x else x

end ChannelLisp.Numeral
