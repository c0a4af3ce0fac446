/-!
The integers of the language: 64-bit words. Results are computed exactly and then fitted; a
result out of range is no word, so nothing ever wraps.
-/

namespace ChannelLisp.Word

def least : Int := -0x8000000000000000

def greatest : Int := 0x7fffffffffffffff

/-- The integer as a word, if it is in range. -/
def ofInt? (n : Int) : Option Int64 :=
  if least ≤ n ∧ n ≤ greatest then some (Int64.ofInt n) else none

def add? (a b : Int64) : Option Int64 := ofInt? (a.toInt + b.toInt)

def sub? (a b : Int64) : Option Int64 := ofInt? (a.toInt - b.toInt)

def mul? (a b : Int64) : Option Int64 := ofInt? (a.toInt * b.toInt)

/-- Division rounds toward zero. The divisor is not zero. -/
def div? (a b : Int64) : Option Int64 := ofInt? (a.toInt.tdiv b.toInt)

/-- The remainder that is not negative, refused when the quotient is out of range. The divisor
is not zero. -/
def mod? (a b : Int64) : Option Int64 :=
  (ofInt? (a.toInt / b.toInt)).bind fun _ => ofInt? (a.toInt % b.toInt)

theorem ofInt?_eq_some_iff {n : Int} {w : Int64} : ofInt? n = some w ↔ w.toInt = n := by
  have hlo := Int64.le_toInt w
  have hhi := Int64.toInt_lt w
  unfold ofInt? least greatest
  split
  · rename_i h
    constructor
    · intro hw
      rw [← Option.some.inj hw]
      exact Int64.toInt_ofInt_of_le (by omega) (by omega)
    · intro hw
      rw [← hw, Int64.ofInt_toInt]
  · rename_i h
    constructor
    · intro hw
      cases hw
    · intro hw
      omega

end ChannelLisp.Word
