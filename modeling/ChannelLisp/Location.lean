/-!
Source locations: the label a text was submitted under, and a line.
-/

namespace ChannelLisp

structure Location where
  file : String
  /-- Lines count from one. -/
  line : Nat
deriving DecidableEq, Repr

def Location.text (l : Location) : String := l.file ++ ":" ++ toString l.line

/-- The location moved `n` lines down. -/
def Location.shift (l : Location) (n : Nat) : Location := { l with line := l.line + n }

end ChannelLisp
