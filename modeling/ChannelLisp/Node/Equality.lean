import ChannelLisp.Error

/-!
Equality of nodes, position by position from the left. Locations do not count, and an integer
equals the float of its value. Where a live object is met before any difference, the
comparison is refused and the error shows the two nodes there.
-/

namespace ChannelLisp

def Literal.eq : Literal → Literal → Bool
  | .nil, .nil => true
  | .bool a, .bool b => a == b
  | .int a, .int b => a == b
  | .float x, .float y => x == y
  | .int a, .float y => Float.ofInt a.toInt == y
  | .float x, .int b => Float.ofInt b.toInt == x
  | .str s, .str t => s == t
  | _, _ => false

/-- The refusal to compare two nodes of which one is live. The left one is blamed first, and
the place is that of the right one if it has any. -/
def Node.refuse? (a b : Node) : Option EvalError :=
  let error (live : Node) : EvalError := ⟨.incomparable live.kind a b, b.loc?.or a.loc?⟩
  if a.isLive then some (error a)
  else if b.isLive then some (error b)
  else none

mutual

def Node.equals (a b : Node) : Except EvalError Bool :=
  match Node.refuse? a b with
  | some e => .error e
  | none =>
    match a, b with
    | .literal x _, .literal y _ => .ok (x.eq y)
    | .symbol s _, .symbol t _ => .ok (s == t)
    | .call xs _, .call ys _ => if xs.length = ys.length then equalsAll xs ys else .ok false
    | _, _ => .ok false

/-- Compares lists of one length, up to the first difference. -/
def equalsAll : List Node → List Node → Except EvalError Bool
  | a :: as, b :: bs =>
    match Node.equals a b with
    | .ok true => equalsAll as bs
    | r => r
  | _, _ => .ok true

end

end ChannelLisp
