import ChannelLisp.Decimal.Layout
import ChannelLisp.Node
import ChannelLisp.Text.Quoted

/-!
The texts of a node: `display`, which the reader reads back when no live object is inside;
`raw`, which prints a string without its quote marks; and `debug`, which names the type.
-/

namespace ChannelLisp

/-- Floats are positional from `10 ^ (-4)` up to `10 ^ 16`. -/
def Literal.floatLayout : Decimal.Layout := ⟨-4, 15, "NaN", "inf"⟩

def Literal.display : Literal → String
  | .nil => "nil"
  | .bool true => "true"
  | .bool false => "false"
  | .int n => toString n.toInt
  | .float x => floatLayout.text x
  | .str s => Text.quoted s

def tagged (what name : String) : String := "#" ++ what ++ "<" ++ name ++ ">"

mutual

def Node.display : Node → String
  | .literal v _ => v.display
  | .symbol name _ => name
  | .call items _ => "(" ++ displayAll items ++ ")"
  | .scope _ name => tagged "environment" name
  | .primitive p => tagged "primitive" p.name
  | .function c => tagged "function" c.title
  | .transformer c => tagged "macro" c.title
  | .chan id => tagged "chan" (toString id)

/-- The texts of nodes with single spaces between them. -/
def displayAll : List Node → String
  | [] => ""
  | [n] => n.display
  | n :: n' :: ns => n.display ++ " " ++ displayAll (n' :: ns)

end

def Node.raw : Node → String
  | .literal (.str s) _ => s
  | n => n.display

def Node.debug (n : Node) : String :=
  if n.isLive then n.display else n.kind.name ++ "(" ++ n.display ++ ")"

end ChannelLisp
