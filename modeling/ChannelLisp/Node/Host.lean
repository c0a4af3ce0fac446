import ChannelLisp.Node.Display

/-! What nodes show to a host, and the nodes that a host makes. -/

namespace ChannelLisp

mutual

def Node.shown : Node → HostForm
  | .literal v _ => .literal v
  | .symbol x _ => .symbol x
  | .call items _ => .call (shownAll items)
  | .scope i x => .live .environment (Node.scope i x).display
  | .primitive p => .live .primitive (Node.primitive p).display
  | .function c => .live .function (Node.function c).display
  | .transformer c => .live .transformer (Node.transformer c).display
  | .chan i => .live .chan (Node.chan i).display

def shownAll : List Node → List HostForm
  | [] => []
  | n :: ns => n.shown :: shownAll ns

end

/-- The part of a node that indices into lists lead to; `nil` if they lead nowhere. -/
def Node.part (n : Node) : List Nat → Node
  | [] => n
  | i :: path =>
    match n with
    | .call items _ => ((items[i]?).getD .nil).part path
    | _ => .nil

mutual

/-- The value that is made of the list of the argument forms. -/
def HostValue.node (args : Node) : HostValue → Node
  | .literal v => .literal v none
  | .part path => args.part path
  | .list items => .list (nodes args items)

def HostValue.nodes (args : Node) : List HostValue → List Node
  | [] => []
  | v :: vs => v.node args :: nodes args vs

end

end ChannelLisp
