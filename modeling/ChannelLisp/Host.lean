import ChannelLisp.Literal

/-!
Procedures of a host. A host is told what its argument forms show of themselves: not where they
were read, and of a live object no more than its type and its text. What it gives back is put
together from parts of the argument forms and from literals, so it has no place, name or object
that was not there before; nor has its error a place.
-/

namespace ChannelLisp

/-- What a form shows to a host. -/
inductive HostForm where
  | literal (value : Literal)
  | symbol (name : String)
  | call (items : List HostForm)
  | live (kind : Kind) (text : String)

inductive HostValue where
  | literal (value : Literal)
  /-- The part of the argument forms that the indices lead to; without any, the list of all. -/
  | part (path : List Nat)
  | list (items : List HostValue)

inductive HostAnswer where
  | value (v : HostValue)
  | fail (message : String)
  | crash (detail : Option String)

abbrev HostAct := List HostForm → HostAnswer

namespace HostAct

def echo : HostAct := fun _ => .value (.part [])

def fail (message : String) : HostAct := fun _ => .fail message

def crash (detail : Option String) : HostAct := fun _ => .crash detail

def crashCounting (detail : String) : HostAct := fun args =>
  crash (some (detail ++ " with " ++ toString args.length ++ " args")) args

end HostAct

end ChannelLisp
