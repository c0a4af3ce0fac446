import ChannelLisp.Location
import ChannelLisp.Primitive

/-!
Nodes: both the forms that a source is read into and the values that evaluation gives.

Literals, symbols and calls are what the reader builds, with a location; made at run time they
have none. The others are live objects. A live object has identity, not value: it refuses
comparison and has no location.
-/

namespace ChannelLisp

/-- A scope is known by its place in the heap. -/
abbrev ScopeId := Nat

abbrev ChannelId := Nat

/-- What functions and transformers have in common: parameters, a body, and the scope they
were made in. -/
structure Closure (α : Type) where
  name : Option String
  params : List String
  body : List α
  scope : ScopeId

inductive Node where
  | literal (value : Literal) (loc : Option Location)
  | symbol (name : String) (loc : Option Location)
  | call (items : List Node) (loc : Option Location)
  /-- A scope as a value; its name never changes. -/
  | scope (id : ScopeId) (name : String)
  | primitive (p : Primitive)
  | function (c : Closure Node)
  | transformer (c : Closure Node)
  | chan (id : ChannelId)

instance : Inhabited Node := ⟨.literal .nil none⟩

def Closure.title {α : Type} (c : Closure α) : String := c.name.getD "anonymous"

namespace Node

def nil : Node := .literal .nil none

def bool (b : Bool) : Node := .literal (.bool b) none

def int (n : Int64) : Node := .literal (.int n) none

def float (x : Float) : Node := .literal (.float x) none

def str (s : String) : Node := .literal (.str s) none

def list (items : List Node) : Node := .call items none

def kind : Node → Kind
  | .literal v _ => v.kind
  | .symbol _ _ => .symbol
  | .call _ _ => .call
  | .scope _ _ => .environment
  | .primitive _ => .primitive
  | .function _ => .function
  | .transformer _ => .transformer
  | .chan _ => .chan

def loc? : Node → Option Location
  | .literal _ l | .symbol _ l | .call _ l => l
  | _ => none

def isNil : Node → Bool
  | .literal .nil _ => true
  | _ => false

/-- Everything holds but `nil` and `false`. -/
def isTruthy : Node → Bool
  | .literal .nil _ | .literal (.bool false) _ => false
  | _ => true

def isLive : Node → Bool
  | .literal _ _ | .symbol _ _ | .call _ _ => false
  | _ => true

def symbol? : Node → Option String
  | .symbol name _ => some name
  | _ => none

/-- A closure without a name takes the one it is bound to. -/
def named (name : String) : Node → Node
  | .function ⟨none, ps, b, s⟩ => .function ⟨some name, ps, b, s⟩
  | .transformer ⟨none, ps, b, s⟩ => .transformer ⟨some name, ps, b, s⟩
  | v => v

end Node

end ChannelLisp
