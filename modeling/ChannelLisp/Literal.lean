/-! Literals, and the types of the language. -/

namespace ChannelLisp

inductive Literal where
  | nil
  | bool (b : Bool)
  | int (n : Int64)
  | float (x : Float)
  | str (s : String)

inductive Kind where
  | nil
  | bool
  | int
  | float
  | string
  | symbol
  | call
  | environment
  | primitive
  | function
  | transformer
  | chan
deriving DecidableEq, Repr

def Kind.name : Kind → String
  | .nil => "nil"
  | .bool => "bool"
  | .int => "int"
  | .float => "float"
  | .string => "string"
  | .symbol => "symbol"
  | .call => "call"
  | .environment => "environment"
  | .primitive => "primitive"
  | .function => "function"
  | .transformer => "macro"
  | .chan => "chan"

/-- How a refused comparison names the objects of a kind. -/
def Kind.plural : Kind → String
  | .environment => "environments"
  | .primitive => "primitive procedures"
  | .function => "functions"
  | .transformer => "macros"
  | .chan => "chans"
  | k => k.name ++ "s"

def Literal.kind : Literal → Kind
  | .nil => .nil
  | .bool _ => .bool
  | .int _ => .int
  | .float _ => .float
  | .str _ => .string

end ChannelLisp
