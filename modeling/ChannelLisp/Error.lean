import ChannelLisp.Node.Display

/-!
Errors of evaluation: a cause and, once known, the place. The cause says what went wrong in
terms of the nodes at hand; `Cause.message` is its wording. An error that passes through a
call without a place takes the place of the call.
-/

namespace ChannelLisp

/-- What an argument was expected to be. -/
inductive Expectation where
  | symbol
  | list
  | number
  | environment
  | chan
deriving DecidableEq, Repr

def Expectation.text : Expectation → String
  | .symbol => "a symbol"
  | .list => "a list"
  | .number => "a number"
  | .environment => "an environment"
  | .chan => "a chan"

inductive Cause where
  | unbound (name scope : String)
  | updateUnbound (name scope : String)
  | emptyCall
  | notCallable (callee : Node)
  | primitiveArity (name : String) (arity : Arity) (count : Nat)
  | closureArity (kind : Kind) (name : String) (params count : Nat)
  /-- The primitive `taker` was given something else. -/
  | expected (taker : String) (what : Expectation) (found : Node)
  | malformedBinding (binding : Node)
  | incomparable (kind : Kind) (left right : Node)
  | overflow (op : String)
  | divisionByZero
  | writeRefused (reason : String)
  /-- Nobody is left who could be at the other end of the channel. -/
  | disconnected (c : ChannelId)
  | custom (message : String)

def code (s : String) : String := "`" ++ s ++ "`"

def Cause.message : Cause → String
  | .unbound name scope => "unbound symbol " ++ code name ++ " in environment " ++ code scope
  | .updateUnbound name scope =>
    "cannot update unbound symbol " ++ code name ++ " in environment " ++ code scope
  | .emptyCall => "cannot evaluate an empty call form"
  | .notCallable v =>
    code v.display ++ " is not callable: expected a primitive, function or macro but found "
      ++ v.kind.name
  | .primitiveArity name arity count =>
    "primitive " ++ code name ++ " expected " ++ arity.text ++ " arguments but received "
      ++ toString count
  | .closureArity kind name params count =>
    kind.name ++ " " ++ code name ++ " expected " ++ toString params
      ++ " arguments but received " ++ toString count
  | .expected taker what found =>
    code taker ++ " expected " ++ what.text ++ " but found " ++ found.kind.name ++ " "
      ++ code found.display
  | .malformedBinding b =>
    code "let" ++ " binding must be a (name value) pair, found " ++ code b.display
  | .incomparable kind left right =>
    "Cannot compare the values of " ++ kind.plural ++ ": " ++ left.display ++ " and "
      ++ right.display
  | .overflow op => "integer overflow in " ++ code op
  | .divisionByZero => "division by zero"
  | .writeRefused reason => "failed to write output: " ++ reason
  | .disconnected c => (Node.chan c).display ++ " is disconnected"
  | .custom message => message

structure EvalError where
  cause : Cause
  loc? : Option Location := none

namespace EvalError

def message (e : EvalError) : String := e.cause.message

/-- Gives an error a place if it has none. -/
def withLocation (e : EvalError) (loc? : Option Location) : EvalError :=
  { e with loc? := e.loc?.or loc? }

def text (e : EvalError) : String :=
  match e.loc? with
  | some l => l.text ++ ": " ++ e.message
  | none => e.message

end EvalError

end ChannelLisp
