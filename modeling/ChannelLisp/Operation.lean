import ChannelLisp.Decimal.Binary64
import ChannelLisp.Node.Equality
import ChannelLisp.Word

/-!
What operations give on evaluated arguments. Arithmetic on integers is exact or an error;
once a float takes part, it is that of doubles. Comparison with a NaN never holds.
-/

namespace ChannelLisp

/-- How a computation ends. A crash is no error of the language: it is a host's procedure
breaking down, or a primitive that is entered with arguments its arity excludes. -/
inductive Answer where
  | value (v : Node)
  | error (e : EvalError)
  | crash (detail : Option String)

def Answer.ofExcept : Except EvalError Node → Answer
  | .ok v => .value v
  | .error e => .error e

/-- A primitive is entered without an argument that it needs. -/
def Answer.missingArgument : Answer := .crash (some "missing argument")

inductive Number where
  | int (n : Int64)
  | float (x : Float)

namespace Number

def toFloat : Number → Float
  | .int n => Float.ofInt n.toInt
  | .float x => x

def toNode : Number → Node
  | .int n => .int n
  | .float x => .float x

def isIntZero : Number → Bool
  | .int n => n == 0
  | .float _ => false

/-- The order of two numbers; none with a NaN. -/
def compare? : Number → Number → Option Ordering
  | .int a, .int b => some (compare a.toInt b.toInt)
  | a, b =>
    let (x, y) := (a.toFloat, b.toFloat)
    if x < y then some .lt else if y < x then some .gt else if x == y then some .eq else none

end Number

namespace Operation

def number (op : Operation) : Node → Except EvalError Number
  | .literal (.int n) _ => .ok (.int n)
  | .literal (.float x) _ => .ok (.float x)
  | v => .error ⟨.expected op.name .number v, none⟩

/-- All nodes as numbers; the first that is none is blamed. -/
def numbers (op : Operation) : List Node → Except EvalError (List Number)
  | [] => .ok []
  | v :: vs =>
    match op.number v, numbers op vs with
    | .error e, _ => .error e
    | .ok n, .ok ns => .ok (n :: ns)
    | .ok _, .error e => .error e

/-- One step of arithmetic: exact on words, and on doubles as soon as one is there. -/
def combine (op : Operation) (word : Int64 → Int64 → Option Int64)
    (double : Float → Float → Float) : Number → Number → Except EvalError Number
  | .int a, .int b =>
    match word a b with
    | some n => .ok (.int n)
    | none => .error ⟨.overflow op.name, none⟩
  | a, b => .ok (.float (double a.toFloat b.toFloat))

def foldFrom (step : Number → Number → Except EvalError Number) :
    Number → List Number → Except EvalError Number
  | acc, [] => .ok acc
  | acc, n :: ns =>
    match step acc n with
    | .ok acc' => foldFrom step acc' ns
    | .error e => .error e

/-- From left to right, starting with the first of several numbers or, for a single one, with
the unit. -/
def fold (step : Number → Number → Except EvalError Number) (unit : Int64) (ns : List Number) :
    Except EvalError Node :=
  let r :=
    match ns with
    | n :: n' :: ns => foldFrom step n (n' :: ns)
    | ns => foldFrom step (.int unit) ns
  r.map Number.toNode

/-- The numbers that a division divides by. -/
def divisors : List Number → List Number
  | [n] => [n]
  | ns => ns.drop 1

def divide (ns : List Number) : Except EvalError Node :=
  if (divisors ns).any Number.isIntZero then .error ⟨.divisionByZero, none⟩
  else fold (combine .div Word.div? (· / ·)) 1 ns

def remainder (a b : Number) : Except EvalError Node :=
  match a, b with
  | .int _, .int 0 => .error ⟨.divisionByZero, none⟩
  | a, b => (combine .mod Word.mod? Binary64.euclidRem a b).map Number.toNode

def holds (test : Ordering → Bool) (a b : Number) : Node :=
  .bool ((a.compare? b).any test)

/-- The items of a list; `nil` has none. -/
def itemsOf (op : Operation) : Node → Except EvalError (List Node)
  | .call items _ => .ok items
  | .literal .nil _ => .ok []
  | v => .error ⟨.expected op.name .list v, none⟩

def binary (op : Operation) (f : Number → Number → Except EvalError Node) (a b : Node) :
    Except EvalError Node :=
  match op.number a, op.number b with
  | .error e, _ => .error e
  | .ok _, .error e => .error e
  | .ok x, .ok y => f x y

def run (op : Operation) (args : List Node) : Answer :=
  match op, args with
  | .add, vs => .ofExcept (op.numbers vs >>= fold (combine op Word.add? (· + ·)) 0)
  | .sub, vs => .ofExcept (op.numbers vs >>= fold (combine op Word.sub? (· - ·)) 0)
  | .mul, vs => .ofExcept (op.numbers vs >>= fold (combine op Word.mul? (· * ·)) 1)
  | .div, v :: vs => .ofExcept (op.numbers (v :: vs) >>= divide)
  | .mod, [a, b] => .ofExcept (op.binary remainder a b)
  | .less, [a, b] => .ofExcept (op.binary (fun x y => .ok (holds Ordering.isLT x y)) a b)
  | .greater, [a, b] => .ofExcept (op.binary (fun x y => .ok (holds Ordering.isGT x y)) a b)
  | .atMost, [a, b] => .ofExcept (op.binary (fun x y => .ok (holds Ordering.isLE x y)) a b)
  | .atLeast, [a, b] => .ofExcept (op.binary (fun x y => .ok (holds Ordering.isGE x y)) a b)
  | .equal, [a, b] => .ofExcept ((a.equals b).map Node.bool)
  | .not, [v] => .value (.bool !v.isTruthy)
  | .list, vs => .value (.list vs)
  | .cons, [v, l] => .ofExcept ((op.itemsOf l).map fun vs => .list (v :: vs))
  | .first, [l] => .ofExcept ((op.itemsOf l).map fun vs => vs.headD .nil)
  | .rest, [l] => .ofExcept ((op.itemsOf l).map fun vs => .list (vs.drop 1))
  | .isEmpty, [l] => .ofExcept ((op.itemsOf l).map fun vs => .bool vs.isEmpty)
  | .kindOf, [v] => .value (.str v.kind.name)
  | _, _ => .missingArgument

end Operation

end ChannelLisp
