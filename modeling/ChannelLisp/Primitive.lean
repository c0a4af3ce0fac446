import ChannelLisp.Host

/-!
Primitives: the procedures a top-level scope starts with, and those a host adds to it. A
primitive is given its argument forms unevaluated. Those of the language come in three kinds:
special forms, which decide themselves what to evaluate; operations, which are functions of
their evaluated arguments; and output.
-/

namespace ChannelLisp

/-- How many arguments a primitive takes; no upper bound if `most` is absent. -/
structure Arity where
  least : Nat
  most : Option Nat
deriving DecidableEq, Repr

def Arity.exactly (n : Nat) : Arity := ⟨n, some n⟩

def Arity.atLeast (n : Nat) : Arity := ⟨n, none⟩

def Arity.accepts (a : Arity) (n : Nat) : Bool :=
  a.least ≤ n && a.most.all (n ≤ ·)

def Arity.text (a : Arity) : String :=
  match a.most with
  | some n =>
    if n = a.least then toString n
    else "between " ++ toString a.least ++ " and " ++ toString n
  | none => "at least " ++ toString a.least

inductive Form where
  | quote
  /-- One of two forms, by a test. -/
  | branch
  | define
  | update
  | lambda
  /-- A procedure from forms to the form that replaces the call. -/
  | transformer
  | sequence
  /-- Local bindings, each seeing those before it. -/
  | bind
  | evaluate
  | spawn
  /-- The scope of the call, as a value. -/
  | here
  | channel
  | send
  | receive
deriving DecidableEq, Repr

inductive Operation where
  | add
  | sub
  | mul
  | div
  | mod
  | less
  | greater
  | atMost
  | atLeast
  | equal
  | not
  | list
  | cons
  | first
  | rest
  | isEmpty
  | kindOf
deriving DecidableEq, Repr

/-- Whether a newline follows what is printed. -/
inductive Output where
  | print
  | printLine
deriving DecidableEq, Repr

inductive Builtin where
  | form (f : Form)
  | operation (op : Operation)
  | output (o : Output)
deriving DecidableEq, Repr

def Form.name : Form → String
  | .quote => "quote"
  | .branch => "if"
  | .define => "def"
  | .update => "update!"
  | .lambda => "lambda"
  | .transformer => "macro"
  | .sequence => "do"
  | .bind => "let"
  | .evaluate => "eval"
  | .spawn => "go"
  | .here => "current-environment"
  | .channel => "chan"
  | .send => "send"
  | .receive => "receive"

def Form.arity : Form → Arity
  | .quote | .spawn | .receive => .exactly 1
  | .branch => ⟨2, some 3⟩
  | .define | .update | .send => .exactly 2
  | .lambda | .transformer => .atLeast 2
  | .sequence => .atLeast 0
  | .bind => .atLeast 1
  | .evaluate => ⟨1, some 2⟩
  | .here | .channel => .exactly 0

def Operation.name : Operation → String
  | .add => "+"
  | .sub => "-"
  | .mul => "*"
  | .div => "/"
  | .mod => "mod"
  | .less => "<"
  | .greater => ">"
  | .atMost => "<="
  | .atLeast => ">="
  | .equal => "="
  | .not => "not"
  | .list => "list"
  | .cons => "cons"
  | .first => "first"
  | .rest => "rest"
  | .isEmpty => "empty?"
  | .kindOf => "type-of"

def Operation.arity : Operation → Arity
  | .add | .mul | .list => .atLeast 0
  | .sub | .div => .atLeast 1
  | .mod | .less | .greater | .atMost | .atLeast | .equal | .cons => .exactly 2
  | .not | .first | .rest | .isEmpty | .kindOf => .exactly 1

def Builtin.name : Builtin → String
  | .form f => f.name
  | .operation op => op.name
  | .output .print => "print"
  | .output .printLine => "println"

def Builtin.arity : Builtin → Arity
  | .form f => f.arity
  | .operation op => op.arity
  | .output _ => .atLeast 0

/-- The primitives of the language, in the order in which a top-level scope lists them. -/
def Builtin.all : List Builtin :=
  ([.quote, .branch, .define, .update, .lambda, .transformer, .sequence, .bind, .evaluate,
      .spawn] : List Form).map .form
    ++ ([.add, .sub, .mul, .div, .mod, .less, .greater, .atMost, .atLeast, .equal, .not,
      .list, .cons, .first, .rest, .isEmpty, .kindOf] : List Operation).map .operation
    ++ [.output .print, .output .printLine]
    ++ ([.here, .channel, .send, .receive] : List Form).map .form

structure HostPrimitive where
  name : String
  arity : Arity
  act : HostAct

inductive Primitive where
  | builtin (b : Builtin)
  | host (h : HostPrimitive)

def Primitive.name : Primitive → String
  | .builtin b => b.name
  | .host h => h.name

def Primitive.arity : Primitive → Arity
  | .builtin b => b.arity
  | .host h => h.arity

end ChannelLisp
