import ChannelLisp.Node.Host
import ChannelLisp.Operation
import ChannelLisp.Scope
import ChannelLisp.Sink

/-!
Evaluation, one step at a time. A thread has a control, which is what it does next, and a
stack of frames, which is what it does with the value after that. The store is what threads
share: the heap of scopes, the count of channels, and the sink.

An error leaves frame after frame; the frame of a call gives it the place of the call. The
head of a call is evaluated outside that frame, so an error in it keeps its own place, or none.
A crash ends the thread at once. A thread that sends or receives has no step of its own: the
two ends of a channel move together.
-/

namespace ChannelLisp

structure Store where
  heap : Heap
  /-- The number of channels made so far, which is the identifier of the next. -/
  nextChannel : ChannelId
  sink : Sink

inductive Target where
  | function (c : Closure Node) (loc? : Option Location)
  | operation (op : Operation)
  | output (o : Output)

/-- What is done with a value. -/
inductive Frame where
  /-- It is the head of a call with these argument forms. -/
  | operator (scope : ScopeId) (args : List Node) (loc? : Option Location)
  /-- It is that of a call; an error without a place takes the place of the call. -/
  | locate (loc? : Option Location)
  /-- It is the operand after `done`, newest first, and before those in `todo`. -/
  | operands (scope : ScopeId) (target : Target) (done todo : List Node)
  | branch (scope : ScopeId) (yes : Node) (no? : Option Node)
  | define (scope : ScopeId) (name : String)
  | assign (scope : ScopeId) (name : String) (loc? : Option Location)
  | sequence (scope : ScopeId) (todo : List Node)
  | binding (scope : ScopeId) (name : String) (todo body : List Node)
  /-- It is a form to evaluate, where the second form tells or else here. -/
  | evaluate (scope : ScopeId) (there? : Option Node)
  | within (form : Node)
  | sendOn (scope : ScopeId) (form : Node)
  | sendValue (c : ChannelId)
  | receiveFrom
  /-- It is the form that replaces a call. -/
  | expansion (scope : ScopeId)
  /-- Nobody waits for it; an error is reported. -/
  | detached

inductive Control where
  | eval (scope : ScopeId) (form : Node)
  | value (v : Node)
  | raise (e : EvalError)
  | send (c : ChannelId) (v : Node)
  | receive (c : ChannelId)
  | crash (detail : Option String)

structure Thread where
  control : Control
  stack : List Frame

structure Turn where
  store : Store
  thread : Thread
  spawned? : Option Thread := none

def Turn.quiet (r : Store × Thread) : Turn := ⟨r.1, r.2, none⟩

namespace Control

def ofAnswer : Answer → Control
  | .value v => .value v
  | .error e => .raise e
  | .crash detail => .crash detail

end Control

namespace Thread

def start (scope : ScopeId) (form : Node) : Thread := ⟨.eval scope form, []⟩

def detached (scope : ScopeId) (form : Node) : Thread := ⟨.eval scope form, [.detached]⟩

/-- Evaluates forms in order; the value is that of the last, or `nil`. -/
def body (scope : ScopeId) (forms : List Node) (k : List Frame) : Thread :=
  match forms with
  | [] => ⟨.value .nil, k⟩
  | f :: fs => ⟨.eval scope f, .sequence scope fs :: k⟩

def raise (e : EvalError) (k : List Frame) : Thread := ⟨.raise e, k⟩

def answer? (t : Thread) : Option Answer :=
  match t.control, t.stack with
  | .value v, [] => some (.value v)
  | .raise e, [] => some (.error e)
  | .crash detail, _ => some (.crash detail)
  | _, _ => none

end Thread

/-! ### What arguments must be -/

def expectSymbol (taker : String) : Node → Except EvalError String
  | .symbol name _ => .ok name
  | v => .error ⟨.expected taker .symbol v, v.loc?⟩

def expectList (taker : String) : Node → Except EvalError (List Node)
  | .call items _ => .ok items
  | v => .error ⟨.expected taker .list v, v.loc?⟩

def expectSymbols (taker : String) : List Node → Except EvalError (List String)
  | [] => .ok []
  | v :: vs =>
    match expectSymbol taker v with
    | .error e => .error e
    | .ok x =>
      match expectSymbols taker vs with
      | .error e => .error e
      | .ok xs => .ok (x :: xs)

def makeClosure (taker : String) (scope : ScopeId) (params : Node) (body : List Node) :
    Except EvalError (Closure Node) :=
  match expectList taker params with
  | .error e => .error e
  | .ok ps =>
    match expectSymbols taker ps with
    | .error e => .error e
    | .ok xs => .ok ⟨none, xs, body, scope⟩

def expectBinding (b : Node) : Except EvalError (String × Node) :=
  match expectList Form.bind.name b with
  | .error e => .error e
  | .ok [x, form] =>
    match expectSymbol Form.bind.name x with
    | .error e => .error e
    | .ok name => .ok (name, form)
  | .ok _ => .error ⟨.malformedBinding b, b.loc?⟩

/-! ### Calls -/

/-- Binds names to values in order; a later value of a name replaces an earlier one. -/
def bindAll (xs : List String) (vs : List Node) : List (String × Node) :=
  (xs.zip vs).foldl (fun bs (x, v) => put x v bs) []

/-- The scope of a call: the parameters bound to the arguments, inside the scope in which the
closure was made. The scope of the caller is not around it. -/
def Closure.frame (c : Closure Node) (kind : Kind) (args : List Node) (loc? : Option Location) :
    Except EvalError Scope :=
  if args.length = c.params.length then .ok ⟨c.title, some c.scope, bindAll c.params args⟩
  else .error ⟨.closureArity kind c.title c.params.length args.length, loc?⟩

def Output.write (o : Output) (s : Sink) (text : String) : Sink × Option String :=
  match o with
  | .print => s.write text
  | .printLine => s.writeLine text

namespace Store

def pushScope (σ : Store) (s : Scope) : Store := { σ with heap := σ.heap.push s }

def define (σ : Store) (id : ScopeId) (x : String) (v : Node) : Store :=
  { σ with heap := σ.heap.define id x v }

def enter (σ : Store) (kind : Kind) (c : Closure Node) (args : List Node)
    (loc? : Option Location) (k : List Frame) : Store × Thread :=
  match c.frame kind args loc? with
  | .error e => (σ, .raise e k)
  | .ok scope =>
    let id := σ.heap.fresh
    (σ.pushScope scope, .body id c.body k)

def print (σ : Store) (o : Output) (vs : List Node) (k : List Frame) : Store × Thread :=
  let r := o.write σ.sink (" ".intercalate (vs.map Node.raw))
  ({ σ with sink := r.1 },
    match r.2 with
    | none => ⟨.value .nil, k⟩
    | some reason => .raise ⟨.writeRefused reason, none⟩ k)

def finish (σ : Store) (target : Target) (vs : List Node) (k : List Frame) : Store × Thread :=
  match target with
  | .function c loc? => σ.enter .function c vs loc? k
  | .operation op => (σ, ⟨.ofAnswer (op.run vs), k⟩)
  | .output o => σ.print o vs k

/-- Evaluates operands from left to right and then acts on them. -/
def operands (σ : Store) (scope : ScopeId) (target : Target) (done todo : List Node)
    (k : List Frame) : Store × Thread :=
  match todo with
  | [] => σ.finish target done.reverse k
  | a :: rest => (σ, ⟨.eval scope a, .operands scope target done rest :: k⟩)

def bindings (σ : Store) (scope : ScopeId) (todo body : List Node) (k : List Frame) :
    Store × Thread :=
  match todo with
  | [] => (σ, .body scope body k)
  | b :: rest =>
    match expectBinding b with
    | .error e => (σ, .raise e k)
    | .ok (name, form) => (σ, ⟨.eval scope form, .binding scope name rest body :: k⟩)

end Store

def Form.enter (f : Form) (σ : Store) (s : ScopeId) (args : List Node) (k : List Frame) : Turn :=
  match f, args with
  | .quote, [form] => ⟨σ, ⟨.value form, k⟩, none⟩
  | .branch, [test, yes] => ⟨σ, ⟨.eval s test, .branch s yes none :: k⟩, none⟩
  | .branch, [test, yes, no] => ⟨σ, ⟨.eval s test, .branch s yes (some no) :: k⟩, none⟩
  | .define, [x, form] =>
    match expectSymbol f.name x with
    | .error e => ⟨σ, .raise e k, none⟩
    | .ok name => ⟨σ, ⟨.eval s form, .define s name :: k⟩, none⟩
  | .update, [x, form] =>
    match expectSymbol f.name x with
    | .error e => ⟨σ, .raise e k, none⟩
    | .ok name => ⟨σ, ⟨.eval s form, .assign s name x.loc? :: k⟩, none⟩
  | .lambda, params :: body =>
    match makeClosure f.name s params body with
    | .error e => ⟨σ, .raise e k, none⟩
    | .ok c => ⟨σ, ⟨.value (.function c), k⟩, none⟩
  | .transformer, params :: body =>
    match makeClosure f.name s params body with
    | .error e => ⟨σ, .raise e k, none⟩
    | .ok c => ⟨σ, ⟨.value (.transformer c), k⟩, none⟩
  | .sequence, forms => ⟨σ, .body s forms k, none⟩
  | .bind, bs :: body =>
    match expectList f.name bs with
    | .error e => ⟨σ, .raise e k, none⟩
    | .ok todo =>
      let id := σ.heap.fresh
      .quiet ((σ.pushScope ⟨f.name, some s, []⟩).bindings id todo body k)
  | .evaluate, [form] => ⟨σ, ⟨.eval s form, .evaluate s none :: k⟩, none⟩
  | .evaluate, [form, there] => ⟨σ, ⟨.eval s form, .evaluate s (some there) :: k⟩, none⟩
  | .spawn, [form] => ⟨σ, ⟨.value .nil, k⟩, some (.detached s form)⟩
  | .here, [] => ⟨σ, ⟨.value (.scope s (σ.heap.nameOf s)), k⟩, none⟩
  | .channel, [] =>
    let c := σ.nextChannel
    ⟨{ σ with nextChannel := c + 1 }, ⟨.value (.chan c), k⟩, none⟩
  | .send, [c, form] => ⟨σ, ⟨.eval s c, .sendOn s form :: k⟩, none⟩
  | .receive, [c] => ⟨σ, ⟨.eval s c, .receiveFrom :: k⟩, none⟩
  | _, _ => ⟨σ, ⟨.ofAnswer .missingArgument, k⟩, none⟩

def HostAct.answer (act : HostAct) (args : List Node) : Answer :=
  match act (args.map Node.shown) with
  | .value v => .value (v.node (.list args))
  | .fail message => .error ⟨.custom message, none⟩
  | .crash detail => .crash detail

example (args : List Node) : HostAct.echo.answer args = .value (.list args) := rfl

example (detail : String) (args : List Node) : (HostAct.crashCounting detail).answer args =
    .crash (some (detail ++ " with " ++ toString args.length ++ " args")) := by
  simp [HostAct.answer, HostAct.crashCounting, HostAct.crash]

def Primitive.enter (p : Primitive) (σ : Store) (s : ScopeId) (args : List Node)
    (k : List Frame) : Turn :=
  if p.arity.accepts args.length then
    match p with
    | .builtin (.form f) => f.enter σ s args k
    | .builtin (.operation op) => .quiet (σ.operands s (.operation op) [] args k)
    | .builtin (.output o) => .quiet (σ.operands s (.output o) [] args k)
    | .host h => ⟨σ, ⟨.ofAnswer (h.act.answer args), k⟩, none⟩
  else ⟨σ, .raise ⟨.primitiveArity p.name p.arity args.length, none⟩ k, none⟩

def apply (σ : Store) (s : ScopeId) (callee : Node) (args : List Node) (loc? : Option Location)
    (k : List Frame) : Turn :=
  match callee with
  | .primitive p => p.enter σ s args k
  | .function c => .quiet (σ.operands s (.function c loc?) [] args k)
  | .transformer c => .quiet (σ.enter .transformer c args loc? (.expansion s :: k))
  | v => ⟨σ, .raise ⟨.notCallable v, none⟩ k, none⟩

/-! ### Steps -/

def evaluate (σ : Store) (s : ScopeId) (form : Node) (k : List Frame) : Thread :=
  match form with
  | .symbol x loc? =>
    match σ.heap.resolve s x loc? with
    | .ok v => ⟨.value v, k⟩
    | .error e => .raise e k
  | .call [] loc? => .raise ⟨.emptyCall, loc?⟩ k
  | .call (head :: args) loc? => ⟨.eval s head, .operator s args loc? :: k⟩
  | v => ⟨.value v, k⟩

/-- Hands a value to a frame. -/
def resume (σ : Store) (f : Frame) (v : Node) (k : List Frame) : Turn :=
  match f with
  | .operator s args loc? => apply σ s v args loc? (.locate loc? :: k)
  | .locate _ => ⟨σ, ⟨.value v, k⟩, none⟩
  | .operands s target done todo => .quiet (σ.operands s target (v :: done) todo k)
  | .branch s yes no? =>
    if v.isTruthy then ⟨σ, ⟨.eval s yes, k⟩, none⟩
    else
      match no? with
      | some no => ⟨σ, ⟨.eval s no, k⟩, none⟩
      | none => ⟨σ, ⟨.value .nil, k⟩, none⟩
  | .define s x => ⟨σ.define s x (v.named x), ⟨.value (v.named x), k⟩, none⟩
  | .assign s x loc? =>
    match σ.heap.target s x loc? with
    | .ok i => ⟨σ.define i x v, ⟨.value v, k⟩, none⟩
    | .error e => ⟨σ, .raise e k, none⟩
  | .sequence _ [] => ⟨σ, ⟨.value v, k⟩, none⟩
  | .sequence s (f :: fs) => ⟨σ, ⟨.eval s f, .sequence s fs :: k⟩, none⟩
  | .binding s x todo body => .quiet ((σ.define s x (v.named x)).bindings s todo body k)
  | .evaluate s none => ⟨σ, ⟨.eval s v, k⟩, none⟩
  | .evaluate s (some there) => ⟨σ, ⟨.eval s there, .within v :: k⟩, none⟩
  | .within form =>
    match v with
    | .scope id _ => ⟨σ, ⟨.eval id form, k⟩, none⟩
    | v => ⟨σ, .raise ⟨.expected Form.evaluate.name .environment v, none⟩ k, none⟩
  | .sendOn s form =>
    match v with
    | .chan c => ⟨σ, ⟨.eval s form, .sendValue c :: k⟩, none⟩
    | v => ⟨σ, .raise ⟨.expected Form.send.name .chan v, none⟩ k, none⟩
  | .sendValue c => ⟨σ, ⟨.send c v, k⟩, none⟩
  | .receiveFrom =>
    match v with
    | .chan c => ⟨σ, ⟨.receive c, k⟩, none⟩
    | v => ⟨σ, .raise ⟨.expected Form.receive.name .chan v, none⟩ k, none⟩
  | .expansion s => ⟨σ, ⟨.eval s v, k⟩, none⟩
  | .detached => ⟨σ, ⟨.value v, k⟩, none⟩

def unwind (σ : Store) (f : Frame) (e : EvalError) (k : List Frame) : Turn :=
  match f with
  | .locate loc? => ⟨σ, .raise (e.withLocation loc?) k, none⟩
  | .detached => ⟨{ σ with sink := σ.sink.report e.text }, ⟨.value .nil, k⟩, none⟩
  | _ => ⟨σ, .raise e k, none⟩

/-- The thread has a step of its own: it has not ended and does not stand at a channel. -/
def Thread.canStep (t : Thread) : Bool :=
  match t.control, t.stack with
  | .eval _ _, _ | .value _, _ :: _ | .raise _, _ :: _ => true
  | _, _ => false

/-- One step of a thread; without a step of its own, it stays as it is. -/
def step (σ : Store) (t : Thread) : Turn :=
  match t.control, t.stack with
  | .eval s form, k => ⟨σ, evaluate σ s form k, none⟩
  | .value v, f :: k => resume σ f v k
  | .raise e, f :: k => unwind σ f e k
  | _, _ => ⟨σ, t, none⟩

theorem step_eq_self {σ : Store} {t : Thread} (h : t.canStep = false) :
    step σ t = ⟨σ, t, none⟩ := by
  obtain ⟨control, stack⟩ := t
  cases control <;> cases stack <;> simp_all [Thread.canStep, step]

theorem canStep_of_answer? {t : Thread} {a : Answer} (h : t.answer? = some a) :
    t.canStep = false := by
  obtain ⟨control, stack⟩ := t
  cases control <;> cases stack <;> simp_all [Thread.canStep, Thread.answer?]

end ChannelLisp
