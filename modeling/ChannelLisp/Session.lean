import ChannelLisp.Pool
import ChannelLisp.Prelude
import ChannelLisp.Reader

/-!
A session: a store with a top-level scope, and the threads that earlier sources left running.
Sources are given to it one after another. The errors of reading a source are reported to the
sink and do not keep the forms that could be read from running; the first error of evaluation
ends the source.
-/

namespace ChannelLisp

/-- What became of an evaluation. It is stalled if no thread can move, or the fuel is used up. -/
inductive Outcome (α : Type) where
  | ok (a : α)
  | error (e : EvalError)
  | crash (detail : Option String)
  | stalled

def Outcome.ofAnswer? : Option Answer → Outcome Node
  | some (.value v) => .ok v
  | some (.error e) => .error e
  | some (.crash detail) => .crash detail
  | none => .stalled

structure Session where
  store : Store
  /-- Threads that have not ended. -/
  workers : List Thread
  /-- A bound on the moves of one evaluation. -/
  fuel : Nat

namespace Session

/-- The first scope, the one without a parent. -/
def top : ScopeId := 0

def topLevel : Scope where
  name := "top-level"
  parent? := none
  bindings := Builtin.all.map fun b => (b.name, .primitive (.builtin b))

/-- More moves than any run makes. -/
def ampleFuel : Nat := Nat.pow 10 15

def empty (sink : Sink) : Session := ⟨⟨.empty, 0, sink⟩, [], ampleFuel⟩

def bare (sink : Sink) : Session := ⟨⟨.push .empty topLevel, 0, sink⟩, [], ampleFuel⟩

def report (s : Session) (line : String) : Session :=
  { s with store := { s.store with sink := s.store.sink.report line } }

/-- Runs a main thread to its end, beside the threads that are left. -/
def perform (s : Session) (main : Thread) : Session × Outcome Node :=
  match s with
  | ⟨store, workers, fuel⟩ =>
    let p := Pool.run fuel ⟨store, main :: workers⟩
    let outcome := Outcome.ofAnswer? p.answer?
    (⟨p.store, p.threads.tail.filter (·.answer?.isNone), fuel⟩, outcome)

def evalIn (s : Session) (scope : ScopeId) (form : Node) : Session × Outcome Node :=
  s.perform (.start scope form)

def andThen {α β : Type} (r : Session × Outcome α) (next : Session → α → Session × Outcome β) :
    Session × Outcome β :=
  match r with
  | (s, .ok a) => next s a
  | (s, .error e) => (s, .error e)
  | (s, .crash detail) => (s, .crash detail)
  | (s, .stalled) => (s, .stalled)

/-- Evaluates forms at top level up to the first that fails. The result is the last value, and
`last` if there are no forms. -/
def evalForms (s : Session) (last : Option Node) : List Node → Session × Outcome (Option Node)
  | [] => (s, .ok last)
  | f :: fs => andThen (s.evalIn top f) fun s' v => evalForms s' (some v) fs

def reportFaults (s : Session) (errors : List ReadError) : Session :=
  if errors = [] then s else s.report (ReadError.report errors)

def crashReport (detail : Option String) : String :=
  "Host environment error: " ++ detail.getD "unknown panic payload"

/-- Evaluates a source submitted under a label. There is no value if there are no forms. -/
def evalSource (s : Session) (source label : String) : Session × Outcome (Option Node) :=
  let (forms, errors) := read source label
  match (s.reportFaults errors).evalForms none forms with
  | (s', .crash detail) => (s'.report (crashReport detail), .crash detail)
  | r => r

def new (sink : Sink) (withPrelude : Bool) : Session :=
  if withPrelude then ((bare sink).evalSource prelude "prelude").1 else bare sink

def addPrimitive (s : Session) (h : HostPrimitive) : Session :=
  { s with store := s.store.define top h.name (.primitive (.host h)) }

/-- Evaluates a source and reports what `describe` has to say about its value. An error is
reported too, and is then dealt with. -/
def announce (s : Session) (source label : String) (describe : Session → Node → Option String) :
    Session × Outcome Unit :=
  match s.evalSource source label with
  | (s', .error e) => (s'.report e.text, .ok ())
  | r =>
    andThen r fun s' v? =>
      match v?.bind (describe s') with
      | some line => (s'.report line, .ok ())
      | none => (s', .ok ())

def printSource (s : Session) (source label : String) (showValue : Bool) : Session × Outcome Unit :=
  s.announce source label fun _ v => if showValue && !v.isNil then some v.display else none

def call (s : Session) (kind : Kind) (c : Closure Node) (args : List Node)
    (loc? : Option Location) : Session × Outcome Node :=
  match s with
  | ⟨store, workers, fuel⟩ =>
    let (store', main) := store.enter kind c args loc? []
    perform ⟨store', workers, fuel⟩ main

def inspect (s : Session) : Node → String
  | .scope id name => "Environment\n  Name='" ++ name ++ "'\n  Env=" ++ s.store.heap.text id
  | v => "Don't know how to inspect: " ++ v.display

def mark (s : Session) : Nat := s.store.sink.mark

def outputSince (s : Session) (mark : Nat) : String := s.store.sink.textSince mark

/-- Lets the threads that are left run until the output since a point satisfies `stop`. -/
def settle (s : Session) (mark : Nat) (stop : String → Bool) : Session :=
  match s with
  | ⟨store, workers, fuel⟩ =>
    let p := Pool.runUntil (fun q => stop (q.store.sink.textSince mark)) fuel 0
      ⟨store, ⟨.value .nil, []⟩ :: workers⟩
    ⟨p.store, p.threads.tail.filter (·.answer?.isNone), fuel⟩

end Session

end ChannelLisp
