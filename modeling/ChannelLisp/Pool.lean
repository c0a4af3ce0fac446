import ChannelLisp.Machine

/-!
Threads that share a store. In a move, one thread takes a step, or a value passes from a
thread that sends to one that receives on the same channel; both ends complete in that move.
Any sequence of moves is a schedule. `Pool.run` follows one in which time slices go round, so
that no thread that can move waits forever.
-/

namespace ChannelLisp

structure Pool where
  store : Store
  /-- The main thread comes first. -/
  threads : List Thread

/-- What happens next; threads are given by index. -/
inductive Move where
  | advance (i : Nat)
  | handOff (sender receiver : Nat)
deriving DecidableEq, Repr

namespace Thread

def sendsOn (c : ChannelId) (t : Thread) : Bool :=
  match t.control with
  | .send c' _ => c' == c
  | _ => false

def receivesOn (c : ChannelId) (t : Thread) : Bool :=
  match t.control with
  | .receive c' => c' == c
  | _ => false

def resumeWith (t : Thread) (v : Node) : Thread := { t with control := .value v }

end Thread

namespace Pool

def canMove (p : Pool) : Move → Bool
  | .advance i => p.threads[i]?.any Thread.canStep
  | .handOff i j =>
    match (p.threads[i]?).map Thread.control, (p.threads[j]?).map Thread.control with
    | some (.send c _), some (.receive c') => c == c'
    | _, _ => false

/-- The pool after a move; one that is not possible changes nothing. -/
def move (p : Pool) (m : Move) : Pool :=
  match p with
  | ⟨store, threads⟩ =>
    match m with
    | .advance i =>
      match threads[i]? with
      | none => ⟨store, threads⟩
      | some t =>
        let ⟨store', t', spawned?⟩ := step store t
        ⟨store', threads.set i t' ++ spawned?.toList⟩
    | .handOff i j =>
      match threads[i]?, threads[j]? with
      | some s, some r =>
        match s.control, r.control with
        | .send c v, .receive c' =>
          if c = c' then ⟨store, (threads.set i (s.resumeWith v)).set j (r.resumeWith v)⟩
          else ⟨store, threads⟩
        | _, _ => ⟨store, threads⟩
      | _, _ => ⟨store, threads⟩

def moveOf? (p : Pool) (i : Nat) : Option Move :=
  match p.threads[i]? with
  | none => none
  | some t =>
    match t.control with
    | .send c _ => (p.threads.findIdx? (·.receivesOn c)).map (.handOff i ·)
    | .receive c => (p.threads.findIdx? (·.sendsOn c)).map (.handOff · i)
    | _ => if t.canStep then some (.advance i) else none

/-- How many moves a thread has in a row. -/
def slice : Nat := 512

/-- The move at a given time: of the thread whose slice it is, or else of the first that has
one. -/
def next? (p : Pool) (time : Nat) : Option Move :=
  let n := p.threads.length
  (p.moveOf? (time / slice % n)).or ((List.range n).findSome? p.moveOf?)

def runUntil (stop : Pool → Bool) : (fuel : Nat) → (time : Nat) → Pool → Pool
  | 0, _, p => p
  | fuel + 1, time, p =>
    if stop p then p
    else
      match p.next? time with
      | none => p
      | some m => runUntil stop fuel (time + 1) (p.move m)

def answer? (p : Pool) : Option Answer := p.threads.head?.bind Thread.answer?

def run (fuel : Nat) (p : Pool) : Pool := p.runUntil (fun q => q.answer?.isSome) fuel 0

end Pool

end ChannelLisp
