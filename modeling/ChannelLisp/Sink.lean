/-!
Where output goes. A sink may refuse any single write, depending on the writes before it; a
refused write leaves nothing behind. An empty text is not written at all. A line is two
writes, its text and the newline, and the newline is not tried if the text is refused.
-/

namespace ChannelLisp

structure Attempt where
  text : String
  accepted : Bool
deriving DecidableEq, Repr

structure Sink where
  /-- The writes so far, newest first. -/
  log : List Attempt := []
  /-- The reason for refusing a text after the given writes, if it is refused. -/
  refusal : List Attempt → String → Option String

namespace Sink

def unlimited : Sink where
  refusal _ _ := none

def volume (log : List Attempt) : Nat :=
  (log.map fun a => if a.accepted then a.text.utf8ByteSize else 0).foldr (· + ·) 0

def limited (limit : Nat) (reason : String) : Sink where
  refusal log text := if limit < volume log + text.utf8ByteSize then some reason else none

def write (s : Sink) (text : String) : Sink × Option String :=
  if text = "" then (s, none)
  else
    match s.refusal s.log text with
    | none => ({ s with log := ⟨text, true⟩ :: s.log }, none)
    | some reason => ({ s with log := ⟨text, false⟩ :: s.log }, some reason)

def writeLine (s : Sink) (text : String) : Sink × Option String :=
  match s.write text with
  | (s', none) => s'.write "\n"
  | r => r

/-- Writes a line that is lost if it is refused. -/
def report (s : Sink) (text : String) : Sink := (s.writeLine text).1

def mark (s : Sink) : Nat := s.log.length

def textSince (s : Sink) (mark : Nat) : String :=
  String.join (((s.log.take (s.log.length - mark)).filter (·.accepted)).reverse.map (·.text))

end Sink

end ChannelLisp
