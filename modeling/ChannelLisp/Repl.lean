import ChannelLisp.Session
import ChannelLisp.Text.Backspace
import ChannelLisp.Text.Blank

/-!
The dialogue: lines are evaluated one by one and their values printed. `:inspect` in front of
a source shows the structure of its value instead, and `:quit` ends the dialogue.
-/

namespace ChannelLisp.Repl

def label : String := "REPL"

inductive Request where
  | nothing
  | quit
  | inspect (source : String)
  | print (source : String)
deriving DecidableEq, Repr

def inspectCommand : String := ":inspect "

def after? (front text : List Char) : Option (List Char) :=
  if front.isPrefixOf text then some (text.drop front.length) else none

def Request.ofLine (line : String) : Request :=
  let text := Text.trim line
  if text = ":quit" then .quit
  else if text = "" then .nothing
  else
    match after? inspectCommand.toList text.toList with
    | some source => .inspect (String.ofList source)
    | none => .print text

def inspectSource (s : Session) (source : String) : Session × Outcome Unit :=
  s.announce source label fun s' v => some (s'.inspect v)

inductive Next where
  | more
  /-- It ends with an exit code. -/
  | stop (code : Nat)
deriving DecidableEq, Repr

/-- The exit code when an evaluation breaks down or a line is lost. -/
def brokenCode : Nat := 101

/-- The exit code when a line is no text. -/
def unreadableCode : Nat := 1

def Next.after : Outcome Unit → Next
  | .ok () | .error _ => .more
  | .crash _ | .stalled => .stop brokenCode

def answer (s : Session) (line : String) : Session × Next :=
  match Request.ofLine line with
  | .nothing => (s, .more)
  | .quit => (s, .stop 0)
  | .inspect source =>
    let (s', o) := inspectSource s source
    (s', .after o)
  | .print source =>
    let (s', o) := s.printSource source label true
    (s', .after o)

/-- Answers one line of input as it comes, with its backspaces still in it. -/
def answerBytes (s : Session) (line : List UInt8) : Session × Next :=
  match String.fromUTF8? ⟨line.toArray⟩ with
  | none => (s, .stop unreadableCode)
  | some typed =>
    match Text.Backspace.edit typed with
    | none => (s, .stop brokenCode)
    | some text => answer s text

def farewell : String := "Quitting..."

def converse (s : Session) : List (List UInt8) → Session × Nat
  | [] => (s.report farewell, 0)
  | l :: ls =>
    match answerBytes s l with
    | (s', .more) => converse s' ls
    | (s', .stop code) => (s', code)

end ChannelLisp.Repl
