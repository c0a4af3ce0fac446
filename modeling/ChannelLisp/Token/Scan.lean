import ChannelLisp.Text.Blank
import ChannelLisp.Text.Quoted
import ChannelLisp.Token

/-!
Scanning a source into tokens, one character at a time.

The scan stands in a gap, inside a comment, inside an atom, or inside a string literal, there
possibly just after a backslash. It never fails: a literal that is cut off becomes a token of
its own. `tokenize` runs the scan and closes it with the end of the source.
-/

namespace ChannelLisp.Scan

open ChannelLisp.Text

/-- Where the scan stands. Characters read so far are kept newest first. -/
inductive Mode where
  | gap
  | comment
  | atom (chars : List Char)
  /-- Inside a literal that was opened on line `start`. -/
  | text (start : Nat) (chars : List Char)
  | escape (start : Nat) (chars : List Char)

structure State where
  mode : Mode
  line : Nat
  /-- What comes next, or the atom or literal being read, has a gap before it. -/
  spaced : Bool
  /-- The finished tokens, newest first. -/
  tokens : List Token

def init : State := ⟨.gap, 1, true, []⟩

def isDelimiter (c : Char) : Bool :=
  isBlank c || c == '(' || c == ')' || c == '\'' || c == '"' || c == ';'

def nextLine (n : Nat) (c : Char) : Nat := if c = '\n' then n + 1 else n

/-- Adds a token that started on line `start`; the scan then stands in a gap. -/
def State.emit (s : State) (shape : Shape) (start : Nat) : State :=
  { s with mode := .gap, spaced := false, tokens := ⟨shape, start, s.spaced⟩ :: s.tokens }

def State.start (s : State) (c : Char) : State :=
  if isBlank c then { s with mode := .gap, line := nextLine s.line c, spaced := true }
  else if c = ';' then { s with mode := .comment, spaced := true }
  else if c = '(' then s.emit .lparen s.line
  else if c = ')' then s.emit .rparen s.line
  else if c = '\'' then s.emit .quote s.line
  else if c = '"' then { s with mode := .text s.line [] }
  else { s with mode := .atom [c] }

def State.endAtom (s : State) (chars : List Char) : State :=
  s.emit (.atom (String.ofList chars.reverse)) s.line

def step (s : State) (c : Char) : State :=
  match s.mode with
  | .gap => s.start c
  | .comment => if c = '\n' then { s with mode := .gap, line := s.line + 1 } else s
  | .atom cs => if isDelimiter c then (s.endAtom cs).start c else { s with mode := .atom (c :: cs) }
  | .text l cs =>
    if c = '"' then s.emit (.string (String.ofList cs.reverse)) l
    else if c = '\\' then { s with mode := .escape l cs }
    else { s with mode := .text l (c :: cs), line := nextLine s.line c }
  | .escape l cs =>
    { s with mode := .text l (unescape c :: cs), line := nextLine s.line c }

def run (s : State) (cs : List Char) : State := cs.foldl step s

def State.finish (s : State) : List Token :=
  let s' :=
    match s.mode with
    | .gap | .comment => s
    | .atom cs => s.endAtom cs
    | .text l _ | .escape l _ => s.emit .unterminated l
  (⟨.eof, s'.line, true⟩ :: s'.tokens).reverse

@[simp] theorem run_nil (s : State) : run s [] = s := rfl

@[simp] theorem run_cons (s : State) (c : Char) (cs : List Char) :
    run s (c :: cs) = run (step s c) cs := rfl

theorem run_append (s : State) (u v : List Char) : run s (u ++ v) = run (run s u) v := by
  simp [run, List.foldl_append]

/-- The tokens that characters make up, the last of them the end of the source. -/
def tokens (cs : List Char) : List Token := (run init cs).finish

end ChannelLisp.Scan

namespace ChannelLisp

def tokenize (source : String) : List Token := Scan.tokens source.toList

end ChannelLisp
