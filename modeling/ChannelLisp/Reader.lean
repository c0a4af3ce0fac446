import ChannelLisp.Decimal.Numeral
import ChannelLisp.Node
import ChannelLisp.ReadError
import ChannelLisp.Token.Scan

/-!
The reader: from tokens to the top-level forms of a source.

`form room` reads one form in which lists and quotes nest at most `room` deep; `items` reads
the items of a list up to its closing parenthesis. Both report errors and go on. Below the
room, a list or a quote is skipped without being built. At top level, a form that failed and
was no list or quote drags along what is glued to it, so no piece of it surfaces as a form.
-/

namespace ChannelLisp

/-- What reading gives: a value unless something failed, the errors, and the tokens left. -/
structure Reply (α : Type) where
  value? : Option α
  errors : List ReadError
  rest : List Token

namespace Reader

/-- Drops tokens through the parenthesis that closes `depth` open lists. -/
def skipOpen : Nat → List Token → List Token
  | 0, ts => ts
  | _ + 1, [] => []
  | depth + 1, t :: ts =>
    match t.shape with
    | .eof => t :: ts
    | .lparen => skipOpen (depth + 2) ts
    | .rparen => skipOpen depth ts
    | _ => skipOpen (depth + 1) ts

/-- Drops one form and the quotes in front of it, but no closing parenthesis. -/
def skipForm : List Token → List Token
  | [] => []
  | t :: ts =>
    match t.shape with
    | .quote => skipForm ts
    | .eof | .rparen => t :: ts
    | .lparen => skipOpen 1 ts
    | _ => ts

/-- Drops the tokens glued to a failed fragment. A glued list is dropped whole if its inside is
glued to it too; `depth` counts the lists of it that are open. -/
def resync : Nat → List Token → List Token
  | _, [] => []
  | 0, t :: ts =>
    if t.shape = .eof ∨ t.spaced then t :: ts
    else if t.shape = .lparen ∧ glued ts then resync 1 ts
    else resync 0 ts
  | depth + 1, t :: ts =>
    match t.shape with
    | .eof => t :: ts
    | .lparen => resync (depth + 2) ts
    | .rparen => resync depth ts
    | _ => resync (depth + 1) ts

def atom (text : String) (loc : Location) : Except ReadError Node :=
  if text = "nil" then .ok (.literal .nil (some loc))
  else if text = "true" then .ok (.literal (.bool true) (some loc))
  else if text = "false" then .ok (.literal (.bool false) (some loc))
  else if Numeral.looksNumeric text.toList then
    match Numeral.int? text.toList, Numeral.float? text.toList with
    | some n, _ => .ok (.literal (.int n) (some loc))
    | none, some x => .ok (.literal (.float x) (some loc))
    | none, none => .error ⟨.invalidNumber text, some loc⟩
  else .ok (.symbol text (some loc))

def quotation (loc : Location) (quoted : Node) : Node :=
  .call [.symbol "quote" (some loc), quoted] (some loc)

def fail {α : Type} (fault : Fault) (loc : Location) (rest : List Token) : Reply α :=
  ⟨none, [⟨fault, some loc⟩], rest⟩

/-- The items of the list opened at `loc`, each read by `read`. There are no more of them than
`fuel`, which is at least the number of tokens. -/
def items (read : List Token → Reply Node) (loc : Location) : Nat → List Token → Reply (List Node)
  | 0, ts => fail .unterminatedList loc ts
  | _ + 1, [] => fail .unterminatedList loc []
  | fuel + 1, t :: ts =>
    match t.shape with
    | .eof => fail .unterminatedList loc (t :: ts)
    | .rparen => ⟨some [], [], ts⟩
    | _ =>
      let one := read (t :: ts)
      let more := items read loc fuel one.rest
      ⟨one.value?.bind fun n => more.value?.map (n :: ·), one.errors ++ more.errors, more.rest⟩

/-- The tokens after a quote that has no form. At top level, where there is all the room, a
closing parenthesis glued to the quote belongs to it. -/
def afterMissing (room : Nat) (ts : List Token) : List Token :=
  match ts with
  | t :: rest => if room = maxNesting ∧ t.shape = .rparen ∧ !t.spaced then rest else ts
  | [] => []

def missing (ts : List Token) : Bool :=
  match ts with
  | t :: _ => t.shape == .eof || t.shape == .rparen
  | [] => true

def form (file : String) (fuel : Nat) : Nat → List Token → Reply Node
  | _, [] => ⟨none, [], []⟩
  | room, t :: ts =>
    let loc : Location := ⟨file, t.line⟩
    match t.shape, room with
    | .lparen, 0 => fail .nesting loc (skipOpen 1 ts)
    | .quote, 0 => fail .nesting loc (skipForm ts)
    | .lparen, inner + 1 =>
      let r := items (form file fuel inner) loc fuel ts
      ⟨r.value?.map (.call · (some loc)), r.errors, r.rest⟩
    | .quote, inner + 1 =>
      if missing ts then fail .missingForm loc (afterMissing (inner + 1) ts)
      else
        let r := form file fuel inner ts
        ⟨r.value?.map (quotation loc), r.errors, r.rest⟩
    | .rparen, _ => fail .unexpectedClose loc ts
    | .string s, _ => ⟨some (.literal (.str s) (some loc)), [], ts⟩
    | .atom s, _ =>
      match atom s loc with
      | .ok n => ⟨some n, [], ts⟩
      | .error e => ⟨none, [e], ts⟩
    | .unterminated, _ => fail .unterminatedString loc ts
    | .eof, _ => fail .unexpectedEnd loc (t :: ts)

/-- The tokens from which reading goes on after the form that starts with `t`. -/
def recover (t : Token) (r : Reply Node) : List Token :=
  if r.value?.isNone ∧ t.shape ≠ .lparen ∧ t.shape ≠ .quote then resync 0 r.rest else r.rest

def program (read : List Token → Reply Node) : Nat → List Token → List Node × List ReadError
  | 0, _ | _, [] => ([], [])
  | fuel + 1, t :: ts =>
    if t.shape = .eof then ([], [])
    else
      let r := read (t :: ts)
      let (forms, errors) := program read fuel (recover t r)
      (r.value?.toList ++ forms, r.errors ++ errors)

def ofTokens (file : String) (ts : List Token) : List Node × List ReadError :=
  program (form file ts.length maxNesting) ts.length ts

end Reader

/-- The top-level forms of a source and the errors in it. Every form that could be built is
there, whatever the errors. -/
def read (source label : String) : List Node × List ReadError :=
  Reader.ofTokens label (tokenize source)

end ChannelLisp
