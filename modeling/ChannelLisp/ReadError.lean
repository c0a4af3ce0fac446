import ChannelLisp.Location

/-!
Errors of reading: a fault and its place. Reading goes on after a fault, so errors come in
lists, in the order in which they were found.
-/

namespace ChannelLisp

/-- Deepest nesting of lists and quotes that is read. -/
def maxNesting : Nat := 256

inductive Fault where
  | nesting
  | unexpectedClose
  | missingForm
  | unterminatedString
  | unterminatedList
  | unexpectedEnd
  | invalidNumber (text : String)
  | other (message : String)
deriving DecidableEq, Repr

def Fault.message : Fault → String
  | .nesting => "nesting exceeds " ++ toString maxNesting ++ " levels"
  | .unexpectedClose => "unexpected `)`"
  | .missingForm => "quote is missing its form"
  | .unterminatedString => "unterminated string literal"
  | .unterminatedList => "unterminated list"
  | .unexpectedEnd => "unexpected end of input"
  | .invalidNumber s => "invalid number literal `" ++ s ++ "`"
  | .other message => message

structure ReadError where
  fault : Fault
  loc? : Option Location
deriving DecidableEq, Repr

def ReadError.text (e : ReadError) : String :=
  match e.loc? with
  | some l =>
    "Parsing error (" ++ l.file ++ ": " ++ toString l.line ++ "): " ++ e.fault.message
  | none => "Parsing error: " ++ e.fault.message

/-- The report of several errors, one below the other. -/
def ReadError.report (es : List ReadError) : String :=
  "\n".intercalate (es.map text)

end ChannelLisp
