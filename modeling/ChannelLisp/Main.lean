import ChannelLisp.CommandLine

/-!
The program: arguments, files and standard streams around `CommandLine`.
-/

namespace ChannelLisp.Program

/-- The system's number for an error; it may come negated, in 32 bits. -/
def errorNumber (code : UInt32) : Nat :=
  min code.toNat (-code).toNat

def fault (e : IO.Error) : FileFault :=
  match e with
  | .noFileOrDirectory .. => .missing
  | .inappropriateType _ code _ => if errorNumber code = 20 then .notDirectory else .isDirectory
  | .invalidArgument _ code _ => if errorNumber code = 36 then .nameTooLong else .malformedName
  | e => .other (toString e)

def readText (path : String) : IO (Except FileFault String) := do
  match ← (IO.FS.readBinFile path).toBaseIO with
  | .ok bytes => return FileTree.decode bytes
  | .error e => return .error (fault e)

def flush (s : Session) (mark : Nat) : IO Unit := do
  let out ← IO.getStdout
  out.putStr (s.outputSince mark)
  out.flush

/-- The next line of a stream without its newline; nothing at the end. -/
partial def nextLine (input : IO.FS.Stream) (line : Array UInt8) : IO (Option (List UInt8)) := do
  let chunk ← input.read 1
  if h : 0 < chunk.size then
    if chunk[0] = 10 then return some line.toList else nextLine input (line.push chunk[0])
  else return if line.isEmpty then none else some line.toList

partial def converse (s : Session) : IO UInt32 := do
  let mark := s.mark
  match ← nextLine (← IO.getStdin) #[] with
  | none =>
    flush (s.report Repl.farewell) mark
    return 0
  | some line =>
    let (s', next) := Repl.answerBytes s line
    flush s' mark
    match next with
    | .more => converse s'
    | .stop code => return code.toUInt32

def run (o : CommandLine.Options) : IO UInt32 := do
  match o.task with
  | .snippet source =>
    flush (CommandLine.runSnippet o.session source) 0
    return 0
  | .script path =>
    let (s, code) := CommandLine.runScript o.session path (← readText path)
    flush s 0
    return code.toUInt32
  | .dialogue none =>
    let s := CommandLine.openDialogue o.session none
    flush s 0
    converse s
  | .dialogue (some path) =>
    let s := CommandLine.openDialogue o.session (some (path, ← readText path))
    flush s 0
    converse s

end ChannelLisp.Program

def main (args : List String) : IO UInt32 := do
  match ChannelLisp.CommandLine.parse? {} args with
  | none =>
    IO.eprintln "usage: [SCRIPT] [-l FILE] [-e SOURCE] [--no-prelude]"
    return 2
  | some o => ChannelLisp.Program.run o
