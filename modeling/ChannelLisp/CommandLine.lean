import ChannelLisp.Load
import ChannelLisp.Repl

/-!
The command line. A snippet given with `-e` wins over a script, and a script over the
dialogue; only the dialogue loads the file given with `-l`.
-/

namespace ChannelLisp.CommandLine

structure Options where
  script : Option String := none
  load : Option String := none
  snippet : Option String := none
  noPrelude : Bool := false
deriving DecidableEq, Repr

inductive Key where
  | load
  | snippet
deriving DecidableEq, Repr

/-- Gives an option its value. It has one at most, and the name of a file is not empty. -/
def Options.set? (o : Options) : Key → String → Option Options
  | .load, v => if o.load.isSome ∨ v = "" then none else some { o with load := some v }
  | .snippet, v => if o.snippet.isSome then none else some { o with snippet := some v }

def Options.setScript? (o : Options) (v : String) : Option Options :=
  if o.script.isSome ∨ v = "" then none else some { o with script := some v }

inductive Argument where
  /-- All arguments after it are plain. -/
  | endOfOptions
  | noPrelude
  /-- An option whose value is the next argument. -/
  | key (k : Key)
  | keyValue (k : Key) (value : String)
  | unknown
  | plain (value : String)
deriving DecidableEq, Repr

/-- A value joined to its option may have an equals sign in front. -/
def joined (cs : List Char) : String :=
  match cs with
  | '=' :: rest => String.ofList rest
  | cs => String.ofList cs

def shortKey? : Char → Option Key
  | 'l' => some .load
  | 'e' => some .snippet
  | _ => none

def longKey? (name : String) : Option Key :=
  if name = "load" then some .load
  else if name = "eval" then some .snippet
  else none

def Argument.ofString (arg : String) : Argument :=
  match arg.toList with
  | ['-'] => .plain arg
  | ['-', '-'] => .endOfOptions
  | '-' :: '-' :: rest =>
    let name := String.ofList (rest.takeWhile (· ≠ '='))
    match longKey? name, rest.dropWhile (· ≠ '=') with
    | some k, [] => .key k
    | some k, _ :: value => .keyValue k (String.ofList value)
    | none, [] => if name = "no-prelude" then .noPrelude else .unknown
    | none, _ => .unknown
  | '-' :: c :: rest =>
    match shortKey? c, rest with
    | some k, [] => .key k
    | some k, rest => .keyValue k (joined rest)
    | none, _ => .unknown
  | _ => .plain arg

def parse? (o : Options) : List String → Option Options
  | [] => some o
  | arg :: args =>
    match Argument.ofString arg, args with
    | .plain v, args => (o.setScript? v).bind (parse? · args)
    | .noPrelude, args => if o.noPrelude then none else parse? { o with noPrelude := true } args
    | .keyValue k v, args => (o.set? k v).bind (parse? · args)
    | .key k, v :: args =>
      match Argument.ofString v with
      | .plain v => (o.set? k v).bind (parse? · args)
      | _ => none
    | .key _, [] => none
    | .endOfOptions, [] => some o
    | .endOfOptions, [v] => o.setScript? v
    | .endOfOptions, _ => none
    | .unknown, _ => none

structure Exit where
  output : String
  code : Nat
deriving DecidableEq, Repr

def banner : String := "Piquant 0.1.0\n(Press Ctrl+C or type :quit to exit)\n"

inductive Task where
  | snippet (source : String)
  | script (path : String)
  | dialogue (load : Option String)
deriving DecidableEq, Repr

def Options.task (o : Options) : Task :=
  match o.snippet, o.script with
  | some source, _ => .snippet source
  | none, some path => .script path
  | none, none => .dialogue o.load

def Options.session (o : Options) : Session := .new .unlimited (!o.noPrelude)

def runSnippet (s : Session) (source : String) : Session := (s.printSource source "eval" true).1

def runScript (s : Session) (path : String) (content : Except FileFault String) : Session × Nat :=
  match s.load path content with
  | .ok (s', _) => (s', 0)
  | .error _ => (s, 1)

def openDialogue (s : Session) (file? : Option (String × Except FileFault String)) : Session :=
  let s := s.report banner
  match file? with
  | none => s
  | some (path, content) =>
    match s.load path content with
    | .ok (s', _) => s'
    | .error fault => s.report ("Error while loading file <" ++ path ++ ">: " ++ fault.text)

/-- The lines of the input; the newline at its end starts no line. -/
def lines (input : List UInt8) : List (List UInt8) :=
  input.foldr (fun b ls =>
    if b = 10 then [] :: ls
    else
      match ls with
      | [] => [[b]]
      | l :: ls => (b :: l) :: ls) []

def run (o : Options) (files : FileTree) (input : List UInt8) : Session × Nat :=
  match o.task with
  | .snippet source => (runSnippet o.session source, 0)
  | .script path => runScript o.session path (files.readText path)
  | .dialogue load =>
    let s := openDialogue o.session (load.map fun path => (path, files.readText path))
    Repl.converse s (lines input)

/-- Arguments that are not well formed end the program with code 2 and no output. -/
def execute (args : List String) (files : FileTree) (input : List UInt8) : Exit :=
  match parse? {} args with
  | none => ⟨"", 2⟩
  | some o =>
    let (s, code) := run o files input
    ⟨s.outputSince 0, code⟩

end ChannelLisp.CommandLine
