/-!
Files that can be loaded: a directory as a list of relative paths with their contents. A path
is resolved name by name, as the file systems of Unix do, and what cannot be read has a fault
with its customary text.
-/

namespace ChannelLisp

inductive FileFault where
  | missing
  | notDirectory
  | isDirectory
  | nameTooLong
  | malformedName
  | notText
  | other (message : String)
deriving DecidableEq, Repr

def FileFault.message : FileFault → String
  | .missing => "No such file or directory (os error 2)"
  | .notDirectory => "Not a directory (os error 20)"
  | .isDirectory => "Is a directory (os error 21)"
  | .nameTooLong => "File name too long (os error 36)"
  | .malformedName => "file name contained an unexpected NUL byte"
  | .notText => "stream did not contain valid UTF-8"
  | .other message => message

def FileFault.text (f : FileFault) : String := "I/O error: " ++ f.message

structure FileTree where
  /-- Contents by path; the names of a path are separated by slashes. -/
  files : List (String × ByteArray)
  /-- Directories that may be empty. -/
  directories : List String := []

namespace FileTree

def names (path : String) : List String := path.splitOn "/"

def file? (t : FileTree) (path : List String) : Option ByteArray :=
  (t.files.find? fun f => names f.1 == path).map (·.2)

/-- Some file lies below these names, or they name a directory. -/
def isDirectory (t : FileTree) (path : List String) : Bool :=
  t.files.any (fun f => path.isPrefixOf (names f.1) && path.length < (names f.1).length)
    || t.directories.any fun d => names d == path

/-- What is known of the tree that absolute paths refer to: the directory for temporary files
and the null device. -/
def system : FileTree where
  files := [("dev/null", .empty)]
  directories := ["tmp"]

/-- Longest name, in bytes. -/
def maxName : Nat := 255

def maxPath : Nat := 4095

/-- Resolves names one after another. `here` is the directory reached so far, or nothing when
the path has left the tree; there everything is missing. `above` is where two dots lead from
the directory at the top. -/
def resolve (t : FileTree) (above : Option (List String)) :
    (here : Option (List String)) → List String → Except FileFault ByteArray
  | _, [] => .error .isDirectory
  | here, name :: rest =>
    if name = "" ∨ name = "." then resolve t above here rest
    else if name = ".." then
      match here with
      | none => resolve t above none rest
      | some [] => resolve t above above rest
      | some (n :: ns) => resolve t above (some (n :: ns).dropLast) rest
    else if maxName < name.utf8ByteSize then .error .nameTooLong
    else
      match here with
      | none => .error .missing
      | some dir =>
        let path := dir ++ [name]
        match t.file? path with
        | some content => if rest = [] then .ok content else .error .notDirectory
        | none => if t.isDirectory path then resolve t above (some path) rest else .error .missing

def content (t : FileTree) (path : String) : Except FileFault ByteArray :=
  if path.toList.contains '\x00' then .error .malformedName
  else if path = "" then .error .missing
  else if maxPath < path.utf8ByteSize then .error .nameTooLong
  else
    match names path with
    | "" :: rest => system.resolve (some []) (some []) rest
    | path => t.resolve none (some []) path

def decode (bytes : ByteArray) : Except FileFault String :=
  match String.fromUTF8? bytes with
  | some s => .ok s
  | none => .error .notText

def readText (t : FileTree) (path : String) : Except FileFault String :=
  (t.content path).bind decode

end FileTree

end ChannelLisp
