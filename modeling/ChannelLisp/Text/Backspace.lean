import ChannelLisp.Text.Bytes
import ChannelLisp.Text.Cluster

/-!
Backspaces in a typed line. A backspace takes back the cluster before it that is still there,
and does nothing at the start of the line. The size of a cluster is kept in one byte, so of a
cluster of 256 bytes or more only the rest of its size by 256 is taken back; where that would
cut a character in two, the line is lost.
-/

namespace ChannelLisp.Text.Backspace

def mark : Char := '\x08'

structure Draft where
  /-- Newest first. -/
  chars : List Char
  /-- The kept sizes of the clusters typed, newest first. -/
  sizes : List Nat

/-- The size of a cluster as it is kept. -/
def keptSize (cluster : List Char) : Nat := bytes cluster % 256

def type (d : Draft) (cluster : List Char) : Option Draft :=
  if cluster = [mark] then
    match d.sizes with
    | [] => some d
    | n :: sizes => (dropBytes n d.chars).map (⟨·, sizes⟩)
  else some ⟨cluster.reverse ++ d.chars, keptSize cluster :: d.sizes⟩

def typeAll : Draft → List (List Char) → Option Draft
  | d, [] => some d
  | d, cluster :: rest => (type d cluster).bind (typeAll · rest)

/-- The line that is left when all its backspaces have been followed. -/
def edit (line : String) : Option String :=
  (typeAll ⟨[], []⟩ (clusters line.toList)).map fun d => String.ofList d.chars.reverse

end ChannelLisp.Text.Backspace
