/-!
String literals. `escape` writes the inside of a literal, `unescape` gives the character an
escape stands for. A quote mark, a backslash, a newline, a tab and a carriage return are
escaped; any other character may be escaped and stands for itself.
-/

namespace ChannelLisp.Text

/-- The character that a backslash followed by `c` stands for. -/
def unescape (c : Char) : Char :=
  match c with
  | 'n' => '\n'
  | 'r' => '\r'
  | 't' => '\t'
  | c => c

def escape (c : Char) : List Char :=
  match c with
  | '"' => ['\\', '"']
  | '\\' => ['\\', '\\']
  | '\n' => ['\\', 'n']
  | '\t' => ['\\', 't']
  | '\r' => ['\\', 'r']
  | c => [c]

def quoted (s : String) : String :=
  String.ofList ('"' :: s.toList.flatMap escape ++ ['"'])

/-- An escaped character is itself, and then neither a quote mark nor a backslash, or a
backslash and the character that stands for it. -/
theorem escape_eq (c : Char) :
    (escape c = [c] ∧ c ≠ '"' ∧ c ≠ '\\') ∨ ∃ d, escape c = ['\\', d] ∧ unescape d = c := by
  unfold escape
  split
  · exact .inr ⟨'"', rfl, rfl⟩
  · exact .inr ⟨'\\', rfl, rfl⟩
  · exact .inr ⟨'n', rfl, rfl⟩
  · exact .inr ⟨'t', rfl, rfl⟩
  · exact .inr ⟨'r', rfl, rfl⟩
  · rename_i h1 h2 _ _ _
    exact .inl ⟨rfl, h1, h2⟩

end ChannelLisp.Text
