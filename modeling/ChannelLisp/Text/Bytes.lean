/-!
Texts by bytes: how many bytes characters take in UTF-8, and the characters that stand between two
byte offsets. Where an offset would cut a character in two there are none.
-/

namespace ChannelLisp.Text

def bytes : List Char → Nat
  | [] => 0
  | c :: cs => c.utf8Size + bytes cs

def dropBytes : Nat → List Char → Option (List Char)
  | 0, cs => some cs
  | _ + 1, [] => none
  | n + 1, c :: cs => if c.utf8Size ≤ n + 1 then dropBytes (n + 1 - c.utf8Size) cs else none

def takeBytes : Nat → List Char → Option (List Char)
  | 0, _ => some []
  | _ + 1, [] => none
  | n + 1, c :: cs =>
    if c.utf8Size ≤ n + 1 then (takeBytes (n + 1 - c.utf8Size) cs).map (c :: ·) else none

def slice? (cs : List Char) (start stop : Nat) : Option (List Char) :=
  if start ≤ stop then (dropBytes start cs).bind (takeBytes (stop - start)) else none

@[simp] theorem bytes_nil : bytes [] = 0 := rfl

@[simp] theorem bytes_cons (c : Char) (cs : List Char) :
    bytes (c :: cs) = c.utf8Size + bytes cs := rfl

@[simp] theorem bytes_append (us vs : List Char) : bytes (us ++ vs) = bytes us + bytes vs := by
  induction us with
  | nil => simp
  | cons c us ih => rw [List.cons_append, bytes_cons, bytes_cons, ih, Nat.add_assoc]

theorem length_le_bytes (cs : List Char) : cs.length ≤ bytes cs := by
  induction cs with
  | nil => exact Nat.le_refl 0
  | cons c cs ih =>
    have hc := c.utf8Size_pos
    rw [List.length_cons, bytes_cons]
    omega

theorem utf8ByteSize_ofList (cs : List Char) : (String.ofList cs).utf8ByteSize = bytes cs := by
  induction cs with
  | nil => rfl
  | cons c cs ih => simp [ih]

theorem bytes_toList (s : String) : bytes s.toList = s.utf8ByteSize := by
  rw [← utf8ByteSize_ofList, String.ofList_toList]

/-- The first character is inside the bytes, and the others make up the rest of them. -/
theorem bytes_cons_eq_succ (c : Char) (cs : List Char) :
    ∃ n, bytes (c :: cs) = n + 1 ∧ c.utf8Size ≤ n + 1 ∧ n + 1 - c.utf8Size = bytes cs := by
  have hc := c.utf8Size_pos
  refine ⟨c.utf8Size - 1 + bytes cs, ?_, ?_, ?_⟩
  · rw [bytes_cons]
    omega
  · omega
  · omega

theorem dropBytes_bytes (us vs : List Char) : dropBytes (bytes us) (us ++ vs) = some vs := by
  induction us with
  | nil => cases vs <;> rfl
  | cons c us ih =>
    obtain ⟨n, hn, hfits, hrest⟩ := bytes_cons_eq_succ c us
    rw [hn, List.cons_append, dropBytes, if_pos hfits, hrest, ih]

theorem takeBytes_bytes (us vs : List Char) : takeBytes (bytes us) (us ++ vs) = some us := by
  induction us with
  | nil => cases vs <;> rfl
  | cons c us ih =>
    obtain ⟨n, hn, hfits, hrest⟩ := bytes_cons_eq_succ c us
    rw [hn, List.cons_append, takeBytes, if_pos hfits, hrest, ih, Option.map_some]

/-- What stands between two stretches of a text is cut out at their offsets. -/
theorem slice?_bytes (us vs ws : List Char) :
    slice? (us ++ vs ++ ws) (bytes us) (bytes (us ++ vs)) = some vs := by
  have hle : bytes us ≤ bytes (us ++ vs) := by simp
  have hsize : bytes (us ++ vs) - bytes us = bytes vs := by simp
  rw [slice?, if_pos hle, hsize, List.append_assoc, dropBytes_bytes, Option.bind_some,
    takeBytes_bytes]

end ChannelLisp.Text
