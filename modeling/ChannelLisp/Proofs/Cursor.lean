import ChannelLisp.Proofs.Slices
import Mathlib.Tactic

/-!
Reading with a cursor. The tokens stay in one list, and the reader has an index into it and a
count of the lists and quotes that are open around it. Here a lookup outside the list is
refused, as is a count that would fall below zero or does not fit, and there is fuel, whose
end is a refusal too. On the tokens of a source that is not too long nothing is refused, and
what is read is the same.
-/

namespace ChannelLisp

structure Cursor where
  current : Nat
  depth : Nat

/-- What reading with a cursor gives: a value unless something failed, the errors, and where
the cursor is. -/
structure Visit (α : Type) where
  value? : Option α
  errors : List ReadError
  cursor : Cursor

namespace Cursor

/-- One less, unless there is nothing less. -/
def pred? : Nat → Option Nat
  | 0 => none
  | n + 1 => some n

/-- A count of 31 bits. -/
def small? (n : Nat) : Option Nat := if n < 2 ^ 31 then some n else none

variable (ts : List Token)

/-- The token at an index, the last one if there is none. -/
def peek? (i : Nat) : Option Token := do
  let last ← pred? ts.length
  ts[min i last]?

/-- The token at an index and the index of the next; the last one has no next. -/
def advance? (i : Nat) : Option (Token × Nat) := do
  let t ← peek? ts i
  let last ← pred? ts.length
  if i < last then
    let next ← counter? (i + 1)
    return (t, next)
  else return (t, i)

/-- Moves behind the parenthesis that closes `depth` open lists. -/
def skipList? : (fuel depth i : Nat) → Option Nat
  | _, 0, i => some i
  | 0, _ + 1, _ => none
  | fuel + 1, depth + 1, i => do
    let next ← peek? ts i
    if next.shape = .eof then return i
    let (t, i') ← advance? ts i
    match t.shape with
    | .lparen =>
      let depth' ← small? (depth + 2)
      skipList? fuel depth' i'
    | .rparen => skipList? fuel depth i'
    | _ => skipList? fuel (depth + 1) i'

/-- Moves behind one form and the quotes in front of it. -/
def skipForm? : (fuel i : Nat) → Option Nat
  | 0, _ => none
  | fuel + 1, i => do
    let next ← peek? ts i
    match next.shape with
    | .eof | .rparen => return i
    | .quote =>
      let (_, i') ← advance? ts i
      skipForm? fuel i'
    | .lparen =>
      let (_, i') ← advance? ts i
      skipList? ts fuel 1 i'
    | _ =>
      let (_, i') ← advance? ts i
      return i'

/-- Moves behind what is glued to a failed fragment. -/
def synchronize? : (fuel i : Nat) → Option Nat
  | 0, _ => none
  | fuel + 1, i => do
    let next ← peek? ts i
    if next.shape = .eof ∨ next.spaced then return i
    let (t, i') ← advance? ts i
    let after ← peek? ts i'
    if t.shape = .lparen ∧ !after.spaced then
      let i'' ← skipList? ts fuel 1 i'
      synchronize? fuel i''
    else synchronize? fuel i'

def fail {α : Type} (fault : Fault) (loc : Location) (c : Cursor) : Visit α :=
  ⟨none, [⟨fault, some loc⟩], c⟩

/-- The items of a list, each read by `read`, through its closing parenthesis. -/
def items? (read : Cursor → Option (Visit Node)) (loc : Location) :
    Nat → Cursor → Option (Visit (List Node))
  | 0, _ => none
  | fuel + 1, c => do
    let next ← peek? ts c.current
    match next.shape with
    | .eof => return fail .unterminatedList loc c
    | .rparen =>
      let (_, i) ← advance? ts c.current
      return ⟨some [], [], ⟨i, c.depth⟩⟩
    | _ =>
      let one ← read c
      let more ← items? read loc fuel one.cursor
      return ⟨one.value?.bind fun n => more.value?.map (n :: ·), one.errors ++ more.errors,
        more.cursor⟩

/-- One form. The depth is that of the form, and is the same afterwards. -/
def form? (file : String) : Nat → Cursor → Option (Visit Node)
  | 0, _ => none
  | fuel + 1, c => do
    let (t, i) ← advance? ts c.current
    let loc : Location := ⟨file, t.line⟩
    match t.shape with
    | .lparen =>
      if maxNesting ≤ c.depth then
        let i' ← skipList? ts ts.length 1 i
        return fail .nesting loc ⟨i', c.depth⟩
      else
        let inner ← counter? (c.depth + 1)
        let r ← items? ts (form? file fuel) loc ts.length ⟨i, inner⟩
        let outer ← pred? r.cursor.depth
        return ⟨r.value?.map (.call · (some loc)), r.errors, ⟨r.cursor.current, outer⟩⟩
    | .quote =>
      if maxNesting ≤ c.depth then
        let i' ← skipForm? ts ts.length i
        return fail .nesting loc ⟨i', c.depth⟩
      else
        let next ← peek? ts i
        if next.shape = .eof ∨ next.shape = .rparen then
          if c.depth = 0 ∧ next.shape = .rparen ∧ !next.spaced then
            let (_, i') ← advance? ts i
            return fail .missingForm loc ⟨i', c.depth⟩
          else return fail .missingForm loc ⟨i, c.depth⟩
        else
          let inner ← counter? (c.depth + 1)
          let r ← form? file fuel ⟨i, inner⟩
          let outer ← pred? r.cursor.depth
          return ⟨r.value?.map (Reader.quotation loc), r.errors, ⟨r.cursor.current, outer⟩⟩
    | .rparen => return fail .unexpectedClose loc ⟨i, c.depth⟩
    | .string s => return ⟨some (.literal (.str s) (some loc)), [], ⟨i, c.depth⟩⟩
    | .atom s =>
      match Reader.atom s loc with
      | .ok n => return ⟨some n, [], ⟨i, c.depth⟩⟩
      | .error e => return ⟨none, [e], ⟨i, c.depth⟩⟩
    | .unterminated => return fail .unterminatedString loc ⟨i, c.depth⟩
    | .eof => return fail .unexpectedEnd loc ⟨i, c.depth⟩

/-- The index at which reading goes on after the form that starts with `t`. -/
def recover? (t : Token) (r : Visit Node) : Option Nat :=
  if r.value?.isNone ∧ t.shape ≠ .lparen ∧ t.shape ≠ .quote then
    synchronize? ts ts.length r.cursor.current
  else some r.cursor.current

/-- The top-level forms. -/
def program? (file : String) : Nat → Cursor → Option (List Node × List ReadError)
  | 0, _ => none
  | fuel + 1, c => do
    let t ← peek? ts c.current
    if t.shape = .eof then return ([], [])
    let r ← form? ts file (maxNesting + 1) c
    let i ← recover? ts t r
    let (forms, errors) ← program? file fuel ⟨i, r.cursor.depth⟩
    return (r.value?.toList ++ forms, r.errors ++ errors)

end Cursor

/-- The top-level forms of a source and the errors in it, unless something is refused. -/
def read? (source label : String) : Option (List Node × List ReadError) := do
  let ts ← tokenize? source
  Cursor.program? ts label ts.length ⟨0, 0⟩

namespace Cursor

/-! ### The tokens from an index on -/

/-- The end is the last token and only there. -/
def Ended (ts : List Token) : Prop :=
  ∃ us e, ts = us ++ [e] ∧ e.shape = .eof ∧ ∀ t ∈ us, t.shape ≠ .eof

/-- The tokens of a source that is not too long. -/
structure Readable (ts : List Token) : Prop where
  ended : Ended ts
  short : ts.length ≤ 2 ^ 31

/-- The tokens from an index on, of which there are some. -/
def At (ts : List Token) (i : Nat) (rest : List Token) : Prop := ts.drop i = rest ∧ rest ≠ []

variable {ts rest : List Token} {t : Token} {i : Nat}

lemma At.lt_length (h : At ts i rest) : i < ts.length := by
  obtain ⟨rfl, hne⟩ := h
  by_contra hle
  exact hne (List.drop_eq_nil_of_le (by omega))

/-- Fuel for all the tokens from an index on is not used up. -/
lemma At.exists_succ {fuel : Nat} (h : At ts i rest) (hf : rest.length ≤ fuel) :
    ∃ m, fuel = m + 1 := by
  have hpos := List.length_pos_of_ne_nil h.2
  exact ⟨fuel - 1, by omega⟩

lemma At.length_eq (h : At ts i rest) : rest.length = ts.length - i := by
  rw [← h.1, List.length_drop]

lemma At.length_le (h : At ts i rest) : rest.length ≤ ts.length :=
  h.length_eq.trans_le (Nat.sub_le ts.length i)

/-- An index before the last token. -/
lemma exists_at {us : List Token} {e : Token} (h : i < us.length) :
    ∃ t ∈ us, ∃ rest, At (us ++ [e]) i (t :: rest) := by
  refine ⟨us[i], List.getElem_mem h, us.drop (i + 1) ++ [e], ?_, by simp⟩
  rw [List.drop_append_of_le_length h.le, List.drop_eq_getElem_cons h, List.cons_append]

lemma At.next (h : At ts i (t :: rest)) (hne : rest ≠ []) : At ts (i + 1) rest := by
  refine ⟨?_, hne⟩
  rw [← List.drop_drop, h.1, List.drop_one, List.tail_cons]

lemma At.getElem? (h : At ts i (t :: rest)) : ts[i]? = some t := by
  have hhead : (ts.drop i)[0]? = some t := by rw [h.1]; rfl
  simpa using hhead

/-- Behind a token that is not the end there is another. -/
lemma At.rest_ne_nil (hts : Ended ts) (h : At ts i (t :: rest)) (ht : t.shape ≠ .eof) :
    rest ≠ [] := by
  obtain ⟨us, e, rfl, he, -⟩ := hts
  rintro rfl
  have hlast : (us ++ [e]).getLast? = some t := by
    rw [← List.take_append_drop i (us ++ [e]), h.1, List.getLast?_append]
    rfl
  rw [List.getLast?_concat] at hlast
  exact ht (Option.some.inj hlast ▸ he)

lemma pred?_length (h : At ts i rest) : pred? ts.length = some (ts.length - 1) := by
  have hlt := h.lt_length
  obtain ⟨n, hn⟩ : ∃ n, ts.length = n + 1 := ⟨ts.length - 1, by omega⟩
  rw [hn]
  rfl

lemma peek?_eq (h : At ts i (t :: rest)) : peek? ts i = some t := by
  have hlt := h.lt_length
  have hmin : min i (ts.length - 1) = i := by omega
  simp only [peek?, pred?_length h, Option.bind_eq_bind, Option.bind_some]
  rw [hmin, h.getElem?]

lemma advance?_eq (hts : Readable ts) (h : At ts i (t :: rest)) (ht : t.shape ≠ .eof) :
    advance? ts i = some (t, i + 1) ∧ At ts (i + 1) rest := by
  have hnext := h.next (h.rest_ne_nil hts.ended ht)
  have hlt := hnext.lt_length
  have hshort := hts.short
  have hi : i < ts.length - 1 := by omega
  have hcount : counter? (i + 1) = some (i + 1) := if_pos (by omega)
  refine ⟨?_, hnext⟩
  simp [advance?, peek?_eq h, pred?_length h, hi, hcount]

/-- At the end the cursor stays. -/
lemma advance?_eof (hts : Readable ts) (h : At ts i (t :: rest)) (ht : t.shape = .eof) :
    advance? ts i = some (t, i) := by
  obtain ⟨us, e, rfl, he, hus⟩ := hts.ended
  have hi : ¬ i < us.length := by
    intro hlt
    have hmem := h.getElem?
    rw [List.getElem?_append_left hlt] at hmem
    exact hus t (List.mem_of_getElem? hmem) ht
  have hlast : pred? (us ++ [e]).length = some us.length := by
    rw [List.length_append]
    rfl
  simp [advance?, peek?_eq h, hlast, hi, -List.length_append]

/-! ### Skipping -/

/-- Every list that is open has taken up a token, so their number is at most the index and fits
into 31 bits. -/
lemma skipList?_eq (hts : Readable ts) {fuel depth : Nat} (h : At ts i rest) (hd : depth ≤ i)
    (hf : rest.length ≤ fuel) :
    ∃ i', skipList? ts fuel depth i = some i' ∧ At ts i' (Reader.skipOpen depth rest) := by
  fun_induction Reader.skipOpen depth rest generalizing i fuel with
  | case1 rest =>
    refine ⟨i, ?_, h⟩
    cases fuel <;> rfl
  | case2 depth => exact absurd rfl h.2
  | case3 depth t rest ht =>
    obtain ⟨fuel, rfl⟩ := h.exists_succ hf
    exact ⟨i, by simp [skipList?, peek?_eq h, ht], h⟩
  | case4 depth t rest ht ih =>
    obtain ⟨fuel, rfl⟩ := h.exists_succ hf
    obtain ⟨hadvance, hnext⟩ := advance?_eq hts h (by simp [ht])
    have hlt := hnext.lt_length
    have hshort := hts.short
    have hsmall : small? (depth + 2) = some (depth + 2) := if_pos (by omega)
    obtain ⟨i', hskip, hat⟩ := ih hnext (by omega) (by simpa using hf)
    exact ⟨i', by simp [skipList?, peek?_eq h, hadvance, ht, hsmall, hskip], hat⟩
  | case5 depth t rest ht ih =>
    obtain ⟨fuel, rfl⟩ := h.exists_succ hf
    obtain ⟨hadvance, hnext⟩ := advance?_eq hts h (by simp [ht])
    obtain ⟨i', hskip, hat⟩ := ih hnext (by omega) (by simpa using hf)
    exact ⟨i', by simp [skipList?, peek?_eq h, hadvance, ht, hskip], hat⟩
  | case6 depth t rest he hl hr ih =>
    replace he : t.shape ≠ .eof := he
    obtain ⟨fuel, rfl⟩ := h.exists_succ hf
    obtain ⟨hadvance, hnext⟩ := advance?_eq hts h he
    obtain ⟨i', hskip, hat⟩ := ih hnext (by omega) (by simpa using hf)
    refine ⟨i', ?_, hat⟩
    rw [skipList?]
    simp [peek?_eq h, hadvance, he, hskip]

lemma skipForm?_eq (hts : Readable ts) {fuel : Nat} (h : At ts i rest) (hf : rest.length ≤ fuel) :
    ∃ i', skipForm? ts fuel i = some i' ∧ At ts i' (Reader.skipForm rest) := by
  fun_induction Reader.skipForm rest generalizing i fuel with
  | case1 => exact absurd rfl h.2
  | case2 t rest ht ih =>
    obtain ⟨fuel, rfl⟩ := h.exists_succ hf
    obtain ⟨hadvance, hnext⟩ := advance?_eq hts h (by simp [ht])
    obtain ⟨i', hskip, hat⟩ := ih hnext (by simpa using hf)
    exact ⟨i', by simp [skipForm?, peek?_eq h, hadvance, ht, hskip], hat⟩
  | case3 t rest ht =>
    obtain ⟨fuel, rfl⟩ := h.exists_succ hf
    exact ⟨i, by simp [skipForm?, peek?_eq h, ht], h⟩
  | case4 t rest ht =>
    obtain ⟨fuel, rfl⟩ := h.exists_succ hf
    exact ⟨i, by simp [skipForm?, peek?_eq h, ht], h⟩
  | case5 t rest ht =>
    obtain ⟨fuel, rfl⟩ := h.exists_succ hf
    obtain ⟨hadvance, hnext⟩ := advance?_eq hts h (by simp [ht])
    obtain ⟨i', hskip, hat⟩ := skipList?_eq hts hnext (by omega : 1 ≤ i + 1) (by simpa using hf)
    exact ⟨i', by simp [skipForm?, peek?_eq h, hadvance, ht, hskip], hat⟩
  | case6 t rest hq he hr hl =>
    obtain ⟨fuel, rfl⟩ := h.exists_succ hf
    obtain ⟨hadvance, hnext⟩ := advance?_eq hts h he
    refine ⟨i + 1, ?_, hnext⟩
    rw [skipForm?]
    simp [peek?_eq h, hadvance]

/-- Inside glued lists, recovery first leaves them. -/
lemma resync_eq (depth : Nat) (us : List Token) :
    Reader.resync depth us = Reader.resync 0 (Reader.skipOpen depth us) := by
  induction us generalizing depth with
  | nil => cases depth <;> rfl
  | cons t us ih =>
    cases depth with
    | zero => rfl
    | succ depth =>
      rcases ht : t.shape <;> simp [Reader.resync, Reader.skipOpen, ht, ih]

lemma synchronize?_eq (hts : Readable ts) {fuel : Nat} (h : At ts i rest)
    (hf : rest.length ≤ fuel) :
    ∃ i', synchronize? ts fuel i = some i' ∧ At ts i' (Reader.resync 0 rest) := by
  induction fuel generalizing rest i with
  | zero => exact absurd (List.length_eq_zero_iff.1 (Nat.le_zero.1 hf)) h.2
  | succ fuel ih =>
    rcases rest with _ | ⟨t, rest⟩
    · exact absurd rfl h.2
    by_cases hstop : t.shape = .eof ∨ t.spaced = true
    · exact ⟨i, by simp [synchronize?, peek?_eq h, hstop], by simpa [Reader.resync, hstop] using h⟩
    obtain ⟨he, hspaced⟩ := not_or.1 hstop
    obtain ⟨hadvance, hnext⟩ := advance?_eq hts h he
    rcases rest with _ | ⟨u, rest⟩
    · exact absurd rfl hnext.2
    have hlen : (u :: rest).length ≤ fuel := by simpa using hf
    by_cases hglued : t.shape = .lparen ∧ u.spaced = false
    · obtain ⟨i', hskip, hat⟩ := skipList?_eq hts hnext (by omega : 1 ≤ i + 1) hlen
      have hshorter := (Reader.skipOpen_suffix 1 (u :: rest)).length_le
      obtain ⟨i'', hsync, hat'⟩ := ih hat (by omega)
      refine ⟨i'', ?_, ?_⟩
      · simp [synchronize?, peek?_eq h, peek?_eq hnext, hadvance, hspaced, hglued, hskip, hsync]
      · rw [Reader.resync, if_neg hstop, if_pos (by simpa [glued] using hglued), resync_eq]
        exact hat'
    · obtain ⟨i', hsync, hat⟩ := ih hnext hlen
      refine ⟨i', ?_, ?_⟩
      · simp [synchronize?, peek?_eq h, peek?_eq hnext, hadvance, he, hspaced, hglued, hsync]
      · rw [Reader.resync, if_neg hstop, if_neg (by simpa [glued] using hglued)]
        exact hat

/-! ### Reading -/

variable {α : Type} {d : Nat}

/-- Reading with the cursor gave what reading gives, and the cursor is at the tokens left. The
depth is what it was. -/
def Follows (ts : List Token) (d : Nat) (r : Reply α) (v : Option (Visit α)) : Prop :=
  ∃ i, v = some ⟨r.value?, r.errors, ⟨i, d⟩⟩ ∧ At ts i r.rest

lemma items?_eq (hts : Readable ts) {read? : Cursor → Option (Visit Node)}
    {read : List Token → Reply Node}
    (hread : ∀ i us, At ts i us → Follows ts d (read us) (read? ⟨i, d⟩))
    (hless : ∀ t us, t.shape ≠ .eof → (read (t :: us)).rest.length < (t :: us).length)
    (loc : Location) {n n' : Nat} (h : At ts i rest) (hn : rest.length ≤ n)
    (hn' : rest.length ≤ n') :
    Follows ts d (Reader.items read loc n rest) (items? ts read? loc n' ⟨i, d⟩) := by
  induction n generalizing rest i n' with
  | zero => exact absurd (List.length_eq_zero_iff.1 (Nat.le_zero.1 hn)) h.2
  | succ n ih =>
    rcases rest with _ | ⟨t, rest⟩
    · exact absurd rfl h.2
    obtain ⟨n', rfl⟩ := h.exists_succ hn'
    by_cases he : t.shape = .eof
    · refine ⟨i, ?_, ?_⟩
      · simp [items?, Reader.items, peek?_eq h, he, fail, Reader.fail]
      · simpa [Reader.items, he, Reader.fail] using h
    obtain ⟨hadvance, hnext⟩ := advance?_eq hts h he
    by_cases hc : t.shape = .rparen
    · refine ⟨i + 1, ?_, ?_⟩
      · simp [items?, Reader.items, peek?_eq h, hc, hadvance]
      · simpa [Reader.items, hc] using hnext
    have hlt := hless t rest he
    obtain ⟨j, hone, hat⟩ := hread i (t :: rest) h
    obtain ⟨k, hmore, hat'⟩ : Follows ts d (Reader.items read loc n (read (t :: rest)).rest)
        (items? ts read? loc n' ⟨j, d⟩) := ih hat (by omega) (by omega)
    refine ⟨k, ?_, ?_⟩
    · rw [items?, Reader.items_cons he hc]
      simp [peek?_eq h, hone, hmore]
    · rw [Reader.items_cons he hc]
      exact hat'

/-- A form that is one token. -/
lemma follows_token (hts : Readable ts) (h : At ts i (t :: rest)) (ht : t.shape ≠ .eof)
    (value? : Option α) (errors : List ReadError) :
    Follows ts d ⟨value?, errors, rest⟩ (some ⟨value?, errors, ⟨i + 1, d⟩⟩) :=
  ⟨i + 1, rfl, (advance?_eq hts h ht).2⟩

/-- A form at depth `d`, of whose inside `room` more levels are read. -/
lemma form?_eq (hts : Readable ts) (file : String) {n : Nat} (hn : ts.length ≤ n) {room k : Nat}
    (hroom : d + room = maxNesting) (hk : room ≤ k) (h : At ts i rest) :
    Follows ts d (Reader.form file n room rest) (form? ts file (k + 1) ⟨i, d⟩) := by
  refine Reader.form_induct (P := fun room rest r => ∀ d k i, d + room = maxNesting → room ≤ k →
      At ts i rest → Follows ts d r (form? ts file (k + 1) ⟨i, d⟩))
    file n ?nil ?deepList ?deepQuote ?list ?lone ?quote ?close ?string ?atom ?badAtom ?cut ?eof
    room rest d k i hroom hk h
  case nil => exact fun room d k i _ _ h => absurd rfl h.2
  case deepList =>
    intro t rest ht d k i hroom hk h
    obtain ⟨hadvance, hnext⟩ := advance?_eq hts h (by simp [ht])
    obtain ⟨j, hskip, hat⟩ := skipList?_eq hts hnext (by omega : 1 ≤ i + 1) hnext.length_le
    have hdeep : maxNesting ≤ d := by omega
    exact ⟨j, by simp [form?, hadvance, ht, hdeep, hskip, fail, Reader.fail], hat⟩
  case deepQuote =>
    intro t rest ht d k i hroom hk h
    obtain ⟨hadvance, hnext⟩ := advance?_eq hts h (by simp [ht])
    obtain ⟨j, hskip, hat⟩ := skipForm?_eq hts hnext hnext.length_le
    have hdeep : maxNesting ≤ d := by omega
    exact ⟨j, by simp [form?, hadvance, ht, hdeep, hskip, fail, Reader.fail], hat⟩
  case list =>
    rintro room t rest r ht ih rfl d k i hroom hk h
    obtain ⟨k, rfl⟩ : ∃ m, k = m + 1 := ⟨k - 1, by omega⟩
    obtain ⟨hadvance, hnext⟩ := advance?_eq hts h (by simp [ht])
    have hlen := hnext.length_le
    have hshallow : ¬ maxNesting ≤ d := by omega
    have hdepth : counter? (d + 1) = some (d + 1) := if_pos (by unfold maxNesting at hroom; omega)
    -- the items are one level deeper, and leave the cursor there
    have hread (j : Nat) (us : List Token) (hj : At ts j us) :
        Follows ts (d + 1) (Reader.form file n room us) (form? ts file (k + 1) ⟨j, d + 1⟩) :=
      ih us (d + 1) k j (by omega) (by omega) hj
    obtain ⟨j, hitems, hat⟩ := items?_eq hts hread
      (fun u us hu => (Reader.form_takes u us hu).length_lt) ⟨file, t.line⟩ hnext
      (by omega : rest.length ≤ n) hlen
    refine ⟨j, ?_, hat⟩
    rw [form?]
    simp [hadvance, ht, hshallow, hdepth, hitems, pred?]
  case lone =>
    intro room t rest ht hmissing d k i hroom hk h
    obtain ⟨hadvance, hnext⟩ := advance?_eq hts h (by simp [ht])
    have hshallow : ¬ maxNesting ≤ d := by omega
    rcases rest with _ | ⟨u, rest⟩
    · exact absurd rfl hnext.2
    have hu : u.shape = .eof ∨ u.shape = .rparen := by simpa [Reader.missing] using hmissing
    -- all the room is there exactly at top level
    have htop : room + 1 = maxNesting ↔ d = 0 := by omega
    by_cases hglued : d = 0 ∧ u.shape = .rparen ∧ u.spaced = false
    · obtain ⟨rfl, hclose, hspaced⟩ := hglued
      obtain ⟨hadvance', hnext'⟩ := advance?_eq hts hnext (by simp [hclose])
      refine ⟨i + 1 + 1, ?_, ?_⟩
      · simp [form?, hadvance, ht, hshallow, peek?_eq hnext, hclose, hspaced, hadvance', fail,
          Reader.fail]
      · simpa [Reader.fail, Reader.afterMissing, htop, hclose, hspaced] using hnext'
    · refine ⟨i + 1, ?_, ?_⟩
      · simp [form?, hadvance, ht, hshallow, peek?_eq hnext, hu, hglued, fail, Reader.fail]
      · simpa [Reader.fail, Reader.afterMissing, htop, hglued] using hnext
  case quote =>
    intro room t rest r ht hmissing ih d k i hroom hk h
    obtain ⟨k, rfl⟩ : ∃ m, k = m + 1 := ⟨k - 1, by omega⟩
    obtain ⟨hadvance, hnext⟩ := advance?_eq hts h (by simp [ht])
    have hshallow : ¬ maxNesting ≤ d := by omega
    have hdepth : counter? (d + 1) = some (d + 1) := if_pos (by unfold maxNesting at hroom; omega)
    obtain ⟨j, hform, hat⟩ := ih (d + 1) k (i + 1) (by omega) (by omega) hnext
    rcases rest with _ | ⟨u, rest⟩
    · exact absurd rfl hnext.2
    obtain ⟨hu, hu'⟩ : u.shape ≠ .eof ∧ u.shape ≠ .rparen := by
      simpa [Reader.missing] using hmissing
    refine ⟨j, ?_, hat⟩
    rw [form?]
    simp [hadvance, ht, hshallow, hdepth, peek?_eq hnext, hu, hu', hform, pred?]
  case close =>
    intro room t rest ht d k i hroom hk h
    have hne : t.shape ≠ .eof := by simp [ht]
    simpa [form?, advance?_eq hts h hne, ht, fail, Reader.fail] using
      follows_token hts h hne none [⟨.unexpectedClose, some ⟨file, t.line⟩⟩]
  case string =>
    intro room t rest s ht d k i hroom hk h
    have hne : t.shape ≠ .eof := by simp [ht]
    simpa [form?, advance?_eq hts h hne, ht] using
      follows_token hts h hne (some (Node.literal (.str s) (some ⟨file, t.line⟩))) []
  case atom =>
    intro room t rest s v ht hv d k i hroom hk h
    have hne : t.shape ≠ .eof := by simp [ht]
    simpa [form?, advance?_eq hts h hne, ht, Reader.atom_eq_ok_iff.2 hv] using
      follows_token hts h hne (some v) []
  case badAtom =>
    intro room t rest s e ht he d k i hroom hk h
    have hne : t.shape ≠ .eof := by simp [ht]
    simpa [form?, advance?_eq hts h hne, ht, he] using follows_token hts h hne none [e]
  case cut =>
    intro room t rest ht d k i hroom hk h
    have hne : t.shape ≠ .eof := by simp [ht]
    simpa [form?, advance?_eq hts h hne, ht, fail, Reader.fail] using
      follows_token hts h hne none [⟨.unterminatedString, some ⟨file, t.line⟩⟩]
  case eof =>
    intro room t rest ht d k i hroom hk h
    exact ⟨i, by simp [form?, advance?_eof hts h ht, ht, fail, Reader.fail], h⟩

lemma recover?_eq (hts : Readable ts) (t : Token) {r : Reply Node} (h : At ts i r.rest) :
    ∃ j, recover? ts t ⟨r.value?, r.errors, ⟨i, d⟩⟩ = some j ∧ At ts j (Reader.recover t r) := by
  unfold recover? Reader.recover
  split
  · exact synchronize?_eq hts h h.length_le
  · exact ⟨i, rfl, h⟩

lemma program?_eq (hts : Readable ts) (file : String) {n : Nat} (hn : ts.length ≤ n) {k k' : Nat}
    (h : At ts i rest) (hk : rest.length ≤ k) (hk' : rest.length ≤ k') :
    program? ts file k' ⟨i, 0⟩ = some (Reader.program (Reader.form file n maxNesting) k rest) := by
  induction k generalizing rest i k' with
  | zero => exact absurd (List.length_eq_zero_iff.1 (Nat.le_zero.1 hk)) h.2
  | succ k ih =>
    rcases rest with _ | ⟨t, rest⟩
    · exact absurd rfl h.2
    obtain ⟨k', rfl⟩ := h.exists_succ hk'
    by_cases ht : t.shape = .eof
    · simp [program?, Reader.program, peek?_eq h, ht]
    have hless := @Reader.recover_length_lt file n maxNesting t ht rest
    obtain ⟨j, hform, hat⟩ := form?_eq hts file hn (Nat.zero_add _) le_rfl h
    obtain ⟨j', hrecover, hat'⟩ := recover?_eq (d := 0) hts t hat
    have hmore := ih hat' (by omega) (by omega : _ ≤ k')
    rw [Reader.program_cons ht]
    simp [program?, peek?_eq h, ht, hform, hrecover, hmore]

end Cursor

/-- **Reading never leaves its bounds**: in a source of less than 2^31 bytes every slice of the
text and every index into the tokens is in range, no count overflows, and none falls below
zero. -/
theorem read?_eq {source : String} (h : source.utf8ByteSize < 2 ^ 31) (label : String) :
    read? source label = some (read source label) := by
  obtain ⟨us, e, htok, he, hus⟩ := Scan.tokens_eq source.toList
  have hlen := length_tokenize_le source
  have hts : Cursor.Readable (tokenize source) :=
    ⟨⟨us, e, htok, he, fun t ht => (hus t ht).1⟩, by omega⟩
  have hstart : Cursor.At (tokenize source) 0 (tokenize source) := by
    refine ⟨rfl, ?_⟩
    rw [tokenize, htok]
    simp
  have hprogram := Cursor.program?_eq hts label le_rfl hstart le_rfl le_rfl
  simp [read?, tokenize?_eq h, hprogram, read, Reader.ofTokens]

end ChannelLisp
