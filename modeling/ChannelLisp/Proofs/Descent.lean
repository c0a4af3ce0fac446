import ChannelLisp.Proofs.Cursor

/-!
Reading as a recursive descent over one state: the cursor, the depth, and the errors so far. The
state also has the indices at which `form` was entered, which reading itself never looks at.

A loop may go through `rounds` rounds, and `calls` calls of `form` may be inside one another. A
reading that needs more has no result, as has one that looks for a token where there is none or
counts the depth below zero. So a result for all greater bounds means that the reading ends
without them, and that its calls are nested no deeper than the least.

Main statement: from any token before the end and any depth that is allowed, `form` comes back
further on and at the same depth, with a node or with new errors but not both, and its calls are
nested no deeper than there are levels left. A run over all the tokens never enters `form` at the
end.
-/

namespace ChannelLisp

namespace Descent

structure State where
  current : Nat
  depth : Nat
  errors : List ReadError
  /-- Where `form` was entered. -/
  entries : List Nat

/-- Where a run over all the tokens starts. -/
def start : State := ⟨0, 0, [], []⟩

abbrev Reading := StateT State Option

/-- A call of `form` starts here. -/
def enter : Reading Unit :=
  modify fun s => { s with entries := s.entries ++ [s.current] }

def complain (e : ReadError) : Reading Unit :=
  modify fun s => { s with errors := s.errors ++ [e] }

def deepen : Reading Unit :=
  modify fun s => { s with depth := s.depth + 1 }

def surface : Reading Unit := do
  let s ← get
  let outer ← Cursor.pred? s.depth
  set { s with depth := outer }

variable (ts : List Token)

/-- The token at the cursor. -/
def peek : Reading Token := do
  Cursor.peek? ts (← get).current

/-- Takes the token at the cursor; the last one stays. -/
def advance : Reading Token := do
  let t ← peek ts
  let last ← Cursor.pred? ts.length
  modify fun s => if s.current < last then { s with current := s.current + 1 } else s
  return t

/-- Moves behind the parenthesis that closes `depth` open lists. -/
def skipList : (rounds depth : Nat) → Reading Unit
  | 0, _ => failure
  | rounds + 1, depth => do
    if depth = 0 then return
    if (← peek ts).shape = .eof then return
    match (← advance ts).shape with
    | .lparen => skipList rounds (depth + 1)
    | .rparen => skipList rounds (depth - 1)
    | _ => skipList rounds depth

/-- Moves behind one form and the quotes in front of it. -/
def skipForm : (rounds : Nat) → Reading Unit
  | 0 => failure
  | rounds + 1 => do
    match (← peek ts).shape with
    | .quote =>
      let _ ← advance ts
      skipForm rounds
    | .eof | .rparen => return
    | _ =>
      if (← advance ts).shape = .lparen then skipList ts rounds 1

/-- Moves behind what is glued to a failed fragment. -/
def synchronize : (rounds : Nat) → Reading Unit
  | 0 => failure
  | rounds + 1 => do
    let next ← peek ts
    if next.shape = .eof ∨ next.spaced then return
    let t ← advance ts
    let after ← peek ts
    if t.shape = .lparen ∧ after.spaced = false then skipList ts rounds 1
    synchronize rounds

/-- The list opened at `loc`, of which the items `done` are read, and maybe some that failed. -/
def items (read : Reading (Option Node)) (loc : Location) :
    (rounds : Nat) → (done : List Node) → (failed : Bool) → Reading (Option Node)
  | 0, _, _ => failure
  | rounds + 1, done, failed => do
    match (← peek ts).shape with
    | .eof =>
      complain ⟨.unterminatedList, loc⟩
      return none
    | .rparen =>
      let _ ← advance ts
      return if failed then none else some (.call done (some loc))
    | _ =>
      match ← read with
      | some n => items read loc rounds (done ++ [n]) failed
      | none => items read loc rounds done true

variable (file : String) (rounds : Nat)

/-- One form. -/
def form : (calls : Nat) → Reading (Option Node)
  | 0 => failure
  | calls + 1 => do
    enter
    let t ← advance ts
    let loc : Location := ⟨file, t.line⟩
    let depth := (← get).depth
    if (t.shape = .lparen ∨ t.shape = .quote) ∧ maxNesting ≤ depth then
      complain ⟨.nesting, loc⟩
      if t.shape = .lparen then skipList ts rounds 1 else skipForm ts rounds
      return none
    match t.shape with
    | .lparen =>
      deepen
      let list ← items ts (form calls) loc rounds [] false
      surface
      return list
    | .rparen =>
      complain ⟨.unexpectedClose, loc⟩
      return none
    | .quote =>
      let next ← peek ts
      if next.shape = .eof ∨ next.shape = .rparen then
        complain ⟨.missingForm, loc⟩
        -- at top level a closing parenthesis that is glued belongs to the quote
        if depth = 0 ∧ next.shape = .rparen ∧ next.spaced = false then
          let _ ← advance ts
        return none
      deepen
      let quoted ← form calls
      surface
      return quoted.map (Reader.quotation loc)
    | .string s => return some (.literal (.str s) (some loc))
    | .atom s =>
      match Reader.atom s loc with
      | .ok n => return some n
      | .error e =>
        complain e
        return none
    | .unterminated =>
      complain ⟨.unterminatedString, loc⟩
      return none
    | .eof =>
      complain ⟨.unexpectedEnd, loc⟩
      return none

/-- The top-level forms, of which `done` are read. -/
def program (read : Reading (Option Node)) :
    (rounds : Nat) → (done : List Node) → Reading (List Node)
  | 0, _ => failure
  | rounds + 1, done => do
    let opener ← peek ts
    if opener.shape = .eof then return done
    match ← read with
    | some n => program read rounds (done ++ [n])
    | none =>
      if opener.shape ≠ .lparen ∧ opener.shape ≠ .quote then synchronize ts rounds
      program read rounds done

/-! ### Single moves -/

open Cursor (At Ended)

variable {ts rest : List Token} {t : Token} {s : State}

@[simp] lemma run_complain (e : ReadError) :
    (complain e).run s = some ((), { s with errors := s.errors ++ [e] }) := rfl

@[simp] lemma run_deepen : deepen.run s = some ((), { s with depth := s.depth + 1 }) := rfl

@[simp] lemma run_surface (i d : Nat) (errors : List ReadError) (entries : List Nat) :
    surface.run ⟨i, d + 1, errors, entries⟩ = some ((), ⟨i, d, errors, entries⟩) := rfl

lemma run_peek (h : At ts s.current (t :: rest)) : (peek ts).run s = some (t, s) := by
  simp [peek, Cursor.peek?_eq h]

lemma run_advance (hts : Ended ts) (h : At ts s.current (t :: rest)) (ht : t.shape ≠ .eof) :
    (advance ts).run s = some (t, { s with current := s.current + 1 }) ∧
      At ts (s.current + 1) rest := by
  have hnext := h.next (h.rest_ne_nil hts ht)
  have hlt := hnext.lt_length
  have hlast : s.current < ts.length - 1 := by omega
  refine ⟨?_, hnext⟩
  simp [advance, run_peek h, Cursor.pred?_length h, hlast]

/-- A call of `form` is recorded, and its first token taken. -/
lemma run_head {α : Type} (hts : Ended ts) (h : At ts s.current (t :: rest)) (ht : t.shape ≠ .eof)
    (next : Token → Reading α) :
    (do enter; let t ← advance ts; next t).run s =
      (next t).run ⟨s.current + 1, s.depth, s.errors, s.entries ++ [s.current]⟩ := by
  have hadvance := (run_advance (s := { s with entries := s.entries ++ [s.current] }) hts h ht).1
  simp [enter, hadvance]

/-! ### Skipping

A loop takes a token in every round, so as many rounds as there are tokens are enough. It changes
the cursor alone. -/

/-- From `s`, a loop that may go through `least` rounds moves the cursor to `rest`, and the same
with more rounds. -/
def Moves (ts : List Token) (s : State) (least : Nat) (m : Nat → Reading Unit)
    (rest : List Token) : Prop :=
  ∃ i, At ts i rest ∧ ∀ rounds, least ≤ rounds →
    (m rounds).run s = some ((), { s with current := i })

/-- The loop stops where it is. -/
lemma moves_stop {m : Nat → Reading Unit} (h : At ts s.current rest)
    (hrun : ∀ rounds, (m (rounds + 1)).run s = some ((), s)) : Moves ts s rest.length m rest := by
  refine ⟨s.current, h, fun rounds hrounds => ?_⟩
  obtain ⟨rounds, rfl⟩ := h.exists_succ hrounds
  exact hrun rounds

/-- One round of the loop takes a token, and `m'` does what is left to do. -/
lemma moves_round {m m' : Nat → Reading Unit} {us : List Token}
    (hmore : Moves ts { s with current := s.current + 1 } rest.length m' us)
    (hrun : ∀ rounds, (m (rounds + 1)).run s =
      (m' rounds).run { s with current := s.current + 1 }) :
    Moves ts s (t :: rest).length m us := by
  obtain ⟨i, hat, hmove⟩ := hmore
  refine ⟨i, hat, fun rounds hrounds => ?_⟩
  rw [List.length_cons] at hrounds
  obtain ⟨rounds, rfl⟩ : ∃ k, rounds = k + 1 := ⟨rounds - 1, by omega⟩
  rw [hrun]
  exact hmove rounds (by omega)

lemma skipList_moves (hts : Ended ts) (depth : Nat) (h : At ts s.current rest) :
    Moves ts s rest.length (fun rounds => skipList ts rounds depth)
      (Reader.skipOpen depth rest) := by
  fun_induction Reader.skipOpen depth rest generalizing s with
  | case1 rest => exact moves_stop h fun rounds => by simp [skipList]
  | case2 depth => exact absurd rfl h.2
  | case3 depth t rest ht => exact moves_stop h fun rounds => by simp [skipList, run_peek h, ht]
  | case4 depth t rest ht ih =>
    obtain ⟨hadvance, hnext⟩ := run_advance hts h (by simp [ht])
    exact moves_round (ih hnext) fun rounds => by simp [skipList, run_peek h, hadvance, ht]
  | case5 depth t rest ht ih =>
    obtain ⟨hadvance, hnext⟩ := run_advance hts h (by simp [ht])
    exact moves_round (ih hnext) fun rounds => by simp [skipList, run_peek h, hadvance, ht]
  | case6 depth t rest he hl hr ih =>
    replace he : t.shape ≠ .eof := he
    obtain ⟨hadvance, hnext⟩ := run_advance hts h he
    exact moves_round (ih hnext) fun rounds => by simp [skipList, run_peek h, hadvance, he]

lemma skipForm_moves (hts : Ended ts) (h : At ts s.current rest) :
    Moves ts s rest.length (skipForm ts) (Reader.skipForm rest) := by
  fun_induction Reader.skipForm rest generalizing s with
  | case1 => exact absurd rfl h.2
  | case2 t rest ht ih =>
    obtain ⟨hadvance, hnext⟩ := run_advance hts h (by simp [ht])
    exact moves_round (ih hnext) fun rounds => by simp [skipForm, run_peek h, hadvance, ht]
  | case3 t rest ht => exact moves_stop h fun rounds => by simp [skipForm, run_peek h, ht]
  | case4 t rest ht => exact moves_stop h fun rounds => by simp [skipForm, run_peek h, ht]
  | case5 t rest ht =>
    obtain ⟨hadvance, hnext⟩ := run_advance hts h (by simp [ht])
    exact moves_round (skipList_moves hts 1 hnext)
      fun rounds => by simp [skipForm, run_peek h, hadvance, ht]
  | case6 t rest hq he hr hl =>
    replace hl : t.shape ≠ .lparen := hl
    obtain ⟨hadvance, hnext⟩ := run_advance hts h he
    have hdone : Moves ts { s with current := s.current + 1 } rest.length (fun _ => pure ()) rest :=
      ⟨s.current + 1, hnext, fun _ _ => rfl⟩
    exact moves_round hdone fun rounds => by simp [skipForm, run_peek h, hadvance, hl]

lemma synchronize_moves (hts : Ended ts) {n : Nat} (h : At ts s.current rest)
    (hn : rest.length ≤ n) :
    Moves ts s rest.length (synchronize ts) (Reader.resync 0 rest) := by
  induction n generalizing rest s with
  | zero => exact absurd (List.length_eq_zero_iff.1 (Nat.le_zero.1 hn)) h.2
  | succ n ih =>
    rcases rest with _ | ⟨t, rest⟩
    · exact absurd rfl h.2
    rw [Reader.resync]
    by_cases hstop : t.shape = .eof ∨ t.spaced = true
    · rw [if_pos hstop]
      exact moves_stop h fun rounds => by simp [synchronize, run_peek h, hstop]
    obtain ⟨he, hspaced⟩ := not_or.1 hstop
    obtain ⟨hadvance, hnext⟩ := run_advance hts h he
    rcases rest with _ | ⟨u, rest⟩
    · exact absurd rfl hnext.2
    have hpeek := run_peek (s := { s with current := s.current + 1 }) hnext
    have hlen : (u :: rest).length ≤ n := by simpa using hn
    rw [if_neg hstop]
    by_cases hglued : t.shape = .lparen ∧ u.spaced = false
    · -- in the same round the list is skipped, and the rounds left are enough for that
      obtain ⟨i, hat, hskip⟩ := skipList_moves (s := { s with current := s.current + 1 }) hts 1
        hnext
      have hshorter := (Reader.skipOpen_suffix 1 (u :: rest)).length_le
      obtain ⟨j, hat', hsync⟩ := ih (s := { s with current := i }) hat (by omega)
      rw [if_pos (by simpa [glued] using hglued), Cursor.resync_eq]
      refine ⟨j, hat', fun rounds hrounds => ?_⟩
      obtain ⟨rounds, rfl⟩ := h.exists_succ hrounds
      have hleft : (u :: rest).length ≤ rounds := by simpa using hrounds
      simp [synchronize, run_peek h, hpeek, hadvance, hspaced, hglued, hskip rounds hleft,
        hsync rounds (hshorter.trans hleft)]
    · rw [if_neg (by simpa [glued] using hglued)]
      exact moves_round (ih hnext hlen) fun rounds => by
        simp [synchronize, run_peek h, hpeek, hadvance, he, hspaced, hglued]

/-! ### Forms -/

/-- From `s`, a reading that may nest `least` calls comes back with the answer `r`, and the same
with greater bounds. The cursor is then at the tokens that are left and the depth that of before;
errors are only added, and `form` was entered only before the end. -/
def Yields (ts : List Token) (s : State) (least : Nat) (m : Nat → Nat → Reading (Option Node))
    (r : Reply Node) : Prop :=
  ∃ i made, At ts i r.rest ∧ (∀ j ∈ made, j + 1 < ts.length) ∧
    ∀ rounds calls, ts.length ≤ rounds → least ≤ calls → (m rounds calls).run s =
      some (r.value?, ⟨i, s.depth, s.errors ++ r.errors, s.entries ++ made⟩)

/-- The list of the items that are read and of those to come, unless one failed. -/
def gather (loc : Location) (done : List Node) (failed : Bool) (items? : Option (List Node)) :
    Option Node :=
  if failed then none else items?.map fun ns => .call (done ++ ns) (some loc)

lemma gather_item (loc : Location) (done : List Node) (failed : Bool) (value? : Option Node)
    (items? : Option (List Node)) :
    gather loc (done ++ value?.toList) (failed || value?.isNone) items? =
      gather loc done failed (value?.bind fun n => items?.map (n :: ·)) := by
  cases value? with
  | none => simp [gather]
  | some n => simp [gather, Function.comp_def]

lemma items_eq (hts : Ended ts) {m : Nat → Nat → Reading (Option Node)}
    {read : List Token → Reply Node} {d n least : Nat}
    (hread : ∀ s t us, s.depth = d → At ts s.current (t :: us) → t.shape ≠ .eof →
      Yields ts s least m (read (t :: us)))
    (hless : ∀ t us, t.shape ≠ .eof → (read (t :: us)).rest.length < (t :: us).length)
    (loc : Location) (done : List Node) (failed : Bool) (hd : s.depth = d)
    (h : At ts s.current rest) (hn : rest.length ≤ n) :
    ∃ i made, At ts i (Reader.items read loc n rest).rest ∧ (∀ j ∈ made, j + 1 < ts.length) ∧
      ∀ rounds calls left, ts.length ≤ rounds → least ≤ calls → rest.length ≤ left →
        (items ts (m rounds calls) loc left done failed).run s = some
          (gather loc done failed (Reader.items read loc n rest).value?,
           ⟨i, s.depth, s.errors ++ (Reader.items read loc n rest).errors, s.entries ++ made⟩) := by
  induction n generalizing rest s done failed with
  | zero => exact absurd (List.length_eq_zero_iff.1 (Nat.le_zero.1 hn)) h.2
  | succ n ih =>
    rcases rest with _ | ⟨t, rest⟩
    · exact absurd rfl h.2
    by_cases he : t.shape = .eof
    · refine ⟨s.current, [], by simpa [Reader.items, he, Reader.fail] using h, by simp,
        fun rounds calls left hrounds hcalls hleft => ?_⟩
      obtain ⟨left, rfl⟩ := h.exists_succ hleft
      simp [items, run_peek h, he, Reader.items, Reader.fail, gather]
    obtain ⟨hadvance, hnext⟩ := run_advance hts h he
    by_cases hc : t.shape = .rparen
    · refine ⟨s.current + 1, [], by simpa [Reader.items, hc] using hnext, by simp,
        fun rounds calls left hrounds hcalls hleft => ?_⟩
      obtain ⟨left, rfl⟩ := h.exists_succ hleft
      simp [items, run_peek h, hc, hadvance, Reader.items, gather]
    -- an item, and then the others from where it ended
    have hlt := hless t rest he
    obtain ⟨i, made, hat, hmade, hone⟩ := hread s t rest hd h he
    rw [Reader.items_cons he hc]
    set r := read (t :: rest)
    have hround (rounds calls left : Nat) (hrounds : ts.length ≤ rounds) (hcalls : least ≤ calls) :
        (items ts (m rounds calls) loc (left + 1) done failed).run s =
          (items ts (m rounds calls) loc left (done ++ r.value?.toList)
            (failed || r.value?.isNone)).run
            ⟨i, s.depth, s.errors ++ r.errors, s.entries ++ made⟩ := by
      rw [items]
      cases hv : r.value? <;> simp [run_peek h, hone rounds calls hrounds hcalls, hv]
    obtain ⟨j, made', hat', hmade', hitems⟩ :=
      ih (s := ⟨i, s.depth, s.errors ++ r.errors, s.entries ++ made⟩) (done ++ r.value?.toList)
        (failed || r.value?.isNone) hd hat (by omega)
    refine ⟨j, made ++ made', hat', List.forall_mem_append.2 ⟨hmade, hmade'⟩,
      fun rounds calls left hrounds hcalls hleft => ?_⟩
    obtain ⟨left, rfl⟩ := h.exists_succ hleft
    rw [hround rounds calls left hrounds hcalls,
      hitems rounds calls left hrounds hcalls (by omega), gather_item]
    simp

variable {file : String}

/-- One call of `form`, made before the end. The answer comes of what is behind the first token. -/
lemma yields_call {least i : Nat} {made : List Nat} {r : Reply Node} (hts : Ended ts)
    (h : At ts s.current (t :: rest)) (ht : t.shape ≠ .eof) (hat : At ts i r.rest)
    (hmade : ∀ j ∈ made, j + 1 < ts.length)
    (hrun : ∀ rounds calls, ts.length ≤ rounds → least ≤ calls →
      (form ts file rounds (calls + 1)).run s =
        some (r.value?, ⟨i, s.depth, s.errors ++ r.errors, s.entries ++ s.current :: made⟩)) :
    Yields ts s (least + 1) (form ts file) r := by
  have hnext := h.next (h.rest_ne_nil hts ht)
  refine ⟨i, s.current :: made, hat, List.forall_mem_cons.2 ⟨hnext.lt_length, hmade⟩,
    fun rounds calls hrounds hcalls => ?_⟩
  obtain ⟨calls, rfl⟩ : ∃ k, calls = k + 1 := ⟨calls - 1, by omega⟩
  exact hrun rounds calls hrounds (by omega)

/-- A call of `form` that takes one token. -/
lemma yields_token {least : Nat} {value? : Option Node} {errors : List ReadError}
    (hts : Ended ts) (h : At ts s.current (t :: rest)) (ht : t.shape ≠ .eof)
    (hrun : ∀ rounds calls, (form ts file rounds (calls + 1)).run s = some (value?,
      ⟨s.current + 1, s.depth, s.errors ++ errors, s.entries ++ [s.current]⟩)) :
    Yields ts s (least + 1) (form ts file) ⟨value?, errors, rest⟩ :=
  yields_call hts h ht (h.next (h.rest_ne_nil hts ht)) (List.forall_mem_nil _)
    fun rounds calls _ _ => hrun rounds calls

/-- A call of `form` before the end, with `room` levels left. The induction is on the levels: what
is inside a list or behind a quote is read with one level less, and in one call more. -/
lemma form_yields (file : String) (hts : Ended ts) {n room : Nat} (hn : ts.length ≤ n)
    (hroom : s.depth + room = maxNesting) (h : At ts s.current (t :: rest)) (ht : t.shape ≠ .eof) :
    Yields ts s (room + 1) (form ts file) (Reader.form file n room (t :: rest)) := by
  refine Reader.form_induct (P := fun room us r => ∀ s t rest, us = t :: rest →
      s.depth + room = maxNesting → At ts s.current us → t.shape ≠ .eof →
      Yields ts s (room + 1) (form ts file) r)
    file n ?nil ?deepList ?deepQuote ?list ?lone ?quote ?close ?string ?atom ?badAtom ?cut ?eof
    room (t :: rest) s t rest rfl hroom h ht
  case nil => simp
  case deepList =>
    rintro t rest ht s _ _ ⟨⟩ hroom h he
    have hnext := h.next (h.rest_ne_nil hts he)
    have hlen := hnext.length_le
    have hdeep : maxNesting ≤ s.depth := by omega
    obtain ⟨i, hat, hskip⟩ := skipList_moves (s := ⟨s.current + 1, s.depth,
      s.errors ++ [⟨.nesting, some ⟨file, t.line⟩⟩], s.entries ++ [s.current]⟩) hts 1 hnext
    refine yields_call hts h he hat (List.forall_mem_nil _) fun rounds calls hrounds _ => ?_
    rw [form, run_head hts h he]
    simp [ht, hdeep, hskip rounds (hlen.trans hrounds), Reader.fail]
  case deepQuote =>
    rintro t rest ht s _ _ ⟨⟩ hroom h he
    have hnext := h.next (h.rest_ne_nil hts he)
    have hlen := hnext.length_le
    have hdeep : maxNesting ≤ s.depth := by omega
    obtain ⟨i, hat, hskip⟩ := skipForm_moves (s := ⟨s.current + 1, s.depth,
      s.errors ++ [⟨.nesting, some ⟨file, t.line⟩⟩], s.entries ++ [s.current]⟩) hts hnext
    refine yields_call hts h he hat (List.forall_mem_nil _) fun rounds calls hrounds _ => ?_
    rw [form, run_head hts h he]
    simp [ht, hdeep, hskip rounds (hlen.trans hrounds), Reader.fail]
  case list =>
    rintro room t rest r ht ih rfl s _ _ ⟨⟩ hroom h he
    have hnext := h.next (h.rest_ne_nil hts he)
    have hlen := hnext.length_le
    have hshallow : ¬ maxNesting ≤ s.depth := by omega
    -- the items are one level deeper, and leave the depth there
    obtain ⟨i, made, hat, hmade, hitems⟩ := items_eq (d := s.depth + 1)
      (s := ⟨s.current + 1, s.depth + 1, s.errors, s.entries ++ [s.current]⟩) hts
      (fun s' t' us hd hs' ht' => ih (t' :: us) s' t' us rfl (by omega) hs' ht')
      (fun u us hu => (Reader.form_takes u us hu).length_lt) ⟨file, t.line⟩ [] false rfl hnext
      (hlen.trans hn)
    refine yields_call hts h he hat hmade fun rounds calls hrounds hcalls => ?_
    rw [form, run_head hts h he]
    simp [ht, hshallow, hitems rounds calls rounds hrounds hcalls (hlen.trans hrounds), gather]
  case lone =>
    rintro room t rest ht hmissing ⟨j, d, errors, entries⟩ _ _ ⟨⟩ hroom h he
    dsimp only at hroom h
    have hnext := h.next (h.rest_ne_nil hts he)
    have hshallow : ¬ maxNesting ≤ d := by omega
    rcases rest with _ | ⟨u, rest⟩
    · exact absurd rfl hnext.2
    have hu : u.shape = .eof ∨ u.shape = .rparen := by simpa [Reader.missing] using hmissing
    have hpeek := run_peek (s := ⟨j + 1, d, errors, entries ++ [j]⟩) hnext
    -- all the room is there exactly at top level
    have htop : room + 1 = maxNesting ↔ d = 0 := by omega
    by_cases hglued : d = 0 ∧ u.shape = .rparen ∧ u.spaced = false
    · obtain ⟨rfl, hclose, hspaced⟩ := hglued
      obtain ⟨hadvance, hnext'⟩ := run_advance (s := ⟨j + 1, 0,
        errors ++ [⟨.missingForm, some ⟨file, t.line⟩⟩], entries ++ [j]⟩) hts hnext
        (by simp [hclose])
      refine yields_call (i := j + 1 + 1) hts h he ?_ (List.forall_mem_nil _)
        fun rounds calls _ _ => ?_
      · simpa [Reader.fail, Reader.afterMissing, htop, hclose, hspaced] using hnext'
      · rw [form, run_head hts h he]
        simp [ht, hshallow, hpeek, hclose, hspaced, hadvance, Reader.fail]
    · refine yields_call (i := j + 1) hts h he ?_ (List.forall_mem_nil _)
        fun rounds calls _ _ => ?_
      · simpa [Reader.fail, Reader.afterMissing, htop, hglued] using hnext
      · rw [form, run_head hts h he]
        simp [ht, hshallow, hpeek, hu, hglued, Reader.fail]
  case quote =>
    rintro room t rest r ht hmissing ih s _ _ ⟨⟩ hroom h he
    have hnext := h.next (h.rest_ne_nil hts he)
    have hshallow : ¬ maxNesting ≤ s.depth := by omega
    rcases rest with _ | ⟨u, rest⟩
    · exact absurd rfl hnext.2
    obtain ⟨hu, hu'⟩ : u.shape ≠ .eof ∧ u.shape ≠ .rparen := by
      simpa [Reader.missing] using hmissing
    have hpeek := run_peek (s := ⟨s.current + 1, s.depth, s.errors, s.entries ++ [s.current]⟩) hnext
    obtain ⟨i, made, hat, hmade, hform⟩ := ih
      ⟨s.current + 1, s.depth + 1, s.errors, s.entries ++ [s.current]⟩ u rest rfl
      (by dsimp only; omega) hnext hu
    refine yields_call hts h he hat hmade fun rounds calls hrounds hcalls => ?_
    rw [form, run_head hts h he]
    simp [ht, hshallow, hpeek, hu, hu', hform rounds calls hrounds hcalls]
  case close =>
    rintro room t rest ht s _ _ ⟨⟩ - h he
    refine yields_token hts h he fun rounds calls => ?_
    rw [form, run_head hts h he]
    simp [ht]
  case string =>
    rintro room t rest v ht s _ _ ⟨⟩ - h he
    refine yields_token hts h he fun rounds calls => ?_
    rw [form, run_head hts h he]
    simp [ht]
  case atom =>
    rintro room t rest v m ht hv s _ _ ⟨⟩ - h he
    refine yields_token hts h he fun rounds calls => ?_
    rw [form, run_head hts h he]
    simp [ht, Reader.atom_eq_ok_iff.2 hv]
  case badAtom =>
    rintro room t rest v e ht hv s _ _ ⟨⟩ - h he
    refine yields_token hts h he fun rounds calls => ?_
    rw [form, run_head hts h he]
    simp [ht, hv]
  case cut =>
    rintro room t rest ht s _ _ ⟨⟩ - h he
    refine yields_token hts h he fun rounds calls => ?_
    rw [form, run_head hts h he]
    simp [ht]
  case eof =>
    rintro room t rest ht s _ _ ⟨⟩ - h he
    exact absurd ht he

/-- One round: a form, and behind it what is glued to it if it failed. -/
lemma program_round (file : String) (hts : Ended ts) {n : Nat} (hn : ts.length ≤ n)
    (hd : s.depth = 0) (h : At ts s.current (t :: rest)) (ht : t.shape ≠ .eof) :
    ∃ i made, At ts i (Reader.recover t (Reader.form file n maxNesting (t :: rest))) ∧
      (∀ j ∈ made, j + 1 < ts.length) ∧
      ∀ rounds calls left done, ts.length ≤ rounds → maxNesting + 1 ≤ calls →
        rest.length ≤ left →
        (program ts (form ts file rounds calls) (left + 1) done).run s =
          (program ts (form ts file rounds calls) left
            (done ++ (Reader.form file n maxNesting (t :: rest)).value?.toList)).run
            ⟨i, s.depth, s.errors ++ (Reader.form file n maxNesting (t :: rest)).errors,
              s.entries ++ made⟩ := by
  obtain ⟨i, made, hat, hmade, hform⟩ := form_yields file hts hn
    (by omega : s.depth + maxNesting = maxNesting) h ht
  have hshorter := (@Reader.form_takes file n maxNesting t rest ht).length_lt
  set r := Reader.form file n maxNesting (t :: rest)
  cases hv : r.value? with
  | some v =>
    refine ⟨i, made, by simpa [Reader.recover, hv] using hat, hmade,
      fun rounds calls left done hrounds hcalls _ => ?_⟩
    rw [program]
    simp [run_peek h, ht, hform rounds calls hrounds hcalls, hv]
  | none =>
    by_cases hopen : t.shape ≠ .lparen ∧ t.shape ≠ .quote
    · obtain ⟨j, hat', hsync⟩ := synchronize_moves
        (s := ⟨i, s.depth, s.errors ++ r.errors, s.entries ++ made⟩) hts hat le_rfl
      refine ⟨j, made, by simpa [Reader.recover, hv, hopen] using hat', hmade,
        fun rounds calls left done hrounds hcalls hleft => ?_⟩
      rw [List.length_cons] at hshorter
      rw [program]
      simp [run_peek h, ht, hform rounds calls hrounds hcalls, hv, hopen, hsync left (by omega)]
    · refine ⟨i, made, by simpa [Reader.recover, hv, hopen] using hat, hmade,
        fun rounds calls left done hrounds hcalls _ => ?_⟩
      rw [program]
      simp [run_peek h, ht, hform rounds calls hrounds hcalls, hv, hopen]

/-- A run over the tokens that are left. -/
lemma program_eq (file : String) (hts : Ended ts) {n k : Nat} (hn : ts.length ≤ n)
    (done : List Node) (hd : s.depth = 0) (h : At ts s.current rest) (hk : rest.length ≤ k) :
    ∃ i made, (∀ j ∈ made, j + 1 < ts.length) ∧
      ∀ rounds calls left, ts.length ≤ rounds → maxNesting + 1 ≤ calls → rest.length ≤ left →
        (program ts (form ts file rounds calls) left done).run s =
          some (done ++ (Reader.program (Reader.form file n maxNesting) k rest).1,
            ⟨i, s.depth, s.errors ++ (Reader.program (Reader.form file n maxNesting) k rest).2,
              s.entries ++ made⟩) := by
  induction k generalizing rest s done with
  | zero => exact absurd (List.length_eq_zero_iff.1 (Nat.le_zero.1 hk)) h.2
  | succ k ih =>
    rcases rest with _ | ⟨t, rest⟩
    · exact absurd rfl h.2
    by_cases ht : t.shape = .eof
    · refine ⟨s.current, [], by simp, fun rounds calls left hrounds hcalls hleft => ?_⟩
      obtain ⟨left, rfl⟩ := h.exists_succ hleft
      simp [program, run_peek h, ht, Reader.program]
    have hless := @Reader.recover_length_lt file n maxNesting t ht rest
    obtain ⟨i, made, hat, hmade, hround⟩ := program_round file hts hn hd h ht
    rw [Reader.program_cons ht]
    set r := Reader.form file n maxNesting (t :: rest)
    obtain ⟨j, made', hmade', hprogram⟩ :=
      ih (s := ⟨i, s.depth, s.errors ++ r.errors, s.entries ++ made⟩) (done ++ r.value?.toList) hd
        hat (by omega)
    refine ⟨j, made ++ made', List.forall_mem_append.2 ⟨hmade, hmade'⟩,
      fun rounds calls left hrounds hcalls hleft => ?_⟩
    obtain ⟨left, rfl⟩ := h.exists_succ hleft
    rw [List.length_cons] at hleft hless
    rw [hround rounds calls left done hrounds hcalls (by omega),
      hprogram rounds calls left hrounds hcalls (by omega)]
    simp

end Descent

/-! ### Faults -/

/-- A fault that reading finds before the end of the source. -/
def Fault.Early (f : Fault) : Prop := f ≠ .unexpectedEnd ∧ ∀ message, f ≠ .other message

lemma Fault.Early.message_ne {f : Fault} (h : f.Early) :
    f.message ≠ Fault.unexpectedEnd.message := by
  cases f with
  | nesting => decide
  | unexpectedClose => decide
  | missingForm => decide
  | unterminatedString => decide
  | unterminatedList => decide
  | unexpectedEnd => exact absurd rfl h.1
  | invalidNumber text =>
    intro heq
    have hchars : ("invalid number literal `" ++ text ++ "`").toList =
        "unexpected end of input".toList := congrArg String.toList heq
    simp at hchars
  | other message => exact absurd rfl (h.2 message)

namespace Reader

variable {file : String} {fuel room : Nat}

lemma items_early {read : List Token → Reply Node}
    (hread : ∀ t us, t.shape ≠ .eof → ∀ x ∈ (read (t :: us)).errors, x.fault.Early)
    (loc : Location) (k : Nat) (ts : List Token) :
    ∀ x ∈ (items read loc k ts).errors, x.fault.Early := by
  fun_induction items read loc k ts with
  | case1 ts => simp [fail, Fault.Early]
  | case2 k => simp [fail, Fault.Early]
  | case3 k t ts ht => simp [fail, Fault.Early]
  | case4 k t ts ht => simp
  | case5 k t ts one more hne _ ih => exact List.forall_mem_append.2 ⟨hread t ts hne, ih⟩

/-- A form that starts before the end does not find the end in its place. -/
lemma form_early (t : Token) (ts : List Token) (ht : t.shape ≠ .eof) :
    ∀ x ∈ (form file fuel room (t :: ts)).errors, x.fault.Early := by
  refine form_induct (P := fun _ us r => ∀ t ts, us = t :: ts → t.shape ≠ .eof →
      ∀ x ∈ r.errors, x.fault.Early)
    file fuel ?nil ?deepList ?deepQuote ?list ?lone ?quote ?close ?string ?atom ?badAtom ?cut ?eof
    room (t :: ts) t ts rfl ht
  case list =>
    rintro room t ts r - ih rfl - - - -
    exact items_early (fun u us => ih (u :: us) u us rfl) ⟨file, t.line⟩ fuel ts
  case quote =>
    rintro room t ts r - hm ih - - - -
    rcases ts with _ | ⟨u, ts⟩
    · simp [missing] at hm
    · exact ih u ts rfl fun hu => by simp [missing, hu] at hm
  case badAtom =>
    rintro room t ts s e - he - - - -
    simp [atom_error he, Fault.Early]
  case eof =>
    rintro room t ts ht t' ts' ⟨⟩ hne
    exact absurd ht hne
  all_goals simp [fail, Fault.Early]

lemma program_early (k : Nat) (ts : List Token) :
    ∀ x ∈ (program (form file fuel room) k ts).2, x.fault.Early := by
  fun_induction program (form file fuel room) k ts with
  | case1 => simp
  | case2 => simp
  | case3 => simp
  | case4 k t ts ht r forms errors hmore ih =>
    rw [hmore] at ih
    exact List.forall_mem_append.2 ⟨form_early t ts ht, ih⟩

end Reader

open Descent in
/-- **The descent comes back**, from every token before the end and every depth up to the limit:
further on but not behind the end, at the same depth, with errors only added, and with a node
exactly if there are none. Its calls, that one included, are nested no deeper than there are levels
left and one more, however many tokens there are. What it reads is what `Reader.form` reads. A run
over all the tokens comes back with their forms and errors; `form` is never entered at the end, and
no error says that the source ended too early. -/
theorem descent_comes_back {us : List Token} {e : Token} (hus : ∀ t ∈ us, t.shape ≠ .eof)
    (he : e.shape = .eof) (file : String) :
    (∀ s : State, s.current < us.length → s.depth ≤ maxNesting →
      ∃ value? i errors made,
        (∀ rounds calls, us.length < rounds → maxNesting + 1 - s.depth ≤ calls →
          (form (us ++ [e]) file rounds calls).run s =
            some (value?, ⟨i, s.depth, s.errors ++ errors, s.entries ++ made⟩)) ∧
        s.current < i ∧ i ≤ us.length ∧ (value?.isSome ↔ errors = []) ∧
        (∀ j ∈ made, j < us.length) ∧
        Reader.form file (us ++ [e]).length (maxNesting - s.depth) ((us ++ [e]).drop s.current) =
          ⟨value?, errors, (us ++ [e]).drop i⟩) ∧
    ∃ i made,
      (∀ rounds calls, us.length < rounds → maxNesting < calls →
        (program (us ++ [e]) (form (us ++ [e]) file rounds calls) rounds []).run start =
          some ((Reader.ofTokens file (us ++ [e])).1,
            ⟨i, 0, (Reader.ofTokens file (us ++ [e])).2, made⟩)) ∧
      (∀ j ∈ made, j < us.length) ∧
      ∀ x ∈ (Reader.ofTokens file (us ++ [e])).2, x.fault.message ≠ "unexpected end of input" := by
  have hts : Cursor.Ended (us ++ [e]) := ⟨us, e, rfl, he, hus⟩
  have hlen : (us ++ [e]).length = us.length + 1 := List.length_append
  refine ⟨fun s hs hd => ?_, ?_⟩
  · obtain ⟨t, ht, rest, hat⟩ := Cursor.exists_at (e := e) hs
    obtain ⟨i, made, hat', hmade, hrun⟩ := form_yields file hts le_rfl
      (Nat.add_sub_cancel' hd) hat (hus t ht)
    have hless := (@Reader.form_takes file (us ++ [e]).length (maxNesting - s.depth) t rest
      (hus t ht)).length_lt
    rw [hat.length_eq, hat'.length_eq] at hless
    have hlt := hat'.lt_length
    refine ⟨_, i, _, made,
      fun rounds calls hrounds hcalls => hrun rounds calls (by omega) (by omega),
      by omega, by omega, Reader.form_isSome_iff (by simp), fun j hj => ?_, ?_⟩
    · have hbefore := hmade j hj
      omega
    · rw [hat.1, hat'.1]
  · have hat : Cursor.At (us ++ [e]) start.current (us ++ [e]) := ⟨rfl, by simp⟩
    obtain ⟨i, made, hmade, hrun⟩ := program_eq file hts le_rfl [] rfl hat le_rfl
    refine ⟨i, made, fun rounds calls hrounds hcalls => ?_, fun j hj => ?_, fun x hx => ?_⟩
    · have hprogram := hrun rounds calls rounds (by omega) hcalls (by omega)
      simpa [Reader.ofTokens, start] using hprogram
    · have hbefore := hmade j hj
      omega
    · exact (Reader.program_early _ _ x hx).message_ne

/-- What stands before the end in `(a '(b) 1x`. -/
def cutList : List Token :=
  [⟨.lparen, 1, true⟩, ⟨.atom "a", 1, false⟩, ⟨.quote, 1, true⟩, ⟨.lparen, 1, false⟩,
    ⟨.atom "b", 1, false⟩, ⟨.rparen, 1, false⟩, ⟨.atom "1x", 1, true⟩]

open Descent in
/-- With one level left, the quote is read but not the list behind it, and two calls are enough. -/
theorem descent_comes_back_last_level :
    (∀ t ∈ cutList, t.shape ≠ .eof) ∧
      (∃ made, (form (cutList ++ [⟨.eof, 1, true⟩]) "test" 8 2).run ⟨2, 255, [], []⟩ =
          some (none, ⟨6, 255, [⟨.nesting, some ⟨"test", 1⟩⟩], made⟩) ∧
        ∀ j ∈ made, j < 7) ∧
      ∃ i made, (program (cutList ++ [⟨.eof, 1, true⟩])
            (form (cutList ++ [⟨.eof, 1, true⟩]) "test" 8 257) 8 []).run start =
          some ([], ⟨i, 0, [⟨.invalidNumber "1x", some ⟨"test", 1⟩⟩,
            ⟨.unterminatedList, some ⟨"test", 1⟩⟩], made⟩) ∧
        ∀ j ∈ made, j < 7 := by
  have hcut : ∀ t ∈ cutList, t.shape ≠ .eof := by decide
  have hend : (⟨.eof, 1, true⟩ : Token).shape = .eof := rfl
  obtain ⟨hform, i, made, hrun, hmade, -⟩ := descent_comes_back hcut hend "test"
  obtain ⟨value?, j, errors, made', hrun', -, hj, -, hmade', hreads⟩ :=
    hform ⟨2, 255, [], []⟩ (by decide) (by decide)
  have heval : Reader.form "test" 8 1 (List.drop 2 (cutList ++ [⟨.eof, 1, true⟩])) =
      ⟨none, [⟨.nesting, some ⟨"test", 1⟩⟩], [⟨.atom "1x", 1, true⟩, ⟨.eof, 1, true⟩]⟩ := rfl
  obtain ⟨rfl, rfl, hrest⟩ := Reply.mk.inj (heval.symm.trans hreads)
  obtain rfl : j = 6 := by
    have hleft := congrArg List.length hrest
    rw [List.length_drop] at hleft
    simp only [cutList, List.length_append, List.length_cons, List.length_nil] at hleft hj
    omega
  exact ⟨hcut, ⟨made', hrun' 8 2 (by decide) (by decide), hmade'⟩,
    i, made, hrun 8 257 (by decide) (by decide), hmade⟩

end ChannelLisp
