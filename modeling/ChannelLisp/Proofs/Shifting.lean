import ChannelLisp.Proofs.Segments
import ChannelLisp.Proofs.View
import Mathlib.Tactic

/-!
A text that stands further down. What the scan makes of a text after a newline does not depend
on what was read before, except that its lines count from there. Reading tokens that are moved
down gives the same forms and errors, moved down; and any fuel that is at least the number of
tokens gives the same.
-/

namespace ChannelLisp

/-- The view in which every place is `k` lines further down. -/
def View.down (k : Nat) : View where
  scope := id
  place := Option.map (·.shift k)
  place_none := rfl
  place_or l l' := by cases l <;> rfl

/-- The error moved `k` lines down. -/
def ReadError.shift (k : Nat) (e : ReadError) : ReadError :=
  { e with loc? := e.loc?.map (·.shift k) }

/-! ### Scanning -/

namespace Scan

/-- The mode with the line on which a literal was opened moved down. -/
def Mode.shift (k : Nat) : Mode → Mode
  | .text l cs => .text (l + k) cs
  | .escape l cs => .escape (l + k) cs
  | m => m

/-- The state moved `k` lines down, with tokens that were there before. -/
def State.after (s : State) (k : Nat) (prior : List Token) : State :=
  ⟨s.mode.shift k, s.line + k, s.spaced, s.tokens.map (·.shift k) ++ prior⟩

variable {s : State} {k : Nat} {prior : List Token}

lemma nextLine_add (n k : Nat) (c : Char) : nextLine (n + k) c = nextLine n c + k := by
  unfold nextLine
  split <;> omega

lemma start_after (s : State) (c : Char) :
    (s.after k prior).start c = (s.start c).after k prior := by
  unfold State.start
  split_ifs
  · simp [State.after, Mode.shift, nextLine_add]
  all_goals rfl

lemma step_after (s : State) (c : Char) : step (s.after k prior) c = (step s c).after k prior := by
  obtain ⟨mode, line, spaced, tokens⟩ := s
  cases mode with
  | gap => exact start_after _ c
  | comment =>
    simp only [step, State.after, Mode.shift]
    split
    · simp only [State.mk.injEq, true_and, and_true]
      omega
    · rfl
  | atom cs =>
    simp only [step, State.after, Mode.shift]
    split
    · exact start_after (State.endAtom ⟨.atom cs, line, spaced, tokens⟩ cs) c
    · rfl
  | text l cs =>
    simp only [step, State.after, Mode.shift]
    split_ifs
    · rfl
    · rfl
    · simp [nextLine_add]
  | escape l cs => simp [step, State.after, Mode.shift, nextLine_add]

lemma run_after (s : State) (cs : List Char) :
    run (s.after k prior) cs = (run s cs).after k prior := by
  induction cs generalizing s with
  | nil => rfl
  | cons c cs ih => rw [run_cons, step_after, ih, run_cons]

lemma finish_after (s : State) :
    (s.after k prior).finish = prior.reverse ++ s.finish.map (·.shift k) := by
  obtain ⟨mode, line, spaced, tokens⟩ := s
  cases mode <;>
    simp [State.finish, State.after, Mode.shift, State.endAtom, State.emit, Token.shift]

/-- The line is one more for each newline. -/
lemma line_step (s : State) (c : Char) : (step s c).line = nextLine s.line c := by
  have hsame : ∀ d : Char, d ≠ '\n' → ∀ n, nextLine n d = n := by
    intro d hd n
    simp [nextLine, hd]
  have hstart : ∀ s : State, (s.start c).line = nextLine s.line c := by
    intro s
    unfold State.start
    split_ifs with h1 h2 h3 h4 h5 h6
    · rfl
    all_goals
      refine (hsame c ?_ _).symm
      rintro rfl
      exact h1 Text.isBlank_newline
  obtain ⟨mode, line, spaced, tokens⟩ := s
  cases mode with
  | gap => exact hstart _
  | comment =>
    simp only [step, nextLine]
    split <;> rfl
  | atom cs =>
    simp only [step]
    split
    · exact hstart _
    · rename_i hc
      refine (hsame c ?_ _).symm
      rintro rfl
      exact hc rfl
  | text l cs =>
    simp only [step]
    split_ifs with h1 h2
    · exact (hsame c (by simp [h1]) _).symm
    · exact (hsame c (by simp [h2]) _).symm
    · rfl
  | escape l cs => rfl

lemma line_run (s : State) (cs : List Char) : (run s cs).line = s.line + cs.count '\n' := by
  induction cs generalizing s with
  | nil => rfl
  | cons c cs ih =>
    rw [run_cons, ih, line_step, nextLine, List.count_cons]
    by_cases hc : c = '\n'
    · simp only [hc, if_true, beq_self_eq_true]
      omega
    · simp [hc]

/-- A comment counts as a gap. -/
def Noted (s : State) : Prop := s.mode = .comment → s.spaced = true

lemma step_noted {s : State} (h : Noted s) (c : Char) : Noted (step s c) := by
  have hstart : ∀ s : State, Noted (s.start c) := by
    intro s
    unfold State.start
    split_ifs <;> simp [Noted, State.emit]
  obtain ⟨mode, line, spaced, tokens⟩ := s
  cases mode with
  | gap => exact hstart _
  | comment =>
    simp only [step]
    split
    · simp [Noted]
    · exact h
  | atom cs =>
    simp only [step]
    split
    · exact hstart _
    · simp [Noted]
  | text l cs =>
    simp only [step]
    split_ifs <;> simp [Noted, State.emit]
  | escape l cs => simp [Noted, step]

lemma run_noted {s : State} (h : Noted s) (cs : List Char) : Noted (run s cs) := by
  induction cs generalizing s with
  | nil => exact h
  | cons c cs ih => exact ih (step_noted h c)

/-- A newline where no literal is open: what is being read ends, and a gap begins. -/
lemma step_newline {s : State} {us : List Token} {e : Token} (h : Noted s)
    (hfin : s.finish = us ++ [e]) (hus : ∀ t ∈ us, t.shape ≠ .unterminated) :
    step s '\n' = ⟨.gap, s.line + 1, true, us.reverse⟩ := by
  have last : ∀ {vs : List Token} {v : Token}, (v :: vs).reverse = us ++ [e] → vs = us.reverse := by
    intro vs v hv
    rw [List.reverse_cons] at hv
    rw [← (List.append_inj' hv rfl).1, List.reverse_reverse]
  obtain ⟨mode, line, spaced, toks⟩ := s
  cases mode with
  | gap =>
    obtain rfl := last hfin
    simp [step, State.start, Text.isBlank_newline, nextLine]
  | comment =>
    obtain rfl := last hfin
    obtain rfl : spaced = true := h rfl
    simp [step]
  | atom cs =>
    have htoks : (State.endAtom ⟨.atom cs, line, spaced, toks⟩ cs).tokens = us.reverse := last hfin
    have hdel : isDelimiter '\n' = true := rfl
    simp only [step, hdel, if_true, State.start, Text.isBlank_newline, nextLine, htoks]
    rfl
  | text l cs =>
    have htoks : (State.emit ⟨.text l cs, line, spaced, toks⟩ .unterminated l).tokens
      = us.reverse := last hfin
    refine absurd rfl (hus ⟨.unterminated, l, spaced⟩ ?_)
    rw [← List.mem_reverse, ← htoks]
    exact List.mem_cons_self
  | escape l cs =>
    have htoks : (State.emit ⟨.escape l cs, line, spaced, toks⟩ .unterminated l).tokens
      = us.reverse := last hfin
    refine absurd rfl (hus ⟨.unterminated, l, spaced⟩ ?_)
    rw [← List.mem_reverse, ← htoks]
    exact List.mem_cons_self

/-- The tokens of a text without an open literal, a newline, and another text. -/
lemma tokens_append_newline {p : List Char} {us : List Token} {e : Token}
    (hp : tokens p = us ++ [e]) (hus : ∀ t ∈ us, t.shape ≠ .unterminated) (q : List Char) :
    tokens (p ++ '\n' :: q) = us ++ (tokens q).map (·.shift (p.count '\n' + 1)) := by
  have hnoted : Noted (run init p) := run_noted (by simp [Noted, init]) p
  have hstep : step (run init p) '\n' = init.after (p.count '\n' + 1) us.reverse := by
    rw [step_newline hnoted hp hus, line_run]
    simp [init, State.after, Mode.shift]
    omega
  rw [tokens, run_append, run_cons, hstep, run_after, finish_after, List.reverse_reverse, tokens]

end Scan

/-! ### Reading -/

/-- Tokens moved `k` lines down. -/
def down (k : Nat) (ts : List Token) : List Token := ts.map (·.shift k)

/-- What was read, moved down; `f` tells how a value is moved. -/
def Reply.down {α : Type} (f : α → α) (k : Nat) (r : Reply α) : Reply α :=
  ⟨r.value?.map f, r.errors.map (ReadError.shift k), ChannelLisp.down k r.rest⟩

namespace Reader

variable {file : String} {fuel room k : Nat}

@[simp] lemma down_nil : down k [] = [] := rfl

@[simp] lemma down_cons (t : Token) (ts : List Token) :
    down k (t :: ts) = t.shift k :: down k ts := rfl

@[simp] lemma shape_shift (t : Token) : (t.shift k).shape = t.shape := rfl

@[simp] lemma spaced_shift (t : Token) : (t.shift k).spaced = t.spaced := rfl

@[simp] lemma line_shift (t : Token) : (t.shift k).line = t.line + k := rfl

@[simp] lemma length_down (ts : List Token) : (down k ts).length = ts.length := by simp [down]

@[simp] lemma glued_down (ts : List Token) : glued (down k ts) = glued ts := by
  cases ts <;> rfl

lemma skipOpen_down (depth : Nat) (ts : List Token) :
    skipOpen depth (down k ts) = down k (skipOpen depth ts) := by
  fun_induction skipOpen depth ts with
  | case1 ts => simp [skipOpen]
  | case2 depth => simp [skipOpen]
  | case3 depth t ts ht => simp [skipOpen, ht]
  | case4 depth t ts ht ih => simp [skipOpen, ht, ih]
  | case5 depth t ts ht ih => simp [skipOpen, ht, ih]
  | case6 depth t ts _ _ _ ih => simp [skipOpen, ih]

lemma skipForm_down (ts : List Token) : skipForm (down k ts) = down k (skipForm ts) := by
  fun_induction skipForm ts with
  | case1 => simp [skipForm]
  | case2 t ts ht ih => simp [skipForm, ht, ih]
  | case3 t ts ht => simp [skipForm, ht]
  | case4 t ts ht => simp [skipForm, ht]
  | case5 t ts ht => simp [skipForm, ht, skipOpen_down]
  | case6 t ts _ _ _ _ => simp [skipForm]

lemma resync_down (depth : Nat) (ts : List Token) :
    resync depth (down k ts) = down k (resync depth ts) := by
  fun_induction resync depth ts with
  | case1 depth => simp [resync]
  | case2 t ts h => simp [resync, h]
  | case3 t ts h h' ih =>
    rw [not_or] at h
    simp [resync, h, h', ih]
  | case4 t ts h h' ih =>
    rw [not_or] at h
    simp [resync, h, h', ih]
  | case5 depth t ts ht => simp [resync, ht]
  | case6 depth t ts ht ih => simp [resync, ht, ih]
  | case7 depth t ts ht ih => simp [resync, ht, ih]
  | case8 depth t ts _ _ _ ih => simp [resync, ih]

lemma missing_down (ts : List Token) : missing (down k ts) = missing ts := by
  cases ts <;> rfl

lemma afterMissing_down (room : Nat) (ts : List Token) :
    afterMissing room (down k ts) = down k (afterMissing room ts) := by
  cases ts with
  | nil => rfl
  | cons t ts =>
    change (if room = maxNesting ∧ t.shape = .rparen ∧ !t.spaced then down k ts
      else t.shift k :: down k ts) = down k (afterMissing room (t :: ts))
    rw [afterMissing]
    split_ifs <;> rfl

lemma atom_shift (s : String) (loc : Location) :
    atom s (loc.shift k) =
      ((atom s loc).map (Node.view (.down k))).mapError (ReadError.shift k) := by
  unfold atom
  split_ifs
  · rfl
  · rfl
  · rfl
  · split <;> rfl
  · rfl

/-- One item, and then the others. -/
lemma items_cons {read : List Token → Reply Node} {t : Token} (he : t.shape ≠ .eof)
    (hc : t.shape ≠ .rparen) (loc : Location) (n : Nat) (ts : List Token) :
    items read loc (n + 1) (t :: ts) =
      ⟨(read (t :: ts)).value?.bind fun m =>
          (items read loc n (read (t :: ts)).rest).value?.map (m :: ·),
        (read (t :: ts)).errors ++ (items read loc n (read (t :: ts)).rest).errors,
        (items read loc n (read (t :: ts)).rest).rest⟩ := by
  rw [items]
  split
  · contradiction
  · contradiction
  · rfl

lemma items_down {read : List Token → Reply Node}
    (hread : ∀ ts, read (down k ts) = (read ts).down (Node.view (.down k)) k) (loc : Location)
    (n : Nat) (ts : List Token) :
    items read (loc.shift k) n (down k ts) =
      (items read loc n ts).down (List.map (Node.view (.down k))) k := by
  fun_induction items read loc n ts with
  | case1 ts => rfl
  | case2 n => rfl
  | case3 n t ts ht =>
    simp only [items, down_cons, shape_shift, ht]
    rfl
  | case4 n t ts ht => simp [items, ht, Reply.down]
  | case5 n t ts one more he hc ih =>
    have hone : read (t.shift k :: down k ts) = one.down (Node.view (.down k)) k := hread (t :: ts)
    have hmore : items read (loc.shift k) n (one.down (Node.view (.down k)) k).rest =
      more.down (List.map (Node.view (.down k))) k := ih
    rw [down_cons, items_cons (t := t.shift k) he hc, hone, hmore]
    rcases hm : one.value? with _ | m <;> rcases hms : more.value? with _ | ms <;>
      simp [Reply.down, hm, hms]

lemma form_down (ts : List Token) :
    form file fuel room (down k ts) = (form file fuel room ts).down (Node.view (.down k)) k := by
  refine form_induct (P := fun room ts r =>
      form file fuel room (down k ts) = r.down (Node.view (.down k)) k)
    file fuel ?nil ?deepList ?deepQuote ?list ?lone ?quote ?close ?string ?atom ?badAtom ?cut ?eof
    room ts
  case nil => exact fun room => by simp [form, Reply.down]
  case deepList =>
    intro t ts ht
    simp [form, ht, fail, Reply.down, skipOpen_down, ReadError.shift, Location.shift]
  case deepQuote =>
    intro t ts ht
    simp [form, ht, fail, Reply.down, skipForm_down, ReadError.shift, Location.shift]
  case list =>
    rintro room t ts r ht ih rfl
    have hitems := items_down ih ⟨file, t.line⟩ fuel ts
    simp only [Location.shift] at hitems
    rcases hv : (items (form file fuel room) ⟨file, t.line⟩ fuel ts).value? with _ | ns <;>
      simp [form, ht, hitems, hv, Reply.down, View.down, Location.shift]
  case lone =>
    intro room t ts ht hm
    have hm' : missing (down k ts) = true := by rw [missing_down, hm]
    simp [form, ht, hm', fail, Reply.down, afterMissing_down, ReadError.shift, Location.shift]
  case quote =>
    intro room t ts r ht hm ih
    have hm' : missing (down k ts) = false := by rw [missing_down, hm]
    rcases hv : r.value? with _ | n <;>
      simp [form, ht, hm', ih, hv, Reply.down, quotation, View.down, Location.shift]
  case close =>
    intro room t ts ht
    simp [form, ht, fail, Reply.down, ReadError.shift, Location.shift]
  case string =>
    intro room t ts s ht
    simp [form, ht, Reply.down, View.down, Location.shift]
  case atom =>
    intro room t ts s n ht hs
    have hatom := atom_shift (k := k) s ⟨file, t.line⟩
    rw [atom_eq_ok_iff.2 hs] at hatom
    simp only [Location.shift] at hatom
    simp [form, ht, hatom, Reply.down, Except.map, Except.mapError]
  case badAtom =>
    intro room t ts s e ht he
    have hatom := atom_shift (k := k) s ⟨file, t.line⟩
    rw [he] at hatom
    simp only [Location.shift] at hatom
    simp [form, ht, hatom, Reply.down, Except.map, Except.mapError]
  case cut =>
    intro room t ts ht
    simp [form, ht, fail, Reply.down, ReadError.shift, Location.shift]
  case eof =>
    intro room t ts ht
    simp [form, ht, fail, Reply.down, ReadError.shift, Location.shift]

lemma recover_down (t : Token) (r : Reply Node) :
    recover (t.shift k) (r.down (Node.view (.down k)) k) = down k (recover t r) := by
  simp only [recover, Reply.down, Option.isNone_map, shape_shift]
  split
  · exact resync_down 0 r.rest
  · rfl

lemma program_down (n : Nat) (ts : List Token) :
    program (form file fuel maxNesting) n (down k ts) =
      ((program (form file fuel maxNesting) n ts).1.map (Node.view (.down k)),
        (program (form file fuel maxNesting) n ts).2.map (ReadError.shift k)) := by
  induction n generalizing ts with
  | zero => simp [program]
  | succ n ih =>
    rcases ts with _ | ⟨t, ts⟩
    · simp [program]
    by_cases ht : t.shape = .eof
    · simp [program, ht]
    have hform := @form_down file fuel maxNesting k (t :: ts)
    rw [down_cons] at hform ⊢
    rw [program_cons (t := t.shift k) ht, hform, recover_down, ih, program_cons ht]
    rcases hv : (form file fuel maxNesting (t :: ts)).value? with _ | m <;> simp [Reply.down, hv]

/-- Tokens further down are read into the same forms and errors, further down. -/
lemma ofTokens_down (ts : List Token) :
    ofTokens file (down k ts) =
      ((ofTokens file ts).1.map (Node.view (.down k)),
        (ofTokens file ts).2.map (ReadError.shift k)) := by
  rw [ofTokens, length_down]
  exact program_down ts.length ts

/-! ### Fuel -/

lemma Takes.length_lt {ts rest : List Token} {errors : List ReadError}
    (h : Takes file ts errors rest) : rest.length < ts.length := by
  obtain ⟨us, hne, rfl, -, -⟩ := h
  have hpos := List.length_pos_of_ne_nil hne
  rw [List.length_append]
  omega

/-- The items do not depend on the fuel as long as it is enough, and of the reader only what it
does with tokens that are left matters. -/
lemma items_congr {read read' : List Token → Reply Node} {bound : Nat}
    (hread : ∀ us, us.length ≤ bound → read us = read' us)
    (hless : ∀ t us, t.shape ≠ .eof → (read (t :: us)).rest.length < (t :: us).length)
    (loc : Location) {n n' : Nat} {ts : List Token} (hts : ts.length ≤ bound) (hn : ts.length ≤ n)
    (hn' : ts.length ≤ n') : items read loc n ts = items read' loc n' ts := by
  induction n generalizing n' ts with
  | zero =>
    obtain rfl := List.length_eq_zero_iff.1 (Nat.le_zero.1 hn)
    cases n' <;> rfl
  | succ n ih =>
    rcases ts with _ | ⟨t, ts⟩
    · cases n' <;> rfl
    obtain ⟨n', rfl⟩ : ∃ m, n' = m + 1 := by
      rw [List.length_cons] at hn'
      exact ⟨n' - 1, by omega⟩
    by_cases he : t.shape = .eof
    · simp [items, he]
    by_cases hc : t.shape = .rparen
    · simp [items, hc]
    have hlt := hless t ts he
    have hsame := hread (t :: ts) hts
    have hmore : items read loc n (read (t :: ts)).rest =
        items read' loc n' (read (t :: ts)).rest := ih (by omega) (by omega) (by omega)
    rw [items_cons he hc, items_cons he hc, hmore, hsame]

/-- A form does not depend on the fuel as long as there is as much as there are tokens. -/
lemma form_congr {fuel' : Nat} {ts : List Token} (hf : ts.length ≤ fuel) (hf' : ts.length ≤ fuel') :
    form file fuel room ts = form file fuel' room ts := by
  induction room generalizing ts with
  | zero =>
    rcases ts with _ | ⟨t, ts⟩
    · simp [form]
    · rcases ht : t.shape <;> simp [form, ht]
  | succ room ih =>
    rcases ts with _ | ⟨t, ts⟩
    · simp [form]
    rw [List.length_cons] at hf hf'
    rcases ht : t.shape with _ | _ | _ | s | s | _ | _
    · have hread (us : List Token) (hus : us.length ≤ min fuel fuel') :
          form file fuel room us = form file fuel' room us := ih (by omega) (by omega)
      have hitems : items (form file fuel room) ⟨file, t.line⟩ fuel ts =
          items (form file fuel' room) ⟨file, t.line⟩ fuel' ts :=
        items_congr hread (fun u us hu => (form_takes u us hu).length_lt) _
          (by omega) (by omega) (by omega)
      simp [form, ht, hitems]
    · simp [form, ht]
    · have hquoted : form file fuel room ts = form file fuel' room ts := ih (by omega) (by omega)
      simp [form, ht, hquoted]
    · simp [form, ht]
    · simp [form, ht]
    · simp [form, ht]
    · simp [form, ht]

lemma recover_length_lt {t : Token} (ht : t.shape ≠ .eof) (ts : List Token) :
    (recover t (form file fuel room (t :: ts))).length < (t :: ts).length :=
  ((form_takes t ts ht).drops (recover_drops t _)).length_lt

lemma program_congr {fuel' n n' : Nat} {ts : List Token} (hf : ts.length ≤ fuel)
    (hf' : ts.length ≤ fuel') (hn : ts.length ≤ n) (hn' : ts.length ≤ n') :
    program (form file fuel room) n ts = program (form file fuel' room) n' ts := by
  induction n generalizing n' ts with
  | zero =>
    obtain rfl := List.length_eq_zero_iff.1 (Nat.le_zero.1 hn)
    cases n' <;> rfl
  | succ n ih =>
    rcases ts with _ | ⟨t, ts⟩
    · cases n' <;> rfl
    obtain ⟨n', rfl⟩ : ∃ m, n' = m + 1 := by
      rw [List.length_cons] at hn'
      exact ⟨n' - 1, by omega⟩
    by_cases he : t.shape = .eof
    · simp [program, he]
    have hlt := @recover_length_lt file fuel room t he ts
    have hsame : form file fuel room (t :: ts) = form file fuel' room (t :: ts) :=
      form_congr hf hf'
    have hmore : program (form file fuel room) n (recover t (form file fuel room (t :: ts))) =
        program (form file fuel' room) n' (recover t (form file fuel room (t :: ts))) :=
      ih (by omega) (by omega) (by omega) (by omega)
    rw [program_cons he, program_cons he, hmore, hsame]

/-- One top-level form, and then the others. -/
lemma ofTokens_cons {t : Token} (ht : t.shape ≠ .eof) (ts : List Token) :
    ofTokens file (t :: ts) =
      ((form file (t :: ts).length maxNesting (t :: ts)).value?.toList
          ++ (ofTokens file (recover t (form file (t :: ts).length maxNesting (t :: ts)))).1,
        (form file (t :: ts).length maxNesting (t :: ts)).errors
          ++ (ofTokens file (recover t (form file (t :: ts).length maxNesting (t :: ts)))).2) := by
  have hlt := @recover_length_lt file (t :: ts).length maxNesting t ht ts
  rw [List.length_cons] at hlt
  have hmore : program (form file (ts.length + 1) maxNesting) ts.length
      (recover t (form file (ts.length + 1) maxNesting (t :: ts))) =
      ofTokens file (recover t (form file (ts.length + 1) maxNesting (t :: ts))) :=
    program_congr (by omega) le_rfl (by omega) le_rfl
  rw [ofTokens, List.length_cons, program_cons ht, hmore]

end Reader

end ChannelLisp
