import ChannelLisp.Token.Scan
import Mathlib.Tactic

/-!
What the scan makes of texts. Every token before the end is proper: it is not the end, and an
atom is a lexeme, that is, characters of which none ends an atom. Conversely a lexeme is
scanned into one atom and a written literal into one string.

An atom is a token only once something ends it. `State.settle` ends it at once, so that what
is said about a text does not hang on what comes after.
-/

namespace ChannelLisp

/-- A text that one atom can carry. -/
def IsLexeme (s : String) : Prop :=
  s.toList ≠ [] ∧ ∀ c ∈ s.toList, Scan.isDelimiter c = false

def Token.Proper (t : Token) : Prop :=
  t.shape ≠ .eof ∧ ∀ s, t.shape = .atom s → IsLexeme s

namespace Scan

/-- What has been read so far is proper, the atom being read included. -/
structure Proper (s : State) : Prop where
  tokens : ∀ t ∈ s.tokens, t.Proper
  atom : ∀ cs, s.mode = .atom cs → cs ≠ [] ∧ ∀ c ∈ cs, isDelimiter c = false

lemma Proper.emit {s : State} (h : Proper s) {shape : Shape} (hs : shape ≠ .eof)
    (ha : ∀ w, shape = .atom w → IsLexeme w) (l : Nat) : Proper (s.emit shape l) := by
  refine ⟨?_, by simp [State.emit]⟩
  intro t ht
  rcases List.mem_cons.1 ht with rfl | ht
  · exact ⟨hs, ha⟩
  · exact h.tokens t ht

lemma Proper.endAtom {s : State} (h : Proper s) {cs : List Char} (hm : s.mode = .atom cs) :
    Proper (s.endAtom cs) := by
  obtain ⟨hne, hcs⟩ := h.atom cs hm
  refine h.emit (by simp) ?_ _
  rintro w hw
  obtain rfl := Shape.atom.inj hw
  simpa [IsLexeme] using ⟨hne, hcs⟩

lemma Proper.start {s : State} (h : Proper s) (c : Char) : Proper (s.start c) := by
  unfold State.start
  split_ifs with h1 h2 h3 h4 h5 h6
  · exact ⟨h.tokens, by simp⟩
  · exact ⟨h.tokens, by simp⟩
  · exact h.emit (by simp) (by simp) _
  · exact h.emit (by simp) (by simp) _
  · exact h.emit (by simp) (by simp) _
  · exact ⟨h.tokens, by simp⟩
  · refine ⟨h.tokens, ?_⟩
    rintro cs hcs
    obtain rfl := Mode.atom.inj hcs
    simp [isDelimiter, h1, h2, h3, h4, h5, h6]

lemma step_proper {s : State} (h : Proper s) (c : Char) : Proper (step s c) := by
  unfold step
  split
  · exact h.start c
  · split
    · exact ⟨h.tokens, by simp⟩
    · exact h
  · rename_i cs hm
    split
    · exact (h.endAtom hm).start c
    · rename_i hc
      obtain ⟨-, hcs⟩ := h.atom cs hm
      refine ⟨h.tokens, ?_⟩
      rintro ds hds
      obtain rfl := Mode.atom.inj hds
      simpa using ⟨Bool.eq_false_iff.2 hc, hcs⟩
  · split
    · exact h.emit (by simp) (by simp) _
    · split
      · exact ⟨h.tokens, by simp⟩
      · exact ⟨h.tokens, by simp⟩
  · exact ⟨h.tokens, by simp⟩

lemma run_proper {s : State} (h : Proper s) (cs : List Char) : Proper (run s cs) := by
  induction cs generalizing s with
  | nil => exact h
  | cons c cs ih => exact ih (step_proper h c)

/-- The tokens of a text are proper ones and the end. -/
lemma tokens_eq (cs : List Char) :
    ∃ us e, tokens cs = us ++ [e] ∧ e.shape = .eof ∧ ∀ t ∈ us, t.Proper := by
  have h : Proper (run init cs) := run_proper ⟨by simp [init], by simp [init]⟩ cs
  unfold tokens State.finish
  set s := run init cs
  rcases hm : s.mode with _ | _ | as | ⟨l, as⟩ | ⟨l, as⟩
  · exact ⟨s.tokens.reverse, ⟨.eof, s.line, true⟩, by simp, rfl, by simpa using h.tokens⟩
  · exact ⟨s.tokens.reverse, ⟨.eof, s.line, true⟩, by simp, rfl, by simpa using h.tokens⟩
  · exact ⟨_, _, List.reverse_cons, rfl, by simpa using (h.endAtom hm).tokens⟩
  · exact ⟨_, _, List.reverse_cons, rfl, by simpa using (h.emit (by simp) (by simp) l).tokens⟩
  · exact ⟨_, _, List.reverse_cons, rfl, by simpa using (h.emit (by simp) (by simp) l).tokens⟩

/-! ### Texts that are scanned whole -/

/-- The state once the atom being read, if there is one, has ended. -/
def State.settle (s : State) : State :=
  match s.mode with
  | .atom cs => s.endAtom cs
  | _ => s

lemma step_settle (s : State) {c : Char} (hc : isDelimiter c = true) :
    step s.settle c = step s c := by
  unfold State.settle
  split
  · rename_i cs hm
    simp [step, hm, hc, State.endAtom, State.emit]
  · rfl

lemma finish_settle (s : State) : s.settle.finish = s.finish := by
  unfold State.settle
  split
  · rename_i cs hm
    simp [State.finish, hm, State.endAtom, State.emit]
  · rfl

/-- What follows a settled text, if it starts with a character that ends atoms. -/
lemma run_append_cons {s s' : State} {u : List Char} (h : (run s u).settle = s') {c : Char}
    (hc : isDelimiter c = true) (v : List Char) :
    run s (u ++ c :: v) = run (step s' c) v := by
  rw [run_append, run_cons, ← h, step_settle _ hc]

lemma run_atom {as cs : List Char} (hcs : ∀ c ∈ cs, isDelimiter c = false) {s : State}
    (hs : s.mode = .atom as) : run s cs = { s with mode := .atom (cs.reverse ++ as) } := by
  induction cs generalizing s as with
  | nil => simp [← hs]
  | cons c cs ih =>
    have hc := hcs c (by simp)
    have hstep : step s c = { s with mode := .atom (c :: as) } := by simp [step, hs, hc]
    have hs' : (step s c).mode = .atom (c :: as) := by rw [hstep]
    rw [run_cons, ih (fun d hd => hcs d (by simp [hd])) hs', hstep]
    simp

/-- A lexeme is one atom. -/
lemma settle_run_lexeme {w : String} (hw : IsLexeme w) {s : State} (hs : s.mode = .gap) :
    (run s w.toList).settle = s.emit (.atom w) s.line := by
  obtain ⟨hne, hcs⟩ := hw
  obtain ⟨c, cs, hcons⟩ := List.exists_cons_of_ne_nil hne
  rw [hcons] at hcs
  have hc := hcs c (by simp)
  have hstart : step s c = { s with mode := .atom [c] } := by
    simp only [isDelimiter, Bool.or_eq_false_iff, beq_eq_false_iff_ne] at hc
    obtain ⟨⟨⟨⟨⟨h1, h2⟩, h3⟩, h4⟩, h5⟩, h6⟩ := hc
    simp [step, hs, State.start, h1, h2, h3, h4, h5, h6]
  rw [hcons, run_cons, hstart, run_atom (fun d hd => hcs d (by simp [hd])) rfl]
  simp [State.settle, State.endAtom, State.emit, ← hcons]

lemma run_escaped (w : List Char) (l n : Nat) (cs : List Char) (sp : Bool) (ts : List Token) :
    ∃ n', run ⟨.text l cs, n, sp, ts⟩ (w.flatMap Text.escape) =
      ⟨.text l (w.reverse ++ cs), n', sp, ts⟩ := by
  induction w generalizing n cs with
  | nil => exact ⟨n, by simp⟩
  | cons c w ih =>
    rw [List.flatMap_cons, run_append]
    rcases Text.escape_eq c with ⟨he, h1, h2⟩ | ⟨d, he, hd⟩
    · obtain ⟨n', hn⟩ := ih (nextLine n c) (c :: cs)
      exact ⟨n', by simpa [he, step, h1, h2] using hn⟩
    · obtain ⟨n', hn⟩ := ih (nextLine n d) (c :: cs)
      exact ⟨n', by simpa [he, step, hd] using hn⟩

/-- A written literal is one string. -/
lemma run_quoted (w : String) {s : State} (hs : s.mode = .gap) :
    ∃ n, run s (Text.quoted w).toList = { s.emit (.string w) s.line with line := n } := by
  obtain ⟨mode, n, sp, ts⟩ := s
  obtain rfl : mode = .gap := hs
  have hopen : step ⟨.gap, n, sp, ts⟩ '"' = ⟨.text n [], n, sp, ts⟩ := rfl
  obtain ⟨n', hn⟩ := run_escaped w.toList n n [] sp ts
  refine ⟨n', ?_⟩
  simp only [Text.quoted, String.toList_ofList, List.cons_append, run_cons, hopen, run_append, hn]
  simp [step, State.emit]

end Scan

end ChannelLisp
