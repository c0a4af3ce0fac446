import ChannelLisp.Proofs.Shifting
import ChannelLisp.Text.Bytes
import Mathlib.Tactic

/-!
Scanning by byte offsets. The text of an atom is not collected here but cut out of the source,
from the offset at which the atom starts to the offset at which it ends. A cut is refused
unless the offsets are in order, inside the source, and between characters; and a count is
refused if it does not fit into a word of the host. For a source that is not too long nothing
is refused, and the tokens are the same.
-/

namespace ChannelLisp

open Text

/-- A count, if it fits into a word of the host. -/
def counter? (n : Nat) : Option Nat := if n < 2 ^ 64 then some n else none

/-- A scan that knows its offsets. -/
structure Scanner where
  scan : Scan.State
  /-- Of the next character. -/
  offset : Nat
  /-- Of the first character of the atom being read, if there is one. -/
  start : Nat

namespace Scanner

def init : Scanner := ⟨Scan.init, 0, 0⟩

/-- The scan with the text of the atom being read cut out of the source. -/
def cut? (source : List Char) (r : Scanner) : Option Scan.State :=
  match r.scan.mode with
  | .atom _ =>
    (slice? source r.start r.offset).map fun cs => { r.scan with mode := .atom cs.reverse }
  | _ => some r.scan

/-- The character goes on with the atom being read. -/
def continues (r : Scanner) (c : Char) : Bool :=
  match r.scan.mode with
  | .atom _ => !Scan.isDelimiter c
  | _ => false

def step? (source : List Char) (r : Scanner) (c : Char) : Option Scanner := do
  let offset ← counter? (r.offset + c.utf8Size)
  let _line ← counter? (Scan.nextLine r.scan.line c)
  if r.continues c then
    return ⟨Scan.step r.scan c, offset, r.start⟩
  else
    let s ← r.cut? source
    return ⟨Scan.step s c, offset, r.offset⟩

def run? (source : List Char) : Scanner → List Char → Option Scanner
  | r, [] => some r
  | r, c :: cs => (r.step? source c).bind (run? source · cs)

end Scanner

/-- The tokens of a source, unless something is refused. -/
def tokenize? (source : String) : Option (List Token) := do
  let r ← Scanner.init.run? source.toList source.toList
  let s ← r.cut? source.toList
  return s.finish

namespace Scanner

/-- The scan has read a text, and its offsets are those of the text. -/
structure Fits (us : List Char) (r : Scanner) : Prop where
  scan : r.scan = Scan.run Scan.init us
  offset : r.offset = bytes us
  atom : ∀ cs, r.scan.mode = .atom cs → ∃ vs, us = vs ++ cs.reverse ∧ r.start = bytes vs

variable {us : List Char} {r : Scanner}

lemma Fits.init : Fits [] init := ⟨rfl, rfl, by simp [Scanner.init, Scan.init]⟩

/-- What is cut out is what was read. -/
lemma Fits.cut?_eq (h : Fits us r) (vs : List Char) : r.cut? (us ++ vs) = some r.scan := by
  obtain ⟨⟨mode, line, spaced, tokens⟩, offset, start⟩ := r
  cases mode with
  | atom cs =>
    obtain ⟨ws, rfl, hstart⟩ := h.atom cs rfl
    have hslice : slice? (ws ++ cs.reverse ++ vs) start offset = some cs.reverse := by
      rw [show start = _ from hstart, show offset = _ from h.offset]
      exact slice?_bytes ws cs.reverse vs
    simp only [cut?, hslice, Option.map_some, List.reverse_reverse]
  | _ => rfl

lemma start_mode {s : Scan.State} {c : Char} {cs : List Char} (h : (s.start c).mode = .atom cs) :
    cs = [c] := by
  unfold Scan.State.start at h
  split_ifs at h <;> simp_all [Scan.State.emit]

/-- An atom that was not there before starts with the character. -/
lemma step_mode {c : Char} {cs : List Char} (hc : r.continues c = false)
    (h : (Scan.step r.scan c).mode = .atom cs) : cs = [c] := by
  obtain ⟨⟨mode, line, spaced, tokens⟩, offset, start⟩ := r
  cases mode with
  | gap => exact start_mode h
  | comment =>
    simp only [Scan.step] at h
    split_ifs at h
  | atom ds =>
    have hdel : Scan.isDelimiter c = true := by simpa [continues] using hc
    simp only [Scan.step, hdel, if_true] at h
    exact start_mode h
  | text l ds =>
    simp only [Scan.step] at h
    split_ifs at h
    simp [Scan.State.emit] at h
  | escape l ds => simp [Scan.step] at h

lemma counter?_eq {n : Nat} (h : n < 2 ^ 64) : counter? n = some n := if_pos h

lemma line_le (us : List Char) : (Scan.run Scan.init us).line ≤ bytes us + 1 := by
  have hcount : us.count '\n' ≤ us.length := List.count_le_length
  have hlength := length_le_bytes us
  rw [Scan.line_run]
  simp only [Scan.init]
  omega

/-- One character is read without anything being refused. -/
lemma Fits.step?_eq (h : Fits us r) (c : Char) (vs : List Char)
    (hsize : bytes (us ++ c :: vs) < 2 ^ 31) :
    ∃ r', r.step? (us ++ c :: vs) c = some r' ∧ Fits (us ++ [c]) r' := by
  rw [bytes_append, bytes_cons] at hsize
  have hscan : Scan.step r.scan c = Scan.run Scan.init (us ++ [c]) := by
    rw [h.scan, Scan.run_append, Scan.run_cons, Scan.run_nil]
  have hoffset : counter? (r.offset + c.utf8Size) = some (bytes (us ++ [c])) := by
    rw [h.offset, counter?_eq (by omega)]
    simp
  have hline : counter? (Scan.nextLine r.scan.line c) = some (Scan.nextLine r.scan.line c) := by
    have hle := line_le us
    apply counter?_eq
    rw [h.scan, Scan.nextLine]
    split <;> omega
  by_cases hc : r.continues c = true
  · refine ⟨⟨Scan.step r.scan c, bytes (us ++ [c]), r.start⟩, by simp [step?, hoffset, hline, hc],
      hscan, rfl, ?_⟩
    obtain ⟨⟨mode, line, spaced, tokens⟩, offset, start⟩ := r
    cases mode with
    | atom ds =>
      have hdel : Scan.isDelimiter c = false := by simpa [continues] using hc
      intro cs hcs
      obtain ⟨ws, hws, hstart⟩ := h.atom ds rfl
      simp only [Scan.step, hdel, Bool.false_eq_true, if_false, Scan.Mode.atom.injEq] at hcs
      exact ⟨ws, by simp [← hcs, hws], hstart⟩
    | _ => simp [continues] at hc
  · have hc : r.continues c = false := by simpa using hc
    have hcut := h.cut?_eq (c :: vs)
    refine ⟨⟨Scan.step r.scan c, bytes (us ++ [c]), r.offset⟩,
      by simp [step?, hoffset, hline, hc, hcut], hscan, rfl, fun cs hcs => ?_⟩
    obtain rfl := step_mode hc hcs
    exact ⟨us, rfl, h.offset⟩

lemma Fits.run?_eq (h : Fits us r) (vs : List Char) (hsize : bytes (us ++ vs) < 2 ^ 31) :
    ∃ r', r.run? (us ++ vs) vs = some r' ∧ Fits (us ++ vs) r' := by
  induction vs generalizing us r with
  | nil => exact ⟨r, rfl, by simpa using h⟩
  | cons c vs ih =>
    obtain ⟨r', hstep, hfits⟩ := h.step?_eq c vs hsize
    have hassoc : us ++ [c] ++ vs = us ++ c :: vs := by simp
    have hrest := ih hfits (by rwa [hassoc])
    rw [hassoc] at hrest
    obtain ⟨r'', hrun, hfits'⟩ := hrest
    exact ⟨r'', by rw [run?, hstep, Option.bind_some, hrun], hfits'⟩

end Scanner

/-- No cut and no count of the scan is refused. -/
theorem tokenize?_eq {source : String} (h : source.utf8ByteSize < 2 ^ 31) :
    tokenize? source = some (tokenize source) := by
  rw [← bytes_toList] at h
  obtain ⟨r, hrun, hfits⟩ := Scanner.Fits.init.run?_eq source.toList h
  have hcut := hfits.cut?_eq []
  rw [List.append_nil] at hcut
  rw [List.nil_append] at hrun hfits hcut
  simp [tokenize?, tokenize, Scan.tokens, hrun, hcut, hfits.scan]

/-! ### How many tokens there are -/

namespace Scan

/-- The tokens so far, with the one being read. -/
def State.begun (s : State) : Nat :=
  match s.mode with
  | .gap | .comment => s.tokens.length
  | .atom _ | .text _ _ | .escape _ _ => s.tokens.length + 1

lemma begun_start {s : State} (h : s.mode = .gap) (c : Char) : (s.start c).begun ≤ s.begun + 1 := by
  unfold State.start
  split_ifs <;> simp [State.begun, State.emit, h]

lemma begun_step (s : State) (c : Char) : (step s c).begun ≤ s.begun + 1 := by
  obtain ⟨mode, line, spaced, tokens⟩ := s
  cases mode with
  | gap => exact begun_start rfl c
  | comment =>
    simp only [step]
    split <;> simp [State.begun]
  | atom cs =>
    simp only [step]
    split
    · exact begun_start rfl c
    · simp [State.begun]
  | text l cs =>
    simp only [step]
    split_ifs <;> simp [State.begun, State.emit]
  | escape l cs => simp [step, State.begun]

lemma begun_run (s : State) (cs : List Char) : (run s cs).begun ≤ s.begun + cs.length := by
  induction cs generalizing s with
  | nil => exact le_rfl
  | cons c cs ih =>
    have hstep := begun_step s c
    have hrest := ih (step s c)
    rw [run_cons, List.length_cons]
    omega

lemma length_finish (s : State) : s.finish.length = s.begun + 1 := by
  obtain ⟨mode, line, spaced, tokens⟩ := s
  cases mode <;> simp [State.finish, State.begun, State.endAtom, State.emit]

end Scan

/-- Every token but the last takes up a byte of the source. -/
lemma length_tokenize_le (source : String) :
    (tokenize source).length ≤ source.utf8ByteSize + 1 := by
  have hbegun := Scan.begun_run Scan.init source.toList
  have hbytes := length_le_bytes source.toList
  rw [bytes_toList] at hbytes
  rw [tokenize, Scan.tokens, Scan.length_finish]
  have hinit : Scan.init.begun = 0 := rfl
  omega

end ChannelLisp
