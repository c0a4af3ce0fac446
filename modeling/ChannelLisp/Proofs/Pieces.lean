import ChannelLisp.Proofs.Scanning
import Mathlib.Tactic

/-!
The text behind the tokens. A source is cut into pieces, each of them a gap and then the text
of one token, with one more gap at the end, and no character is left over. How a token is
written depends on what comes after it only in that an atom goes as far as it can and a literal
that is cut off goes to the end.

The scan is followed from a gap over one piece at a time. What is said about a piece looks at
the text behind it, so the induction is on the characters that are still to be read.
-/

namespace ChannelLisp

/-- Blanks and comments, with `after` behind them. A comment goes on to a newline or to the end
of the source. -/
inductive IsGap (after : List Char) : List Char → Prop where
  | nil : IsGap after []
  | blank {c : Char} {g : List Char} (hc : Text.isBlank c = true) (h : IsGap after g) :
      IsGap after (c :: g)
  | comment {body g : List Char} (hbody : '\n' ∉ body)
      (hend : ∀ c ∈ (g ++ after).head?, c = '\n') (h : IsGap after g) :
      IsGap after (';' :: (body ++ g))

/-- What is between the quote marks of a literal, and the text that it stands for. A quote mark
or a backslash is there only behind a backslash. -/
inductive Contents : List Char → List Char → Prop where
  | nil : Contents [] []
  | plain {c : Char} {b v : List Char} (hq : c ≠ '"') (hb : c ≠ '\\') (h : Contents b v) :
      Contents (c :: b) (c :: v)
  | escape {b v : List Char} (c : Char) (h : Contents b v) :
      Contents ('\\' :: c :: b) (Text.unescape c :: v)

/-- How a token is written, with `after` behind it. A literal that is cut off may end in a
backslash that escapes nothing. -/
inductive Written (after : List Char) : Shape → List Char → Prop where
  | lparen : Written after .lparen ['(']
  | rparen : Written after .rparen [')']
  | quote : Written after .quote ['\'']
  | atom {cs : List Char} (hne : cs ≠ []) (hcs : ∀ c ∈ cs, Scan.isDelimiter c = false)
      (hend : ∀ c ∈ after.head?, Scan.isDelimiter c = true) :
      Written after (.atom (String.ofList cs)) cs
  | string {b v : List Char} (h : Contents b v) :
      Written after (.string (String.ofList v)) ('"' :: (b ++ ['"']))
  | unterminated {b v tail : List Char} (h : Contents b v) (htail : tail = [] ∨ tail = ['\\'])
      (hend : after = []) : Written after .unterminated ('"' :: (b ++ tail))

/-- A token, its text, and the gap before it. -/
structure Piece where
  gap : List Char
  text : List Char
  token : Token

/-- The characters of pieces, one after another. -/
def laid (ps : List Piece) : List Char := ps.flatMap fun p => p.gap ++ p.text

@[simp] lemma laid_nil : laid [] = [] := rfl

@[simp] lemma laid_cons (p : Piece) (ps : List Piece) :
    laid (p :: ps) = p.gap ++ p.text ++ laid ps := by simp [laid]

/-- A piece of a text that starts on line `start`, between other pieces and the text `after`.
Of the first piece, `spaced` says whether it counts as spaced even without a gap. -/
structure Piece.Fits (start : Nat) (spaced : Bool) (before : List Piece) (p : Piece)
    (after : List Char) : Prop where
  gap : IsGap (p.text ++ after) p.gap
  text : Written after p.token.shape p.text
  line : p.token.line = start + (laid before ++ p.gap).count '\n'
  spaced_iff : p.token.spaced = true ↔ (before = [] ∧ spaced = true) ∨ p.gap ≠ []

lemma Written.ne_nil {after text : List Char} {shape : Shape} (h : Written after shape text) :
    text ≠ [] := by
  cases h with
  | atom hne _ _ => exact hne
  | _ => simp

lemma Written.shape_ne_eof {after text : List Char} {shape : Shape}
    (h : Written after shape text) : shape ≠ .eof := by
  cases h <;> simp

/-- The longest front of a list where `p` holds. -/
lemma exists_span (p : Char → Bool) (cs : List Char) : ∃ us vs, cs = us ++ vs ∧
    (∀ c ∈ us, p c = true) ∧ ∀ c ∈ vs.head?, p c = false := by
  refine ⟨cs.takeWhile p, cs.dropWhile p, List.takeWhile_append_dropWhile.symm,
    fun c hc => List.all_eq_true.1 List.all_takeWhile c hc, fun c hc => ?_⟩
  have hhead := List.head?_dropWhile_not p cs
  rw [Option.mem_def.1 hc] at hhead
  simpa using hhead

namespace Scan

lemma nextLine_add_count (n : Nat) (c : Char) (cs : List Char) :
    nextLine n c + cs.count '\n' = n + (c :: cs).count '\n' := by
  rw [nextLine, List.count_cons]
  by_cases hc : c = '\n'
  · simp only [hc, if_true, beq_self_eq_true]
    omega
  · simp [hc]

/-! ### Over a gap -/

/-- Where a comment ends, the scan goes on as in a gap. -/
lemma finish_comment {body tail : List Char} (hbody : '\n' ∉ body)
    (htail : ∀ c ∈ tail.head?, c = '\n') (n : Nat) (ts : List Token) :
    (run ⟨.comment, n, true, ts⟩ (body ++ tail)).finish =
      (run ⟨.gap, n, true, ts⟩ tail).finish := by
  induction body with
  | nil =>
    rcases tail with _ | ⟨c, tail⟩
    · rfl
    · obtain rfl : c = '\n' := htail c rfl
      rfl
  | cons c body ih =>
    rw [List.mem_cons, not_or] at hbody
    obtain ⟨hc, hbody⟩ := hbody
    have hstep : step ⟨.comment, n, true, ts⟩ c = ⟨.comment, n, true, ts⟩ := by
      simp [step, Ne.symm hc]
    rw [List.cons_append, run_cons, hstep, ih hbody]

/-- In a gap the scan goes over all blanks and comments. -/
lemma finish_gap (cs : List Char) : ∃ g rest, cs = g ++ rest ∧ IsGap rest g ∧
    (∀ c ∈ rest.head?, Text.isBlank c = false ∧ c ≠ ';') ∧
    ∀ n sp ts, (run ⟨.gap, n, sp, ts⟩ cs).finish =
      (run ⟨.gap, n + g.count '\n', sp || !g.isEmpty, ts⟩ rest).finish := by
  induction hlen : cs.length using Nat.strong_induction_on generalizing cs with
  | _ len ih =>
    rcases cs with _ | ⟨c, cs⟩
    · exact ⟨[], [], rfl, .nil, by simp, fun n sp ts => by simp⟩
    rw [List.length_cons] at hlen
    by_cases hblank : Text.isBlank c = true
    · obtain ⟨g, rest, rfl, hg, hrest, hrun⟩ := ih cs.length (by omega) cs rfl
      refine ⟨c :: g, rest, rfl, .blank hblank hg, hrest, fun n sp ts => ?_⟩
      have hstep : step ⟨.gap, n, sp, ts⟩ c = ⟨.gap, nextLine n c, true, ts⟩ := by
        simp [step, State.start, hblank]
      rw [run_cons, hstep, hrun, nextLine_add_count]
      simp
    by_cases hsemi : c = ';'
    · -- the newline that ends the comment is a blank of the gap behind it
      obtain ⟨body, tail, rfl, hbody, htail⟩ := exists_span (· != '\n') cs
      have hnot : '\n' ∉ body := fun hmem => by simpa using hbody '\n' hmem
      have hhead : ∀ c ∈ tail.head?, c = '\n' := fun c hc => by simpa using htail c hc
      rw [List.length_append] at hlen
      obtain ⟨g, rest, rfl, hg, hrest, hrun⟩ := ih tail.length (by omega) tail rfl
      refine ⟨';' :: (body ++ g), rest, by simp [hsemi], .comment hnot hhead hg, hrest,
        fun n sp ts => ?_⟩
      have hstep : step ⟨.gap, n, sp, ts⟩ c = ⟨.comment, n, true, ts⟩ := by
        rw [hsemi]
        rfl
      have hcount : (';' :: (body ++ g)).count '\n' = g.count '\n' := by
        simp [List.count_eq_zero_of_not_mem hnot]
      rw [run_cons, hstep, finish_comment hnot hhead, hrun, hcount]
      simp
    · have hhead : Text.isBlank c = false ∧ c ≠ ';' := ⟨by simpa using hblank, hsemi⟩
      exact ⟨[], c :: cs, rfl, .nil, by simpa using hhead, fun n sp ts => by simp⟩

/-! ### Over a token -/

/-- Inside a literal the scan goes on to the first quote mark that is not escaped, or to the
end. -/
lemma finish_text : ∀ (cs acc : List Char) (l n : Nat) (sp : Bool) (ts : List Token),
    (∃ b v rest, cs = b ++ '"' :: rest ∧ Contents b v ∧
      run ⟨.text l acc, n, sp, ts⟩ cs = run ⟨.gap, n + b.count '\n', false,
        ⟨.string (String.ofList (acc.reverse ++ v)), l, sp⟩ :: ts⟩ rest) ∨
    ∃ b v tail, cs = b ++ tail ∧ Contents b v ∧ (tail = [] ∨ tail = ['\\']) ∧
      (run ⟨.text l acc, n, sp, ts⟩ cs).finish =
        State.finish ⟨.gap, n + b.count '\n', false, ⟨.unterminated, l, sp⟩ :: ts⟩
  | [], acc, l, n, sp, ts => .inr ⟨[], [], [], rfl, .nil, .inl rfl, rfl⟩
  | c :: cs, acc, l, n, sp, ts => by
    by_cases hq : c = '"'
    · refine .inl ⟨[], [], cs, by simp [hq], .nil, ?_⟩
      simp [step, hq, State.emit]
    by_cases hb : c = '\\'
    · subst hb
      rcases cs with _ | ⟨d, cs⟩
      · exact .inr ⟨[], [], ['\\'], rfl, .nil, .inr rfl, rfl⟩
      have hstep : run ⟨.text l acc, n, sp, ts⟩ ('\\' :: d :: cs) =
          run ⟨.text l (Text.unescape d :: acc), nextLine n d, sp, ts⟩ cs := rfl
      have hline (b : List Char) :
          nextLine n d + b.count '\n' = n + ('\\' :: d :: b).count '\n' := by
        rw [nextLine_add_count]
        rfl
      rw [hstep]
      rcases finish_text cs (Text.unescape d :: acc) l (nextLine n d) sp ts with
        ⟨b, v, rest, rfl, hcont, h⟩ | ⟨b, v, tail, rfl, hcont, htail, h⟩
      · exact .inl ⟨'\\' :: d :: b, _, rest, rfl, .escape d hcont, by simp [h, hline]⟩
      · exact .inr ⟨'\\' :: d :: b, _, tail, rfl, .escape d hcont, htail, by rw [h, hline]⟩
    · have hstep : step ⟨.text l acc, n, sp, ts⟩ c =
          ⟨.text l (c :: acc), nextLine n c, sp, ts⟩ := by
        simp [step, hq, hb]
      rw [run_cons, hstep]
      rcases finish_text cs (c :: acc) l (nextLine n c) sp ts with
        ⟨b, v, rest, rfl, hcont, h⟩ | ⟨b, v, tail, rfl, hcont, htail, h⟩
      · exact .inl ⟨c :: b, _, rest, rfl, .plain hq hb hcont, by simp [h, nextLine_add_count]⟩
      · exact .inr ⟨c :: b, _, tail, rfl, .plain hq hb hcont, htail, by
          rw [h, nextLine_add_count]⟩

/-- An atom goes on to the next delimiter. -/
lemma finish_atom {c : Char} {cs : List Char} (hdel : isDelimiter c = false) (n : Nat) (sp : Bool)
    (ts : List Token) : ∃ shape text rest, c :: cs = text ++ rest ∧
      Written rest shape text ∧ (run ⟨.gap, n, sp, ts⟩ (c :: cs)).finish =
        (run ⟨.gap, n + text.count '\n', false, ⟨shape, n, sp⟩ :: ts⟩ rest).finish := by
  obtain ⟨us, vs, hsplit, hus, hvs⟩ := exists_span (fun c => !isDelimiter c) (c :: cs)
  have hne : us ≠ [] := by
    rintro rfl
    have hc := hvs c (by rw [← List.nil_append vs, ← hsplit]; rfl)
    simp [hdel] at hc
  have hatom : ∀ d ∈ us, isDelimiter d = false := fun d hd => by simpa using hus d hd
  have hend : ∀ d ∈ vs.head?, isDelimiter d = true := fun d hd => by simpa using hvs d hd
  have hlexeme : IsLexeme (String.ofList us) := by simpa [IsLexeme] using ⟨hne, hatom⟩
  have hcount : us.count '\n' = 0 := List.count_eq_zero_of_not_mem fun hmem => by
    simpa [isDelimiter, Text.isBlank_newline] using hatom '\n' hmem
  have hsettle := settle_run_lexeme hlexeme (s := ⟨.gap, n, sp, ts⟩) rfl
  rw [String.toList_ofList] at hsettle
  refine ⟨_, us, vs, hsplit, .atom hne hatom hend, ?_⟩
  rw [hsplit, hcount]
  rcases vs with _ | ⟨d, vs⟩
  · rw [List.append_nil, ← finish_settle, hsettle]
    rfl
  · rw [run_append_cons hsettle (hend d rfl)]
    rfl

/-- Where no gap goes on, a token begins, and the scan goes over its text. -/
lemma finish_token {c : Char} {cs : List Char} (hblank : Text.isBlank c = false) (hsemi : c ≠ ';')
    (n : Nat) (sp : Bool) (ts : List Token) : ∃ shape text rest, c :: cs = text ++ rest ∧
      Written rest shape text ∧ (run ⟨.gap, n, sp, ts⟩ (c :: cs)).finish =
        (run ⟨.gap, n + text.count '\n', false, ⟨shape, n, sp⟩ :: ts⟩ rest).finish := by
  by_cases hopen : c = '('
  · subst hopen
    exact ⟨.lparen, ['('], cs, rfl, .lparen, rfl⟩
  by_cases hclose : c = ')'
  · subst hclose
    exact ⟨.rparen, [')'], cs, rfl, .rparen, rfl⟩
  by_cases hquote : c = '\''
  · subst hquote
    exact ⟨.quote, ['\''], cs, rfl, .quote, rfl⟩
  by_cases hstring : c = '"'
  · subst hstring
    have hstep : step ⟨.gap, n, sp, ts⟩ '"' = ⟨.text n [], n, sp, ts⟩ := rfl
    rw [run_cons, hstep]
    rcases finish_text cs [] n n sp ts with
      ⟨b, v, rest, rfl, hcont, h⟩ | ⟨b, v, tail, rfl, hcont, htail, h⟩
    · exact ⟨_, '"' :: (b ++ ['"']), rest, by simp, .string hcont, by simp [h]⟩
    · have hcount : ('"' :: (b ++ tail)).count '\n' = b.count '\n' := by
        rcases htail with rfl | rfl <;> simp
      exact ⟨_, '"' :: (b ++ tail), [], by simp, .unterminated hcont htail rfl, by
        rw [h, hcount, run_nil]⟩
  · exact finish_atom (by simp [isDelimiter, hblank, hopen, hclose, hquote, hstring, hsemi]) n sp ts

/-! ### Over all of a text -/

/-- From a gap on, the scan gives the tokens of pieces that make up the text. -/
lemma finish_pieces (cs : List Char) (n : Nat) (sp : Bool) (ts : List Token) :
    ∃ ps last, cs = laid ps ++ last ∧ IsGap [] last ∧
      (run ⟨.gap, n, sp, ts⟩ cs).finish =
        ts.reverse ++ (ps.map Piece.token ++ [⟨.eof, n + cs.count '\n', true⟩]) ∧
      ∀ before p after, ps = before ++ p :: after → p.Fits n sp before (laid after ++ last) := by
  induction hlen : cs.length using Nat.strong_induction_on generalizing cs n sp ts with
  | _ len ih =>
    obtain ⟨g, rest, rfl, hg, hhead, hgap⟩ := finish_gap cs
    rcases rest with _ | ⟨c, rest⟩
    · refine ⟨[], g, by simp, hg, ?_, by simp⟩
      rw [hgap]
      simp [State.finish]
    obtain ⟨hblank, hsemi⟩ := hhead c rfl
    obtain ⟨shape, text, rest', hrest, hwritten, htoken⟩ :=
      @finish_token c rest hblank hsemi (n + g.count '\n') (sp || !g.isEmpty) ts
    have hpos := List.length_pos_of_ne_nil hwritten.ne_nil
    rw [hrest, List.length_append, List.length_append] at hlen
    obtain ⟨ps, last, rfl, hlast, hrun, hfits⟩ := ih rest'.length (by omega) rest'
      (n + g.count '\n' + text.count '\n') false _ rfl
    refine ⟨⟨g, text, ⟨shape, n + g.count '\n', sp || !g.isEmpty⟩⟩ :: ps, last,
      by rw [hrest]; simp, hlast, ?_, ?_⟩
    · rw [hgap, htoken, hrun, hrest]
      simp [Nat.add_assoc]
    · intro before p after hps
      rcases before with _ | ⟨q, before⟩
      · obtain ⟨rfl, rfl⟩ := List.cons.inj hps
        refine ⟨?_, hwritten, by simp, by simp⟩
        rwa [← hrest]
      · obtain ⟨rfl, rfl⟩ := List.cons.inj hps
        have hp := hfits before p after rfl
        refine ⟨hp.gap, hp.text, ?_, ?_⟩
        · rw [hp.line]
          simp only [laid_cons, List.count_append]
          omega
        · simpa using hp.spaced_iff

end Scan

/-- The first token counts as spaced, be it the end. -/
lemma glued_tokenize (source : String) : glued (tokenize source) = false := by
  obtain ⟨ps, last, -, -, hrun, hfits⟩ := Scan.finish_pieces source.toList 1 true []
  have htokens : tokenize source = ps.map Piece.token ++ [⟨.eof, _, true⟩] := hrun
  rw [htokens]
  rcases ps with _ | ⟨p, ps⟩
  · rfl
  · have hspaced : p.token.spaced = true := (hfits [] p ps rfl).spaced_iff.2 (.inl ⟨rfl, rfl⟩)
    simp [glued, hspaced]

end ChannelLisp
