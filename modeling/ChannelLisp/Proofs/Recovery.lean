import ChannelLisp.Node.Display
import ChannelLisp.Proofs.Segments
import Mathlib.Tactic

/-!
Where reading goes on after a top-level form that failed. After a fragment that is no list and
begins with no quote it goes on at a token with a gap before it, so nothing that is glued to the
fragment is read. After a failed quotation it goes on right behind the quotes and at most one
token more: what is glued to that is read as a form of its own.
-/

namespace ChannelLisp

def Token.isQuote (t : Token) : Bool := t.shape == .quote

namespace Segment

/-- The first token is a quote. -/
def isQuoted (s : Segment) : Bool := s.tokens.head?.any Token.isQuote

/-- A list, perhaps with quotes before it. -/
def isList (s : Segment) : Bool :=
  (s.tokens.dropWhile Token.isQuote).head?.any (·.shape == .lparen)

/-- A gap stands before the first token. -/
def isSpaced (s : Segment) : Bool := s.tokens.head?.any (·.spaced)

end Segment

namespace Reader

variable {file : String} {fuel room : Nat} {t : Token} {ts rest : List Token}

/-- What was glued to a failed fragment has been dropped. -/
lemma resync_head (depth : Nat) (ts : List Token) (u : Token) (us : List Token)
    (h : resync depth ts = u :: us) : u.shape = .eof ∨ u.spaced = true := by
  fun_induction resync depth ts with
  | case1 depth => cases h
  | case2 t ts hstop =>
    cases h
    exact hstop
  | case3 t ts _ _ ih => exact ih h
  | case4 t ts _ _ ih => exact ih h
  | case5 depth t ts ht =>
    cases h
    exact .inl ht
  | case6 depth t ts _ ih => exact ih h
  | case7 depth t ts _ ih => exact ih h
  | case8 depth t ts _ _ _ ih => exact ih h

/-! ### Behind the quotes -/

/-- The rest of a form whose tokens behind the quotes are `core`: a list goes past its opening
parenthesis, and anything else is at most one token. -/
def Past (core rest : List Token) : Prop :=
  match core with
  | [] => rest = []
  | o :: c => if o.shape = .lparen then rest <:+ c else rest = o :: c ∨ rest = c

lemma past_one (ht : t.shape ≠ .lparen) (hrest : rest = t :: ts ∨ rest = ts) :
    Past (t :: ts) rest := by
  simpa [Past, ht] using hrest

lemma past_list (ht : t.shape = .lparen) (hrest : rest <:+ ts) : Past (t :: ts) rest := by
  simpa [Past, ht] using hrest

lemma dropWhile_isQuote_of_quote (ht : t.shape = .quote) (ts : List Token) :
    (t :: ts).dropWhile Token.isQuote = ts.dropWhile Token.isQuote := by
  simp [Token.isQuote, ht]

lemma dropWhile_isQuote_of_ne (ht : t.shape ≠ .quote) (ts : List Token) :
    (t :: ts).dropWhile Token.isQuote = t :: ts := by
  simp [Token.isQuote, ht]

lemma skipForm_past (ts : List Token) : Past (ts.dropWhile Token.isQuote) (skipForm ts) := by
  fun_induction skipForm ts with
  | case1 => exact rfl
  | case2 t ts ht ih => rwa [dropWhile_isQuote_of_quote ht]
  | case3 t ts ht =>
    rw [dropWhile_isQuote_of_ne (by simp [ht])]
    exact past_one (by simp [ht]) (.inl rfl)
  | case4 t ts ht =>
    rw [dropWhile_isQuote_of_ne (by simp [ht])]
    exact past_one (by simp [ht]) (.inl rfl)
  | case5 t ts ht =>
    rw [dropWhile_isQuote_of_ne (by simp [ht])]
    exact past_list ht (skipOpen_suffix 1 ts)
  | case6 t ts hq _ _ hl =>
    rw [dropWhile_isQuote_of_ne hq]
    exact past_one hl (.inr rfl)

lemma afterMissing_past (room : Nat) (hm : missing ts = true) :
    Past (ts.dropWhile Token.isQuote) (afterMissing room ts) := by
  rcases ts with _ | ⟨t, ts⟩
  · exact rfl
  · have hshape : t.shape = .eof ∨ t.shape = .rparen := by simpa [missing] using hm
    have hrest : afterMissing room (t :: ts) = t :: ts ∨ afterMissing room (t :: ts) = ts := by
      simp only [afterMissing]
      split
      · exact .inr rfl
      · exact .inl rfl
    rw [dropWhile_isQuote_of_ne (by rcases hshape with h | h <;> simp [h])]
    exact past_one (by rcases hshape with h | h <;> simp [h]) hrest

lemma form_past (ts : List Token) :
    Past (ts.dropWhile Token.isQuote) (form file fuel room ts).rest := by
  -- a token that is neither a quote nor opens a list is a form by itself, or stays
  have single {t : Token} {ts rest : List Token} (hq : t.shape ≠ .quote) (hl : t.shape ≠ .lparen)
      (hrest : rest = t :: ts ∨ rest = ts) : Past ((t :: ts).dropWhile Token.isQuote) rest := by
    rw [dropWhile_isQuote_of_ne hq]
    exact past_one hl hrest
  refine form_induct (P := fun _ ts r => Past (ts.dropWhile Token.isQuote) r.rest)
    file fuel ?nil ?deepList ?deepQuote ?list ?lone ?quote ?close ?string ?atom ?badAtom ?cut ?eof
    room ts
  case nil => exact fun _ => rfl
  case deepList =>
    intro t ts ht
    rw [dropWhile_isQuote_of_ne (by simp [ht])]
    exact past_list ht (skipOpen_suffix 1 ts)
  case deepQuote =>
    intro t ts ht
    rw [dropWhile_isQuote_of_quote ht]
    exact skipForm_past ts
  case list =>
    rintro room t ts r ht - rfl
    rw [dropWhile_isQuote_of_ne (by simp [ht])]
    exact past_list ht (items_suffix (fun us => form_suffix us) _ fuel ts)
  case lone =>
    intro room t ts ht hm
    rw [dropWhile_isQuote_of_quote ht]
    exact afterMissing_past _ hm
  case quote =>
    intro room t ts r ht _ ih
    rwa [dropWhile_isQuote_of_quote ht]
  case close => exact fun room t ts ht => single (by simp [ht]) (by simp [ht]) (.inr rfl)
  case string => exact fun room t ts s ht => single (by simp [ht]) (by simp [ht]) (.inr rfl)
  case atom => exact fun room t ts s n ht _ => single (by simp [ht]) (by simp [ht]) (.inr rfl)
  case badAtom => exact fun room t ts s e ht _ => single (by simp [ht]) (by simp [ht]) (.inr rfl)
  case cut => exact fun room t ts ht => single (by simp [ht]) (by simp [ht]) (.inr rfl)
  case eof => exact fun room t ts ht => single (by simp [ht]) (by simp [ht]) (.inl rfl)

/-- Of what stands behind the quotes, at most one token is taken if it is no list. -/
lemma length_le_one_of_past {us : List Token} (h : Past ((us ++ rest).dropWhile Token.isQuote) rest)
    (hl : (us.dropWhile Token.isQuote).head?.any (·.shape == .lparen) = false) :
    (us.dropWhile Token.isQuote).length ≤ 1 := by
  rcases hcore : us.dropWhile Token.isQuote with _ | ⟨o, c⟩
  · simp
  · have hrest : (us ++ rest).dropWhile Token.isQuote = o :: (c ++ rest) := by
      rw [List.dropWhile_append, hcore]
      simp
    have ho : o.shape ≠ .lparen := by simpa [hcore] using hl
    rw [hrest] at h
    simp only [Past, ho, if_false] at h
    rcases h with h | h
    · have hlen := congrArg List.length h
      simp only [List.length_cons, List.length_append] at hlen
      omega
    · have hlen := congrArg List.length h
      simp only [List.length_append] at hlen
      simp only [List.length_cons]
      omega

/-! ### Attempts -/

/-- A segment begins with the token at which the attempt was made. -/
lemma attempt_tokens (ht : t.shape ≠ .eof) (ts : List Token) :
    ∃ us, (attempt (form file fuel maxNesting) t ts).tokens = t :: us := by
  obtain ⟨htokens, hne, -, -⟩ := @attempt_spec file fuel t ts ht
  obtain ⟨u, us, hcons⟩ := List.exists_cons_of_ne_nil hne
  rw [hcons, List.cons_append] at htokens
  exact ⟨us, by rw [hcons, (List.cons.inj htokens).1]⟩

/-- A failed quotation takes at most one token behind its quotes. -/
lemma attempt_quoted (ht : t.shape ≠ .eof) (ts : List Token)
    (hq : (attempt (form file fuel maxNesting) t ts).isQuoted = true)
    (hl : (attempt (form file fuel maxNesting) t ts).isList = false) :
    ((attempt (form file fuel maxNesting) t ts).tokens.dropWhile Token.isQuote).length ≤ 1 := by
  obtain ⟨htokens, -, -, -⟩ := @attempt_spec file fuel t ts ht
  obtain ⟨us, hcons⟩ := @attempt_tokens file fuel t ht ts
  have hquote : t.shape = .quote := by
    simpa [Segment.isQuoted, Token.isQuote, hcons] using hq
  -- nothing is skipped after a quotation
  have hrest : recover t (form file fuel maxNesting (t :: ts)) =
      (form file fuel maxNesting (t :: ts)).rest := by
    simp [recover, hquote]
  have hpast := @form_past file fuel maxNesting (t :: ts)
  rw [← hrest] at hpast
  nth_rewrite 1 [← htokens] at hpast
  exact length_le_one_of_past hpast hl

/-- After a dropped fragment that is neither a list nor quoted, what follows has a gap before it. -/
lemma recover_spaced {u : Token} {us : List Token}
    (hv : (form file fuel maxNesting (t :: ts)).value? = none)
    (hq : t.shape ≠ .quote) (hl : t.shape ≠ .lparen)
    (h : recover t (form file fuel maxNesting (t :: ts)) = u :: us) (hu : u.shape ≠ .eof) :
    u.spaced = true := by
  have hsync : resync 0 (form file fuel maxNesting (t :: ts)).rest = u :: us := by
    simpa [recover, hv, hq, hl] using h
  exact (resync_head _ _ u us hsync).resolve_left hu

/-- The first segment begins with the first token. -/
lemma head?_segments {k : Nat} {s : Segment}
    (h : (segments (form file fuel maxNesting) k ts).head? = some s) :
    ∃ u us vs, ts = u :: us ∧ u.shape ≠ .eof ∧ s.tokens = u :: vs := by
  rcases k with _ | k
  · simp [segments] at h
  rcases ts with _ | ⟨u, us⟩
  · simp [segments] at h
  by_cases hu : u.shape = .eof
  · simp [segments, hu] at h
  · rw [segments_cons hu, List.head?_cons, Option.some.injEq] at h
    obtain ⟨vs, hcons⟩ := @attempt_tokens file fuel u hu us
    exact ⟨u, us, vs, rfl, hu, h ▸ hcons⟩

lemma segments_isChain (k : Nat) (ts : List Token) :
    (segments (form file fuel maxNesting) k ts).IsChain fun s s' =>
      s.value? = none → s.isList = false → s.isQuoted = false → s'.isSpaced = true := by
  induction k generalizing ts with
  | zero => simp [segments]
  | succ k ih =>
    rcases ts with _ | ⟨t, ts⟩
    · simp [segments]
    by_cases ht : t.shape = .eof
    · simp [segments, ht]
    rw [segments_cons ht]
    refine (ih _).cons fun s' hs' hv hl hq => ?_
    obtain ⟨u, us, vs, hrest, hu, hs'⟩ := head?_segments hs'
    obtain ⟨ws, hcons⟩ := @attempt_tokens file fuel t ht ts
    have hquote : t.shape ≠ .quote := by
      simpa [Segment.isQuoted, Token.isQuote, hcons] using hq
    have hlist : t.shape ≠ .lparen := by
      rw [Segment.isList, hcons, dropWhile_isQuote_of_ne hquote] at hl
      simpa using hl
    have hspaced := recover_spaced hv hquote hlist hrest hu
    simp [Segment.isSpaced, hs', hspaced]

lemma quoted_of_mem_segments {k : Nat} {s : Segment}
    (h : s ∈ segments (form file fuel maxNesting) k ts) (hq : s.isQuoted = true)
    (hl : s.isList = false) : (s.tokens.dropWhile Token.isQuote).length ≤ 1 := by
  induction k generalizing ts with
  | zero => simp [segments] at h
  | succ k ih =>
    rcases ts with _ | ⟨t, ts⟩
    · simp [segments] at h
    by_cases ht : t.shape = .eof
    · simp [segments, ht] at h
    rw [segments_cons ht] at h
    rcases List.mem_cons.1 h with rfl | h
    · exact attempt_quoted ht ts hq hl
    · exact ih h

end Reader

/-- **Where reading goes on after a failed form.** The forms and errors that are read are those
of the segments. If a dropped segment is no list and has no quote in front, the next one begins
behind a gap: nothing that is glued to the fragment is read. A failed quotation that is no list
takes at most one token with it, so what is glued to it makes the next segment. -/
theorem resumes_behind_fragment (source label : String) :
    read source label = ((segments source label).filterMap Segment.value?,
        (segments source label).flatMap Segment.errors) ∧
      ((segments source label).IsChain fun s s' =>
        s.value? = none → s.isList = false → s.isQuoted = false → s'.isSpaced = true) ∧
      ∀ s ∈ segments source label, s.value? = none → s.isList = false → s.isQuoted = true →
        (s.tokens.dropWhile Token.isQuote).length ≤ 1 :=
  ⟨Reader.program_eq_segments _ _ _, Reader.segments_isChain _ _,
    fun _ hs _ hl hq => Reader.quoted_of_mem_segments hs hq hl⟩

/-- The list that is glued to a failed quotation is read as a form. -/
theorem glued_list_surfaces :
    (¬ (segments "'1x(f)" "test").IsChain fun s s' =>
      s.value? = none → s.isList = false → s'.isSpaced = true) ∧
      (read "'1x(f)" "test").1.map Node.display = ["(f)"] := by
  refine ⟨fun h => ?_, by decide⟩
  have hnext := (List.isChain_cons_cons.1 h).1 rfl rfl
  exact absurd hnext (by decide)

end ChannelLisp
