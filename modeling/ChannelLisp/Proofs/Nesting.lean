import ChannelLisp.Proofs.Locality
import Mathlib.Tactic

/-!
The nesting limit. Of a source that is a program but for how deep it nests, the forms that keep
to the limit are read as if the others were not there, and each of the others is dropped for
the tokens in it that open the first level beyond the limit.

Which level a token opens is told from the tokens before it, by a stack of the lists and quotes
that are open. A list ends with its parenthesis; a quote ends with the form behind it.
-/

namespace ChannelLisp

open Grammar

mutual

/-- How deep lists nest. -/
def Node.depth : Node → Nat
  | .call items _ => depthAll items + 1
  | _ => 0

def depthAll : List Node → Nat
  | [] => 0
  | n :: ns => max n.depth (depthAll ns)

end

/-! ### Levels -/

/-- What is still open once a form ends: the quotes right before the form end with it. -/
def closeQuotes (opened : List Shape) : List Shape := opened.dropWhile (· == .quote)

/-- The tokens that open a level, each with the level it opens. Around them, `opened` are the
open lists and quotes, the innermost first. -/
def levels : List Shape → List Token → List (Token × Nat)
  | _, [] => []
  | opened, t :: ts =>
    match t.shape with
    | .lparen | .quote => (t, opened.length + 1) :: levels (t.shape :: opened) ts
    | .rparen => levels (closeQuotes opened.tail) ts
    | _ => levels (closeQuotes opened) ts

/-- The tokens that open a level. -/
def openers (level : Nat) (ts : List Token) : List Token :=
  ((levels [] ts).filter (·.2 = level)).map Prod.fst

/-- The token opens too deep a level. -/
def tooDeep (file : String) (t : Token) : ReadError := ⟨.nesting, some ⟨file, t.line⟩⟩

namespace Grammar

variable {file : String}

mutual

/-- The index of a derivation is how deep its tree nests: each list and each quote is a call. -/
lemma Derives.depth_eq {d : Nat} {ts : List Token} {n : Node} (h : Derives file d ts n) :
    n.depth = d := by
  cases h with
  | list _ h _ => rw [Node.depth, h.depthAll_eq]
  | quote _ h => simp [Node.depth, depthAll, h.depth_eq]
  | string _ => rfl
  | atom _ h => cases h <;> rfl

lemma DerivesAll.depthAll_eq {d : Nat} {ts : List Token} {ns : List Node}
    (h : DerivesAll file d ts ns) : depthAll ns = d := by
  cases h with
  | nil => rfl
  | cons h hs => rw [depthAll, h.depth_eq, hs.depthAll_eq]

end

/-- A form with any depth is a list or a quotation. -/
lemma Derives.opens {d : Nat} {t : Token} {ts : List Token} {n : Node}
    (h : Derives file d (t :: ts) n) (hd : 0 < d) : t.shape = .lparen ∨ t.shape = .quote := by
  cases h with
  | list ho _ _ => exact .inl ho
  | quote hq _ => exact .inr hq
  | string _ => cases hd
  | atom _ _ => cases hd

mutual

/-- The levels of a form, and behind it those of what follows. -/
lemma Derives.levels_append {d : Nat} {ts : List Token} {n : Node} (h : Derives file d ts n)
    (opened : List Shape) (us : List Token) :
    levels opened (ts ++ us) = levels opened ts ++ levels (closeQuotes opened) us := by
  cases h with
  | @list d o c ts ns ho h hc =>
    have hitems := h.levels_append (.lparen :: opened) rfl
    simp [levels, ho, hc, hitems]
  | @quote d q ts n hq h =>
    have hform := h.levels_append (.quote :: opened)
    simp [levels, hq, hform, closeQuotes]
  | string ht => simp [levels, ht]
  | atom ht _ => simp [levels, ht]

lemma DerivesAll.levels_append {d : Nat} {ts : List Token} {ns : List Node}
    (h : DerivesAll file d ts ns) (opened : List Shape) (ho : closeQuotes opened = opened)
    (us : List Token) : levels opened (ts ++ us) = levels opened ts ++ levels opened us := by
  cases h with
  | nil => simp [levels]
  | cons h hs =>
    rw [List.append_assoc, h.levels_append, h.levels_append, ho, hs.levels_append _ ho,
      List.append_assoc]

end

/-- A list opens a level, and its items open theirs. -/
lemma DerivesAll.levels_list {d : Nat} {o c : Token} {ts : List Token} {ns : List Node}
    (h : DerivesAll file d ts ns) (ho : o.shape = .lparen) (hc : c.shape = .rparen)
    (opened : List Shape) : levels opened (o :: (ts ++ [c])) =
      (o, opened.length + 1) :: levels (.lparen :: opened) ts := by
  have hitems := h.levels_append (.lparen :: opened) rfl [c]
  simp [levels, ho, hc, hitems]

lemma levels_quote {q : Token} (hq : q.shape = .quote) (opened : List Shape) (ts : List Token) :
    levels opened (q :: ts) = (q, opened.length + 1) :: levels (.quote :: opened) ts := by
  simp [levels, hq]

mutual

/-- A form opens no level that is already open around it. -/
lemma Derives.lt_levels {d : Nat} {ts : List Token} {n : Node} (h : Derives file d ts n)
    (opened : List Shape) : ∀ p ∈ levels opened ts, opened.length < p.2 := by
  cases h with
  | list ho h hc =>
    rw [h.levels_list ho hc]
    refine List.forall_mem_cons.2 ⟨Nat.lt_succ_self _, fun p hp => ?_⟩
    exact Nat.lt_of_succ_lt (h.lt_levels (.lparen :: opened) rfl p hp)
  | quote hq h =>
    rw [levels_quote hq]
    refine List.forall_mem_cons.2 ⟨Nat.lt_succ_self _, fun p hp => ?_⟩
    exact Nat.lt_of_succ_lt (h.lt_levels (.quote :: opened) p hp)
  | string ht => simp [levels, ht]
  | atom ht _ => simp [levels, ht]

lemma DerivesAll.lt_levels {d : Nat} {ts : List Token} {ns : List Node}
    (h : DerivesAll file d ts ns) (opened : List Shape) (ho : closeQuotes opened = opened) :
    ∀ p ∈ levels opened ts, opened.length < p.2 := by
  cases h with
  | nil => simp [levels]
  | cons h hs =>
    have ih := h.lt_levels opened
    have ihs := hs.lt_levels opened ho
    rw [h.levels_append, ho]
    intro p hp
    rcases List.mem_append.1 hp with hp | hp
    · exact ih p hp
    · exact ihs p hp

end

end Grammar

/-! ### Reading -/

/-- One error for each token that opens the level. -/
def report (file : String) (level : Nat) (ps : List (Token × Nat)) : List ReadError :=
  (ps.filter (·.2 = level)).map fun p => tooDeep file p.1

lemma report_append (file : String) (level : Nat) (ps qs : List (Token × Nat)) :
    report file level (ps ++ qs) = report file level ps ++ report file level qs := by
  simp [report]

lemma report_cons_self (file : String) (t : Token) (level : Nat) {ps : List (Token × Nat)}
    (h : ∀ p ∈ ps, level < p.2) : report file level ((t, level) :: ps) = [tooDeep file t] := by
  have hnil : ps.filter (·.2 = level) = [] :=
    List.filter_eq_nil_iff.2 fun p hp => by simpa using (h p hp).ne'
  simp [report, hnil]

lemma report_cons_of_ne {file : String} {t : Token} {level k : Nat} (h : k ≠ level)
    (ps : List (Token × Nat)) : report file level ((t, k) :: ps) = report file level ps := by
  simp [report, h]

namespace Reader

variable {file : String} {fuel room : Nat}

lemma skipForm_derives {d : Nat} {ts : List Token} {n : Node} (h : Derives file d ts n)
    (rest : List Token) : skipForm (ts ++ rest) = rest := by
  induction ts generalizing d n with
  | nil =>
    obtain ⟨_, _, hts, -⟩ := h.head
    cases hts
  | cons t ts ih =>
    cases h with
    | list ho h hc => simp [skipForm, ho, skipOpen_group h.balanced hc]
    | quote hq h => simp [skipForm, hq, ih h]
    | string ht => simp [skipForm, ht]
    | atom ht _ => simp [skipForm, ht]

mutual

/-- A form of any depth is read through its last token. It is built if there is room for it,
and otherwise there is an error for each token in it that opens one level too many. -/
lemma form_nested {d : Nat} {ts : List Token} {n : Node} (h : Derives file d ts n)
    (hf : ts.length ≤ fuel) (room : Nat) (opened : List Shape) (rest : List Token) :
    form file fuel room (ts ++ rest) =
      ⟨if d ≤ room then some n else none,
        report file (opened.length + room + 1) (levels opened ts), rest⟩ := by
  cases h with
  | @list d o c ts ns ho h hc =>
    rw [h.levels_list ho hc]
    rcases room with _ | room
    · have hdeep := h.lt_levels (.lparen :: opened) rfl
      rw [report_cons_self file o (opened.length + 1) hdeep]
      simp [form, ho, fail, skipOpen_group h.balanced hc, tooDeep]
    · simp only [List.length_cons, List.length_append, List.length_nil] at hf
      have hitems := items_nested h (by omega) room (.lparen :: opened) rfl fuel (by omega) hc
        ⟨file, o.line⟩ rest
      have hlevel : opened.length + 1 + room = opened.length + (room + 1) := by omega
      rw [List.length_cons, hlevel] at hitems
      rw [report_cons_of_ne (by omega)]
      by_cases hd : d ≤ room <;> simp [form, ho, hitems, hd]
  | @quote d q ts n hq h =>
    rw [levels_quote hq]
    rcases room with _ | room
    · have hdeep := h.lt_levels (.quote :: opened)
      rw [report_cons_self file q (opened.length + 1) hdeep]
      simp [form, hq, fail, skipForm_derives h, tooDeep]
    · have hform := form_nested h (Nat.le_of_succ_le hf) room (.quote :: opened) rest
      obtain ⟨t, us, rfl, h1, h2⟩ := h.head
      have hlevel : opened.length + 1 + room = opened.length + (room + 1) := by omega
      rw [List.length_cons, hlevel, List.cons_append] at hform
      rw [report_cons_of_ne (by omega)]
      by_cases hd : d ≤ room <;> simp [form, hq, missing, h1, h2, hform, hd, quotation]
  | string ht => simp [form, ht, levels, report]
  | atom ht h => simp [form, ht, atom_eq_ok_iff.2 h, levels, report]

lemma items_nested {d : Nat} {ts : List Token} {ns : List Node} (h : DerivesAll file d ts ns)
    (hf : ts.length ≤ fuel) (room : Nat) (opened : List Shape) (ho : closeQuotes opened = opened)
    (k : Nat) (hk : ts.length < k) {c : Token} (hc : c.shape = .rparen) (loc : Location)
    (rest : List Token) :
    items (form file fuel room) loc k (ts ++ c :: rest) =
      ⟨if d ≤ room then some ns else none,
        report file (opened.length + room + 1) (levels opened ts), rest⟩ := by
  obtain ⟨k, rfl⟩ : ∃ j, k = j + 1 := ⟨k - 1, by omega⟩
  cases h with
  | nil => simp [items, hc, levels, report]
  | @cons d e ts us n ns h hs =>
    simp only [List.length_append] at hf hk
    rw [h.levels_append, ho, report_append]
    obtain ⟨t, ts', rfl, h1, h2⟩ := h.head
    rw [List.length_cons] at hf hk
    have hone := form_nested h (by rw [List.length_cons]; omega) room opened (us ++ c :: rest)
    have hmore := items_nested hs (by omega) room opened ho k (by omega) hc loc rest
    simp only [List.cons_append, List.append_assoc] at hone ⊢
    rw [items_cons h1 h2, hone, hmore]
    by_cases hd : d ≤ room <;> by_cases he : e ≤ room <;> simp [hd, he]

end

/-- Forms of any depth at top level: those that keep to the limit are read. -/
lemma ofTokens_nested {d : Nat} {ts : List Token} {ns : List Node} (h : DerivesAll file d ts ns)
    (rest : List Token) : ofTokens file (ts ++ rest) =
      (ns.filter (·.depth ≤ maxNesting) ++ (ofTokens file rest).1,
        report file (maxNesting + 1) (levels [] ts) ++ (ofTokens file rest).2) := by
  induction ns generalizing d ts with
  | nil =>
    cases h
    rfl
  | cons n ns ih =>
    rcases h with _ | @⟨d, e, ts, us, _, _, h, hs⟩
    have hlen : ts.length ≤ (ts ++ (us ++ rest)).length := by simp
    have hform := form_nested h hlen maxNesting [] (us ++ rest)
    rw [h.levels_append, report_append, List.append_assoc]
    rw [List.length_nil, Nat.zero_add] at hform
    have hdepth := h.depth_eq
    obtain ⟨t, ts', rfl, ht, -⟩ := h.head
    -- a form that is too deep is a list or a quotation, so nothing is skipped behind it
    have hrecover : recover t (form file (t :: (ts' ++ (us ++ rest))).length maxNesting
        (t :: (ts' ++ (us ++ rest)))) = us ++ rest := by
      rw [List.cons_append] at hform
      rw [hform, recover]
      by_cases hd : d ≤ maxNesting
      · simp [hd]
      · rcases h.opens (by omega) with hl | hq
        · simp [hl]
        · simp [hq]
    rw [List.cons_append] at hform ⊢
    rw [ofTokens_cons ht, hrecover, hform, ih hs]
    by_cases hd : d ≤ maxNesting <;> simp [hd, hdepth, closeQuotes]

end Reader

/-- **The nesting limit is exact.** A source that derives at whatever depth is read into those of
its forms that keep to the limit, in order. The errors are one for each token that opens the
first level beyond it, in order and at that token's line. -/
theorem nesting_limit_exact {source label : String} {d : Nat} {ns : List Node}
    (h : DerivesAll label d (tokenize source).dropLast ns) :
    read source label =
      (ns.filter (·.depth ≤ maxNesting),
        (openers (maxNesting + 1) (tokenize source).dropLast).map (tooDeep label)) ∧
      Fault.nesting.message = "nesting exceeds 256 levels" := by
  obtain ⟨us, e, htok, he, -⟩ := Scan.tokens_eq source.toList
  rw [tokenize, htok, List.dropLast_concat] at h ⊢
  have hend : Reader.ofTokens label [e] = ([], []) := by
    simp [Reader.ofTokens, Reader.program, he]
  refine ⟨?_, by decide⟩
  rw [read, tokenize, htok, Reader.ofTokens_nested h, hend]
  simp [report, openers]

/-- A form under 255 quotes in which a quote and a list are one level too deep, and a form that
is not deep. -/
def deepSource : String :=
  "'" ++ String.ofList (List.replicate 254 '\'') ++ "(x '(y)\n(z))\n(b)"

/-- The tokens of the deep form behind its first quote. -/
def deepTokens : List Token :=
  List.replicate 254 ⟨.quote, 1, false⟩ ++
    [⟨.lparen, 1, false⟩, ⟨.atom "x", 1, false⟩, ⟨.quote, 1, true⟩, ⟨.lparen, 1, false⟩,
      ⟨.atom "y", 1, false⟩, ⟨.rparen, 1, false⟩, ⟨.lparen, 2, true⟩, ⟨.atom "z", 2, false⟩,
      ⟨.rparen, 2, false⟩, ⟨.rparen, 2, false⟩]

lemma Scan.run_quotes (k line : Nat) (ts : List Token) :
    run ⟨.gap, line, false, ts⟩ (List.replicate k '\'') =
      ⟨.gap, line, false, List.replicate k ⟨.quote, line, false⟩ ++ ts⟩ := by
  induction k generalizing ts with
  | zero => rfl
  | succ k ih =>
    have hstep : step ⟨.gap, line, false, ts⟩ '\'' =
        ⟨.gap, line, false, ⟨.quote, line, false⟩ :: ts⟩ := rfl
    rw [List.replicate_succ, run_cons, hstep, ih, List.replicate_succ', List.append_assoc,
      List.singleton_append]

lemma dropLast_tokenize_deepSource : (tokenize deepSource).dropLast =
    ⟨.quote, 1, true⟩ :: deepTokens ++
      [⟨.lparen, 3, true⟩, ⟨.atom "b", 3, false⟩, ⟨.rparen, 3, false⟩] := by
  have hfirst : Scan.run Scan.init "'".toList = ⟨.gap, 1, false, [⟨.quote, 1, true⟩]⟩ := rfl
  have hrest (ts : List Token) : Scan.run ⟨.gap, 1, false, ts⟩ "(x '(y)\n(z))\n(b)".toList =
      ⟨.gap, 3, false, ⟨.rparen, 3, false⟩ :: ⟨.atom "b", 3, false⟩ :: ⟨.lparen, 3, true⟩ ::
        ⟨.rparen, 2, false⟩ :: ⟨.rparen, 2, false⟩ :: ⟨.atom "z", 2, false⟩ ::
        ⟨.lparen, 2, true⟩ :: ⟨.rparen, 1, false⟩ :: ⟨.atom "y", 1, false⟩ ::
        ⟨.lparen, 1, false⟩ :: ⟨.quote, 1, true⟩ :: ⟨.atom "x", 1, false⟩ ::
        ⟨.lparen, 1, false⟩ :: ts⟩ := rfl
  have hquotes := @String.toList_ofList (List.replicate 254 '\'')
  rw [tokenize, deepSource, String.toList_append, String.toList_append, hquotes,
    Scan.tokens, Scan.run_append, Scan.run_append, hfirst, Scan.run_quotes, hrest,
    Scan.State.finish, List.reverse_cons, List.dropLast_concat]
  simp [deepTokens, -List.reduceReplicate]

lemma derives_letter {file s : String} {line : Nat} {spaced : Bool} (hk : s ∉ keywords)
    (hs : Numeral.looksNumeric s.toList = false) :
    Derives file 0 [⟨.atom s, line, spaced⟩] (.symbol s (some ⟨file, line⟩)) :=
  .atom rfl (.symbol hk hs)

lemma exists_derives_quotes {file : String} {d : Nat} {ts : List Token} {n : Node} {q : Token}
    (h : Derives file d ts n) (hq : q.shape = .quote) (k : Nat) :
    ∃ m, Derives file (d + k) (List.replicate k q ++ ts) m := by
  induction k with
  | zero => exact ⟨n, h⟩
  | succ k ih =>
    obtain ⟨m, hm⟩ := ih
    exact ⟨_, .quote hq hm⟩

/-- Quotes around the list put its inner lists beyond the limit. -/
lemma derives_deepTokens : ∃ m, Derives "test" 257 deepTokens m := by
  have hx := @derives_letter "test" "x" 1 false (by decide) (by decide)
  have hy := @derives_letter "test" "y" 1 false (by decide) (by decide)
  have hz := @derives_letter "test" "z" 2 false (by decide) (by decide)
  have hquoted := Derives.quote (q := ⟨.quote, 1, true⟩) rfl
    (.list (o := ⟨.lparen, 1, false⟩) (c := ⟨.rparen, 1, false⟩) rfl (.cons hy .nil) rfl)
  have hlast := Derives.list (o := ⟨.lparen, 2, true⟩) (c := ⟨.rparen, 2, false⟩) rfl
    (.cons hz .nil) rfl
  have hlist := Derives.list (o := ⟨.lparen, 1, false⟩) (c := ⟨.rparen, 2, false⟩) rfl
    (.cons hx (.cons hquoted (.cons hlast .nil))) rfl
  exact exists_derives_quotes hlist rfl 254

theorem nesting_limit_exact_siblings :
    ∃ ns, DerivesAll "test" 258 (tokenize deepSource).dropLast ns ∧
      read deepSource "test" =
        ([.call [.symbol "b" (some ⟨"test", 3⟩)] (some ⟨"test", 3⟩)],
          [⟨.nesting, some ⟨"test", 1⟩⟩, ⟨.nesting, some ⟨"test", 2⟩⟩]) := by
  obtain ⟨m, hdeep⟩ := derives_deepTokens
  have hb := @derives_letter "test" "b" 3 false (by decide) (by decide)
  have hflat := Derives.list (o := ⟨.lparen, 3, true⟩) (c := ⟨.rparen, 3, false⟩) rfl
    (.cons hb .nil) rfl
  have hall : DerivesAll "test" 258 (tokenize deepSource).dropLast
      [.call [.symbol "quote" (some ⟨"test", 1⟩), m] (some ⟨"test", 1⟩),
        .call [.symbol "b" (some ⟨"test", 3⟩)] (some ⟨"test", 3⟩)] := by
    rw [dropLast_tokenize_deepSource]
    exact .cons (.quote rfl hdeep) (.cons hflat .nil)
  refine ⟨_, hall, ?_⟩
  have hopeners : openers (maxNesting + 1) (tokenize deepSource).dropLast =
      [⟨.quote, 1, true⟩, ⟨.lparen, 2, true⟩] := by
    rw [dropLast_tokenize_deepSource]
    decide +kernel
  rw [(nesting_limit_exact hall).1, hopeners]
  simp [Node.depth, depthAll, hdeep.depth_eq, maxNesting, tooDeep]

end ChannelLisp
