import ChannelLisp.Proofs.Shifting
import Mathlib.Tactic

/-!
Errors stay in their list. A group is a list whose inside is any tokens with balanced
parentheses, good or bad. However it fails, a group is read exactly through its own closing
parenthesis, and what is read does not depend on what follows. So a text that is made of forms
and groups can be put in front of any other text, on lines of its own, and both are read as if
they stood alone.
-/

namespace ChannelLisp

open Grammar

namespace Grammar

/-- Tokens other than parentheses, cut-off literals and the end. -/
def Inner (t : Token) : Prop :=
  t.shape = .quote ∨ (∃ s, t.shape = .atom s) ∨ ∃ s, t.shape = .string s

/-- Any tokens whose parentheses match, with no literal cut off. -/
inductive Balanced : List Token → Prop where
  | nil : Balanced []
  | inner {t : Token} {ts : List Token} (ht : Inner t) (h : Balanced ts) : Balanced (t :: ts)
  | group {o c : Token} {ts us : List Token} (ho : o.shape = .lparen) (h : Balanced ts)
      (hc : c.shape = .rparen) (hs : Balanced us) : Balanced (o :: (ts ++ c :: us))

/-- Forms, nested no deeper than is read, and groups with any inside. -/
inductive Closed : List Token → Prop where
  | nil : Closed []
  | form {file : String} {d : Nat} {ts us : List Token} {n : Node} (hd : d ≤ maxNesting)
      (h : Derives file d ts n) (hs : Closed us) : Closed (ts ++ us)
  | group {o c : Token} {ts us : List Token} (ho : o.shape = .lparen) (h : Balanced ts)
      (hc : c.shape = .rparen) (hs : Closed us) : Closed (o :: (ts ++ c :: us))

lemma Inner.shape_ne {t : Token} (h : Inner t) :
    t.shape ≠ .eof ∧ t.shape ≠ .unterminated ∧ t.shape ≠ .lparen ∧ t.shape ≠ .rparen := by
  rcases h with h | ⟨s, h⟩ | ⟨s, h⟩ <;> simp [h]

lemma Balanced.head {t : Token} {ts : List Token} (h : Balanced (t :: ts)) :
    t.shape ≠ .eof ∧ t.shape ≠ .rparen := by
  cases h with
  | inner ht _ => exact ⟨ht.shape_ne.1, ht.shape_ne.2.2.2⟩
  | group ho _ _ _ => simp [ho]

lemma Balanced.append {ts us : List Token} (h : Balanced ts) (hs : Balanced us) :
    Balanced (ts ++ us) := by
  induction h with
  | nil => exact hs
  | inner ht _ ih => exact .inner ht ih
  | group ho h hc _ _ ih =>
    rw [List.cons_append, List.append_assoc, List.cons_append]
    exact .group ho h hc ih

lemma Balanced.whole {ts : List Token} (h : Balanced ts) : ∀ t ∈ ts, t.shape ≠ .unterminated := by
  induction h with
  | nil => simp
  | inner ht _ ih => exact List.forall_mem_cons.2 ⟨ht.shape_ne.2.1, ih⟩
  | group ho _ hc _ ih ihs =>
    simp only [List.mem_cons, List.mem_append]
    rintro t (rfl | ht | rfl | ht)
    · simp [ho]
    · exact ih t ht
    · simp [hc]
    · exact ihs t ht

mutual

lemma Derives.balanced {file : String} {d : Nat} {ts : List Token} {n : Node}
    (h : Derives file d ts n) : Balanced ts := by
  cases h with
  | list ho h hc => exact .group ho h.balanced hc .nil
  | quote hq h => exact .inner (.inl hq) h.balanced
  | @string t s ht => exact .inner (.inr (.inr ⟨s, ht⟩)) .nil
  | @atom t s n ht _ => exact .inner (.inr (.inl ⟨s, ht⟩)) .nil

lemma DerivesAll.balanced {file : String} {d : Nat} {ts : List Token} {ns : List Node}
    (h : DerivesAll file d ts ns) : Balanced ts := by
  cases h with
  | nil => exact .nil
  | cons h hs => exact h.balanced.append hs.balanced

end

lemma Closed.balanced {ts : List Token} (h : Closed ts) : Balanced ts := by
  induction h with
  | nil => exact .nil
  | form _ h _ ih => exact h.balanced.append ih
  | group ho h hc _ ih => exact .group ho h hc ih

lemma DerivesAll.whole {file : String} {d : Nat} {ts : List Token} {ns : List Node}
    (h : DerivesAll file d ts ns) : ∀ t ∈ ts, t.shape ≠ .unterminated := h.balanced.whole

lemma Closed.whole {ts : List Token} (h : Closed ts) : ∀ t ∈ ts, t.shape ≠ .unterminated :=
  h.balanced.whole

/-! ### The label does not matter -/

lemma Spells.relabel {loc : Location} {s : String} {n : Node} (h : Spells loc s n)
    (loc' : Location) : ∃ m, Spells loc' s m ∧ m.bare = n.bare := by
  cases h with
  | nil => exact ⟨_, .nil, rfl⟩
  | true => exact ⟨_, .true, rfl⟩
  | false => exact ⟨_, .false, rfl⟩
  | int hs hn => exact ⟨_, .int hs hn, rfl⟩
  | float hs hn hx => exact ⟨_, .float hs hn hx, rfl⟩
  | symbol hk hs => exact ⟨_, .symbol hk hs, rfl⟩

mutual

/-- Under another label, the tokens are the same form up to locations. -/
lemma Derives.relabel {file : String} {d : Nat} {ts : List Token} {n : Node}
    (h : Derives file d ts n) (file' : String) : ∃ m, Derives file' d ts m ∧ m.bare = n.bare := by
  cases h with
  | list ho h hc =>
    obtain ⟨ms, hms, hbare⟩ := h.relabel file'
    exact ⟨_, .list ho hms hc, by simp [hbare]⟩
  | quote hq h =>
    obtain ⟨m, hm, hbare⟩ := h.relabel file'
    exact ⟨_, .quote hq hm, by simp [hbare]⟩
  | string ht => exact ⟨_, .string ht, rfl⟩
  | atom ht h =>
    obtain ⟨m, hm, hbare⟩ := h.relabel ⟨file', _⟩
    exact ⟨m, .atom ht hm, hbare⟩

lemma DerivesAll.relabel {file : String} {d : Nat} {ts : List Token} {ns : List Node}
    (h : DerivesAll file d ts ns) (file' : String) :
    ∃ ms, DerivesAll file' d ts ms ∧ ms.map Node.bare = ns.map Node.bare := by
  cases h with
  | nil => exact ⟨_, .nil, rfl⟩
  | cons h hs =>
    obtain ⟨m, hm, hbare⟩ := h.relabel file'
    obtain ⟨ms, hms, hbares⟩ := hs.relabel file'
    exact ⟨_, .cons hm hms, by simp [hbare, hbares]⟩

end

end Grammar

namespace Reader

variable {file : String} {room : Nat} {ts us : List Token}

/-! ### Skipping -/

/-- What is balanced leaves the number of open lists as it was. -/
lemma skipOpen_balanced (h : Balanced ts) (depth : Nat) (rest : List Token) :
    skipOpen (depth + 1) (ts ++ rest) = skipOpen (depth + 1) rest := by
  induction h generalizing depth rest with
  | nil => rfl
  | inner ht _ ih =>
    rcases ht with ht | ⟨s, ht⟩ | ⟨s, ht⟩ <;> simp [skipOpen, ht, ih]
  | group ho _ hc _ ih ihs => simp [skipOpen, ho, hc, ih, ihs]

lemma skipOpen_group (h : Balanced ts) {c : Token} (hc : c.shape = .rparen) (rest : List Token) :
    skipOpen 1 (ts ++ c :: rest) = rest := by
  rw [skipOpen_balanced h 0]
  simp [skipOpen, hc]

lemma skipForm_balanced (h : Balanced ts) : ∃ us, Balanced us ∧ us.length ≤ ts.length ∧
    ∀ c rest, c.shape = .rparen → skipForm (ts ++ c :: rest) = us ++ c :: rest := by
  induction h with
  | nil => exact ⟨[], .nil, le_rfl, fun c rest hc => by simp [skipForm, hc]⟩
  | @inner t ts ht h ih =>
    rcases ht with ht | ⟨s, ht⟩ | ⟨s, ht⟩
    · obtain ⟨us, hus, hlen, hskip⟩ := ih
      refine ⟨us, hus, by simp only [List.length_cons]; omega, fun c rest hc => ?_⟩
      simpa [skipForm, ht] using hskip c rest hc
    · exact ⟨ts, h, by simp, fun c rest hc => by simp [skipForm, ht]⟩
    · exact ⟨ts, h, by simp, fun c rest hc => by simp [skipForm, ht]⟩
  | @group o c ts us ho h hc hs =>
    refine ⟨us, hs, by simp only [List.length_cons, List.length_append]; omega, fun c' rest _ => ?_⟩
    rw [List.cons_append, List.append_assoc, List.cons_append]
    simp [skipForm, ho, skipOpen_group h hc]

/-! ### Inside a group -/

/-- Before a closing parenthesis and whatever follows it, the first form of the tokens is read
with this result and leaves `us` of them. -/
def Reads (file : String) (room : Nat) (ts us : List Token) (v : Option Node)
    (es : List ReadError) : Prop :=
  ∀ c rest fuel, c.shape = .rparen → (ts ++ c :: rest).length ≤ fuel →
    form file fuel room (ts ++ c :: rest) = ⟨v, es, us ++ c :: rest⟩

/-- A form inside a group takes a balanced part of it. -/
def ReadsInside (file : String) (room : Nat) : Prop :=
  ∀ t ts, Balanced (t :: ts) → ∃ us v es, Balanced us ∧ us.length ≤ ts.length ∧
    Reads file room (t :: ts) us v es

/-- The items of a group are read through its closing parenthesis. -/
lemma items_balanced (hform : ReadsInside file room) (loc : Location) (h : Balanced ts) :
    ∃ v es, ∀ c rest fuel n, c.shape = .rparen → (ts ++ c :: rest).length ≤ fuel →
      (ts ++ c :: rest).length ≤ n →
      items (form file fuel room) loc n (ts ++ c :: rest) = ⟨v, es, rest⟩ := by
  induction hlen : ts.length using Nat.strong_induction_on generalizing ts with
  | _ len ih =>
    rcases ts with _ | ⟨t, ts⟩
    · refine ⟨some [], [], fun c rest fuel n hc _ hn => ?_⟩
      obtain ⟨n, rfl⟩ : ∃ m, n = m + 1 := ⟨n - 1, by simp at hn; omega⟩
      simp [items, hc]
    · obtain ⟨he, hr⟩ := h.head
      obtain ⟨us, v, es, hus, hle, hread⟩ := hform t ts h
      rw [List.length_cons] at hlen
      obtain ⟨v', es', hmore⟩ := ih us.length (by omega) hus rfl
      refine ⟨v.bind fun m => v'.map (m :: ·), es ++ es', fun c rest fuel n hc hf hn => ?_⟩
      obtain ⟨n, rfl⟩ : ∃ m, n = m + 1 := ⟨n - 1, by simp at hn; omega⟩
      have hone := hread c rest fuel hc hf
      simp only [List.cons_append, List.length_cons, List.length_append] at hone hf hn
      have hrest := hmore c rest fuel n hc (by simp; omega) (by simp; omega)
      rw [List.cons_append, items_cons he hr, hone, hrest]

/-- A form inside a group, however it fails, does not go beyond the group. -/
lemma form_balanced (hroom : room < maxNesting) : ReadsInside file room := by
  induction room using Nat.strong_induction_on with
  | _ room ih =>
    intro t ts h
    cases h with
    | inner ht h =>
      rcases ht with ht | ⟨s, ht⟩ | ⟨s, ht⟩
      · rcases room with _ | room
        · -- a quote too deep: the form behind it is skipped
          obtain ⟨us, hus, hlen, hskip⟩ := skipForm_balanced h
          refine ⟨us, none, [⟨.nesting, some ⟨file, t.line⟩⟩], hus, hlen,
            fun c rest fuel hc _ => ?_⟩
          simp [form, ht, fail, hskip c rest hc]
        · rcases ts with _ | ⟨u, ts⟩
          · -- the parenthesis behind a lone quote is left, as this is not the top level
            refine ⟨[], none, [⟨.missingForm, some ⟨file, t.line⟩⟩], .nil, le_rfl,
              fun c rest fuel hc _ => ?_⟩
            have hne : room + 1 ≠ maxNesting := by omega
            simp [form, ht, missing, hc, fail, afterMissing, hne]
          · obtain ⟨he, hr⟩ := h.head
            obtain ⟨us, v, es, hus, hlen, hread⟩ := ih room (by omega) (by omega) u ts h
            refine ⟨us, v.map (quotation ⟨file, t.line⟩), es, hus,
              by simp only [List.length_cons]; omega, fun c rest fuel hc hf => ?_⟩
            simp only [List.cons_append, List.length_cons] at hf
            have hinner := hread c rest fuel hc
              (by simp only [List.cons_append, List.length_cons]; omega)
            simp only [List.cons_append] at hinner ⊢
            simp [form, ht, missing, he, hr, hinner]
      · rcases ha : atom s ⟨file, t.line⟩ with e | n
        · exact ⟨ts, none, [e], h, le_rfl, fun c rest fuel _ _ => by simp [form, ht, ha]⟩
        · exact ⟨ts, some n, [], h, le_rfl, fun c rest fuel _ _ => by simp [form, ht, ha]⟩
      · exact ⟨ts, some (.literal (.str s) (some ⟨file, t.line⟩)), [], h, le_rfl,
          fun c rest fuel _ _ => by simp [form, ht]⟩
    | @group o c ts us ho h hc hs =>
      rcases room with _ | room
      · refine ⟨us, none, [⟨.nesting, some ⟨file, t.line⟩⟩], hs,
          by simp only [List.length_append, List.length_cons]; omega, fun c' rest fuel _ _ => ?_⟩
        rw [List.cons_append, List.append_assoc, List.cons_append]
        simp [form, ho, fail, skipOpen_group h hc]
      · obtain ⟨v, es, hitems⟩ := items_balanced (ih room (by omega) (by omega)) ⟨file, t.line⟩ h
        refine ⟨us, v.map (.call · (some ⟨file, t.line⟩)), es, hs,
          by simp only [List.length_append, List.length_cons]; omega, fun c' rest fuel _ hf => ?_⟩
        simp only [List.cons_append, List.append_assoc, List.length_cons] at hf ⊢
        have hlist := hitems c (us ++ c' :: rest) fuel fuel hc (by omega) (by omega)
        simp [form, ho, hlist]

/-- However it fails, a group at top level is read through its closing parenthesis. -/
lemma form_group {o c : Token} (ho : o.shape = .lparen) (h : Balanced ts) (hc : c.shape = .rparen) :
    ∃ v es, ∀ rest fuel, (o :: (ts ++ c :: rest)).length ≤ fuel →
      form file fuel maxNesting (o :: (ts ++ c :: rest)) = ⟨v, es, rest⟩ := by
  have hinside : ReadsInside file 255 := form_balanced (by decide)
  obtain ⟨v, es, hitems⟩ := items_balanced hinside ⟨file, o.line⟩ h
  refine ⟨v.map (.call · (some ⟨file, o.line⟩)), es, fun rest fuel hf => ?_⟩
  rw [List.length_cons] at hf
  have hlist := hitems c rest fuel fuel hc (by omega) (by omega)
  have hroom : maxNesting = 255 + 1 := rfl
  rw [hroom]
  simp [form, ho, hlist]

/-! ### Closed texts -/

/-- What is closed is read the same whatever follows, and what follows is read as if it stood
alone. -/
lemma ofTokens_closed (file : String) (h : Closed us) : ∃ ns es, ∀ vs,
    ofTokens file (us ++ vs) = (ns ++ (ofTokens file vs).1, es ++ (ofTokens file vs).2) := by
  induction h with
  | nil => exact ⟨[], [], fun vs => rfl⟩
  | @form file' d ts us n hd h hs ih =>
    obtain ⟨ns, es, hrest⟩ := ih
    obtain ⟨m, hm, -⟩ := h.relabel file
    refine ⟨m :: ns, es, fun vs => ?_⟩
    have hlen : ts.length ≤ (ts ++ (us ++ vs)).length := by simp
    have hform := form_of_derives hm hd hlen (us ++ vs)
    obtain ⟨t, ts, rfl, ht, -⟩ := hm.head
    rw [List.append_assoc]
    rw [List.cons_append] at hform ⊢
    rw [ofTokens_cons ht, hform]
    simp [recover, hrest]
  | @group o c ts us ho h hc hs ih =>
    obtain ⟨ns, es, hrest⟩ := ih
    obtain ⟨v, es', hgroup⟩ := @form_group file _ o c ho h hc
    refine ⟨v.toList ++ ns, es' ++ es, fun vs => ?_⟩
    have hform := hgroup (us ++ vs) _ le_rfl
    rw [List.cons_append, List.append_assoc, List.cons_append, ofTokens_cons (by simp [ho]), hform]
    simp [recover, ho, hrest]

end Reader

/-- The tokens of the text are forms and groups. -/
def IsClosed (p : String) : Prop := Closed (tokenize p).dropLast

/-- **Errors stay local to their list.** If a text is made of forms and groups, then that text, a
newline and any other text are read into the forms of the one followed by those of the other,
and into the errors of the one followed by those of the other; what comes from the second is
moved down by the lines before it. -/
theorem read_append_of_closed {p : String} (hp : IsClosed p) (s label : String) :
    read (p ++ "\n" ++ s) label =
      ((read p label).1 ++ (read s label).1.map (Node.view (.down (p.toList.count '\n' + 1))),
        (read p label).2 ++ (read s label).2.map (ReadError.shift (p.toList.count '\n' + 1))) := by
  obtain ⟨us, e, htok, he, -⟩ := Scan.tokens_eq p.toList
  rw [IsClosed, tokenize, htok, List.dropLast_concat] at hp
  obtain ⟨ns, es, hclosed⟩ := Reader.ofTokens_closed label hp
  have hchars : (p ++ "\n" ++ s).toList = p.toList ++ '\n' :: s.toList := by
    simp [String.toList_append]
  have hend : Reader.ofTokens label [e] = ([], []) := by
    simp [Reader.ofTokens, Reader.program, he]
  have hfirst : read p label = (ns, es) := by
    rw [read, tokenize, htok, hclosed, hend]
    simp
  have hsecond : read (p ++ "\n" ++ s) label =
      Reader.ofTokens label (us ++ down (p.toList.count '\n' + 1) (tokenize s)) := by
    rw [read, tokenize, hchars, Scan.tokens_append_newline htok hp.whole]
    rfl
  rw [hsecond, hclosed, Reader.ofTokens_down, hfirst]
  rfl

/-- A group over two lines with a bad number in it. -/
lemma isClosed_bad_number : IsClosed "(f 1x\n)" := by
  have htokens : (tokenize "(f 1x\n)").dropLast =
      [⟨.lparen, 1, true⟩, ⟨.atom "f", 1, false⟩, ⟨.atom "1x", 1, true⟩, ⟨.rparen, 2, true⟩] := by
    decide
  have hinside : Balanced [⟨.atom "f", 1, false⟩, ⟨.atom "1x", 1, true⟩] :=
    .inner (.inr (.inl ⟨_, rfl⟩)) (.inner (.inr (.inl ⟨_, rfl⟩)) .nil)
  rw [IsClosed, htokens]
  exact .group rfl hinside rfl .nil

theorem read_append_of_closed_bad_number :
    IsClosed "(f 1x\n)" ∧ read ("(f 1x\n)" ++ "\n" ++ "g )") "test" =
      ([.symbol "g" (some ⟨"test", 3⟩)],
        [⟨.invalidNumber "1x", some ⟨"test", 1⟩⟩, ⟨.unexpectedClose, some ⟨"test", 3⟩⟩]) := by
  have hfirst : read "(f 1x\n)" "test" = ([], [⟨.invalidNumber "1x", some ⟨"test", 1⟩⟩]) := rfl
  have hsecond : read "g )" "test" =
      ([.symbol "g" (some ⟨"test", 1⟩)], [⟨.unexpectedClose, some ⟨"test", 1⟩⟩]) := rfl
  refine ⟨isClosed_bad_number, ?_⟩
  rw [read_append_of_closed isClosed_bad_number, hfirst, hsecond]
  rfl

end ChannelLisp
