import ChannelLisp.Proofs.Locality
import ChannelLisp.Proofs.Pieces
import Mathlib.Tactic

/-!
A malformed fragment on lines of its own. It starts with a token that cannot start a form, and
what is glued to that token, whole groups included, is dropped with it. So the fragment costs
one error, whatever it is made of, and the texts before and after it are read as if it were not
there.
-/

namespace ChannelLisp

open Grammar

namespace Grammar

/-- A token of this shape is no form, by this fault: a parenthesis that closes nothing, or an
atom that looks like a number and is none. -/
inductive Spoils : Shape → Fault → Prop where
  | close : Spoils .rparen .unexpectedClose
  | number {s : String} (hs : Numeral.looksNumeric s.toList = true)
      (hn : Numeral.int? s.toList = none) (hx : Numeral.float? s.toList = none) :
      Spoils (.atom s) (.invalidNumber s)

/-- Tokens without a gap between them. Of a group, the gaps inside do not count, except that
there is none behind its opening parenthesis. One more opening parenthesis may stand at the
end. -/
inductive Trail : List Token → Prop where
  | nil : Trail []
  | lone {o : Token} (ho : o.shape = .lparen) (hg : o.spaced = false) : Trail [o]
  | single {t : Token} {ts : List Token} (ht : Inner t ∨ t.shape = .rparen)
      (hg : t.spaced = false) (h : Trail ts) : Trail (t :: ts)
  | group {o c : Token} {ts us : List Token} (ho : o.shape = .lparen) (hg : o.spaced = false)
      (h : Balanced ts) (hc : c.shape = .rparen) (hin : glued (ts ++ [c]) = true)
      (hs : Trail us) : Trail (o :: (ts ++ c :: us))

lemma Trail.whole {ts : List Token} (h : Trail ts) : ∀ t ∈ ts, t.shape ≠ .unterminated := by
  induction h with
  | nil => simp
  | lone ho _ => simp [ho]
  | single ht _ _ ih =>
    refine List.forall_mem_cons.2 ⟨?_, ih⟩
    rcases ht with ht | ht
    · exact ht.shape_ne.2.1
    · simp [ht]
  | group ho _ h hc _ _ ih =>
    simp only [List.mem_cons, List.mem_append]
    rintro t (rfl | ht | rfl | ht)
    · simp [ho]
    · exact h.whole t ht
    · simp [hc]
    · exact ih t ht

lemma Spoils.shape_ne {shape : Shape} {fault : Fault} (h : Spoils shape fault) :
    shape ≠ .eof ∧ shape ≠ .unterminated ∧ shape ≠ .lparen ∧ shape ≠ .quote := by
  cases h <;> simp

/-- What is derived is closed. -/
lemma DerivesAll.closed {file : String} {d : Nat} {ts : List Token} {ns : List Node}
    (h : DerivesAll file d ts ns) (hd : d ≤ maxNesting) : Closed ts := by
  induction ns generalizing d ts with
  | nil =>
    cases h
    exact .nil
  | cons n ns ih =>
    rcases h with _ | @⟨d, e, ts, us, _, _, h, hs⟩
    exact .form (le_trans (le_max_left d e) hd) h (ih hs (le_trans (le_max_right d e) hd))

end Grammar

lemma Node.view_down_down (j k : Nat) (n : Node) :
    (n.view (.down j)).view (.down k) = n.view (.down (j + k)) := by
  have hplace (l : Option Location) :
      (View.down k).place ((View.down j).place l) = (View.down (j + k)).place l := by
    cases l <;> simp [View.down, Location.shift, Nat.add_assoc]
  induction n using Node.induction with
  | literal v l => simp [hplace]
  | symbol x l => simp [hplace]
  | call items l ih => simpa [hplace] using ih
  | function c ih => simpa [Closure.view, View.down] using ih
  | transformer c ih => simpa [Closure.view, View.down] using ih
  | _ => rfl

lemma ReadError.shift_shift (j k : Nat) (e : ReadError) :
    (e.shift j).shift k = e.shift (j + k) := by
  simp [ReadError.shift, Location.shift, Function.comp_def, Nat.add_assoc]

namespace Reader

variable {file : String} {fuel room : Nat} {ts us rest : List Token}

/-! ### Dropping what is glued -/

/-- Inside a group, what is balanced is dropped without a look at its gaps. -/
lemma resync_balanced (h : Balanced ts) (depth : Nat) (rest : List Token) :
    resync (depth + 1) (ts ++ rest) = resync (depth + 1) rest := by
  induction h generalizing depth rest with
  | nil => rfl
  | inner ht _ ih => rcases ht with ht | ⟨s, ht⟩ | ⟨s, ht⟩ <;> simp [resync, ht, ih]
  | group ho _ hc _ ih ihs => simp [resync, ho, hc, ih, ihs]

/-- All that is glued is dropped, and nothing that is not. -/
lemma resync_trail (h : Trail us) (hrest : glued rest = false) : resync 0 (us ++ rest) = rest := by
  have hstop : resync 0 rest = rest := by
    rcases rest with _ | ⟨t, ts⟩
    · rfl
    · have ht : t.spaced = true := by simpa [glued] using hrest
      simp [resync, ht]
  induction h with
  | nil => exact hstop
  | lone ho hg => simp [resync, ho, hg, hrest, hstop]
  | @single t ts ht hg _ ih =>
    have hshape : t.shape ≠ .eof ∧ t.shape ≠ .lparen := by
      rcases ht with ht | ht
      · exact ⟨ht.shape_ne.1, ht.shape_ne.2.2.1⟩
      · simp [ht]
    obtain ⟨he, hl⟩ := hshape
    simp [resync, he, hl, hg, ih]
  | @group o c ts us ho hg h hc hin _ ih =>
    have hglued : glued (ts ++ c :: (us ++ rest)) = true := by
      cases ts <;> exact hin
    rw [List.cons_append, List.append_assoc, List.cons_append]
    simp [resync, ho, hg, hglued, resync_balanced h, hc, ih]

/-! ### The one error -/

lemma form_spoils {t : Token} {fault : Fault} (h : Spoils t.shape fault) (ts : List Token) :
    form file fuel room (t :: ts) = fail fault ⟨file, t.line⟩ ts := by
  obtain ⟨shape, line, spaced⟩ := t
  cases h with
  | close => simp [form]
  | @number s hs hn hx =>
    have hkey := not_mem_keywords hs
    simp only [keywords, List.mem_cons, List.not_mem_nil, or_false, not_or] at hkey
    obtain ⟨h1, h2, h3⟩ := hkey
    have hatom : atom s ⟨file, line⟩ = .error ⟨.invalidNumber s, some ⟨file, line⟩⟩ := by
      simp [atom, h1, h2, h3, hs, hn, hx]
    simp [form, hatom, fail]

/-- A fragment is read into one error, and reading goes on behind it. -/
lemma ofTokens_fragment {t : Token} {fault : Fault} (ht : Spoils t.shape fault) (h : Trail us)
    (hrest : glued rest = false) : ofTokens file (t :: (us ++ rest)) =
      ((ofTokens file rest).1, ⟨fault, some ⟨file, t.line⟩⟩ :: (ofTokens file rest).2) := by
  obtain ⟨he, -, hl, hq⟩ := ht.shape_ne
  rw [ofTokens_cons he, form_spoils ht]
  simp [recover, fail, hl, hq, resync_trail h hrest]

end Reader

/-- The text is a malformed fragment that starts with this token, which has this fault. -/
def IsFragment (f : String) (t : Token) (fault : Fault) : Prop :=
  ∃ us, (tokenize f).dropLast = t :: us ∧ Spoils t.shape fault ∧ Trail us

/-- **A malformed fragment costs one error.** It stands on lines of its own, between a text
without errors and any other text. Then the forms are those of the two texts, and the errors
are the fault of its first token, on the line of that token, and those of the second text. What
comes from the second text is moved down by the lines before it. -/
theorem fragment_costs_one_error {p f label : String} {t : Token} {fault : Fault}
    (hp : (read p label).2 = []) (hf : IsFragment f t fault) (s : String) :
    read (p ++ "\n" ++ f ++ "\n" ++ s) label =
      ((read p label).1 ++ (read s label).1.map
          (Node.view (.down (f.toList.count '\n' + 1 + (p.toList.count '\n' + 1)))),
        ⟨fault, some ⟨label, t.line + (p.toList.count '\n' + 1)⟩⟩ :: (read s label).2.map
          (ReadError.shift (f.toList.count '\n' + 1 + (p.toList.count '\n' + 1)))) := by
  obtain ⟨vs, e, hvs, he, d, hd, hder⟩ := exists_program hp
  obtain ⟨us, hus, hspoils, htrail⟩ := hf
  obtain ⟨ws, e', hws, he', -⟩ := Scan.tokens_eq f.toList
  rw [tokenize, hws, List.dropLast_concat] at hus
  subst hus
  have hwhole : ∀ u ∈ t :: us, u.shape ≠ .unterminated :=
    List.forall_mem_cons.2 ⟨hspoils.shape_ne.2.1, htrail.whole⟩
  set kp := p.toList.count '\n' + 1
  set kf := f.toList.count '\n' + 1
  have htokens : tokenize (p ++ "\n" ++ f ++ "\n" ++ s) =
      vs ++ down kp (t :: (us ++ down kf (tokenize s))) := by
    have hchars : (p ++ "\n" ++ f ++ "\n" ++ s).toList =
        p.toList ++ '\n' :: (f.toList ++ '\n' :: s.toList) := by
      simp [String.toList_append]
    rw [tokenize, hchars, Scan.tokens_append_newline hvs hder.whole,
      Scan.tokens_append_newline hws hwhole]
    rfl
  obtain ⟨ns, es, hclosed⟩ := Reader.ofTokens_closed label (hder.closed hd)
  have hend : Reader.ofTokens label [e] = ([], []) := by
    simp [Reader.ofTokens, Reader.program, he]
  have hfirst : read p label = (ns, es) := by
    rw [read, hvs, hclosed, hend]
    simp
  have hglued : glued (down kf (tokenize s)) = false := by
    rw [Reader.glued_down, glued_tokenize]
  have hviews : Node.view (.down kp) ∘ Node.view (.down kf) = Node.view (.down (kf + kp)) :=
    funext (Node.view_down_down kf kp)
  have hshifts : ReadError.shift kp ∘ ReadError.shift kf = ReadError.shift (kf + kp) :=
    funext (ReadError.shift_shift kf kp)
  rw [hfirst] at hp ⊢
  obtain rfl : es = [] := hp
  rw [read, htokens, hclosed, Reader.ofTokens_down, Reader.ofTokens_fragment hspoils htrail hglued,
    Reader.ofTokens_down, ← read, List.map_cons, List.map_map, List.map_map, hviews, hshifts]
  rfl

/-- A parenthesis that closes nothing, and glued to it an atom, a group over two lines, a
parenthesis, a quote and a lone opening parenthesis. -/
lemma isFragment_closing : IsFragment ")bad(b (c)\n d))'(" ⟨.rparen, 1, true⟩ .unexpectedClose := by
  have htokens : (tokenize ")bad(b (c)\n d))'(").dropLast =
      [⟨.rparen, 1, true⟩, ⟨.atom "bad", 1, false⟩, ⟨.lparen, 1, false⟩, ⟨.atom "b", 1, false⟩,
        ⟨.lparen, 1, true⟩, ⟨.atom "c", 1, false⟩, ⟨.rparen, 1, false⟩, ⟨.atom "d", 2, true⟩,
        ⟨.rparen, 2, false⟩, ⟨.rparen, 2, false⟩, ⟨.quote, 2, false⟩, ⟨.lparen, 2, false⟩] := by
    decide
  have hinner : Balanced [⟨.atom "c", 1, false⟩] := .inner (.inr (.inl ⟨_, rfl⟩)) .nil
  have hgroup : Balanced [⟨.atom "b", 1, false⟩, ⟨.lparen, 1, true⟩, ⟨.atom "c", 1, false⟩,
      ⟨.rparen, 1, false⟩, ⟨.atom "d", 2, true⟩] :=
    .inner (.inr (.inl ⟨_, rfl⟩)) (.group rfl hinner rfl (.inner (.inr (.inl ⟨_, rfl⟩)) .nil))
  have hend : Trail [⟨.rparen, 2, false⟩, ⟨.quote, 2, false⟩, ⟨.lparen, 2, false⟩] :=
    .single (.inr rfl) rfl (.single (.inl (.inl rfl)) rfl (.lone rfl rfl))
  exact ⟨_, htokens, .close, .single (.inl (.inr (.inl ⟨_, rfl⟩))) rfl
    (.group rfl rfl hgroup rfl rfl hend)⟩

theorem fragment_costs_one_error_closing :
    (read "a\nb" "test").2 = [] ∧
      IsFragment ")bad(b (c)\n d))'(" ⟨.rparen, 1, true⟩ .unexpectedClose ∧
      read ("a\nb" ++ "\n" ++ ")bad(b (c)\n d))'(" ++ "\n" ++ "g )") "test" =
        ([.symbol "a" (some ⟨"test", 1⟩), .symbol "b" (some ⟨"test", 2⟩),
            .symbol "g" (some ⟨"test", 5⟩)],
          [⟨.unexpectedClose, some ⟨"test", 3⟩⟩, ⟨.unexpectedClose, some ⟨"test", 5⟩⟩]) := by
  have hbefore : read "a\nb" "test" =
      ([.symbol "a" (some ⟨"test", 1⟩), .symbol "b" (some ⟨"test", 2⟩)], []) := rfl
  have hafter : read "g )" "test" =
      ([.symbol "g" (some ⟨"test", 1⟩)], [⟨.unexpectedClose, some ⟨"test", 1⟩⟩]) := rfl
  refine ⟨by rw [hbefore], isFragment_closing, ?_⟩
  rw [fragment_costs_one_error (by rw [hbefore]) isFragment_closing, hbefore, hafter]
  rfl

end ChannelLisp
