import ChannelLisp.Proofs.Erasure
import ChannelLisp.Proofs.Reading
import Mathlib.Tactic

/-!
Reading undoes printing. A plain node is built from literals other than floats, from names,
and from lists of such, nested no deeper than is read. Its text is scanned into the tokens of
a derivation of it, so reading gives it back up to locations. Every form that is read from
any source and has no float inside is plain.
-/

namespace ChannelLisp

open Grammar

/-! ### The text of an integer -/

namespace Numeral

lemma digits?_toDigits (n : Nat) : digits? (Nat.toDigits 10 n) = some n := by
  have hd : (Nat.toDigits 10 n).all Char.isDigit = true :=
    List.all_eq_true.2 fun c hc => Nat.isDigit_of_mem_toDigits (by omega) (by omega) hc
  have hv : value (Nat.toDigits 10 n) = n := by
    rw [value, ← Nat.ofDigitChars_eq_foldl, Nat.ofDigitChars_ten_toDigits]
  simp [digits?, Nat.toDigits_ne_nil, hd, hv]

lemma toDigits_eq_cons (n : Nat) :
    ∃ d ds, Nat.toDigits 10 n = d :: ds ∧ ∀ c ∈ d :: ds, c.isDigit = true := by
  obtain ⟨d, ds, h⟩ := List.exists_cons_of_ne_nil (Nat.toDigits_ne_nil (n := n) (b := 10))
  refine ⟨d, ds, h, fun c hc => ?_⟩
  rw [← h] at hc
  exact Nat.isDigit_of_mem_toDigits (by omega) (by omega) hc

lemma toList_toString (z : Int) :
    (0 ≤ z ∧ (toString z).toList = Nat.toDigits 10 z.toNat) ∨
      (z < 0 ∧ (toString z).toList = '-' :: Nat.toDigits 10 (-z).toNat) := by
  rw [Int.toString_eq_repr, Int.repr_eq_if]
  split_ifs with h
  · exact .inl ⟨h, by simp⟩
  · exact .inr ⟨by omega, by simp [String.toList_append]⟩

lemma signed_digit {d : Char} (hd : d.isDigit = true) (ds : List Char) :
    signed (d :: ds) = (false, d :: ds) := by
  unfold signed
  split
  · rename_i h; cases h; simp at hd
  · rename_i h; cases h; simp at hd
  · rfl

lemma looksNumeric_digit {d : Char} (hd : d.isDigit = true) (ds : List Char) :
    looksNumeric (d :: ds) = true := by
  unfold looksNumeric
  split
  · rename_i h; cases h; simp at hd
  · rename_i h; cases h; simp at hd
  · rename_i h; cases h; simp at hd
  · rename_i h; cases h; simpa using hd
  · rename_i h; cases h

lemma signedDigits?_toString (z : Int) : signedDigits? (toString z).toList = some z := by
  rcases toList_toString z with ⟨hz, h⟩ | ⟨hz, h⟩
  · obtain ⟨d, ds, hd, hds⟩ := toDigits_eq_cons z.toNat
    have hdig := digits?_toDigits z.toNat
    rw [hd] at h hdig
    rw [h, signedDigits?, signed_digit (hds d (by simp))]
    simp [hdig, hz]
  · rw [h]
    simp [signedDigits?, signed, digits?_toDigits]
    omega

lemma int?_toString (n : Int64) : int? (toString n.toInt).toList = some n := by
  rw [int?, signedDigits?_toString, Option.bind_some]
  exact Word.ofInt?_eq_some_iff.2 rfl

lemma looksNumeric_toString (z : Int) : looksNumeric (toString z).toList = true := by
  rcases toList_toString z with ⟨hz, h⟩ | ⟨hz, h⟩
  · obtain ⟨d, ds, hd, hds⟩ := toDigits_eq_cons z.toNat
    rw [h, hd, looksNumeric_digit (hds d (by simp))]
  · obtain ⟨d, ds, hd, hds⟩ := toDigits_eq_cons (-z).toNat
    rw [h, hd]
    simpa [looksNumeric] using hds d (by simp)

lemma isDelimiter_of_isDigit {c : Char} (h : c.isDigit = true) : Scan.isDelimiter c = false := by
  have hc := Char.isDigit_iff_toNat.1 h
  have hb : Text.isBlank c = false := by
    simp [Text.isBlank, Text.blankRanges] at hc ⊢
    omega
  have hne : ∀ d : Char, ('0'.toNat ≤ d.toNat ∧ d.toNat ≤ '9'.toNat → False) → c ≠ d := by
    rintro d hd rfl
    exact hd hc
  simp [Scan.isDelimiter, hb, hne]

lemma isLexeme_toString (z : Int) : IsLexeme (toString z) := by
  rcases toList_toString z with ⟨hz, h⟩ | ⟨hz, h⟩
  · obtain ⟨d, ds, hd, hds⟩ := toDigits_eq_cons z.toNat
    rw [IsLexeme, h, hd]
    exact ⟨by simp, fun c hc => isDelimiter_of_isDigit (hds c hc)⟩
  · obtain ⟨d, ds, hd, hds⟩ := toDigits_eq_cons (-z).toNat
    rw [IsLexeme, h, hd]
    refine ⟨by simp, fun c hc => ?_⟩
    rcases List.mem_cons.1 hc with rfl | hc
    · rfl
    · exact isDelimiter_of_isDigit (hds c hc)

end Numeral

/-! ### Plain nodes -/

/-- A name that is read as a symbol. -/
def IsName (x : String) : Prop :=
  IsLexeme x ∧ x ∉ keywords ∧ Numeral.looksNumeric x.toList = false

/-- The node is made of literals, names and lists, without floats, and its lists nest at most
`d` deep. -/
inductive Node.Plain : Nat → Node → Prop where
  | nil {d : Nat} {l : Option Location} : Plain d (.literal .nil l)
  | bool {d : Nat} {b : Bool} {l : Option Location} : Plain d (.literal (.bool b) l)
  | int {d : Nat} {n : Int64} {l : Option Location} : Plain d (.literal (.int n) l)
  | str {d : Nat} {s : String} {l : Option Location} : Plain d (.literal (.str s) l)
  | symbol {d : Nat} {x : String} {l : Option Location} (h : IsName x) : Plain d (.symbol x l)
  | call {d : Nat} {items : List Node} {l : Option Location} (h : ∀ n ∈ items, Plain d n) :
      Plain (d + 1) (.call items l)

/-- A float literal is somewhere inside. -/
inductive Node.HasFloat : Node → Prop where
  | here {x : Float} {l : Option Location} : HasFloat (.literal (.float x) l)
  | inside {items : List Node} {l : Option Location} {n : Node} (hn : n ∈ items)
      (h : HasFloat n) : HasFloat (.call items l)

lemma Node.Plain.mono {d e : Nat} {n : Node} (h : n.Plain d) (hde : d ≤ e) : n.Plain e := by
  induction h generalizing e with
  | call h ih =>
    obtain ⟨e, rfl⟩ : ∃ k, e = k + 1 := ⟨e - 1, by omega⟩
    exact .call fun n hn => ih n hn (by omega)
  | symbol h => exact .symbol h
  | nil => exact .nil
  | bool => exact .bool
  | int => exact .int
  | str => exact .str

lemma isLexeme_of_mem_keywords {w : String} (h : w ∈ keywords) : IsLexeme w := by
  simp only [keywords, List.mem_cons, List.not_mem_nil, or_false] at h
  rcases h with rfl | rfl | rfl <;>
    simp [IsLexeme, Scan.isDelimiter, Text.isBlank, Text.blankRanges]

lemma isName_quote : IsName "quote" := by
  simp [IsName, IsLexeme, Scan.isDelimiter, Text.isBlank, Text.blankRanges, keywords,
    Numeral.looksNumeric]

variable {file : String}

lemma plain_of_spells {loc : Location} {w : String} {n : Node} (h : Spells loc w n)
    (hw : IsLexeme w) (hn : ¬ n.HasFloat) (d : Nat) : n.Plain d := by
  cases h with
  | nil => exact .nil
  | true => exact .bool
  | false => exact .bool
  | int _ _ => exact .int
  | float _ _ _ => exact absurd .here hn
  | symbol hk hs => exact .symbol ⟨hw, hk, hs⟩

mutual

lemma plain_of_derives {d : Nat} {ts : List Token} {n : Node} (h : Derives file d ts n)
    (hts : ∀ t ∈ ts, t.Proper) (hn : ¬ n.HasFloat) : n.Plain d := by
  cases h with
  | list ho h hc =>
    exact .call (plain_of_derivesAll h (fun t ht => hts t (by simp [ht]))
      fun m hm hf => hn (.inside hm hf))
  | quote hq h =>
    have hm := plain_of_derives h (fun t ht => hts t (by simp [ht]))
      fun hf => hn (.inside (by simp) hf)
    refine .call fun m hmem => ?_
    simp only [List.mem_cons, List.not_mem_nil, or_false] at hmem
    rcases hmem with rfl | rfl
    · exact .symbol isName_quote
    · exact hm
  | string ht => exact .str
  | @atom t w n ht h => exact plain_of_spells h ((hts t (by simp)).2 w ht) hn 0

lemma plain_of_derivesAll {d : Nat} {ts : List Token} {ns : List Node}
    (h : DerivesAll file d ts ns) (hts : ∀ t ∈ ts, t.Proper) (hns : ∀ n ∈ ns, ¬ n.HasFloat) :
    ∀ n ∈ ns, n.Plain d := by
  cases h with
  | nil => simp
  | @cons d e ts us n ns h hs =>
    have hn := plain_of_derives h (fun t ht => hts t (by simp [ht])) (hns n (by simp))
    have hns' := plain_of_derivesAll hs (fun t ht => hts t (by simp [ht]))
      fun m hm => hns m (by simp [hm])
    intro m hm
    rcases List.mem_cons.1 hm with rfl | hm
    · exact hn.mono (le_max_left d e)
    · exact (hns' m hm).mono (le_max_right d e)

end

/-! ### Scanning a printed node -/

open Scan

/-- From a gap, the text of the node is scanned into tokens of a form at most `d` deep that is
the node up to locations. -/
def Rescans (file : String) (d : Nat) (n : Node) : Prop :=
  ∀ s : State, s.mode = .gap → ∃ s' us m, (run s n.display.toList).settle = s' ∧
    s'.mode = .gap ∧ s'.tokens = us.reverse ++ s.tokens ∧
      (∃ e ≤ d, Derives file e us m) ∧ m.bare = n.bare

lemma rescans_atom {n : Node} {w : String} {d : Nat} (hw : IsLexeme w) (hdis : n.display = w)
    (hm : ∀ loc, ∃ m, Spells loc w m ∧ m.bare = n.bare) : Rescans file d n := by
  intro s hs
  obtain ⟨m, hsp, hbare⟩ := hm ⟨file, s.line⟩
  refine ⟨s.emit (.atom w) s.line, [⟨.atom w, s.line, s.spaced⟩], m, ?_, rfl, rfl, ?_, hbare⟩
  · rw [hdis, settle_run_lexeme hw hs]
  · exact ⟨0, by omega, .atom rfl hsp⟩

/-- Texts with spaces between them are scanned one after another. -/
lemma rescans_all {d : Nat} : ∀ ns : List Node, (∀ n ∈ ns, Rescans file d n) →
    ∀ s : State, s.mode = .gap → ∃ s' us ms, (run s (displayAll ns).toList).settle = s' ∧
      s'.mode = .gap ∧ s'.tokens = us.reverse ++ s.tokens ∧
        (∃ e ≤ d, DerivesAll file e us ms) ∧ ms.map Node.bare = ns.map Node.bare
  | [], _, s, hs => by
    refine ⟨s, [], [], ?_, hs, by simp, ⟨0, by omega, .nil⟩, rfl⟩
    simp [displayAll, State.settle, hs]
  | [n], h, s, hs => by
    obtain ⟨s', us, m, hrun, hgap, htok, ⟨e, he, hder⟩, hm⟩ := h n (by simp) s hs
    refine ⟨s', us, [m], by simpa [displayAll] using hrun, hgap, htok, ⟨e, he, ?_⟩, by simp [hm]⟩
    simpa using DerivesAll.cons hder .nil
  | n :: n' :: ns, h, s, hs => by
    obtain ⟨s₁, us, m, hrun, hgap, htok, ⟨e, he, hder⟩, hm⟩ := h n (by simp) s hs
    have hspace : Scan.step s₁ ' ' = { s₁ with spaced := true } := by
      simp [Scan.step, hgap, State.start, Text.isBlank_space, nextLine]
    obtain ⟨s', us', ms, hrun', hgap', htok', ⟨e', he', hder'⟩, hms⟩ :=
      rescans_all (n' :: ns) (fun k hk => h k (by simp [hk])) (Scan.step s₁ ' ')
        (by simp [hspace, hgap])
    refine ⟨s', us ++ us', m :: ms, ?_, hgap', ?_, ⟨max e e', by omega, .cons hder hder'⟩, ?_⟩
    · have htext : (displayAll (n :: n' :: ns)).toList =
          n.display.toList ++ ' ' :: (displayAll (n' :: ns)).toList := by
        simp [displayAll, String.toList_append]
      rw [htext, run_append_cons hrun rfl, hrun']
    · rw [htok', hspace, htok, List.reverse_append, List.append_assoc]
    · simp [hm, ← hms]

lemma Node.Plain.rescans {d : Nat} {n : Node} (h : n.Plain d) : Rescans file d n := by
  induction h with
  | nil =>
    have hw : IsLexeme "nil" := isLexeme_of_mem_keywords (by decide)
    exact rescans_atom hw rfl fun loc => ⟨_, .nil, rfl⟩
  | @bool d b l =>
    have hf : IsLexeme "false" := isLexeme_of_mem_keywords (by decide)
    have ht : IsLexeme "true" := isLexeme_of_mem_keywords (by decide)
    cases b
    · exact rescans_atom hf rfl fun loc => ⟨_, .false, rfl⟩
    · exact rescans_atom ht rfl fun loc => ⟨_, .true, rfl⟩
  | @int d n l =>
    exact rescans_atom (Numeral.isLexeme_toString n.toInt) rfl fun loc =>
      ⟨_, .int (Numeral.looksNumeric_toString _) (Numeral.int?_toString n), rfl⟩
  | @str d w l =>
    intro s hs
    obtain ⟨k, hrun⟩ := run_quoted w hs
    refine ⟨_, [⟨.string w, s.line, s.spaced⟩], _, rfl, ?_, ?_, ⟨0, by omega, .string rfl⟩, rfl⟩
    · simp [Node.display, Literal.display, hrun, State.settle, State.emit]
    · simp [Node.display, Literal.display, hrun, State.settle, State.emit]
  | symbol hx => exact rescans_atom hx.1 rfl fun loc => ⟨_, .symbol hx.2.1 hx.2.2, rfl⟩
  | @call d items l _ ih =>
    intro s hs
    have hopen : Scan.step s '(' = s.emit .lparen s.line := by
      simp [Scan.step, hs, State.start, show Text.isBlank '(' = false from rfl]
    obtain ⟨s', us, ms, hrun, hgap, htok, ⟨e, he, hder⟩, hms⟩ := rescans_all items ih
      (Scan.step s '(') (by simp [hopen, State.emit])
    have hclose : Scan.step s' ')' = s'.emit .rparen s'.line := by
      simp [Scan.step, hgap, State.start, show Text.isBlank ')' = false from rfl]
    have htext : (Node.call items l).display.toList =
        '(' :: ((displayAll items).toList ++ [')']) := by
      simp [Node.display, String.toList_append]
    have hall : run s (Node.call items l).display.toList = s'.emit .rparen s'.line := by
      rw [htext, run_cons, run_append_cons hrun rfl, hclose, run_nil]
    refine ⟨_, ⟨.lparen, s.line, s.spaced⟩ :: (us ++ [⟨.rparen, s'.line, s'.spaced⟩]), _, rfl,
      ?_, ?_, ⟨e + 1, by omega, .list rfl hder rfl⟩, by simp [hms]⟩
    · simp [hall, State.settle, State.emit]
    · simp [hall, State.settle, State.emit, htok, hopen]

/-- The texts of plain nodes, with spaces between them, are read back. -/
lemma read_displayAll {ns : List Node} (h : ∀ n ∈ ns, n.Plain maxNesting) (label : String) :
    ∃ ms, read (displayAll ns) label = (ms, []) ∧ ms.map Node.bare = ns.map Node.bare := by
  obtain ⟨s', us, ms, hrun, hgap, htok, ⟨e, he, hder⟩, hms⟩ :=
    rescans_all ns (fun n hn => (h n hn).rescans) init rfl
  have htokens : tokenize (displayAll ns) = us ++ [⟨.eof, s'.line, true⟩] := by
    rw [tokenize, tokens, ← finish_settle, hrun]
    simp [State.finish, hgap, htok, init]
  refine ⟨ms, ?_, hms⟩
  rw [read, htokens]
  exact Reader.ofTokens_of_program ⟨e, he, hder⟩ rfl

/-- A form that was read from any source, if it has no float inside, is plain. -/
lemma plain_of_mem_read {source label : String} {n : Node} (h : n ∈ (read source label).1)
    (hn : ¬ n.HasFloat) : n.Plain maxNesting := by
  obtain ⟨ts, e, htok, he, hts⟩ := Scan.tokens_eq source.toList
  obtain ⟨d, hd, us, hus, hder⟩ := Reader.derives_of_mem_program h
  rw [tokenize, htok] at hus
  have hproper : ∀ t ∈ us, t.Proper := by
    intro t ht
    rcases List.mem_append.1 (hus ht) with hmem | hmem
    · exact hts t hmem
    · obtain rfl := List.mem_singleton.1 hmem
      exact absurd he (hder.shape_ne_eof t ht)
  exact (plain_of_derives hder hproper hn).mono hd

/-- **Reading undoes printing**: the texts of plain nodes joined by spaces are read as these
nodes, without an error. And what is read from any source, well formed or not, is plain unless
it has a float inside, so printing it and reading it again gives it back. -/
theorem read_undoes_display :
    (∀ (ns : List Node) (label : String), (∀ n ∈ ns, n.Plain maxNesting) →
      ∃ ms, read (" ".intercalate (ns.map Node.display)) label = (ms, []) ∧
        ms.map Node.bare = ns.map Node.bare) ∧
    ∀ (source label : String), ∀ n ∈ (read source label).1, ¬ n.HasFloat →
      n.Plain maxNesting ∧
        ∀ label' : String, ∃ m, read n.display label' = ([m], []) ∧ m.bare = n.bare := by
  constructor
  · intro ns label h
    rw [← displayAll_eq_intercalate]
    exact read_displayAll h label
  · intro source label n hmem hn
    have hp := plain_of_mem_read hmem hn
    refine ⟨hp, fun label' => ?_⟩
    have hone : ∀ k ∈ [n], k.Plain maxNesting := by simpa using hp
    obtain ⟨ms, hread, hms⟩ := read_displayAll hone label'
    obtain ⟨m, rfl, hm⟩ : ∃ m, ms = [m] ∧ m.bare = n.bare := by
      simpa [List.map_eq_singleton_iff] using hms
    exact ⟨m, hread, hm⟩

end ChannelLisp
