import ChannelLisp.Reader
import Mathlib.Tactic.Lemma

/-!
The grammar of sources, over tokens, and the tree that a derivation builds:

> program := form*, form := `(` form* `)` | `'` form | string | atom.

A derivation is indexed by how deep its lists and quotes nest. Every node of the tree, the
`quote` that stands for a quote mark included, is at the line of its first token.
-/

namespace ChannelLisp

/-- The token without what it says about the gap before it. -/
def Token.tight (t : Token) : Token := { t with spaced := false }

lemma Token.shape_eq_of_tight {t u : Token} (h : t.tight = u.tight) : u.shape = t.shape :=
  (congrArg Token.shape h).symm

lemma Token.line_eq_of_tight {t u : Token} (h : t.tight = u.tight) : u.line = t.line :=
  (congrArg Token.line h).symm

namespace Grammar

/-- Atoms that are literals although they do not look like numbers. -/
def keywords : List String := ["nil", "true", "false"]

/-- What an atom at a place stands for; an atom that looks like a number and is none stands
for nothing. -/
inductive Spells (loc : Location) : String → Node → Prop where
  | nil : Spells loc "nil" (.literal .nil (some loc))
  | true : Spells loc "true" (.literal (.bool .true) (some loc))
  | false : Spells loc "false" (.literal (.bool .false) (some loc))
  | int {s : String} {n : Int64} (hs : Numeral.looksNumeric s.toList = .true)
      (hn : Numeral.int? s.toList = some n) : Spells loc s (.literal (.int n) (some loc))
  | float {s : String} {x : Float} (hs : Numeral.looksNumeric s.toList = .true)
      (hn : Numeral.int? s.toList = none) (hx : Numeral.float? s.toList = some x) :
      Spells loc s (.literal (.float x) (some loc))
  | symbol {s : String} (hk : s ∉ keywords) (hs : Numeral.looksNumeric s.toList = .false) :
      Spells loc s (.symbol s (some loc))

mutual

/-- `Derives file d ts n`: the tokens are one form, its lists and quotes nest `d` deep, and its
tree is `n`. -/
inductive Derives (file : String) : Nat → List Token → Node → Prop where
  | list {d : Nat} {o c : Token} {ts : List Token} {ns : List Node} (ho : o.shape = .lparen)
      (h : DerivesAll file d ts ns) (hc : c.shape = .rparen) :
      Derives file (d + 1) (o :: (ts ++ [c])) (.call ns (some ⟨file, o.line⟩))
  | quote {d : Nat} {q : Token} {ts : List Token} {n : Node} (hq : q.shape = .quote)
      (h : Derives file d ts n) :
      Derives file (d + 1) (q :: ts)
        (.call [.symbol "quote" (some ⟨file, q.line⟩), n] (some ⟨file, q.line⟩))
  | string {t : Token} {s : String} (ht : t.shape = .string s) :
      Derives file 0 [t] (.literal (.str s) (some ⟨file, t.line⟩))
  | atom {t : Token} {s : String} {n : Node} (ht : t.shape = .atom s)
      (h : Spells ⟨file, t.line⟩ s n) : Derives file 0 [t] n

/-- The tokens are forms one after another. -/
inductive DerivesAll (file : String) : Nat → List Token → List Node → Prop where
  | nil : DerivesAll file 0 [] []
  | cons {d e : Nat} {ts us : List Token} {n : Node} {ns : List Node}
      (h : Derives file d ts n) (hs : DerivesAll file e us ns) :
      DerivesAll file (max d e) (ts ++ us) (n :: ns)

end

/-- The tokens are a program, nested no deeper than is read, and these are its trees. -/
def Program (file : String) (ts : List Token) (ns : List Node) : Prop :=
  ∃ d ≤ maxNesting, DerivesAll file d ts ns

variable {file : String}

/-- A form starts with a token that neither ends a list nor the source. -/
lemma Derives.head {d : Nat} {ts : List Token} {n : Node} (h : Derives file d ts n) :
    ∃ t us, ts = t :: us ∧ t.shape ≠ .eof ∧ t.shape ≠ .rparen := by
  cases h with
  | list ho _ _ => exact ⟨_, _, rfl, by simp [ho], by simp [ho]⟩
  | quote hq _ => exact ⟨_, _, rfl, by simp [hq], by simp [hq]⟩
  | string ht => exact ⟨_, _, rfl, by simp [ht], by simp [ht]⟩
  | atom ht _ => exact ⟨_, _, rfl, by simp [ht], by simp [ht]⟩

mutual

/-- The end of the source is part of no form. -/
lemma Derives.shape_ne_eof {d : Nat} {ts : List Token} {n : Node} (h : Derives file d ts n) :
    ∀ t ∈ ts, t.shape ≠ .eof := by
  cases h with
  | list ho h hc =>
    have ih := h.shape_ne_eof
    simp only [List.mem_cons, List.mem_append, List.not_mem_nil, or_false]
    rintro t (rfl | ht | rfl)
    · simp [ho]
    · exact ih t ht
    · simp [hc]
  | quote hq h =>
    have ih := h.shape_ne_eof
    simp only [List.mem_cons]
    rintro t (rfl | ht)
    · simp [hq]
    · exact ih t ht
  | string ht => simp [ht]
  | atom ht _ => simp [ht]

lemma DerivesAll.shape_ne_eof {d : Nat} {ts : List Token} {ns : List Node}
    (h : DerivesAll file d ts ns) : ∀ t ∈ ts, t.shape ≠ .eof := by
  cases h with
  | nil => simp
  | cons h hs =>
    have ih := h.shape_ne_eof
    have ihs := hs.shape_ne_eof
    intro t ht
    rcases List.mem_append.1 ht with ht | ht
    · exact ih t ht
    · exact ihs t ht

end

/-! ### Gaps do not count -/

mutual

/-- Tokens that differ in their gaps alone have the same derivations. -/
lemma Derives.respace {d : Nat} {ts us : List Token} {n : Node} (h : Derives file d ts n)
    (hu : us.map Token.tight = ts.map Token.tight) : Derives file d us n := by
  cases h with
  | list ho h hc =>
    simp only [List.map_cons, List.map_append, List.map_nil] at hu
    obtain ⟨o', vs, rfl, ho', hv⟩ := List.map_eq_cons_iff.1 hu
    obtain ⟨ts', cs, rfl, ht, hcs⟩ := List.map_eq_append_iff.1 hv
    obtain ⟨c', es, rfl, hc', he⟩ := List.map_eq_cons_iff.1 hcs
    obtain rfl := List.map_eq_nil_iff.1 he
    rw [Token.line_eq_of_tight ho']
    exact .list (Token.shape_eq_of_tight ho' ▸ ho) (h.respace ht) (Token.shape_eq_of_tight hc' ▸ hc)
  | quote hq h =>
    obtain ⟨q', vs, rfl, hq', hv⟩ := List.map_eq_cons_iff.1 hu
    rw [Token.line_eq_of_tight hq']
    exact .quote (Token.shape_eq_of_tight hq' ▸ hq) (h.respace hv)
  | string ht =>
    obtain ⟨t', vs, rfl, ht', hv⟩ := List.map_eq_cons_iff.1 hu
    obtain rfl := List.map_eq_nil_iff.1 hv
    rw [Token.line_eq_of_tight ht']
    exact .string (Token.shape_eq_of_tight ht' ▸ ht)
  | atom ht h =>
    obtain ⟨t', vs, rfl, ht', hv⟩ := List.map_eq_cons_iff.1 hu
    obtain rfl := List.map_eq_nil_iff.1 hv
    exact .atom (Token.shape_eq_of_tight ht' ▸ ht) (Token.line_eq_of_tight ht' ▸ h)

lemma DerivesAll.respace {d : Nat} {ts us : List Token} {ns : List Node}
    (h : DerivesAll file d ts ns) (hu : us.map Token.tight = ts.map Token.tight) :
    DerivesAll file d us ns := by
  cases h with
  | nil =>
    obtain rfl := List.map_eq_nil_iff.1 hu
    exact .nil
  | cons h hs =>
    rw [List.map_append] at hu
    obtain ⟨vs, ws, rfl, hv, hw⟩ := List.map_eq_append_iff.1 hu
    exact .cons (h.respace hv) (hs.respace hw)

end

lemma Program.respace {ts us : List Token} {ns : List Node} (h : Program file ts ns)
    (hu : us.map Token.tight = ts.map Token.tight) : Program file us ns := by
  obtain ⟨d, hd, h⟩ := h
  exact ⟨d, hd, h.respace hu⟩

end Grammar

end ChannelLisp
