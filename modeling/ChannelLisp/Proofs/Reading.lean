import ChannelLisp.Proofs.Grammar
import ChannelLisp.Proofs.Scanning
import Mathlib.Tactic

/-!
The reader against the grammar. A form that is built is derived from the tokens that were
consumed for it, without any error, and what is derived is built; where a form is not built,
there is an error. So a source is read without errors exactly if it is a program, and then
into the trees of its derivation.
-/

namespace ChannelLisp

open Grammar

namespace Reader

variable {file : String} {fuel room : Nat}

lemma not_mem_keywords {s : String} (h : Numeral.looksNumeric s.toList = true) :
    s ∉ keywords := by
  intro hk
  simp only [keywords, List.mem_cons, List.not_mem_nil, or_false] at hk
  rcases hk with rfl | rfl | rfl <;> simp [Numeral.looksNumeric] at h

lemma atom_eq_ok_iff {s : String} {loc : Location} {n : Node} :
    atom s loc = .ok n ↔ Spells loc s n := by
  constructor
  · intro h
    unfold atom at h
    split_ifs at h with h1 h2 h3 h4
    · cases h; exact h1 ▸ .nil
    · cases h; exact h2 ▸ .true
    · cases h; exact h3 ▸ .false
    · split at h
      · rename_i hn; cases h; exact .int h4 hn
      · rename_i hn hx; cases h; exact .float h4 hn hx
      · cases h
    · cases h
      exact .symbol (by simp [keywords, h1, h2, h3]) (by simpa using h4)
  · -- no keyword looks like a number, so at most one rule applies
    have hkey : s ∉ keywords → s ≠ "nil" ∧ s ≠ "true" ∧ s ≠ "false" := by
      simp [keywords]
    intro h
    cases h with
    | nil => rfl
    | true => rfl
    | false => rfl
    | int hs hn =>
      obtain ⟨h1, h2, h3⟩ := hkey (not_mem_keywords hs)
      simp [atom, h1, h2, h3, hs, hn]
    | float hs hn hx =>
      obtain ⟨h1, h2, h3⟩ := hkey (not_mem_keywords hs)
      simp [atom, h1, h2, h3, hs, hn, hx]
    | symbol hk hs =>
      obtain ⟨h1, h2, h3⟩ := hkey hk
      simp [atom, h1, h2, h3, hs]

/-- Everything `form` can do, as an induction: the items of a list and what a quote stands
before are read with one level less. -/
theorem form_induct {P : Nat → List Token → Reply Node → Prop} (file : String) (fuel : Nat)
    (nil : ∀ room, P room [] ⟨none, [], []⟩)
    (deepList : ∀ t ts, t.shape = .lparen →
      P 0 (t :: ts) (fail .nesting ⟨file, t.line⟩ (skipOpen 1 ts)))
    (deepQuote : ∀ t ts, t.shape = .quote →
      P 0 (t :: ts) (fail .nesting ⟨file, t.line⟩ (skipForm ts)))
    (list : ∀ room t ts r, t.shape = .lparen → (∀ us, P room us (form file fuel room us)) →
      r = items (form file fuel room) ⟨file, t.line⟩ fuel ts →
      P (room + 1) (t :: ts) ⟨r.value?.map (.call · (some ⟨file, t.line⟩)), r.errors, r.rest⟩)
    (lone : ∀ room t ts, t.shape = .quote → missing ts = true →
      P (room + 1) (t :: ts) (fail .missingForm ⟨file, t.line⟩ (afterMissing (room + 1) ts)))
    (quote : ∀ room t ts r, t.shape = .quote → missing ts = false → P room ts r →
      P (room + 1) (t :: ts) ⟨r.value?.map (quotation ⟨file, t.line⟩), r.errors, r.rest⟩)
    (close : ∀ room t ts, t.shape = .rparen →
      P room (t :: ts) (fail .unexpectedClose ⟨file, t.line⟩ ts))
    (string : ∀ room t ts s, t.shape = .string s →
      P room (t :: ts) ⟨some (.literal (.str s) (some ⟨file, t.line⟩)), [], ts⟩)
    (atom : ∀ room t ts s n, t.shape = .atom s → Spells ⟨file, t.line⟩ s n →
      P room (t :: ts) ⟨some n, [], ts⟩)
    (badAtom : ∀ room t ts s e, t.shape = .atom s → Reader.atom s ⟨file, t.line⟩ = .error e →
      P room (t :: ts) ⟨none, [e], ts⟩)
    (cut : ∀ room t ts, t.shape = .unterminated →
      P room (t :: ts) (fail .unterminatedString ⟨file, t.line⟩ ts))
    (eof : ∀ room t ts, t.shape = .eof →
      P room (t :: ts) (fail .unexpectedEnd ⟨file, t.line⟩ (t :: ts)))
    (room : Nat) (ts : List Token) : P room ts (form file fuel room ts) := by
  induction room generalizing ts with
  | zero =>
    rcases ts with _ | ⟨t, ts⟩
    · simpa [form] using nil 0
    · rcases ht : t.shape with _ | _ | _ | s | s | _ | _
      · simpa [form, ht] using deepList t ts ht
      · simpa [form, ht] using close 0 t ts ht
      · simpa [form, ht] using deepQuote t ts ht
      · rcases ha : Reader.atom s ⟨file, t.line⟩ with e | n
        · simpa [form, ht, ha] using badAtom 0 t ts s e ht ha
        · simpa [form, ht, ha] using atom 0 t ts s n ht (atom_eq_ok_iff.1 ha)
      · simpa [form, ht] using string 0 t ts s ht
      · simpa [form, ht] using cut 0 t ts ht
      · simpa [form, ht] using eof 0 t ts ht
  | succ room ih =>
    rcases ts with _ | ⟨t, ts⟩
    · simpa [form] using nil (room + 1)
    · rcases ht : t.shape with _ | _ | _ | s | s | _ | _
      · simpa [form, ht] using list room t ts _ ht ih rfl
      · simpa [form, ht] using close (room + 1) t ts ht
      · by_cases hm : missing ts = true
        · simpa [form, ht, hm] using lone room t ts ht hm
        · simpa [form, ht, hm] using quote room t ts _ ht (by simpa using hm) (ih ts)
      · rcases ha : Reader.atom s ⟨file, t.line⟩ with e | n
        · simpa [form, ht, ha] using badAtom (room + 1) t ts s e ht ha
        · simpa [form, ht, ha] using atom (room + 1) t ts s n ht (atom_eq_ok_iff.1 ha)
      · simpa [form, ht] using string (room + 1) t ts s ht
      · simpa [form, ht] using cut (room + 1) t ts ht
      · simpa [form, ht] using eof (room + 1) t ts ht

/-! ### What is left is the end of what was there -/

lemma skipOpen_suffix (depth : Nat) (ts : List Token) : skipOpen depth ts <:+ ts := by
  fun_induction skipOpen depth ts with
  | case1 ts => exact List.suffix_rfl
  | case2 depth => exact List.suffix_rfl
  | case3 depth t ts _ => exact List.suffix_rfl
  | case4 depth t ts _ ih => exact ih.trans (List.suffix_cons t ts)
  | case5 depth t ts _ ih => exact ih.trans (List.suffix_cons t ts)
  | case6 depth t ts _ _ _ ih => exact ih.trans (List.suffix_cons t ts)

lemma skipForm_suffix (ts : List Token) : skipForm ts <:+ ts := by
  fun_induction skipForm ts with
  | case1 => exact List.suffix_rfl
  | case2 t ts _ ih => exact ih.trans (List.suffix_cons t ts)
  | case3 t ts _ => exact List.suffix_rfl
  | case4 t ts _ => exact List.suffix_rfl
  | case5 t ts _ => exact (skipOpen_suffix 1 ts).trans (List.suffix_cons t ts)
  | case6 t ts _ _ _ _ => exact List.suffix_cons t ts

lemma resync_suffix (depth : Nat) (ts : List Token) : resync depth ts <:+ ts := by
  fun_induction resync depth ts with
  | case1 depth => exact List.suffix_rfl
  | case2 t ts _ => exact List.suffix_rfl
  | case3 t ts _ _ ih => exact ih.trans (List.suffix_cons t ts)
  | case4 t ts _ _ ih => exact ih.trans (List.suffix_cons t ts)
  | case5 depth t ts _ => exact List.suffix_rfl
  | case6 depth t ts _ ih => exact ih.trans (List.suffix_cons t ts)
  | case7 depth t ts _ ih => exact ih.trans (List.suffix_cons t ts)
  | case8 depth t ts _ _ _ ih => exact ih.trans (List.suffix_cons t ts)

lemma afterMissing_suffix (room : Nat) (ts : List Token) : afterMissing room ts <:+ ts := by
  unfold afterMissing
  split
  · split
    · exact List.suffix_cons _ _
    · exact List.suffix_rfl
  · exact List.suffix_rfl

lemma items_suffix {read : List Token → Reply Node} (hread : ∀ ts, (read ts).rest <:+ ts)
    (loc : Location) (k : Nat) (ts : List Token) : (items read loc k ts).rest <:+ ts := by
  fun_induction items read loc k ts with
  | case1 ts => exact List.suffix_rfl
  | case2 k => exact List.suffix_rfl
  | case3 k t ts ht => exact List.suffix_rfl
  | case4 k t ts ht => exact List.suffix_cons t ts
  | case5 k t ts one more _ _ ih => exact ih.trans (hread (t :: ts))

lemma form_suffix (ts : List Token) : (form file fuel room ts).rest <:+ ts := by
  refine form_induct (P := fun _ ts r => r.rest <:+ ts)
    file fuel ?nil ?deepList ?deepQuote ?list ?lone ?quote ?close ?string ?atom ?badAtom ?cut ?eof
    room ts
  case deepList => exact fun t ts _ => (skipOpen_suffix 1 ts).trans (List.suffix_cons t ts)
  case deepQuote => exact fun t ts _ => (skipForm_suffix ts).trans (List.suffix_cons t ts)
  case list =>
    rintro room t ts r ht ih rfl
    exact (items_suffix ih _ _ ts).trans (List.suffix_cons t ts)
  case lone =>
    exact fun room t ts _ _ => (afterMissing_suffix _ ts).trans (List.suffix_cons t ts)
  case quote => exact fun room t ts r _ _ ih => ih.trans (List.suffix_cons t ts)
  all_goals simp [fail]

lemma recover_suffix (t : Token) (r : Reply Node) : recover t r <:+ r.rest := by
  unfold recover
  split
  · exact resync_suffix 0 r.rest
  · exact List.suffix_rfl

/-! ### Soundness -/

/-- The node was derived from the tokens before the rest, with no error on the way. -/
def Built (file : String) (room : Nat) (ts : List Token) (r : Reply Node) (n : Node) : Prop :=
  r.errors = [] ∧ ∃ d ≤ room, ∃ us, ts = us ++ r.rest ∧ Derives file d us n

lemma items_built {read : List Token → Reply Node}
    (hread : ∀ ts n, (read ts).value? = some n → Built file room ts (read ts) n)
    (loc : Location) (k : Nat) (ts : List Token) :
    ∀ ns, (items read loc k ts).value? = some ns →
      (items read loc k ts).errors = [] ∧ ∃ d ≤ room, ∃ us c,
        ts = us ++ c :: (items read loc k ts).rest ∧ c.shape = .rparen ∧
          DerivesAll file d us ns := by
  fun_induction items read loc k ts with
  | case1 ts => simp [fail]
  | case2 k => simp [fail]
  | case3 k t ts ht => simp [fail]
  | case4 k t ts ht =>
    intro ns h
    obtain rfl : [] = ns := by simpa using h
    exact ⟨rfl, 0, by omega, [], t, rfl, ht, .nil⟩
  | case5 k t ts one more _ _ ih =>
    intro ns h
    obtain ⟨n, hn, hmore⟩ := Option.bind_eq_some_iff.1 h
    obtain ⟨ms, hms, rfl⟩ := Option.map_eq_some_iff.1 hmore
    obtain ⟨he, d, hd, us, hus, hder⟩ := hread _ _ hn
    obtain ⟨he', d', hd', us', c, hus', hc, hder'⟩ := ih ms hms
    refine ⟨by simp [one, more, he, he'], max d d', by omega, us ++ us', c, ?_, hc,
      .cons hder hder'⟩
    rw [hus, hus', List.append_assoc]

lemma form_built (ts : List Token) :
    ∀ n, (form file fuel room ts).value? = some n →
      Built file room ts (form file fuel room ts) n := by
  refine form_induct (P := fun room ts r => ∀ n, r.value? = some n → Built file room ts r n)
    file fuel ?nil ?deepList ?deepQuote ?list ?lone ?quote ?close ?string ?atom ?badAtom ?cut ?eof
    room ts
  case nil => simp
  case deepList => simp [fail]
  case deepQuote => simp [fail]
  case list =>
    intro room t ts r ht ih hr n h
    obtain ⟨ns, hns, rfl⟩ := Option.map_eq_some_iff.1 h
    subst hr
    obtain ⟨he, d, hd, us, c, hus, hc, hder⟩ := items_built ih _ _ _ ns hns
    refine ⟨he, d + 1, by omega, t :: (us ++ [c]), ?_, .list ht hder hc⟩
    simpa using hus
  case lone => simp [fail]
  case quote =>
    intro room t ts r ht _ ih n h
    obtain ⟨m, hm, rfl⟩ := Option.map_eq_some_iff.1 h
    obtain ⟨he, d, hd, us, hus, hder⟩ := ih m hm
    exact ⟨he, d + 1, by omega, t :: us, by simp [hus], .quote ht hder⟩
  case close => simp [fail]
  case string =>
    intro room t ts s ht n h
    obtain rfl := Option.some.inj h
    exact ⟨rfl, 0, by omega, [t], rfl, .string ht⟩
  case atom =>
    intro room t ts s m ht hs n h
    obtain rfl := Option.some.inj h
    exact ⟨rfl, 0, by omega, [t], rfl, .atom ht hs⟩
  case badAtom => simp
  case cut => simp [fail]
  case eof => simp [fail]

lemma items_isSome {read : List Token → Reply Node}
    (hread : ∀ ts, ts ≠ [] → (read ts).errors = [] → (read ts).value?.isSome)
    (loc : Location) (k : Nat) (ts : List Token) :
    (items read loc k ts).errors = [] → (items read loc k ts).value?.isSome := by
  fun_induction items read loc k ts with
  | case1 ts => simp [fail]
  | case2 k => simp [fail]
  | case3 k t ts ht => simp [fail]
  | case4 k t ts ht => simp
  | case5 k t ts one more _ _ ih =>
    intro h
    obtain ⟨h1, h2⟩ := List.append_eq_nil_iff.1 h
    obtain ⟨n, hn⟩ := Option.isSome_iff_exists.1 (hread _ (by simp) h1)
    obtain ⟨ns, hns⟩ := Option.isSome_iff_exists.1 (ih h2)
    simp [one, more, hn, hns]

/-- Where nothing is built, there is an error. -/
lemma form_isSome (ts : List Token) :
    ts ≠ [] → (form file fuel room ts).errors = [] → (form file fuel room ts).value?.isSome := by
  refine form_induct (P := fun _ ts r => ts ≠ [] → r.errors = [] → r.value?.isSome)
    file fuel ?nil ?deepList ?deepQuote ?list ?lone ?quote ?close ?string ?atom ?badAtom ?cut ?eof
    room ts
  case list =>
    rintro room t ts r ht ih rfl - h
    simpa using items_isSome ih _ _ _ h
  case quote =>
    intro room t ts r ht hm ih _ h
    have hts : ts ≠ [] := by
      rintro rfl
      simp [missing] at hm
    simpa using ih hts h
  all_goals simp [fail]

lemma form_isSome_iff {ts : List Token} (h : ts ≠ []) :
    (form file fuel room ts).value?.isSome ↔ (form file fuel room ts).errors = [] := by
  refine ⟨fun hsome => ?_, form_isSome ts h⟩
  obtain ⟨n, hn⟩ := Option.isSome_iff_exists.1 hsome
  exact (form_built ts n hn).1

lemma program_cons {read : List Token → Reply Node} {t : Token} (ht : t.shape ≠ .eof) (k : Nat)
    (ts : List Token) :
    program read (k + 1) (t :: ts) =
      ((read (t :: ts)).value?.toList ++ (program read k (recover t (read (t :: ts)))).1,
        (read (t :: ts)).errors ++ (program read k (recover t (read (t :: ts)))).2) := by
  simp [program, ht]

/-- What is consumed in front of the end leaves the end. -/
lemma rest_of_append {us vs rest : List Token} {e : Token} (h : us ++ [e] = vs ++ rest)
    (he : e ∉ vs) : ∃ ws, us = vs ++ ws ∧ rest = ws ++ [e] := by
  rcases List.eq_nil_or_concat rest with rfl | ⟨ws, x, rfl⟩
  · exact absurd (by rw [← List.append_nil vs, ← h]; simp) he
  · rw [List.concat_eq_append, ← List.append_assoc] at h
    obtain ⟨hus, hx⟩ := List.append_inj' h rfl
    exact ⟨ws, hus, by rw [List.concat_eq_append, hx]⟩

lemma program_built {k : Nat} {us : List Token} {e : Token} (he : e.shape = .eof)
    (hus : ∀ t ∈ us, t.shape ≠ .eof) (hk : us.length < k)
    (h : (program (form file fuel room) k (us ++ [e])).2 = []) :
    ∃ d ≤ room, DerivesAll file d us (program (form file fuel room) k (us ++ [e])).1 := by
  induction k generalizing us with
  | zero => omega
  | succ k ih =>
    rcases us with _ | ⟨t, us⟩
    · exact ⟨0, by omega, by simpa [program, he] using .nil⟩
    · have ht : t.shape ≠ .eof := hus t (by simp)
      rw [List.cons_append, program_cons ht] at h ⊢
      obtain ⟨h1, h2⟩ := List.append_eq_nil_iff.1 h
      obtain ⟨n, hn⟩ := Option.isSome_iff_exists.1 (form_isSome _ (by simp) h1)
      obtain ⟨-, d, hd, vs, hvs, hder⟩ := form_built _ n hn
      rw [← List.cons_append] at hvs
      obtain ⟨ws, hw, hrest⟩ := rest_of_append hvs fun hmem => hder.shape_ne_eof e hmem he
      have hrec : recover t (form file fuel room (t :: (us ++ [e]))) = ws ++ [e] := by
        simp [recover, hn, ← hrest]
      rw [hrec] at h2 ⊢
      have hlen : ws.length < k := by
        obtain ⟨_, _, rfl, -⟩ := hder.head
        have := congrArg List.length hw
        simp at this hk
        omega
      obtain ⟨d', hd', hder'⟩ := ih (fun u hu => hus u (by rw [hw]; simp [hu])) hlen h2
      refine ⟨max d d', by omega, ?_⟩
      rw [hw, hn]
      exact .cons hder hder'

/-- Whatever the errors, a form is derived from tokens of the source. -/
lemma derives_of_mem_program {k : Nat} {ts : List Token} {n : Node}
    (h : n ∈ (program (form file fuel room) k ts).1) :
    ∃ d ≤ room, ∃ us, us ⊆ ts ∧ Derives file d us n := by
  induction k generalizing ts with
  | zero => simp [program] at h
  | succ k ih =>
    rcases ts with _ | ⟨t, ts⟩
    · simp [program] at h
    · by_cases ht : t.shape = .eof
      · simp [program, ht] at h
      · rw [program_cons ht] at h
        rcases List.mem_append.1 h with h | h
        · obtain ⟨-, d, hd, us, hus, hder⟩ := form_built _ n (Option.mem_toList.1 h)
          exact ⟨d, hd, us, by rw [hus]; exact List.subset_append_left _ _, hder⟩
        · obtain ⟨d, hd, us, hus, hder⟩ := ih h
          have hrest := (recover_suffix t _).trans (@form_suffix file fuel room (t :: ts))
          exact ⟨d, hd, us, fun u hu => hrest.subset (hus hu), hder⟩

/-! ### Completeness -/

mutual

lemma form_of_derives {room d : Nat} {ts : List Token} {n : Node} (h : Derives file d ts n)
    (hd : d ≤ room) (hf : ts.length ≤ fuel) (rest : List Token) :
    form file fuel room (ts ++ rest) = ⟨some n, [], rest⟩ := by
  cases h with
  | list ho h hc =>
    obtain ⟨inner, rfl⟩ : ∃ inner, room = inner + 1 := ⟨room - 1, by omega⟩
    simp only [List.length_cons, List.length_append, List.length_nil] at hf
    have ih := items_of_derives h (Nat.le_of_succ_le_succ hd) (by omega) fuel (by omega) hc
    simp [form, ho, ih]
  | quote hq h =>
    obtain ⟨inner, rfl⟩ : ∃ inner, room = inner + 1 := ⟨room - 1, by omega⟩
    have ih := form_of_derives h (Nat.le_of_succ_le_succ hd) (Nat.le_of_succ_le hf) rest
    obtain ⟨t, us, rfl, h1, h2⟩ := h.head
    simp only [List.cons_append] at ih ⊢
    simp [form, hq, missing, h1, h2, ih, quotation]
  | string ht => simp [form, ht]
  | atom ht h => simp [form, ht, atom_eq_ok_iff.2 h]

lemma items_of_derives {room d : Nat} {ts : List Token} {ns : List Node}
    (h : DerivesAll file d ts ns) (hd : d ≤ room) (hf : ts.length ≤ fuel) (k : Nat)
    (hk : ts.length < k) {c : Token} (hc : c.shape = .rparen) (loc : Location)
    (rest : List Token) :
    items (form file fuel room) loc k (ts ++ c :: rest) = ⟨some ns, [], rest⟩ := by
  obtain ⟨k, rfl⟩ : ∃ j, k = j + 1 := ⟨k - 1, by omega⟩
  cases h with
  | nil => simp [items, hc]
  | @cons d e ts us n ns h hs =>
    simp only [List.length_append] at hf hk
    obtain ⟨t, ts', rfl, h1, h2⟩ := h.head
    rw [List.length_cons] at hf hk
    have ih := form_of_derives h (le_trans (le_max_left d e) hd) (by simp; omega)
      (us ++ c :: rest)
    have ihs := items_of_derives hs (le_trans (le_max_right d e) hd) (by omega) k (by omega) hc
      loc rest
    simp only [List.cons_append] at ih
    simp [items, ih, ihs]

end

lemma program_of_derives {d : Nat} {ts : List Token} {ns : List Node}
    (h : DerivesAll file d ts ns) (hd : d ≤ room) (hf : ts.length ≤ fuel) {k : Nat}
    (hk : ts.length < k) {e : Token} (he : e.shape = .eof) :
    program (form file fuel room) k (ts ++ [e]) = (ns, []) := by
  induction ns generalizing d ts k with
  | nil =>
    obtain ⟨k, rfl⟩ : ∃ j, k = j + 1 := ⟨k - 1, by omega⟩
    cases h
    simp [program, he]
  | cons n ns ih =>
    obtain ⟨k, rfl⟩ : ∃ j, k = j + 1 := ⟨k - 1, by omega⟩
    rcases h with _ | @⟨d, e', ts, us, _, _, h, hs⟩
    simp only [List.length_append] at hf hk
    obtain ⟨t, ts', rfl, h1, -⟩ := h.head
    rw [List.length_cons] at hf hk
    have hf' : (t :: ts').length ≤ fuel := by rw [List.length_cons]; omega
    have hform := form_of_derives h (le_trans (le_max_left d e') hd) hf' (us ++ [e])
    have hk' : us.length < k := by omega
    have hprog := ih hs (le_trans (le_max_right d e') hd) (by omega) hk'
    rw [List.append_assoc]
    rw [List.cons_append] at hform ⊢
    rw [program_cons h1, hform]
    simp [recover, hprog]

lemma ofTokens_of_program {ts : List Token} {ns : List Node} (h : Program file ts ns) {e : Token}
    (he : e.shape = .eof) : ofTokens file (ts ++ [e]) = (ns, []) := by
  obtain ⟨d, hd, hder⟩ := h
  exact program_of_derives hder hd (by simp) (by simp) he

lemma program_of_ofTokens {ts : List Token} (hts : ∀ t ∈ ts, t.shape ≠ .eof) {e : Token}
    (he : e.shape = .eof) (h : (ofTokens file (ts ++ [e])).2 = []) :
    Program file ts (ofTokens file (ts ++ [e])).1 :=
  program_built he hts (by simp) h

end Reader

/-- A text without errors is a program. -/
lemma exists_program {source label : String} (h : (read source label).2 = []) :
    ∃ ts e, tokenize source = ts ++ [e] ∧ e.shape = .eof ∧
      Program label ts (read source label).1 := by
  obtain ⟨ts, e, htok, he, hts⟩ := Scan.tokens_eq source.toList
  have hread : read source label = Reader.ofTokens label (ts ++ [e]) := by
    rw [read, tokenize, htok]
  rw [hread] at h ⊢
  exact ⟨ts, e, htok, he, Reader.program_of_ofTokens (fun t ht => (hts t ht).1) he h⟩

/-- **The reader accepts exactly the grammar and builds its trees.** Before their end, the tokens
of a source are a program just if reading it gives no error. The forms are then the trees of
that program, whatever gaps the tokens have. -/
theorem read_iff_program (source label : String) :
    ∃ ts e, tokenize source = ts ++ [e] ∧ e.shape = .eof ∧
      ((read source label).2 = [] ↔ ∃ ns, Program label ts ns) ∧
      (∀ ns, Program label ts ns → (read source label).1 = ns) ∧
      ∀ us, us.map Token.tight = (tokenize source).map Token.tight →
        (read source label).2 = [] → Reader.ofTokens label us = read source label := by
  obtain ⟨ts, e, htok, he, hts⟩ := Scan.tokens_eq source.toList
  have hread : read source label = Reader.ofTokens label (ts ++ [e]) := by
    rw [read, tokenize, htok]
  have hsound : (read source label).2 = [] → Program label ts (read source label).1 := by
    rw [hread]
    exact Reader.program_of_ofTokens (fun t ht => (hts t ht).1) he
  have hcomplete : ∀ ns, Program label ts ns → read source label = (ns, []) := by
    intro ns h
    rw [hread, Reader.ofTokens_of_program h he]
  refine ⟨ts, e, htok, he, ⟨fun h => ⟨_, hsound h⟩, fun ⟨ns, h⟩ => ?_⟩, fun ns h => ?_, ?_⟩
  · rw [hcomplete ns h]
  · rw [hcomplete ns h]
  · intro us hu h
    -- other gaps leave the derivation as it is
    rw [tokenize, htok, List.map_append] at hu
    obtain ⟨vs, es, rfl, hv, hes⟩ := List.map_eq_append_iff.1 hu
    obtain ⟨e', es', rfl, he', hes'⟩ := List.map_eq_cons_iff.1 hes
    obtain rfl := List.map_eq_nil_iff.1 hes'
    have hend : e'.shape = .eof := by rw [← Token.shape_eq_of_tight he', he]
    rw [Reader.ofTokens_of_program ((hsound h).respace hv) hend, ← h]

end ChannelLisp
