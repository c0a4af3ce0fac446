import ChannelLisp.Proofs.Reading
import Mathlib.Tactic

/-!
What becomes of the tokens of a source. Each attempt at a top-level form takes a stretch of
tokens, its segment, and the segments are all the tokens before the end. A segment is a form,
and then exactly its tokens, or it is dropped, with errors that lie inside it.
-/

namespace ChannelLisp

open Grammar

/-- What one attempt at a top-level form took and gave. -/
structure Segment where
  tokens : List Token
  value? : Option Node
  errors : List ReadError

/-- The error is at one of the tokens. -/
def ReadError.IsAt (e : ReadError) (file : String) (us : List Token) : Prop :=
  ∃ t ∈ us, e.loc? = some ⟨file, t.line⟩

lemma ReadError.IsAt.mono {e : ReadError} {file : String} {us vs : List Token}
    (h : e.IsAt file us) (huv : us ⊆ vs) : e.IsAt file vs := by
  obtain ⟨t, ht, he⟩ := h
  exact ⟨t, huv ht, he⟩

/-- The segment is a form and exactly its tokens, read without an error; or it is dropped for
errors that are at tokens of it. -/
inductive Segment.Accounted (file : String) : Segment → Prop where
  | form {d : Nat} {ts : List Token} {n : Node} (hd : d ≤ maxNesting) (h : Derives file d ts n) :
      Accounted file ⟨ts, some n, []⟩
  | dropped {ts : List Token} {errors : List ReadError} (hne : errors ≠ [])
      (h : ∀ e ∈ errors, e.IsAt file ts) : Accounted file ⟨ts, none, errors⟩

namespace Reader

/-- The attempt at a form that starts with `t`; what is skipped after it belongs to it. -/
def attempt (read : List Token → Reply Node) (t : Token) (ts : List Token) : Segment :=
  let r := read (t :: ts)
  ⟨(t :: ts).take ((t :: ts).length - (recover t r).length), r.value?, r.errors⟩

/-- The attempts of `program`, one after another. -/
def segments (read : List Token → Reply Node) : Nat → List Token → List Segment
  | 0, _ | _, [] => []
  | fuel + 1, t :: ts =>
    if t.shape = .eof then []
    else attempt read t ts :: segments read fuel (recover t (read (t :: ts)))

lemma segments_cons {read : List Token → Reply Node} {t : Token} (ht : t.shape ≠ .eof) (k : Nat)
    (ts : List Token) :
    segments read (k + 1) (t :: ts) =
      attempt read t ts :: segments read k (recover t (read (t :: ts))) := by
  simp [segments, ht]

/-- The forms and the errors of a program are those of its attempts. -/
lemma program_eq_segments (read : List Token → Reply Node) (k : Nat) (ts : List Token) :
    program read k ts = ((segments read k ts).filterMap Segment.value?,
      (segments read k ts).flatMap Segment.errors) := by
  induction k generalizing ts with
  | zero => simp [program, segments]
  | succ k ih =>
    rcases ts with _ | ⟨t, ts⟩
    · simp [program, segments]
    · by_cases ht : t.shape = .eof
      · simp [program, segments, ht]
      · rw [program_cons ht, segments_cons ht, ih]
        cases hv : (read (t :: ts)).value? <;> simp [attempt, hv]

end Reader

/-- The segments of a source. -/
def segments (source label : String) : List Segment :=
  let ts := tokenize source
  Reader.segments (Reader.form label ts.length maxNesting) ts.length ts

/-! ### What an attempt takes -/

namespace Reader

variable {file : String} {fuel room : Nat} {ts rest : List Token}

/-- What is left once tokens are dropped that are not the end. -/
def Drops (ts rest : List Token) : Prop := ∃ us, ts = us ++ rest ∧ ∀ t ∈ us, t.shape ≠ .eof

namespace Drops

lemma refl (ts : List Token) : Drops ts ts := ⟨[], rfl, by simp⟩

lemma cons {t : Token} (ht : t.shape ≠ .eof) (h : Drops ts rest) : Drops (t :: ts) rest := by
  obtain ⟨us, rfl, hus⟩ := h
  exact ⟨t :: us, rfl, List.forall_mem_cons.2 ⟨ht, hus⟩⟩

end Drops

lemma skipOpen_drops (depth : Nat) (ts : List Token) : Drops ts (skipOpen depth ts) := by
  fun_induction skipOpen depth ts with
  | case1 ts => exact .refl ts
  | case2 depth => exact .refl []
  | case3 depth t ts _ => exact .refl (t :: ts)
  | case4 depth t ts ht ih => exact ih.cons (by simp [ht])
  | case5 depth t ts ht ih => exact ih.cons (by simp [ht])
  | case6 depth t ts hne _ _ ih => exact ih.cons hne

lemma skipForm_drops (ts : List Token) : Drops ts (skipForm ts) := by
  fun_induction skipForm ts with
  | case1 => exact .refl []
  | case2 t ts ht ih => exact ih.cons (by simp [ht])
  | case3 t ts _ => exact .refl (t :: ts)
  | case4 t ts _ => exact .refl (t :: ts)
  | case5 t ts ht => exact (skipOpen_drops 1 ts).cons (by simp [ht])
  | case6 t ts _ hne _ _ => exact (Drops.refl ts).cons hne

lemma resync_drops (depth : Nat) (ts : List Token) : Drops ts (resync depth ts) := by
  fun_induction resync depth ts with
  | case1 depth => exact .refl []
  | case2 t ts _ => exact .refl (t :: ts)
  | case3 t ts hgo _ ih => exact ih.cons fun ht => hgo (.inl ht)
  | case4 t ts hgo _ ih => exact ih.cons fun ht => hgo (.inl ht)
  | case5 depth t ts _ => exact .refl (t :: ts)
  | case6 depth t ts ht ih => exact ih.cons (by simp [ht])
  | case7 depth t ts ht ih => exact ih.cons (by simp [ht])
  | case8 depth t ts hne _ _ ih => exact ih.cons hne

lemma afterMissing_drops (room : Nat) (ts : List Token) : Drops ts (afterMissing room ts) := by
  unfold afterMissing
  split
  · rename_i t ts
    split_ifs with h
    · exact (Drops.refl ts).cons (by simp [h.2.1])
    · exact .refl (t :: ts)
  · exact .refl []

lemma recover_drops (t : Token) (r : Reply Node) : Drops r.rest (recover t r) := by
  unfold recover
  split
  · exact resync_drops 0 r.rest
  · exact .refl r.rest

/-- Some tokens were taken, none of them the end, and the errors are at them. -/
def Takes (file : String) (ts : List Token) (errors : List ReadError) (rest : List Token) : Prop :=
  ∃ us, us ≠ [] ∧ ts = us ++ rest ∧ (∀ t ∈ us, t.shape ≠ .eof) ∧ ∀ e ∈ errors, e.IsAt file us

/-- Errors at the first token, and others at what is taken after it. -/
lemma Takes.head {t : Token} {errors : List ReadError} {us : List Token} (ht : t.shape ≠ .eof)
    (hts : ts = us ++ rest) (hus : ∀ u ∈ us, u.shape ≠ .eof)
    (he : ∀ e ∈ errors, e.loc? = some ⟨file, t.line⟩ ∨ e.IsAt file us) :
    Takes file (t :: ts) errors rest := by
  refine ⟨t :: us, by simp, by simp [hts], List.forall_mem_cons.2 ⟨ht, hus⟩, fun e hmem => ?_⟩
  rcases he e hmem with h | h
  · exact ⟨t, List.mem_cons_self, h⟩
  · exact h.mono (List.subset_cons_self t us)

lemma Takes.of_drops {t : Token} {errors : List ReadError} (ht : t.shape ≠ .eof)
    (h : Drops ts rest) (he : ∀ e ∈ errors, e.loc? = some ⟨file, t.line⟩) :
    Takes file (t :: ts) errors rest := by
  obtain ⟨us, hts, hus⟩ := h
  exact .head ht hts hus fun e hmem => .inl (he e hmem)

/-- What is dropped afterwards may be counted in. -/
lemma Takes.drops {errors : List ReadError} {vs : List Token} (h : Takes file ts errors rest)
    (h' : Drops rest vs) : Takes file ts errors vs := by
  obtain ⟨us, hne, rfl, hus, he⟩ := h
  obtain ⟨us', rfl, hus'⟩ := h'
  refine ⟨us ++ us', by simp [hne], by simp, fun t ht => ?_, fun e hmem => ?_⟩
  · rcases List.mem_append.1 ht with ht | ht
    · exact hus t ht
    · exact hus' t ht
  · exact (he e hmem).mono (List.subset_append_left us us')

lemma atom_error {s : String} {loc : Location} {e : ReadError} (h : atom s loc = .error e) :
    e = ⟨.invalidNumber s, some loc⟩ := by
  unfold atom at h
  split_ifs at h
  split at h
  all_goals cases h
  rfl

lemma items_takes {read : List Token → Reply Node}
    (hread : ∀ t us, t.shape ≠ .eof →
      Takes file (t :: us) (read (t :: us)).errors (read (t :: us)).rest)
    (loc : Location) (k : Nat) (ts : List Token) :
    ∃ us, ts = us ++ (items read loc k ts).rest ∧ (∀ t ∈ us, t.shape ≠ .eof) ∧
      ∀ e ∈ (items read loc k ts).errors, e.loc? = some loc ∨ e.IsAt file us := by
  fun_induction items read loc k ts with
  | case1 ts => exact ⟨[], rfl, by simp, by simp [fail]⟩
  | case2 k => exact ⟨[], rfl, by simp, by simp [fail]⟩
  | case3 k t ts ht => exact ⟨[], rfl, by simp, by simp [fail]⟩
  | case4 k t ts ht => exact ⟨[t], rfl, by simp [ht], by simp⟩
  | case5 k t ts one more hne _ ih =>
    obtain ⟨us, -, hus, hne', he⟩ := hread t ts hne
    obtain ⟨us', hus', hne'', he'⟩ := ih
    refine ⟨us ++ us', by rw [hus, hus', List.append_assoc], fun u hu => ?_, fun e hmem => ?_⟩
    · rcases List.mem_append.1 hu with hu | hu
      · exact hne' u hu
      · exact hne'' u hu
    · rcases List.mem_append.1 hmem with hmem | hmem
      · exact .inr ((he e hmem).mono (List.subset_append_left us us'))
      · exact (he' e hmem).imp_right fun h => h.mono (List.subset_append_right us us')

/-- Reading a form takes tokens, and its errors are at them. -/
lemma form_takes (t : Token) (ts : List Token) (ht : t.shape ≠ .eof) :
    Takes file (t :: ts) (form file fuel room (t :: ts)).errors
      (form file fuel room (t :: ts)).rest := by
  refine form_induct (P := fun _ ts r => ∀ t us, ts = t :: us → t.shape ≠ .eof →
      Takes file ts r.errors r.rest)
    file fuel ?nil ?deepList ?deepQuote ?list ?lone ?quote ?close ?string ?atom ?badAtom ?cut ?eof
    room (t :: ts) t ts rfl ht
  case nil => simp
  case deepList =>
    rintro t ts - t' ts' ⟨⟩ ht
    exact .of_drops ht (skipOpen_drops 1 ts) (by simp [fail])
  case deepQuote =>
    rintro t ts - t' ts' ⟨⟩ ht
    exact .of_drops ht (skipForm_drops ts) (by simp [fail])
  case list =>
    rintro room t ts r - ih rfl t' ts' ⟨⟩ ht
    obtain ⟨us, hus, hne, he⟩ :=
      items_takes (fun u us => ih (u :: us) u us rfl) ⟨file, t.line⟩ fuel ts
    exact .head ht hus hne he
  case lone =>
    rintro room t ts - - t' ts' ⟨⟩ ht
    exact .of_drops ht (afterMissing_drops _ ts) (by simp [fail])
  case quote =>
    rintro room t ts r - hm ih t' ts' ⟨⟩ ht
    rcases ts with _ | ⟨u, ts⟩
    · simp [missing] at hm
    · have hu : u.shape ≠ .eof := by
        rintro hu
        simp [missing, hu] at hm
      obtain ⟨us, -, hus, hne, he⟩ := ih u ts rfl hu
      exact .head ht hus hne fun e hmem => .inr (he e hmem)
  case close =>
    rintro room t ts - t' ts' ⟨⟩ ht
    exact .of_drops ht (.refl ts) (by simp [fail])
  case string =>
    rintro room t ts s - t' ts' ⟨⟩ ht
    exact .of_drops ht (.refl ts) (by simp)
  case atom =>
    rintro room t ts s n - - t' ts' ⟨⟩ ht
    exact .of_drops ht (.refl ts) (by simp)
  case badAtom =>
    rintro room t ts s e - he t' ts' ⟨⟩ ht
    exact .of_drops ht (.refl ts) (by simp [atom_error he])
  case cut =>
    rintro room t ts - t' ts' ⟨⟩ ht
    exact .of_drops ht (.refl ts) (by simp [fail])
  case eof =>
    rintro room t ts ht t' ts' ⟨⟩ hne
    exact absurd ht hne

/-- An attempt takes its segment and leaves the rest. -/
lemma attempt_spec (t : Token) (ts : List Token) (ht : t.shape ≠ .eof) :
    (attempt (form file fuel maxNesting) t ts).tokens
        ++ recover t (form file fuel maxNesting (t :: ts)) = t :: ts ∧
      (attempt (form file fuel maxNesting) t ts).tokens ≠ [] ∧
      (∀ u ∈ (attempt (form file fuel maxNesting) t ts).tokens, u.shape ≠ .eof) ∧
      (attempt (form file fuel maxNesting) t ts).Accounted file := by
  set r := form file fuel maxNesting (t :: ts) with hr
  obtain ⟨us, hne, hus, hend, he⟩ :=
    (@form_takes file fuel maxNesting t ts ht).drops (recover_drops t r)
  have htake : attempt (form file fuel maxNesting) t ts = ⟨us, r.value?, r.errors⟩ := by
    simp only [attempt, ← hr]
    congr 1
    rw [hus, List.length_append, Nat.add_sub_cancel, List.take_left]
  rw [htake]
  refine ⟨hus.symm, hne, hend, ?_⟩
  cases hv : r.value? with
  | some n =>
    -- nothing is skipped after a form that was built
    have hrest : recover t r = r.rest := by simp [recover, hv]
    obtain ⟨hnil, d, hd, vs, hvs, hder⟩ := form_built _ n hv
    have hsame : us ++ r.rest = vs ++ r.rest := by rw [← hvs, ← hrest, ← hus]
    obtain rfl : us = vs := List.append_cancel_right hsame
    rw [← hr] at hnil
    exact hnil ▸ .form hd hder
  | none =>
    refine .dropped (fun hnil => ?_) he
    have hsome := form_isSome (t :: ts) (by simp) hnil
    simp [← hr, hv] at hsome

lemma segments_spec {us : List Token} {e : Token} (he : e.shape = .eof)
    (hus : ∀ t ∈ us, t.shape ≠ .eof) {k : Nat} (hk : us.length < k) :
    (segments (form file fuel maxNesting) k (us ++ [e])).flatMap Segment.tokens = us ∧
      ∀ s ∈ segments (form file fuel maxNesting) k (us ++ [e]),
        s.tokens ≠ [] ∧ s.Accounted file := by
  induction k generalizing us with
  | zero => omega
  | succ k ih =>
    rcases us with _ | ⟨t, us⟩
    · simp [segments, he]
    · obtain ⟨htokens, hne, hend, hacc⟩ :=
        @attempt_spec file fuel t (us ++ [e]) (hus t (by simp))
      rw [← List.cons_append] at htokens
      obtain ⟨ws, hws, hrest⟩ := rest_of_append htokens.symm fun hmem => hend e hmem he
      have hlen : ws.length < k := by
        have hsum := congrArg List.length hws
        have hpos := List.length_pos_of_ne_nil hne
        simp only [List.length_append, List.length_cons] at hsum hk
        omega
      obtain ⟨hcover, hall⟩ := ih (fun u hu => hus u (by rw [hws]; simp [hu])) hlen
      rw [List.cons_append] at hrest
      rw [List.cons_append, segments_cons (hus t (by simp)), hrest]
      refine ⟨?_, List.forall_mem_cons.2 ⟨⟨hne, hacc⟩, hall⟩⟩
      rw [List.flatMap_cons, hcover, hws]

end Reader

/-- **Nothing is lost silently.** The segments of a source are its tokens before the end, in
order, and none is empty. Each is either exactly the tokens of one form of the grammar, read
without an error, or dropped for errors inside it. The forms and the errors that are read are
those of the segments, in order. -/
theorem read_accounts_for_tokens (source label : String) :
    ∃ e, tokenize source = (segments source label).flatMap Segment.tokens ++ [e] ∧
      e.shape = .eof ∧
      (∀ s ∈ segments source label, s.tokens ≠ [] ∧ s.Accounted label) ∧
      read source label = ((segments source label).filterMap Segment.value?,
        (segments source label).flatMap Segment.errors) := by
  obtain ⟨us, e, htok, he, hus⟩ := Scan.tokens_eq source.toList
  have hspec := @Reader.segments_spec label (us ++ [e]).length us e he
    (fun t ht => (hus t ht).1) (k := (us ++ [e]).length) (by simp)
  have hsegs : segments source label = Reader.segments
      (Reader.form label (us ++ [e]).length maxNesting) (us ++ [e]).length (us ++ [e]) := by
    rw [segments, tokenize, htok]
  have hread : read source label = Reader.ofTokens label (us ++ [e]) := by
    rw [read, tokenize, htok]
  refine ⟨e, ?_, he, ?_, ?_⟩
  · rw [hsegs, hspec.1, tokenize, htok]
  · rw [hsegs]
    exact hspec.2
  · rw [hread, hsegs, Reader.ofTokens, Reader.program_eq_segments]

end ChannelLisp
