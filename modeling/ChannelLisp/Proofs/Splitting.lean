import ChannelLisp.Proofs.Locality
import ChannelLisp.Proofs.Locations
import ChannelLisp.Proofs.Sessions
import Mathlib.Tactic

/-!
A source can be split between its forms. Two texts without errors, one below the other, are
read into the forms of the one followed by those of the other, further down. Their evaluation
is that of the first text and, if that is good, of the second: the places of its forms are not
the same, but places do not influence evaluation.
-/

namespace ChannelLisp

open Grammar

/-! ### Reading -/

namespace Grammar

variable {file : String} {ts us : List Token} {ns ms : List Node}

lemma DerivesAll.append {d e : Nat} (h : DerivesAll file d ts ns) (h' : DerivesAll file e us ms) :
    DerivesAll file (max d e) (ts ++ us) (ns ++ ms) := by
  induction ns generalizing d ts with
  | nil =>
    cases h
    simpa using h'
  | cons n ns ih =>
    rcases h with _ | @⟨d₁, d₂, ts₁, ts₂, _, _, h, hs⟩
    have hrest : DerivesAll file (max d₂ e) (ts₂ ++ us) (ns ++ ms) := ih hs
    rw [max_assoc, List.append_assoc]
    exact .cons h hrest

lemma Program.append (h : Program file ts ns) (h' : Program file us ms) :
    Program file (ts ++ us) (ns ++ ms) := by
  obtain ⟨d, hd, h⟩ := h
  obtain ⟨e, he, h'⟩ := h'
  exact ⟨max d e, max_le hd he, h.append h'⟩

end Grammar

lemma Node.bare_view_down (k : Nat) (n : Node) : (n.view (.down k)).bare = n.bare := by
  induction n using Node.induction with
  | call items l ih => simpa using ih
  | function c ih => simpa [Closure.view, Closure.bare, View.down] using ih
  | transformer c ih => simpa [Closure.view, Closure.bare, View.down] using ih
  | _ => simp [View.down]

/-- Under another label, a text without errors has the same forms up to locations. -/
lemma read_relabel {source label : String} (h : (read source label).2 = []) (label' : String) :
    (read source label').2 = [] ∧
      (read source label').1.map Node.bare = (read source label).1.map Node.bare := by
  obtain ⟨ts, e, htok, he, d, hd, hder⟩ := exists_program h
  obtain ⟨ms, hms, hbare⟩ := hder.relabel label'
  have hread : read source label' = (ms, []) := by
    rw [read, htok]
    exact Reader.ofTokens_of_program ⟨d, hd, hms⟩ he
  rw [hread]
  exact ⟨rfl, hbare⟩

/-- Two texts without errors, one below the other, are read one after the other. -/
lemma read_append {p q label : String} (hp : (read p label).2 = []) (hq : (read q label).2 = []) :
    read (p ++ "\n" ++ q) label =
      ((read p label).1 ++ (read q label).1.map (Node.view (.down (p.toList.count '\n' + 1))),
        []) := by
  obtain ⟨us, e, hus, he, hprog⟩ := exists_program hp
  obtain ⟨vs, e', hvs, he', -⟩ := exists_program hq
  set k := p.toList.count '\n' + 1
  have hwhole : ∀ t ∈ us, t.shape ≠ .unterminated := by
    obtain ⟨d, -, hder⟩ := hprog
    exact hder.whole
  have hdown : Reader.ofTokens label (down k vs ++ [e'.shift k])
      = ((read q label).1.map (Node.view (.down k)), []) := by
    have hmoved := @Reader.ofTokens_down label k (tokenize q)
    rw [hvs] at hmoved
    rw [read, hvs] at hq ⊢
    rw [hq] at hmoved
    simpa [down] using hmoved
  have hprog' : Program label (down k vs) ((read q label).1.map (Node.view (.down k))) := by
    have hproper : ∀ t ∈ down k vs, t.shape ≠ .eof := by
      obtain ⟨vs', e'', htok, -, hproper⟩ := Scan.tokens_eq q.toList
      rw [← tokenize, hvs] at htok
      obtain ⟨rfl, -⟩ := List.append_inj' htok rfl
      intro t ht
      obtain ⟨u, hu, rfl⟩ := List.mem_map.1 ht
      exact (hproper u hu).1
    have hderived := Reader.program_of_ofTokens (e := e'.shift k) hproper he' (by rw [hdown])
    rwa [hdown] at hderived
  have htokens : tokenize (p ++ "\n" ++ q) = us ++ down k vs ++ [e'.shift k] := by
    have hchars : (p ++ "\n" ++ q).toList = p.toList ++ '\n' :: q.toList := by
      simp [String.toList_append]
    rw [tokenize, hchars, Scan.tokens_append_newline hus hwhole, ← tokenize, hvs]
    simp [down, k]
  rw [read, htokens]
  exact Reader.ofTokens_of_program (hprog.append hprog') he'

/-! ### Evaluation up to locations -/

/-- The same up to locations. Of errors, the messages are compared. -/
inductive Outcome.Alike : Outcome (Option Node) → Outcome (Option Node) → Prop where
  | ok {v v' : Option Node} (h : v.map Node.bare = v'.map Node.bare) : Alike (.ok v) (.ok v')
  | error {e e' : EvalError} (h : e.message = e'.message) : Alike (.error e) (.error e')
  | crash (detail : Option String) : Alike (.crash detail) (.crash detail)
  | stalled : Alike .stalled .stalled

lemma Outcome.alike_of_view {o o' : Outcome (Option Node)}
    (h : o.view .erase (Option.map (Node.view .erase))
      = o'.view .erase (Option.map (Node.view .erase))) : o.Alike o' := by
  have hbare : Node.view .erase = Node.bare := funext Node.view_erase
  rw [hbare] at h
  cases o <;> cases o' <;> simp only [Outcome.view, reduceCtorEq, Outcome.ok.injEq,
    Outcome.error.injEq, Outcome.crash.injEq] at h
  · exact .ok h
  · rename_i e e'
    have hmessage : (e.view .erase).message = (e'.view .erase).message := congrArg _ h
    rw [EvalError.message_view, EvalError.message_view] at hmessage
    exact .error hmessage
  · rw [h]
    exact .crash _
  · exact .stalled

lemma Store.bare_eq_iff {σ τ : Store} : σ.bare = τ.bare ↔
    σ.heap.bare = τ.heap.bare ∧ σ.nextChannel = τ.nextChannel ∧ σ.sink = τ.sink := by
  simp [Store.bare]

/-- A session and the session without locations. -/
lemma linked_bare : Linked .erase (.any False) (fun σ τ => τ = σ.bare) where
  tied := by
    rintro σ _ rfl
    exact tied_bare σ
  admits _ _ := ⟨fun _ _ _ => trivial, fun _ _ _ => trivial⟩
  top := trivial
  sight := rfl

namespace Session

variable {s : Session}

/-- The session without any location. -/
def bareOf (s : Session) : Session := { s with store := s.store.bare }

lemma paired_bareOf (hw : s.workers = []) :
    Paired (.any False) (fun σ τ => τ = σ.bare) s s.bareOf :=
  ⟨hw, hw, rfl, rfl, s.store.heap.obeys_any False⟩

/-- Forms that are equal up to locations have, from one session, stores and outcomes that are
equal up to locations. -/
lemma evalForms_alike {fs gs : List Node} (hw : s.workers = [])
    (hforms : fs.map Node.bare = gs.map Node.bare) (hq : s.QuietForms gs) (last : Option Node) :
    (s.evalForms last fs).1.store.bare = (s.evalForms last gs).1.store.bare ∧
      (s.evalForms last fs).2.Alike (s.evalForms last gs).2 := by
  have hbare : Node.view .erase = Node.bare := funext Node.view_erase
  have hobeys (ns : List Node) : ∀ n ∈ ns, n.Obeys (.any False) := fun n _ => n.obeys_any False
  have hpaired := paired_bareOf hw
  -- both are in step with the forms without locations
  have hq' : s.QuietForms fs := by
    have hseen := (hpaired.quietForms_iff linked_bare (hobeys gs)).2 hq
    rw [hbare, ← hforms, ← hbare] at hseen
    exact (hpaired.quietForms_iff linked_bare (hobeys fs)).1 hseen
  obtain ⟨hfs, hofs⟩ := hpaired.evalForms linked_bare (hobeys fs) hq' last
  obtain ⟨hgs, hogs⟩ := hpaired.evalForms linked_bare (hobeys gs) hq last
  rw [hbare, hforms, ← hbare] at hfs hofs
  exact ⟨hfs.store.symm.trans hgs.store, Outcome.alike_of_view (hofs.symm.trans hogs)⟩

lemma bare_conclude {r r' : Session × Outcome (Option Node)} (h : r.1.store.bare = r'.1.store.bare)
    (ho : r.2.Alike r'.2) : (conclude r).1.store.bare = (conclude r').1.store.bare := by
  obtain ⟨s, o⟩ := r
  obtain ⟨s', o'⟩ := r'
  cases ho with
  | crash detail =>
    -- both report the same crash to the same sink
    obtain ⟨hheap, hnext, hsink⟩ := Store.bare_eq_iff.1 h
    exact Store.bare_eq_iff.2 ⟨hheap, hnext, congrArg (Sink.report · _) hsink⟩
  | ok _ => exact h
  | error _ => exact h
  | stalled => exact h

lemma conclude_eq_ok {r : Session × Outcome (Option Node)} {v : Option Node}
    (h : conclude r = (s, .ok v)) : r = (s, .ok v) := by
  obtain ⟨s', _ | _ | _ | _⟩ := r
  · exact h
  all_goals cases h

/-- After forms that start no thread, none is left. -/
lemma idle_evalForms {forms : List Node} (hw : s.workers = []) (hq : s.QuietForms forms)
    (last : Option Node) : (s.evalForms last forms).1.workers = [] := by
  have hkeeps : Keeps (fun _ => True) (fun _ => True) s.fuel last (s.evalForms last forms) :=
    evalForms_keeps (fun _ _ _ _ _ _ _ _ => ⟨trivial, fun _ _ => trivial⟩) hw trivial hq last
  exact hkeeps.idle

/-- Both texts, one below the other: the forms of the first, and then forms that are those of the
second up to locations. -/
lemma evalSource_append_eq {p q label label' : String} (hp : (read p label).2 = [])
    (hq : (read q label').2 = []) : ∃ below : List Node,
      below.map Node.bare = (read q label').1.map Node.bare ∧
      s.evalSource (p ++ "\n" ++ q) label
        = conclude (andThen (s.evalForms none (read p label).1) fun s' v =>
          s'.evalForms v below) := by
  obtain ⟨hq', hforms⟩ := read_relabel hq label
  have hread := read_append hp hq'
  refine ⟨(read q label).1.map (Node.view (.down (p.toList.count '\n' + 1))), ?_, ?_⟩
  · rw [← hforms, List.map_map]
    exact List.map_congr_left fun n _ => n.bare_view_down _
  · rw [evalSource_of_no_errors (by rw [hread]), hread, evalForms_append]

end Session

open Session

/-- **A source can be split between its forms.** Let two texts be without errors. If the
evaluation of the first is not good, then so ends that of both, with the same error and in the
same session, and the second has no part in it. If it is good, and no thread is started, then
the evaluation of both has the outcome of the second text after the first, up to locations, or
that of the first if the second has no forms; and bindings, up to locations, the count of
channels, and output are the same. -/
theorem evalSource_append {s : Session} {p q label label' : String} (hw : s.workers = [])
    (hp : (read p label).2 = []) (hq : (read q label').2 = []) (hquiet : s.QuietSource p label) :
    (∀ s₁ o, s.evalSource p label = (s₁, o) → (∀ v, o ≠ .ok v) →
      s.evalSource (p ++ "\n" ++ q) label = (s₁, o)) ∧
    ∀ s₁ v, s.evalSource p label = (s₁, .ok v) → s₁.QuietSource q label' →
      (s.evalSource (p ++ "\n" ++ q) label).1.store.heap.bare
          = (s₁.evalSource q label').1.store.heap.bare ∧
        (s.evalSource (p ++ "\n" ++ q) label).1.store.nextChannel
          = (s₁.evalSource q label').1.store.nextChannel ∧
        (s.evalSource (p ++ "\n" ++ q) label).1.store.sink
          = (s₁.evalSource q label').1.store.sink ∧
        ((read q label').1 = [] → (s.evalSource (p ++ "\n" ++ q) label).2 = .ok v) ∧
        ((read q label').1 ≠ [] →
          (s.evalSource (p ++ "\n" ++ q) label).2.Alike (s₁.evalSource q label').2) := by
  obtain ⟨below, hbare, hboth⟩ := evalSource_append_eq (s := s) hp hq
  have hfirst : s.evalSource p label = conclude (s.evalForms none (read p label).1) :=
    evalSource_of_no_errors hp
  rw [hboth, hfirst]
  constructor
  · intro s₁ o ho hbad
    rcases hr : s.evalForms none (read p label).1 with ⟨s₂, _ | _ | _ | _⟩
    · rw [hr] at ho
      cases ho
      exact absurd rfl (hbad _)
    all_goals
      rw [hr] at ho
      exact ho
  · intro s₁ v hv hsecond
    have hforms := conclude_eq_ok hv
    have hw₁ : s₁.workers = [] := by
      have hidle := idle_evalForms hw ((quietSource_of_no_errors hp).1 hquiet) none
      rwa [hforms] at hidle
    have hsecond : s₁.QuietForms (read q label').1 := (quietSource_of_no_errors hq).1 hsecond
    have hstep := evalForms_alike hw₁ hbare hsecond none
    rw [hforms, evalSource_of_no_errors hq]
    dsimp only [andThen]
    by_cases hnone : (read q label').1 = []
    · have hempty : below = [] := by simpa [hnone] using hbare
      rw [hnone, hempty]
      exact ⟨rfl, rfl, rfl, fun _ => rfl, fun h => absurd rfl h⟩
    · have hsome : below ≠ [] := fun h => hnone (by simpa [h] using hbare.symm)
      rw [evalForms_last v none hsome]
      obtain ⟨hheap, hnext, hsink⟩ := Store.bare_eq_iff.1 (bare_conclude hstep.1 hstep.2)
      refine ⟨hheap, hnext, hsink, fun h => absurd h hnone, fun _ => ?_⟩
      rw [snd_conclude, snd_conclude]
      exact hstep.2

/-! ### A definition and its use -/

/-- A session that evaluates a little at a time. -/
def briefSession : Session := { Session.bare .unlimited with fuel := 60 }

/-- A variable is defined by the first text and called by the second, which is an error; its line
is the second text's own line if the texts are apart. -/
theorem evalSource_append_not_callable :
    (briefSession.evalSource "(def x 2)" "first").2.isOk = true ∧
      (briefSession.evalSource ("(def x 2)" ++ "\n" ++ "(print x)\n(x)") "first").2.Alike
        ((briefSession.evalSource "(def x 2)" "first").1.evalSource
          "(print x)\n(x)" "second").2 ∧
      ((briefSession.evalSource "(def x 2)" "first").1.evalSource
          "(print x)\n(x)" "second").2.error?.map EvalError.text
        = some ("second:2: `2` is not callable: expected a primitive, function or macro but "
          ++ "found int") ∧
      (briefSession.evalSource ("(def x 2)" ++ "\n" ++ "(print x)\n(x)") "first").1.outputSince 0
        = "2" := by
  have hp : (read "(def x 2)" "first").2 = [] := by decide +kernel
  have hq : (read "(print x)\n(x)" "second").2 = [] := by decide +kernel
  have hforms : (read "(print x)\n(x)" "second").1 ≠ [] := by
    have hlength : (read "(print x)\n(x)" "second").1.length = 2 := by decide +kernel
    exact List.ne_nil_of_length_pos (by omega)
  have hfirst : briefSession.QuietSource "(def x 2)" "first" := by decide +kernel
  have hgood : (briefSession.evalSource "(def x 2)" "first").2.isOk = true := by decide +kernel
  have hsecond : (briefSession.evalSource "(def x 2)" "first").1.QuietSource
      "(print x)\n(x)" "second" := by decide +kernel
  have houtput : ((briefSession.evalSource "(def x 2)" "first").1.evalSource
      "(print x)\n(x)" "second").1.outputSince 0 = "2" := by decide +kernel
  obtain ⟨v, hv⟩ := Outcome.exists_pair_of_isOk hgood
  obtain ⟨-, -, hsink, -, halike⟩ :=
    (evalSource_append (s := briefSession) rfl hp hq hfirst).2 _ v hv hsecond
  refine ⟨hgood, halike hforms, by decide +kernel, ?_⟩
  exact (congrArg (fun k => Sink.textSince k 0) hsink).trans houtput

end ChannelLisp
