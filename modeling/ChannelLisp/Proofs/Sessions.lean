import ChannelLisp.Proofs.Simulation
import ChannelLisp.Proofs.Soundness
import Mathlib.Tactic

/-!
Sessions in which no thread is started. Evaluating a form is then the run of one thread, so
what every such run keeps, a session keeps, form by form and source by source. Two sessions
whose stores are tied stay in step: the same forms, as a view shows them, have the same
outcomes, up to the view.
-/

namespace ChannelLisp

/-- An outcome, where `f` tells how a good one is seen. -/
def Outcome.view {α : Type} (w : View) (f : α → α) : Outcome α → Outcome α
  | .ok a => .ok (f a)
  | .error e => .error (e.view w)
  | .crash detail => .crash detail
  | .stalled => .stalled

/-- The error that something ended with, if it did. -/
def Outcome.error? {α : Type} : Outcome α → Option EvalError
  | .error e => some e
  | _ => none

def Outcome.isOk {α : Type} : Outcome α → Bool
  | .ok _ => true
  | _ => false

lemma Outcome.exists_of_isOk {α : Type} {o : Outcome α} (h : o.isOk = true) :
    ∃ a, o = .ok a := by
  cases o <;> first | exact ⟨_, rfl⟩ | cases h

lemma Outcome.eq_error_of_error? {α : Type} {o : Outcome α} {e : EvalError}
    (h : o.error? = some e) : o = .error e := by
  cases o <;> cases h
  rfl

/-- A good outcome that comes with a session. -/
lemma Outcome.exists_pair_of_isOk {α β : Type} {r : β × Outcome α} (h : r.2.isOk = true) :
    ∃ a, r = (r.1, .ok a) := by
  obtain ⟨a, ha⟩ := exists_of_isOk h
  exact ⟨a, by rw [← ha]⟩

lemma Outcome.ofAnswer?_view (w : View) (a : Option Answer) :
    Outcome.ofAnswer? (a.map (Answer.view w)) = (Outcome.ofAnswer? a).view w (Node.view w) := by
  rcases a with _ | _ | _ | _ <;> rfl

lemma Outcome.ofAnswer?_eq_ok {a : Option Answer} {v : Node}
    (h : Outcome.ofAnswer? a = .ok v) : a = some (.value v) := by
  rcases a with _ | _ | _ | _ <;> cases h
  rfl

lemma Outcome.ofAnswer?_eq_error {a : Option Answer} {e : EvalError}
    (h : Outcome.ofAnswer? a = .error e) : a = some (.error e) := by
  rcases a with _ | _ | _ | _ <;> cases h
  rfl

namespace Session

/-- Evaluating a form at top level starts no thread: in the end there is still one only. -/
def QuietForm (s : Session) (f : Node) : Prop :=
  (Pool.run s.fuel ⟨s.store, [.start top f]⟩).threads.length = 1

/-- Evaluating forms, up to the first that fails, starts no thread. -/
def QuietForms (s : Session) : List Node → Prop
  | [] => True
  | f :: fs =>
    s.QuietForm f ∧ match s.evalIn top f with
      | (s', .ok _) => QuietForms s' fs
      | _ => True

/-- Evaluating a source starts no thread. -/
structure QuietSource (s : Session) (source label : String) : Prop where
  forms : (s.reportFaults (read source label).2).QuietForms (read source label).1

instance (s : Session) (f : Node) : Decidable (s.QuietForm f) :=
  inferInstanceAs (Decidable (_ = 1))

instance decidableQuietForms : ∀ (s : Session) (forms : List Node), Decidable (s.QuietForms forms)
  | _, [] => .isTrue trivial
  | s, f :: fs =>
    haveI : Decidable (match s.evalIn top f with
        | (s', .ok _) => QuietForms s' fs
        | _ => True) :=
      match s.evalIn top f with
      | (s', .ok _) => decidableQuietForms s' fs
      | (_, .error _) | (_, .crash _) | (_, .stalled) => .isTrue trivial
    inferInstanceAs (Decidable (_ ∧ _))

instance (s : Session) (source label : String) : Decidable (s.QuietSource source label) :=
  decidable_of_iff ((s.reportFaults (read source label).2).QuietForms (read source label).1)
    ⟨.mk, QuietSource.forms⟩

variable {s s' : Session} {f : Node} {forms : List Node} {σ : Store} {t : Thread}

lemma quietForm_iff : s.QuietForm f ↔ ∃ σ t, solo s.fuel s.store (.start top f) = some (σ, t) := by
  constructor
  · intro h
    obtain ⟨t, ht⟩ := List.length_eq_one_iff.1 h
    refine ⟨(Pool.run s.fuel ⟨s.store, [.start top f]⟩).store, t, Pool.run_single.1 ?_⟩
    rw [← ht]
  · rintro ⟨σ, t, h⟩
    rw [QuietForm, Pool.run_single.2 h]
    rfl

lemma evalIn_of_solo (hw : s.workers = [])
    (h : solo s.fuel s.store (.start top f) = some (σ, t)) :
    s.evalIn top f = (⟨σ, [], s.fuel⟩, .ofAnswer? t.answer?) := by
  obtain ⟨store, workers, fuel⟩ := s
  obtain rfl : workers = [] := hw
  have hrun : Pool.run fuel ⟨store, [.start top f]⟩ = ⟨σ, [t]⟩ := Pool.run_single.2 h
  rw [Session.evalIn, perform]
  dsimp only
  rw [hrun]
  simp [Pool.answer?]

/-- The fuel of a session may be more than a form needs. -/
lemma evalIn_of_solo_le {n : Nat} {a : Answer} (hw : s.workers = []) (hn : n ≤ s.fuel)
    (h : solo n s.store (.start top f) = some (σ, t)) (ha : t.answer? = some a) :
    s.QuietForm f ∧ s.evalIn top f = (⟨σ, [], s.fuel⟩, .ofAnswer? (some a)) := by
  have hrun := solo_le hn h (canStep_of_answer? ha)
  refine ⟨quietForm_iff.2 ⟨σ, t, hrun⟩, ?_⟩
  rw [evalIn_of_solo hw hrun, ha]

lemma evalForms_cons (last : Option Node) (f : Node) (fs : List Node) :
    s.evalForms last (f :: fs)
      = andThen (s.evalIn top f) fun s' v => s'.evalForms (some v) fs := rfl

/-- Forms in two parts: the second part is evaluated if the first is good. -/
lemma evalForms_append (last : Option Node) (fs gs : List Node) :
    s.evalForms last (fs ++ gs)
      = andThen (s.evalForms last fs) fun s' v => s'.evalForms v gs := by
  induction fs generalizing s last with
  | nil => rfl
  | cons f fs ih =>
    rw [List.cons_append, evalForms_cons, evalForms_cons]
    rcases s.evalIn top f with ⟨s', _ | _ | _ | _⟩
    · exact ih _
    · rfl
    · rfl
    · rfl

/-- The last value so far counts only if there are no forms. -/
lemma evalForms_last (last last' : Option Node) (h : forms ≠ []) :
    s.evalForms last forms = s.evalForms last' forms := by
  cases forms with
  | nil => exact absurd rfl h
  | cons f fs => rfl

/-- What becomes of the evaluation of a source: a crash is reported. -/
def conclude (r : Session × Outcome (Option Node)) : Session × Outcome (Option Node) :=
  match r with
  | (s', .crash detail) => (s'.report (crashReport detail), .crash detail)
  | r => r

lemma evalSource_eq (s : Session) (source label : String) : s.evalSource source label
    = conclude ((s.reportFaults (read source label).2).evalForms none (read source label).1) := rfl

lemma evalSource_of_no_errors {source label : String} (h : (read source label).2 = []) :
    s.evalSource source label = conclude (s.evalForms none (read source label).1) := by
  rw [evalSource_eq, h]
  rfl

lemma quietSource_of_no_errors {source label : String} (h : (read source label).2 = []) :
    s.QuietSource source label ↔ s.QuietForms (read source label).1 := by
  have hreport : s.reportFaults (read source label).2 = s := by
    rw [h]
    rfl
  constructor
  · rintro ⟨hforms⟩
    rwa [hreport] at hforms
  · intro hforms
    exact ⟨by rwa [hreport]⟩

@[simp] lemma snd_conclude (r : Session × Outcome (Option Node)) : (conclude r).2 = r.2 := by
  rcases r with ⟨s, _ | _ | _ | _⟩ <;> rfl

/-- The same session with another sink. -/
def withSink (s : Session) (k : Sink) : Session := { s with store := { s.store with sink := k } }

/-- Reports are for the sink only. -/
lemma exists_reportFaults_eq (s : Session) (errors : List ReadError) :
    ∃ k, s.reportFaults errors = s.withSink k := by
  unfold reportFaults
  split
  · exact ⟨s.store.sink, rfl⟩
  · exact ⟨_, rfl⟩

/-! ### What a session keeps -/

/-- No thread is left, the fuel is what it was, and the store is as `I` says; a value or an error
is as `A` says, unless it was there before. -/
structure Keeps (I : Store → Prop) (A : Answer → Prop) (fuel : Nat) (last : Option Node)
    (r : Session × Outcome (Option Node)) : Prop where
  idle : r.1.workers = []
  fuel : r.1.fuel = fuel
  store : I r.1.store
  value : ∀ v, r.2 = .ok (some v) → some v = last ∨ A (.value v)
  error : ∀ e, r.2 = .error e → A (.error e)

/-- What the run of every form keeps, the evaluation of the forms keeps. -/
lemma evalForms_keeps {I : Store → Prop} {A : Answer → Prop}
    (hrun : ∀ n ∈ forms, ∀ fuel σ σ' t, I σ → solo fuel σ (.start top n) = some (σ', t) →
      I σ' ∧ ∀ a, t.answer? = some a → A a)
    (hw : s.workers = []) (hI : I s.store) (hq : s.QuietForms forms) (last : Option Node) :
    Keeps I A s.fuel last (s.evalForms last forms) := by
  induction forms generalizing s last with
  | nil => exact ⟨hw, rfl, hI, fun v hv => .inl (Outcome.ok.inj hv).symm, nofun⟩
  | cons n forms ih =>
    obtain ⟨hform, hforms⟩ := hq
    obtain ⟨σ, t, hsolo⟩ := quietForm_iff.1 hform
    obtain ⟨hσ, hanswer⟩ := hrun n List.mem_cons_self _ _ _ _ hI hsolo
    rw [evalIn_of_solo hw hsolo] at hforms
    rw [evalForms_cons, evalIn_of_solo hw hsolo]
    cases ho : Outcome.ofAnswer? t.answer? with
    | ok v =>
      rw [ho] at hforms
      have hv : A (.value v) := hanswer _ (Outcome.ofAnswer?_eq_ok ho)
      have hrest := ih (fun m hm => hrun m (List.mem_cons_of_mem _ hm)) rfl hσ hforms (some v)
      refine ⟨hrest.idle, hrest.fuel, hrest.store, fun u hu => .inr ?_, hrest.error⟩
      rcases hrest.value u hu with heq | hu
      · cases heq
        exact hv
      · exact hu
    | error e =>
      have he : A (.error e) := hanswer _ (Outcome.ofAnswer?_eq_error ho)
      refine ⟨rfl, rfl, hσ, nofun, fun e' he' => ?_⟩
      cases he'
      exact he
    | crash detail => exact ⟨rfl, rfl, hσ, nofun, nofun⟩
    | stalled => exact ⟨rfl, rfl, hσ, nofun, nofun⟩

/-- So does the evaluation of a source, if reports keep it too. -/
lemma evalSource_keeps {I : Store → Prop} {A : Answer → Prop} {source label : String}
    (hrun : ∀ n ∈ (read source label).1, ∀ fuel σ σ' t, I σ →
      solo fuel σ (.start top n) = some (σ', t) → I σ' ∧ ∀ a, t.answer? = some a → A a)
    (hsink : ∀ σ k, I σ → I { σ with sink := k })
    (hw : s.workers = []) (hI : I s.store) (hq : s.QuietSource source label) :
    Keeps I A s.fuel none (s.evalSource source label) := by
  obtain ⟨k, hk⟩ := s.exists_reportFaults_eq (read source label).2
  have hquiet := hq.forms
  rw [hk] at hquiet
  have hforms := evalForms_keeps (s := s.withSink k) hrun hw (hsink _ k hI) hquiet none
  rw [evalSource_eq, hk]
  generalize evalForms _ none (read source label).1 = r at hforms
  rcases r with ⟨s₁, _ | _ | detail | _⟩
  · exact hforms
  · exact hforms
  · exact ⟨hforms.idle, hforms.fuel, hsink _ _ hforms.store, nofun, nofun⟩
  · exact hforms

end Session

/-! ### Two sessions in step -/

/-- Related stores are tied, and the top-level scope and everything new may occur. -/
structure Linked (w : View) (p : Policy) (R : Store → Store → Prop) : Prop where
  tied : ∀ σ τ, R σ τ → Tied w p R σ τ
  admits : ∀ σ σ' : Store, p.Admits σ σ'
  top : p.scope Session.top
  sight : w.scope Session.top = Session.top

/-- No thread is left in two sessions, and their stores are related. -/
structure Session.Paired (p : Policy) (R : Store → Store → Prop) (s s' : Session) : Prop where
  idle : s.workers = []
  idle' : s'.workers = []
  fuel : s'.fuel = s.fuel
  store : R s.store s'.store
  heap : s.store.heap.Obeys p

namespace Session.Paired

variable {w : View} {p : Policy} {R : Store → Store → Prop} {s s' : Session} {f : Node}
  {forms : List Node}

/-- A run of a form is in step with the run of the form as it is seen. -/
lemma solo_rel (hl : Linked w p R) (h : Paired p R s s') (hf : f.Obeys p) :
    Option.Rel (fun r r' => R r.1 r'.1 ∧ r'.2 = r.2.view w)
      (solo s.fuel s.store (.start top f)) (solo s'.fuel s'.store (.start top (f.view w))) := by
  have hstart : (Thread.start top f).Obeys p := Thread.obeys_start hl.top hf
  have hview : (Thread.start top f).view w = .start top (f.view w) := by
    rw [Thread.view, Thread.start, Control.view, hl.sight]
    rfl
  rw [h.fuel, ← hview]
  exact solo_matches hl.tied hl.admits s.fuel h.store h.heap hstart

lemma quietForm_iff (hl : Linked w p R) (h : Paired p R s s') (hf : f.Obeys p) :
    s'.QuietForm (f.view w) ↔ s.QuietForm f := by
  have hrel := h.solo_rel hl hf
  rw [Session.quietForm_iff, Session.quietForm_iff]
  generalize solo s.fuel s.store (.start top f) = r at hrel ⊢
  generalize solo s'.fuel s'.store (.start top (f.view w)) = r' at hrel ⊢
  cases hrel with
  | none => simp
  | some _ => exact ⟨fun _ => ⟨_, _, rfl⟩, fun _ => ⟨_, _, rfl⟩⟩

/-- A form and the form as it is seen have the same outcome, as it is seen. -/
lemma evalIn (hl : Linked w p R) (h : Paired p R s s') (hf : f.Obeys p) (hq : s.QuietForm f) :
    ∃ s₁ s₁' o, s.evalIn top f = (s₁, o) ∧
      s'.evalIn top (f.view w) = (s₁', o.view w (Node.view w)) ∧ Paired p R s₁ s₁' := by
  have hrel := h.solo_rel hl hf
  obtain ⟨σ, t, hsolo⟩ := Session.quietForm_iff.1 hq
  obtain ⟨τ, u, hsolo'⟩ := Session.quietForm_iff.1 ((h.quietForm_iff hl hf).2 hq)
  have hstart : (Thread.start top f).Obeys p := Thread.obeys_start hl.top hf
  have hheap : σ.heap.Obeys p := (solo_allowed hsolo (hl.admits _ _) h.heap hstart).2.1
  rw [hsolo, hsolo'] at hrel
  obtain ⟨hR, rfl⟩ : R σ τ ∧ u = t.view w := by
    cases hrel with
    | some hrel => exact hrel
  refine ⟨_, ⟨τ, [], s'.fuel⟩, _, evalIn_of_solo h.idle hsolo, ?_, rfl, rfl, h.fuel, hR, hheap⟩
  rw [evalIn_of_solo h.idle' hsolo', Thread.answer?_view, Outcome.ofAnswer?_view]

lemma quietForms_iff (hl : Linked w p R) (h : Paired p R s s') (hforms : ∀ n ∈ forms, n.Obeys p) :
    s'.QuietForms (forms.map (Node.view w)) ↔ s.QuietForms forms := by
  induction forms generalizing s s' with
  | nil => exact Iff.rfl
  | cons n forms ih =>
    obtain ⟨hn, hforms⟩ := List.forall_mem_cons.1 hforms
    rw [List.map_cons, QuietForms, QuietForms, h.quietForm_iff hl hn]
    refine and_congr_right fun hq => ?_
    obtain ⟨s₁, s₁', o, hone, hone', hpaired⟩ := h.evalIn hl hn hq
    rw [hone, hone']
    cases o with
    | ok v => exact ih hpaired hforms
    | _ => exact Iff.rfl

/-- Forms, one after another, and the forms as they are seen have the same outcome, as it is
seen. -/
lemma evalForms (hl : Linked w p R) (h : Paired p R s s') (hforms : ∀ n ∈ forms, n.Obeys p)
    (hq : s.QuietForms forms) (last : Option Node) :
    Paired p R (s.evalForms last forms).1
        (s'.evalForms (last.map (Node.view w)) (forms.map (Node.view w))).1 ∧
      (s'.evalForms (last.map (Node.view w)) (forms.map (Node.view w))).2
        = (s.evalForms last forms).2.view w (Option.map (Node.view w)) := by
  induction forms generalizing s s' last with
  | nil => exact ⟨h, rfl⟩
  | cons n forms ih =>
    obtain ⟨hn, hforms⟩ := List.forall_mem_cons.1 hforms
    obtain ⟨hform, hrest⟩ := hq
    obtain ⟨s₁, s₁', o, hone, hone', hpaired⟩ := h.evalIn hl hn hform
    rw [hone] at hrest
    rw [List.map_cons, evalForms_cons, evalForms_cons, hone, hone']
    cases o with
    | ok v => exact ih hpaired hforms hrest (some v)
    | _ => exact ⟨hpaired, rfl⟩

end Session.Paired

end ChannelLisp
