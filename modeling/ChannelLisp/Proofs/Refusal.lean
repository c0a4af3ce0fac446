import ChannelLisp.Proofs.Effects
import ChannelLisp.Proofs.Sessions
import Mathlib.Tactic

/-!
What the sink has to do with a program. A program learns of the sink only if something that it
prints is refused. Two runs in which nothing is refused that is printed are in step, whatever
their sinks make of reports. And after a refusal there is nothing left but to leave the
frames, one after another, with the error.
-/

namespace ChannelLisp

/-- The reason for which the sink refuses what the next step prints. -/
def Thread.refusal? (t : Thread) (σ : Store) : Option String :=
  t.printing?.bind fun r => (r.1.write σ.sink (" ".intercalate (r.2.1.map Node.raw))).2

/-- Two stores that differ in their sinks at most. -/
structure Store.Agrees (σ τ : Store) : Prop where
  heap : τ.heap = σ.heap
  nextChannel : τ.nextChannel = σ.nextChannel

namespace Session

/-- The store and the thread after a number of steps into one of the forms, if the forms before
it are good. -/
def stateAt (s : Session) : List Node → Nat → Nat → Option (Store × Thread)
  | [], _, _ => none
  | f :: _, 0, n => solo n s.store (.start top f)
  | f :: fs, i + 1, n =>
    match s.evalIn top f with
    | (s', .ok _) => stateAt s' fs i n
    | _ => none

/-- The states in the evaluation of a source. -/
def stateOf (s : Session) (source label : String) (i n : Nat) : Option (Store × Thread) :=
  (s.reportFaults (read source label).2).stateAt (read source label).1 i n

/-- Nothing is refused that forms print. -/
def HeardForms (s : Session) (forms : List Node) : Prop :=
  ∀ i n σ t, n < s.fuel → s.stateAt forms i n = some (σ, t) → t.refusal? σ = none

/-- Nothing is refused that a source prints. -/
def Heard (s : Session) (source label : String) : Prop :=
  ∀ i n σ t, n < s.fuel → s.stateOf source label i n = some (σ, t) → t.refusal? σ = none

end Session

variable {σ σ' τ : Store} {t t' : Thread} {fuel : Nat} {reason : String}

/-! ### Steps and runs in step -/

/-- A thread that somebody waits for does not report. -/
lemma Thread.Obeys.reports (h : t.Obeys (.any False)) : t.reports = false := by
  obtain ⟨control, stack⟩ := t
  unfold Thread.reports
  split
  · rename_i k hcontrol hstack
    cases hstack
    exact (h.stack .detached List.mem_cons_self).elim
  · rfl

lemma step_obeys_any (h : t.Obeys (.any False)) : (step σ t).thread.Obeys (.any False) :=
  (step_allowed (σ.heap.obeys_any False) h).thread
    ⟨fun _ _ _ => trivial, fun _ _ _ => trivial⟩

lemma Thread.start_obeys_any (e : ScopeId) (n : Node) : (start e n).Obeys (.any False) :=
  Thread.obeys_start trivial (n.obeys_any False)

lemma Thread.refusal?_of_printing {o : Output} {vs : List Node} {k : List Frame}
    (h : t.printing? = some (o, vs, k)) :
    t.refusal? σ = (o.write σ.sink (" ".intercalate (vs.map Node.raw))).2 := by
  rw [refusal?, h]
  rfl

lemma Store.print_of_accepted {o : Output} {vs : List Node} {k : List Frame}
    (h : (o.write σ.sink (" ".intercalate (vs.map Node.raw))).2 = none) :
    (σ.print o vs k).2 = ⟨.value .nil, k⟩ := by
  rw [print]
  simp only [h]

/-- If nothing is refused, a step is the same with any sink. -/
lemma Store.Agrees.step (h : σ.Agrees τ) (ht : t.Obeys (.any False))
    (hσ : t.refusal? σ = none) (hτ : t.refusal? τ = none) :
    (step τ t).thread = (step σ t).thread ∧ (step τ t).spawned? = (step σ t).spawned? ∧
      (ChannelLisp.step σ t).store.Agrees (ChannelLisp.step τ t).store := by
  obtain ⟨hheap, hnext⟩ := h
  rcases hp : t.printing? with _ | ⟨o, vs, k⟩
  · cases hc : t.enters .channel 0 with
    | true =>
      obtain ⟨s, args, l, k, hargs, rfl⟩ := Thread.exists_of_enters hc
      obtain rfl := List.length_eq_zero_iff.1 hargs
      refine ⟨?_, rfl, hheap, congrArg (· + 1) hnext⟩
      exact congrArg (fun c => Thread.mk (.value (.chan c)) (.locate l :: k)) hnext
    | false =>
      have hover := step_over ⟨hp, ht.reports, hc⟩ σ σ.nextChannel τ.sink
      have hτeq : σ.over σ.nextChannel τ.sink = τ := by
        obtain ⟨heap, next, sink⟩ := τ
        obtain rfl := hheap
        obtain rfl := hnext
        rfl
      rw [hτeq] at hover
      rw [hover]
      exact ⟨rfl, rfl, rfl, (step_nextChannel (σ := σ) hc).symm⟩
  · rw [Thread.refusal?_of_printing hp] at hσ hτ
    rw [step_of_printing hp, step_of_printing hp]
    refine ⟨?_, rfl, hheap, hnext⟩
    rw [Turn.quiet, Turn.quiet, Store.print_of_accepted hσ, Store.print_of_accepted hτ]

/-- Nothing is refused that a run prints. -/
def HeardRun (fuel : Nat) (σ : Store) (t : Thread) : Prop :=
  ∀ n σ' t', n < fuel → solo n σ t = some (σ', t') → t'.refusal? σ' = none

lemma HeardRun.head (h : HeardRun (fuel + 1) σ t) : t.refusal? σ = none :=
  h 0 σ t (Nat.succ_pos fuel) rfl

lemma HeardRun.tail (h : HeardRun (fuel + 1) σ t) (hs : (step σ t).spawned? = none) :
    HeardRun fuel (step σ t).store (step σ t).thread :=
  fun n σ' t' hn hrun => h (n + 1) σ' t' (Nat.succ_lt_succ hn) (by rwa [solo_succ hs])

/-- If nothing is refused, a run is the same with any sink. -/
lemma Store.Agrees.solo (h : σ.Agrees τ) (ht : t.Obeys (.any False)) (hσ : HeardRun fuel σ t)
    (hτ : HeardRun fuel τ t) (hrun : solo fuel σ t = some (σ', t')) :
    ∃ τ', ChannelLisp.solo fuel τ t = some (τ', t') ∧ σ'.Agrees τ' := by
  induction fuel generalizing σ τ t with
  | zero =>
    cases hrun
    exact ⟨τ, rfl, h⟩
  | succ fuel ih =>
    obtain ⟨hs, hrest⟩ := solo_succ_eq_some hrun
    obtain ⟨hthread, hspawned, hagrees⟩ := h.step ht hσ.head hτ.head
    have hs' := hspawned.trans hs
    have hτ' := hτ.tail hs'
    rw [hthread] at hτ'
    rw [solo_succ hs', hthread]
    exact ih hagrees (step_obeys_any ht) (hσ.tail hs) hτ' hrest

/-! ### After a refusal -/

/-- A thread that prints what is refused goes on with an error. -/
lemma step_of_refusal (h : t.refusal? σ = some reason) :
    ∃ k, k.length ≤ t.stack.length ∧
      (step σ t).thread = .raise ⟨.writeRefused reason, none⟩ k ∧ (step σ t).spawned? = none := by
  rcases hp : t.printing? with _ | ⟨o, vs, k⟩
  · simp [Thread.refusal?, hp] at h
  · have hlength : k.length ≤ t.stack.length := by
      unfold Thread.printing? at hp
      split at hp
      · rename_i hstack
        cases hp
        rw [hstack]
        exact Nat.le_succ _
      · rename_i hstack
        cases hp
        rw [hstack]
        exact le_rfl
      · cases hp
    rw [Thread.refusal?_of_printing hp] at h
    refine ⟨k, hlength, ?_, ?_⟩
    · rw [step_of_printing hp, Turn.quiet, Store.print]
      simp only [h]
    · rw [step_of_printing hp]
      rfl

/-- An error leaves frame after frame and does nothing else. -/
lemma solo_raise {e : EvalError} {k : List Frame} (hk : ∀ f ∈ k, f.Obeys (.any False)) (n : Nat) :
    ∃ e' k', solo n σ (.raise e k) = some (σ, .raise e' k') ∧ e'.cause = e.cause ∧
      (k.length ≤ n → k' = []) := by
  induction n generalizing e k with
  | zero => exact ⟨e, k, rfl, rfl, fun h => List.length_eq_zero_iff.1 (Nat.le_zero.1 h)⟩
  | succ n ih =>
    cases k with
    | nil => exact ⟨e, [], solo_of_not_canStep rfl _, rfl, fun _ => rfl⟩
    | cons f k =>
      obtain ⟨hf, hk⟩ := List.forall_mem_cons.1 hk
      have hstep : ∃ e₁, step σ (.raise e (f :: k)) = ⟨σ, .raise e₁ k, none⟩ ∧
          e₁.cause = e.cause := by
        cases f with
        | locate l => exact ⟨e.withLocation l, rfl, rfl⟩
        | detached => exact hf.elim
        | _ => exact ⟨e, rfl, rfl⟩
      obtain ⟨e₁, hstep, hcause⟩ := hstep
      obtain ⟨e', k', hrun, hcause', hend⟩ := ih (e := e₁) hk
      refine ⟨e', k', ?_, hcause'.trans hcause, fun h => hend (Nat.le_of_succ_le_succ h)⟩
      rw [solo, hstep]
      exact hrun

/-- After a refusal, the run stays with the error, and the store stays as it is. -/
lemma solo_of_refusal {n m : Nat} (ht : t.Obeys (.any False)) (h : solo n σ t = some (σ', t'))
    (hr : t'.refusal? σ' = some reason) :
    ∃ e k, solo (n + 1 + m) σ t = some ((step σ' t').store, .raise e k) ∧
      e.cause = .writeRefused reason ∧ (t'.stack.length ≤ m → k = []) := by
  have ht' : t'.Obeys (.any False) :=
    (solo_allowed h ⟨fun _ _ _ => trivial, fun _ _ _ => trivial⟩ (σ.heap.obeys_any False) ht).2.2
  obtain ⟨k, hlength, hthread, hspawned⟩ := step_of_refusal hr
  have hk : ∀ f ∈ k, f.Obeys (.any False) := by
    have hobeys := step_obeys_any (σ := σ') ht'
    rw [hthread] at hobeys
    exact hobeys.stack
  obtain ⟨e, k', hrun, hcause, hend⟩ :=
    solo_raise (σ := (step σ' t').store) (e := ⟨.writeRefused reason, none⟩) hk m
  refine ⟨e, k', ?_, hcause, fun h => hend (hlength.trans h)⟩
  rw [Nat.add_assoc, solo_add h, Nat.add_comm 1 m, solo_succ hspawned, hthread, hrun]

/-! ### Sessions -/

namespace Session

variable {s s' : Session} {forms : List Node} {f : Node} {v : Node} {i n : Nat}

lemma HeardForms.head (h : s.HeardForms (f :: forms)) :
    HeardRun s.fuel s.store (.start top f) :=
  fun n σ t hn hrun => h 0 n σ t hn hrun

lemma HeardForms.tail (h : s.HeardForms (f :: forms)) (ho : s.evalIn top f = (s', .ok v))
    (hfuel : s'.fuel = s.fuel) : s'.HeardForms forms := by
  intro i n σ t hn hstate
  refine h (i + 1) n σ t (hfuel ▸ hn) ?_
  rw [stateAt, ho]
  exact hstate

/-- Two idle sessions that differ in their sinks at most. -/
structure Agrees (s s' : Session) : Prop where
  idle : s.workers = []
  idle' : s'.workers = []
  fuel : s'.fuel = s.fuel
  store : s.store.Agrees s'.store

/-- If nothing is refused, forms have the same outcome with any sink. -/
lemma Agrees.evalForms (h : s.Agrees s') (hq : s.QuietForms forms) (hs : s.HeardForms forms)
    (hs' : s'.HeardForms forms) (last : Option Node) :
    s'.QuietForms forms ∧ (s'.evalForms last forms).2 = (s.evalForms last forms).2 ∧
      (s.evalForms last forms).1.Agrees (s'.evalForms last forms).1 := by
  induction forms generalizing s s' last with
  | nil => exact ⟨trivial, rfl, h⟩
  | cons f forms ih =>
    obtain ⟨hw, hw', hfuel, hstore⟩ := h
    obtain ⟨hform, hrest⟩ := hq
    obtain ⟨σ, t, hrun⟩ := quietForm_iff.1 hform
    have hheard' := hs'.head
    rw [hfuel] at hheard'
    obtain ⟨τ, hrun', hagrees⟩ :=
      hstore.solo (Thread.start_obeys_any top f) hs.head hheard' hrun
    rw [← hfuel] at hrun'
    have hone := evalIn_of_solo hw hrun
    have hone' := evalIn_of_solo hw' hrun'
    have hquiet' : s'.QuietForm f := quietForm_iff.2 ⟨τ, t, hrun'⟩
    have hafter : Agrees ⟨σ, [], s.fuel⟩ ⟨τ, [], s'.fuel⟩ := ⟨rfl, rfl, hfuel, hagrees⟩
    rw [evalForms_cons, evalForms_cons, hone, hone', QuietForms, hone']
    rw [hone] at hrest
    cases ho : Outcome.ofAnswer? t.answer? with
    | ok v =>
      rw [ho] at hrest hone hone'
      obtain ⟨hquiet, houtcome⟩ :=
        ih hafter hrest (hs.tail hone rfl) (hs'.tail hone' rfl) (some v)
      exact ⟨⟨hquiet', hquiet⟩, houtcome⟩
    | error e => exact ⟨⟨hquiet', trivial⟩, rfl, hafter⟩
    | crash detail => exact ⟨⟨hquiet', trivial⟩, rfl, hafter⟩
    | stalled => exact ⟨⟨hquiet', trivial⟩, rfl, hafter⟩

lemma Agrees.withSink (h : s.Agrees s') (k k' : Sink) : (s.withSink k).Agrees (s'.withSink k') :=
  ⟨h.idle, h.idle', h.fuel, h.store.heap, h.store.nextChannel⟩

lemma Agrees.reportFaults (h : s.Agrees s') (errors : List ReadError) :
    (s.reportFaults errors).Agrees (s'.reportFaults errors) := by
  obtain ⟨k, hk⟩ := s.exists_reportFaults_eq errors
  obtain ⟨k', hk'⟩ := s'.exists_reportFaults_eq errors
  rw [hk, hk']
  exact h.withSink k k'

lemma Heard.heardForms {source label : String} (h : s.Heard source label) :
    (s.reportFaults (read source label).2).HeardForms (read source label).1 := by
  intro i n σ t hn hstate
  obtain ⟨k, hk⟩ := s.exists_reportFaults_eq (read source label).2
  rw [hk] at hn
  exact h i n σ t hn hstate

lemma Agrees.evalSource {source label : String} (h : s.Agrees s')
    (hq : s.QuietSource source label) (hs : s.Heard source label) (hs' : s'.Heard source label) :
    s'.QuietSource source label ∧
      (s'.evalSource source label).2 = (s.evalSource source label).2 ∧
      (s.evalSource source label).1.Agrees (s'.evalSource source label).1 := by
  obtain ⟨hquiet, houtcome, hagrees⟩ :=
    (h.reportFaults (read source label).2).evalForms hq.forms hs.heardForms hs'.heardForms none
  refine ⟨⟨hquiet⟩, ?_⟩
  rw [evalSource_eq, evalSource_eq, snd_conclude, snd_conclude]
  refine ⟨houtcome, ?_⟩
  generalize Session.evalForms (s.reportFaults _) _ _ = r at houtcome hagrees ⊢
  generalize Session.evalForms (s'.reportFaults _) _ _ = r' at houtcome hagrees ⊢
  obtain ⟨s₁, o⟩ := r
  obtain ⟨s₁', o'⟩ := r'
  obtain rfl : o' = o := houtcome
  cases o' with
  | crash detail => exact hagrees.withSink _ _
  | _ => exact hagrees

/-- A form ends with the error of what is refused, if there is fuel to leave all frames. -/
lemma evalIn_of_refusal (hw : s.workers = [])
    (hstate : solo n s.store (.start top f) = some (σ, t)) (hr : t.refusal? σ = some reason)
    (hn : n + t.stack.length < s.fuel) :
    ∃ e, e.cause = .writeRefused reason ∧
      s.evalIn top f = (⟨(step σ t).store, [], s.fuel⟩, .error e) := by
  obtain ⟨m, hm⟩ := Nat.exists_eq_add_of_lt hn
  have hfuel : s.fuel = n + 1 + (t.stack.length + m) := by omega
  obtain ⟨e, k, hrun, hcause, hend⟩ :=
    solo_of_refusal (m := t.stack.length + m) (Thread.start_obeys_any top f) hstate hr
  obtain rfl := hend (Nat.le_add_right _ _)
  rw [← hfuel] at hrun
  exact ⟨e, hcause, evalIn_of_solo hw hrun⟩

/-- So do forms, one after another. -/
lemma evalForms_of_refusal (hw : s.workers = []) (hq : s.QuietForms forms) (last : Option Node)
    (hstate : s.stateAt forms i n = some (σ, t)) (hr : t.refusal? σ = some reason)
    (hn : n + t.stack.length < s.fuel) :
    ∃ e, e.cause = .writeRefused reason ∧
      s.evalForms last forms = (⟨(step σ t).store, [], s.fuel⟩, .error e) := by
  induction forms generalizing s i last with
  | nil => cases hstate
  | cons f forms ih =>
    obtain ⟨hform, hrest⟩ := hq
    rw [evalForms_cons]
    cases i with
    | zero =>
      obtain ⟨e, hcause, hone⟩ := evalIn_of_refusal hw hstate hr hn
      rw [hone]
      exact ⟨e, hcause, rfl⟩
    | succ i =>
      obtain ⟨σ₁, t₁, hrun⟩ := quietForm_iff.1 hform
      rw [evalIn_of_solo hw hrun] at hrest ⊢
      rw [stateAt, evalIn_of_solo hw hrun] at hstate
      cases ho : Outcome.ofAnswer? t₁.answer? with
      | ok v =>
        rw [ho] at hrest hstate
        exact ih rfl hrest (some v) hstate hn
      | _ =>
        rw [ho] at hstate
        cases hstate

/-- After a refusal there are no states of later forms, and in those of the same form there is
only the error. -/
lemma stateAt_of_refusal {j m : Nat} (hw : s.workers = []) (hq : s.QuietForms forms)
    (hstate : s.stateAt forms i n = some (σ, t)) (hr : t.refusal? σ = some reason)
    (hn : n + t.stack.length < s.fuel) (hlater : i < j ∨ j = i ∧ n < m)
    (hstate' : s.stateAt forms j m = some (σ', t')) :
    j = i ∧ σ' = (step σ t).store ∧
      ∃ e, t'.control = .raise e ∧ e.cause = .writeRefused reason := by
  induction forms generalizing s i j with
  | nil => cases hstate
  | cons f forms ih =>
    obtain ⟨hform, hrest⟩ := hq
    cases j with
    | zero =>
      -- both states are in the first form
      obtain ⟨rfl, hlt⟩ : 0 = i ∧ n < m := hlater.resolve_left (Nat.not_lt_zero i)
      obtain ⟨d, rfl⟩ := Nat.exists_eq_add_of_lt hlt
      obtain ⟨e, k, hrun, hcause, -⟩ :=
        solo_of_refusal (m := d) (Thread.start_obeys_any top f) hstate hr
      have hsame : solo (n + d + 1) s.store (.start top f) = some (σ', t') := hstate'
      rw [Nat.add_right_comm, hrun] at hsame
      cases hsame
      exact ⟨rfl, rfl, e, rfl, hcause⟩
    | succ j =>
      obtain ⟨σ₁, t₁, hrun⟩ := quietForm_iff.1 hform
      have hone := evalIn_of_solo hw hrun
      rw [stateAt, hone] at hstate'
      cases ho : Outcome.ofAnswer? t₁.answer? with
      | ok v =>
        rw [ho] at hone hstate'
        cases i with
        | zero =>
          -- the first form does not end well
          obtain ⟨e, -, herror⟩ := evalIn_of_refusal hw hstate hr hn
          rw [hone] at herror
          cases herror
        | succ i =>
          rw [hone] at hrest
          rw [stateAt, hone] at hstate
          obtain ⟨rfl, hafter⟩ := ih rfl hrest hstate hn
            (hlater.imp Nat.lt_of_succ_lt_succ fun h => ⟨Nat.succ.inj h.1, h.2⟩) hstate'
          exact ⟨rfl, hafter⟩
      | _ =>
        rw [ho] at hstate'
        cases hstate'

end Session

open Session

/-- **The sink shows in refusals only.** If nothing that a source prints is refused, neither by
the sink of a session nor by another one, then the outcome, the scopes and the count of
channels are the same with either, whatever becomes of reports. If something that it prints is
refused, the outcome is an error that says so, once there is fuel to leave all frames, and
from then on nothing is evaluated and the store stays as it is. -/
theorem sink_shows_in_refusals {s : Session} {source label : String} (hw : s.workers = [])
    (hq : s.QuietSource source label) :
    (s.Heard source label → ∀ k, (s.withSink k).Heard source label →
      (s.withSink k).QuietSource source label ∧
      ((s.withSink k).evalSource source label).2 = (s.evalSource source label).2 ∧
      ((s.withSink k).evalSource source label).1.store.heap
        = (s.evalSource source label).1.store.heap ∧
      ((s.withSink k).evalSource source label).1.store.nextChannel
        = (s.evalSource source label).1.store.nextChannel) ∧
    ∀ i n σ t reason, s.stateOf source label i n = some (σ, t) →
      t.refusal? σ = some reason → n + t.stack.length < s.fuel →
        (∃ e : EvalError, e.message = "failed to write output: " ++ reason ∧
          s.evalSource source label = (⟨(step σ t).store, [], s.fuel⟩, .error e)) ∧
        ∀ j m σ' t', i < j ∨ j = i ∧ n < m → s.stateOf source label j m = some (σ', t') →
          j = i ∧ σ' = (step σ t).store ∧
            ∃ e, t'.control = .raise e ∧ e.cause = .writeRefused reason := by
  constructor
  · intro hs k hs'
    have hagrees : s.Agrees (s.withSink k) := ⟨hw, hw, rfl, rfl, rfl⟩
    obtain ⟨hquiet, houtcome, hafter⟩ := hagrees.evalSource hq hs hs'
    exact ⟨hquiet, houtcome, hafter.store.heap, hafter.store.nextChannel⟩
  · intro i n σ t reason hstate hr hn
    obtain ⟨k, hk⟩ := s.exists_reportFaults_eq (read source label).2
    have hquiet := hq.forms
    rw [hk] at hquiet
    simp only [stateOf, hk] at hstate ⊢
    obtain ⟨e, hcause, hforms⟩ :=
      evalForms_of_refusal (s := s.withSink k) hw hquiet none hstate hr hn
    refine ⟨⟨e, ?_, ?_⟩, fun j m σ' t' hlater hstate' =>
      stateAt_of_refusal (s := s.withSink k) hw hquiet hstate hr hn hlater hstate'⟩
    · rw [EvalError.message, hcause]
      rfl
    · rw [evalSource_eq, hk, hforms]
      rfl

/-! ### A sink that takes little -/

lemma Session.stateAt_eq_none {s : Session} {forms : List Node} {i : Nat} (h : forms.length ≤ i)
    (n : Nat) : s.stateAt forms i n = none := by
  induction forms generalizing s i with
  | nil => rfl
  | cons f forms ih =>
    cases i with
    | zero => exact absurd h (Nat.not_succ_le_zero _)
    | succ i =>
      rw [stateAt]
      split
      · exact ih (Nat.le_of_succ_le_succ h)
      · rfl

/-- There are finitely many states to look at. -/
lemma Session.heard_iff {s : Session} {source label : String} :
    s.Heard source label ↔ ∀ i < (read source label).1.length, ∀ n < s.fuel,
      ∀ r ∈ s.stateOf source label i n, r.2.refusal? r.1 = none := by
  constructor
  · exact fun h i _ n hn r hr => h i n r.1 r.2 hn hr
  · intro h i n σ t hn hstate
    by_cases hi : i < (read source label).1.length
    · exact h i hi n hn (σ, t) hstate
    · rw [stateOf, stateAt_eq_none (Nat.le_of_not_lt hi)] at hstate
      cases hstate

instance (s : Session) (source label : String) : Decidable (s.Heard source label) :=
  decidable_of_iff _ Session.heard_iff.symm

/-- A session whose sink takes three bytes. -/
def terse (fuel : Nat) : Session :=
  { Session.bare (.limited 3 "full") with fuel := fuel }

/-- The report of the first error is too long for the sink, and the number is not. -/
def whisper : String := ") (print 1)"

/-- The second form prints too much. -/
def chatter : String := "(print 12)(print 345 (def x 1))(def y 2)"

theorem sink_shows_in_refusals_terse :
    ((terse 8).Heard whisper "main" ∧ ((terse 8).withSink .unlimited).Heard whisper "main" ∧
      (((terse 8).withSink .unlimited).evalSource whisper "main").2
        = ((terse 8).evalSource whisper "main").2) ∧
    ∃ σ t e, (terse 30).stateOf chatter "main" 1 11 = some (σ, t) ∧
      t.refusal? σ = some "full" ∧ 11 + t.stack.length < (terse 30).fuel ∧
      e.message = "failed to write output: full" ∧
      (terse 30).evalSource chatter "main" = (⟨(step σ t).store, [], 30⟩, .error e) := by
  have hheard : (terse 8).Heard whisper "main" := by decide +kernel
  have hheard' : ((terse 8).withSink .unlimited).Heard whisper "main" := by decide +kernel
  have hquiet : (terse 8).QuietSource whisper "main" := by decide +kernel
  obtain ⟨-, houtcome, -⟩ := (sink_shows_in_refusals rfl hquiet).1 hheard .unlimited hheard'
  have hquiet' : (terse 30).QuietSource chatter "main" := by decide +kernel
  have hrefused : ((terse 30).stateOf chatter "main" 1 11).any (fun r =>
      r.2.refusal? r.1 = some "full" ∧ 11 + r.2.stack.length < (terse 30).fuel) = true := by
    decide +kernel
  obtain ⟨⟨σ, t⟩, hstate, hr⟩ := (Option.any_eq_true _ _).1 hrefused
  obtain ⟨hr, hn⟩ : t.refusal? σ = some "full" ∧ 11 + t.stack.length < (terse 30).fuel := by
    simpa using hr
  obtain ⟨⟨e, hmessage, herror⟩, -⟩ :=
    (sink_shows_in_refusals rfl hquiet').2 1 11 σ t "full" hstate hr hn
  exact ⟨⟨hheard, hheard', houtcome⟩, σ, t, e, hstate, hr, hn, hmessage, herror⟩

end ChannelLisp
