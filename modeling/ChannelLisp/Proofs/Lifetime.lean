import ChannelLisp.Proofs.Confinement
import ChannelLisp.Proofs.Effects
import ChannelLisp.Proofs.Growth
import ChannelLisp.Proofs.Places
import Mathlib.Tactic

/-!
The store over the life of a session. The moments of a session are its states between sources
and at every step of an evaluation; an evaluation may be given up at any step, with a value,
with an error, in a crash of the host, or for want of fuel. At every moment the heap is well
formed: what is referred to is there, parents are older, and every chain of parents ends at top
level. Channels are counted, so no two calls make the same one.
-/

namespace ChannelLisp

/-- Only the scopes of the heap and the channels that were made may occur. -/
def Store.present (σ : Store) : Policy :=
  { Policy.any True with scope := (· < σ.heap.size), channel := (· < σ.nextChannel) }

/-- The way from a scope through its parents, up to one that has none. -/
inductive Heap.Climbs (h : Heap) : ScopeId → List ScopeId → Prop
  | top {i : ScopeId} {s : Scope} : h.get? i = some s → s.parent? = none → Climbs h i [i]
  | up {i q : ScopeId} {s : Scope} {path : List ScopeId} :
      h.get? i = some s → s.parent? = some q → Climbs h q path → Climbs h i (i :: path)

/-- Scopes form a tree, in which parents are older. -/
structure Heap.Rooted (h : Heap) : Prop where
  top : ∃ s, h.get? Session.top = some s
  parentless : ∀ i s, h.get? i = some s → (s.parent? = none ↔ i = Session.top)
  older : ∀ i s q, h.get? i = some s → s.parent? = some q → q < i

/-- The channel that the next step makes. -/
def Thread.made? (t : Thread) (σ : Store) : Option Node :=
  if t.enters .channel 0 then
    match (step σ t).thread.control with
    | .value v => some v
    | _ => none
  else none

/-- A session at one moment: its store, the thread that evaluates a form if there is one, and
the values that calls have given so far which make a channel. -/
structure Moment where
  store : Store
  thread? : Option Thread
  channels : List Node

namespace Moment

/-- A session whose top-level scope binds the primitives of the language. -/
def first (sink : Sink) : Moment := ⟨(Session.bare sink).store, none, []⟩

/-- What comes next. No thread is started beside the one there is. -/
inductive Next : Moment → Moment → Prop
  /-- A form is given to evaluate in a scope. -/
  | start {σ : Store} {cs : List Node} {e : ScopeId} {n : Node} :
      (Thread.start e n).Obeys σ.present → Next ⟨σ, none, cs⟩ ⟨σ, some (.start e n), cs⟩
  | step {σ : Store} {t : Thread} {cs : List Node} : (step σ t).spawned? = none →
      Next ⟨σ, some t, cs⟩
        ⟨(step σ t).store, some (step σ t).thread, cs ++ (t.made? σ).toList⟩
  /-- The evaluation is over, or is given up where it is. -/
  | leave {σ : Store} {t : Thread} {cs : List Node} : Next ⟨σ, some t, cs⟩ ⟨σ, none, cs⟩
  /-- Something is reported. -/
  | report {σ : Store} {cs : List Node} (sink : Sink) :
      Next ⟨σ, none, cs⟩ ⟨{ σ with sink := sink }, none, cs⟩
  | addPrimitive {σ : Store} {cs : List Node} (h : HostPrimitive) :
      Next ⟨σ, none, cs⟩ ⟨σ.define Session.top h.name (.primitive (.host h)), none, cs⟩

/-- From one moment to a later one. -/
abbrev Reaches : Moment → Moment → Prop := Relation.ReflTransGen Next

/-- Everything that is referred to is there, and each channel was made once. -/
structure WellFormed (m : Moment) : Prop where
  heap : m.store.heap.Obeys m.store.present
  thread : ∀ t ∈ m.thread?, t.Obeys m.store.present
  rooted : m.store.heap.Rooted
  channels : m.channels = (List.range m.store.nextChannel).map Node.chan

end Moment

variable {p : Policy} {σ σ' : Store} {t t' : Thread} {h : Heap} {i : ScopeId}

/-! ### What is there -/

lemma Heap.exists_of_lt_size (hi : i < h.size) : ∃ s, h.get? i = some s :=
  ⟨h.scopes[i], Array.getElem?_eq_getElem hi⟩

/-- What is there, is there later. -/
lemma Store.Change.present_le (hc : σ.Change p σ') : σ.present.Le σ'.present := by
  obtain ⟨hsize, hnext⟩ := hc.grows
  exact ⟨fun _ hi => lt_of_lt_of_le hi hsize, fun _ hi => lt_of_lt_of_le hi hnext,
    fun _ hl => hl, fun _ hx => hx, fun _ hr => hr, fun ha => ha⟩

/-- A heap that refers to what is there, refers to what is there later. -/
lemma Heap.Obeys.present (hσ : σ.heap.Obeys σ.present) (hle : σ.present.Le σ'.present) :
    σ.heap.Obeys σ'.present := by
  intro i s _ hs
  exact (hσ i s (Heap.lt_size_of_get? hs) hs).mono hle

lemma Store.admits_present : σ'.present.Admits σ σ' :=
  ⟨fun _ _ hi => hi, fun _ _ hc => hc⟩

/-- A step leaves no reference to what is not there. -/
lemma step_present (hσ : σ.heap.Obeys σ.present) (ht : t.Obeys σ.present) :
    (step σ t).store.heap.Obeys (step σ t).store.present ∧
      (step σ t).thread.Obeys (step σ t).store.present := by
  have hle := (step_change σ t).present_le
  have hallowed := step_allowed (hσ.present hle) (ht.mono hle)
  exact ⟨hallowed.change.obeys (hσ.present hle), hallowed.thread Store.admits_present⟩

/-! ### The tree of scopes -/

/-- A new scope is put below one that is there, and a definition leaves parents as they are. -/
lemma Store.Change.rooted (hc : σ.Change σ.present σ') (hσ : σ.heap.Rooted) :
    σ'.heap.Rooted := by
  obtain ⟨⟨s₀, hs₀⟩, hparentless, holder⟩ := hσ
  cases hc with
  | @scope sc hinner hobeys =>
    obtain ⟨q, hq⟩ := hinner.parent
    have hqlt : q < σ.heap.size := hobeys.parent q hq
    have hfresh : σ.heap.fresh ≠ Session.top := (Heap.lt_size_of_get? hs₀).ne'
    refine ⟨⟨s₀, Store.get?_pushScope hs₀⟩, fun i s hs => ?_, fun i s r hs hr => ?_⟩ <;>
      rw [Store.pushScope, Heap.get?_push] at hs <;> split_ifs at hs with hi
    · cases hs
      simp [hq, hi, hfresh]
    · exact hparentless i s hs
    · cases hs
      obtain rfl : q = r := Option.some.inj (hq.symm.trans hr)
      exact hi ▸ hqlt
    · exact holder i s r hs hr
  | @define j x v _ _ =>
    -- the scope of before, with the same parent
    have hback : ∀ i s, (σ.define j x v).heap.get? i = some s →
        ∃ s', σ.heap.get? i = some s' ∧ s'.parent? = s.parent? := by
      intro i s hs
      rw [Store.define, Heap.get?_define] at hs
      split at hs
      · obtain ⟨s', hs', rfl⟩ := Option.map_eq_some_iff.1 hs
        exact ⟨s', hs', rfl⟩
      · exact ⟨s, hs, rfl⟩
    refine ⟨?_, fun i s hs => ?_, fun i s q hs hq => ?_⟩
    · refine Heap.exists_of_lt_size ?_
      rw [Store.define, Heap.size_define]
      exact Heap.lt_size_of_get? hs₀
    · obtain ⟨s', hs', hparent⟩ := hback i s hs
      rw [← hparent]
      exact hparentless i s' hs'
    · obtain ⟨s', hs', hparent⟩ := hback i s hs
      exact holder i s' q hs' (hparent.trans hq)
  | _ => exact ⟨⟨s₀, hs₀⟩, hparentless, holder⟩

namespace Heap

/-- Parents are older, so there is fuel enough to reach the last of them. -/
lemma Rooted.climbs_chainFrom (hh : h.Rooted) {fuel : Nat} (hfuel : i < fuel)
    (hi : i < h.size) : h.Climbs i (h.chainFrom fuel i) := by
  induction fuel generalizing i with
  | zero => exact absurd hfuel (Nat.not_lt_zero i)
  | succ fuel ih =>
    obtain ⟨s, hs⟩ := exists_of_lt_size hi
    rw [chainFrom, hs]
    cases hparent : s.parent? with
    | none =>
      simp only [hparent]
      exact .top hs hparent
    | some q =>
      have hq : q < i := hh.older i s q hs hparent
      simp only [hparent]
      exact .up hs hparent (ih (hq.trans_le (Nat.le_of_lt_succ hfuel)) (hq.trans hi))

lemma Rooted.climbs (hh : h.Rooted) (hi : i < h.size) : h.Climbs i (h.chain i) :=
  hh.climbs_chainFrom (Nat.lt_succ_self i) hi

/-- The way up ends at top level. -/
lemma Rooted.getLast?_of_climbs (hh : h.Rooted) {path : List ScopeId} (hp : h.Climbs i path) :
    path.getLast? = some Session.top := by
  induction hp with
  | top hs hparent =>
    rw [(hh.parentless _ _ hs).1 hparent]
    rfl
  | up _ _ hpath ih => rw [List.getLast?_cons, ih, Option.getD_some]

end Heap

/-! ### Moments -/

/-- A call that makes a channel gives one that was not made before, and counts it. No other step
makes a channel. -/
lemma range_nextChannel_step (σ : Store) (t : Thread) :
    (List.range (step σ t).store.nextChannel).map Node.chan
      = (List.range σ.nextChannel).map Node.chan ++ (t.made? σ).toList := by
  cases he : t.enters .channel 0 with
  | true =>
    obtain ⟨hcontrol, hstore⟩ := step_of_channel (σ := σ) he
    have hmade : t.made? σ = some (.chan σ.nextChannel) := by
      rw [Thread.made?, if_pos he, hcontrol]
    rw [hmade, hstore, List.range_succ, List.map_append]
    rfl
  | false =>
    have hmade : t.made? σ = none := by simp [Thread.made?, he]
    rw [hmade, step_nextChannel he, Option.toList_none, List.append_nil]

namespace Moment

variable {m m' : Moment}

lemma wellFormed_first (sink : Sink) : (first sink).WellFormed := by
  refine ⟨heap_bare_obeys (fun _ => trivial) sink, fun t ht => absurd ht (Option.not_mem_none t),
    ⟨⟨Session.topLevel, rfl⟩, ?_, ?_⟩, rfl⟩
  · intro i s hs
    obtain ⟨rfl, rfl⟩ := get?_bare hs
    simp [Session.topLevel]
  · intro i s q hs hq
    obtain ⟨rfl, rfl⟩ := get?_bare hs
    cases hq

/-- Whatever comes next, the moment after a well-formed one is well formed. -/
lemma Next.wellFormed (hn : m.Next m') (hm : m.WellFormed) : m'.WellFormed := by
  obtain ⟨hheap, hthread, hrooted, hchannels⟩ := hm
  cases hn with
  | start hstart =>
    refine ⟨hheap, fun t ht => ?_, hrooted, hchannels⟩
    cases ht
    exact hstart
  | @step σ t cs _ =>
    have ht := hthread t rfl
    obtain ⟨hheap', ht'⟩ := step_present hheap ht
    refine ⟨hheap', fun u hu => ?_, (step_allowed hheap ht).change.rooted hrooted, ?_⟩
    · cases hu
      exact ht'
    · exact (congrArg (· ++ (t.made? σ).toList) hchannels).trans (range_nextChannel_step σ t).symm
  | leave => exact ⟨hheap, nofun, hrooted, hchannels⟩
  | report sink => exact ⟨hheap, nofun, hrooted, hchannels⟩
  | @addPrimitive σ cs hp =>
    obtain ⟨s₀, hs₀⟩ := hrooted.top
    have hv : (Node.primitive (.host hp)).Obeys σ.present := .primitive trivial
    have hchange : σ.Change σ.present (σ.define Session.top hp.name (.primitive (.host hp))) :=
      .define (Heap.lt_size_of_get? hs₀) hv
    have hle := hchange.present_le
    have hv' := hv.mono hle
    refine ⟨?_, nofun, hchange.rooted hrooted, hchannels⟩
    exact (Store.Change.define (hle.scope _ (Heap.lt_size_of_get? hs₀)) hv').obeys
      (hheap.present hle)

lemma Reaches.wellFormed (hr : m.Reaches m') (hm : m.WellFormed) : m'.WellFormed := by
  induction hr with
  | refl => exact hm
  | tail _ hnext ih => exact hnext.wellFormed ih

/-- What comes next is one change of the store at most. -/
lemma Next.change (hn : m.Next m') : m.store.Change (.any True) m'.store := by
  cases hn with
  | step => exact step_change _ _
  | report => exact .sink
  | addPrimitive hp => exact .define trivial (Node.obeys_any True _)
  | _ => exact .same

lemma Reaches.later (hr : m.Reaches m') (hm : m.store.heap.Distinct) :
    m.store.heap.Later m'.store.heap := by
  induction hr with
  | refl => exact Heap.later_refl hm
  | tail _ hnext ih => exact ih.change hnext.change

lemma distinct_first (sink : Sink) : (first sink).store.heap.Distinct := by
  intro i s hs
  rw [(get?_bare hs).2]
  decide

/-! ### Sessions -/

lemma reaches_of_solo {fuel : Nat} (hrun : solo fuel σ t = some (σ', t')) (cs : List Node) :
    ∃ cs', Reaches ⟨σ, some t, cs⟩ ⟨σ', some t', cs'⟩ := by
  induction fuel generalizing σ t cs with
  | zero =>
    cases hrun
    exact ⟨cs, .refl⟩
  | succ fuel ih =>
    obtain ⟨hs, hrest⟩ := solo_succ_eq_some hrun
    obtain ⟨cs', hr⟩ := ih hrest (cs ++ (t.made? σ).toList)
    exact ⟨cs', .head (.step hs) hr⟩

end Moment

open Moment

namespace Session

variable {s : Session} {source label : String} {sources : List (String × String)} {m : Moment}
  {cs : List Node} {n : Node} {fuel : Nat}

/-- The run of a form at top level leads from one moment to a later one. -/
lemma reaches_of_run (hm : m.WellFormed) (hr : m.Reaches ⟨σ, none, cs⟩)
    (hn : n.Obeys σ.present) (hrun : solo fuel σ (.start top n) = some (σ', t)) :
    ∃ cs', m.Reaches ⟨σ', some t, cs'⟩ := by
  obtain ⟨sc, hsc⟩ := (hr.wellFormed hm).rooted.top
  have hstart : (Thread.start top n).Obeys σ.present :=
    Thread.obeys_start (Heap.lt_size_of_get? hsc) hn
  obtain ⟨cs', hsteps⟩ := reaches_of_solo hrun cs
  exact ⟨cs', (hr.tail (.start hstart)).trans hsteps⟩

/-- What is read refers to nothing. -/
lemma present_of_mem_read (hn : n ∈ (read source label).1) (σ : Store) : n.Obeys σ.present :=
  obeys_of_mem_read hn (fun _ _ _ => trivial) (fun _ _ _ _ => trivial) trivial

/-- A session that is at a moment comes to a later one when a source is evaluated. -/
lemma evalSource_reaches (hw : s.workers = []) (hm : m.WellFormed)
    (hr : ∃ cs, m.Reaches ⟨s.store, none, cs⟩) (hq : s.QuietSource source label) :
    Keeps (fun σ => ∃ cs, m.Reaches ⟨σ, none, cs⟩) (fun _ => True) s.fuel none
      (s.evalSource source label) := by
  refine evalSource_keeps (fun n hn fuel σ σ' t hσ hrun => ⟨?_, fun _ _ => trivial⟩)
    (fun σ k hσ => ?_) hw hr hq
  · obtain ⟨cs, hcs⟩ := hσ
    obtain ⟨cs', hr'⟩ := reaches_of_run hm hcs (present_of_mem_read hn σ) hrun
    exact ⟨cs', hr'.tail .leave⟩
  · obtain ⟨cs, hcs⟩ := hσ
    exact ⟨cs, hcs.tail (.report k)⟩

/-- The value of forms refers to what is there in the end. -/
lemma evalForms_present {forms : List Node} (last : Option Node) (hw : s.workers = [])
    (hm : m.WellFormed) (hr : m.Reaches ⟨s.store, none, cs⟩) (hq : s.QuietForms forms)
    (hforms : ∀ n ∈ forms, ∀ σ : Store, n.Obeys σ.present)
    (hlast : ∀ v ∈ last, v.Obeys s.store.present) :
    ∀ v, (s.evalForms last forms).2 = .ok (some v) →
      v.Obeys (s.evalForms last forms).1.store.present := by
  induction forms generalizing s cs last with
  | nil =>
    intro v hv
    exact hlast v (Outcome.ok.inj hv)
  | cons n forms ih =>
    obtain ⟨hn, hrest⟩ := List.forall_mem_cons.1 hforms
    obtain ⟨hform, hquiet⟩ := hq
    obtain ⟨σ, t, hrun⟩ := quietForm_iff.1 hform
    obtain ⟨cs', hr'⟩ := reaches_of_run hm hr (hn s.store) hrun
    rw [evalIn_of_solo hw hrun] at hquiet
    rw [evalForms_cons, evalIn_of_solo hw hrun]
    cases ho : Outcome.ofAnswer? t.answer? with
    | ok v =>
      rw [ho] at hquiet
      have hv : v.Obeys σ.present :=
        Thread.Obeys.answer ((hr'.wellFormed hm).thread t rfl) (Outcome.ofAnswer?_eq_ok ho)
      refine ih (some v) rfl (hr'.tail .leave) hquiet hrest fun u hu => ?_
      cases hu
      exact hv
    | _ => nofun

lemma evalSource_present (hw : s.workers = []) (hm : m.WellFormed)
    (hr : m.Reaches ⟨s.store, none, cs⟩) (hq : s.QuietSource source label) {v : Node}
    (hv : (s.evalSource source label).2 = .ok (some v)) :
    v.Obeys (s.evalSource source label).1.store.present := by
  obtain ⟨k, hk⟩ := s.exists_reportFaults_eq (read source label).2
  have hquiet := hq.forms
  rw [hk] at hquiet
  have hforms := evalForms_present (s := s.withSink k) none hw hm (hr.tail (.report k)) hquiet
    (fun n hn => present_of_mem_read hn) nofun
  rw [evalSource_eq, hk] at hv ⊢
  generalize evalForms _ none (read source label).1 = r at hforms hv ⊢
  rcases r with ⟨s₁, _ | _ | _ | _⟩
  · exact hforms v hv
  all_goals cases hv

/-- Sessions are at moments that can be reached. -/
lemma History.reaches (h : History sources s) :
    ∃ sink cs, (first sink).Reaches ⟨s.store, none, cs⟩ := by
  induction h with
  | bare sink => exact ⟨sink, [], .refl⟩
  | prelude sink =>
    have hkeeps := evalSource_reaches rfl (wellFormed_first sink) ⟨[], .refl⟩ (new_prelude sink).1
    rw [new_true]
    exact ⟨sink, hkeeps.store⟩
  | addPrimitive hp _ ih =>
    obtain ⟨sink, cs, hr⟩ := ih
    exact ⟨sink, cs, hr.tail (.addPrimitive hp)⟩
  | refuel fuel _ ih => exact ih
  | evalSource hhistory hq ih =>
    obtain ⟨sink, hr⟩ := ih
    exact ⟨sink, (evalSource_reaches hhistory.placed.1 (wellFormed_first sink) hr hq).store⟩

end Session

open Session

/-- **The heap stays well formed.** At every moment in the life of a session, scopes and channels
that are referred to are there; from every scope the way up through its parents, which are
older, ends at top level, and is the chain that names are looked up in; no channel was made
twice, and the next one is new; and a scope has the same parent ever after. The moments
include the states of all sessions, and the value of a source refers to what is there. -/
theorem heap_stays_well_formed :
    (∀ (sink : Sink) (m : Moment), (first sink).Reaches m →
      m.WellFormed ∧
      (∀ i < m.store.heap.size, m.store.heap.Climbs i (m.store.heap.chain i) ∧
        (m.store.heap.chain i).getLast? = some top) ∧
      m.channels.Nodup ∧
      (∀ t ∈ m.thread?, t.enters .channel 0 = true → ∃ c,
        (step m.store t).thread.control = .value (.chan c) ∧ .chan c ∉ m.channels) ∧
      ∀ m', m.Reaches m' → ∀ i s, m.store.heap.get? i = some s →
        ∃ s', m'.store.heap.get? i = some s' ∧ s'.parent? = s.parent?) ∧
    ∀ (sources : List (String × String)) (s : Session), History sources s →
      (∃ sink cs, (first sink).Reaches ⟨s.store, none, cs⟩) ∧
      ∀ source label v, s.QuietSource source label →
        (s.evalSource source label).2 = .ok (some v) →
          v.Obeys (s.evalSource source label).1.store.present := by
  constructor
  · intro sink m hr
    have hm := hr.wellFormed (wellFormed_first sink)
    have hdistinct := (hr.later (distinct_first sink)).distinct
    refine ⟨hm, fun i hi => ?_, ?_, fun t _ ht => ?_, fun m' hr' i s hs => ?_⟩
    · have hclimbs := hm.rooted.climbs hi
      exact ⟨hclimbs, hm.rooted.getLast?_of_climbs hclimbs⟩
    · rw [hm.channels]
      exact List.nodup_range.map fun _ _ h => Node.chan.inj h
    · refine ⟨m.store.nextChannel, (step_of_channel ht).1, ?_⟩
      rw [hm.channels]
      simp
    · obtain ⟨s', hs', hkept⟩ := (hr'.later hdistinct).kept i s hs
      exact ⟨s', hs', hkept.parent⟩
  · intro sources s hs
    obtain ⟨sink, cs, hr⟩ := hs.reaches
    exact ⟨⟨sink, cs, hr⟩, fun source label v hq hv =>
      evalSource_present hs.placed.1 (wellFormed_first sink) hr hq hv⟩

/-- A primitive of the host that breaks down. -/
def bang : HostPrimitive := ⟨"bang", .exactly 0, .crash (some "bang")⟩

def openSession : Session :=
  { Session.new .unlimited false with fuel := 60 }.addPrimitive bang

/-- Breaks down in a function that was made among local bindings, while it sends. -/
def sender : String := "(def f (let ((c (chan))) (lambda () (send c (bang)))))(f)"

theorem heap_stays_well_formed_sender :
    History [(sender, "main")] (openSession.evalSource sender "main").1 ∧
      ∃ cs, Moment.WellFormed ⟨(openSession.evalSource sender "main").1.store, none, cs⟩ ∧
        cs = [.chan 0] ∧
        (openSession.evalSource sender "main").1.store.heap.Climbs 2 [2, 1, top] := by
  have hquiet : openSession.QuietSource sender "main" := by decide +kernel
  have hhistory : History [(sender, "main")] (openSession.evalSource sender "main").1 :=
    .evalSource (.addPrimitive bang (.refuel 60 (.bare .unlimited))) hquiet
  have hsize : 2 < (openSession.evalSource sender "main").1.store.heap.size := by decide +kernel
  have hchain : (openSession.evalSource sender "main").1.store.heap.chain 2 = [2, 1, top] := by
    decide +kernel
  have hnext : (openSession.evalSource sender "main").1.store.nextChannel = 1 := by
    decide +kernel
  -- what the session is does not matter from here on
  generalize (openSession.evalSource sender "main").1 = s at hhistory hsize hchain hnext ⊢
  obtain ⟨hmoments, hsessions⟩ := heap_stays_well_formed
  obtain ⟨⟨sink, cs, hr⟩, -⟩ := hsessions _ s hhistory
  obtain ⟨hm, hclimbs, -⟩ := hmoments sink ⟨s.store, none, cs⟩ hr
  have hcs : cs = (List.range s.store.nextChannel).map Node.chan := hm.channels
  rw [hnext] at hcs
  have hpath := (hclimbs 2 hsize).1
  rw [hchain] at hpath
  exact ⟨hhistory, cs, hm, hcs, hpath⟩

/-- **Bindings never disappear or move.** From any moment in the life of a session to any later
one, over any evaluation of a form in a scope, however far it gets, and over the evaluation of
any source, whatever comes of it: all scopes are kept, with their names and parents; the names
bound in a scope come first among those bound in it later, and none is there twice; and a
name that is found from a scope is found from it later. -/
theorem bindings_stay :
    (∀ (sink : Sink) (m : Moment), (first sink).Reaches m →
      m.store.heap.Distinct ∧
      (∀ m', m.Reaches m' → m.store.heap.Later m'.store.heap) ∧
      ∀ e n fuel σ t, Pool.run fuel ⟨m.store, [.start e n]⟩ = ⟨σ, [t]⟩ →
        m.store.heap.Later σ.heap) ∧
    ∀ (sources : List (String × String)) (s : Session), History sources s →
      ∀ source label, s.QuietSource source label →
        s.store.heap.Later (s.evalSource source label).1.store.heap := by
  constructor
  · intro sink m hr
    have hdistinct := (hr.later (distinct_first sink)).distinct
    refine ⟨hdistinct, fun m' hr' => hr'.later hdistinct, fun e n fuel σ t hrun => ?_⟩
    exact solo_later (Heap.later_refl hdistinct) (Pool.run_single.1 hrun)
  · intro sources s hs source label hq
    obtain ⟨sink, cs, hr⟩ := hs.reaches
    exact Session.evalSource_later hs.placed.1 hq (hr.later (distinct_first sink)).distinct

/-- Defines two names, the first of them twice. -/
def settings : String := "(def x 1)(def y 2)(def x 3)"

/-- Updates a name and defines another, and breaks down. -/
def overhaul : String := "(update! y x)(def z y)(bang)"

/-- The session with the settings. -/
def configured : Session := (openSession.evalSource settings "main").1

theorem bindings_stay_overhaul :
    History [(settings, "main")] configured ∧ configured.QuietSource overhaul "main" ∧
      configured.store.heap.Later (configured.evalSource overhaul "main").1.store.heap ∧
      (configured.store.heap.lookup? top "x").isSome ∧
      ((configured.evalSource overhaul "main").1.store.heap.lookup? top "x").isSome := by
  have hhistory : History [(settings, "main")] configured :=
    .evalSource (.addPrimitive bang (.refuel 60 (.bare .unlimited))) (by decide +kernel)
  have hquiet : configured.QuietSource overhaul "main" := by decide +kernel
  have hx : (configured.store.heap.lookup? top "x").isSome := by decide +kernel
  have hlater := bindings_stay.2 _ configured hhistory overhaul "main" hquiet
  exact ⟨hhistory, hquiet, hlater, hx, hlater.found top "x" hx⟩

end ChannelLisp
