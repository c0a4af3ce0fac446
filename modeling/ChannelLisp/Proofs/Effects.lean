import ChannelLisp.Proofs.Scoping
import Mathlib.Tactic

/-!
What steps do to the rest of the store. Only a thread that prints, or that reports an error
which nobody waits for, writes to the sink, and only a call of the form that makes a channel
counts one. Every other step acts on the heap alone: with another sink, and another count of
channels, it is the same step.
-/

namespace ChannelLisp

/-- What the next step prints, and the frames that wait for it. Output without arguments has no
operands to evaluate. -/
def Thread.printing? (t : Thread) : Option (Output × List Node × List Frame) :=
  match t.control, t.stack with
  | .value v, .operands _ (.output o) done [] :: k => some (o, (v :: done).reverse, k)
  | .value (.primitive (.builtin (.output o))), .operator _ [] l :: k =>
    some (o, [], .locate l :: k)
  | _, _ => none

/-- The next step reports an error that nobody waits for. -/
def Thread.reports (t : Thread) : Bool :=
  match t.control, t.stack with
  | .raise _, .detached :: _ => true
  | _, _ => false

/-- The next step acts on the heap alone. -/
structure Thread.IsInward (t : Thread) : Prop where
  printing : t.printing? = none
  reports : t.reports = false
  channel : t.enters .channel 0 = false

/-- The same heap, with another count of channels and another sink. -/
def Store.over (σ : Store) (c : ChannelId) (κ : Sink) : Store := ⟨σ.heap, c, κ⟩

def Turn.over (r : Turn) (c : ChannelId) (κ : Sink) : Turn := { r with store := r.store.over c κ }

variable {σ : Store} {c : ChannelId} {κ : Sink} {s : ScopeId} {k : List Frame}
  {args : List Node} {t : Thread}

/-! ### Printing, and making a channel -/

/-- A thread that prints does so, and nothing else. -/
lemma step_of_printing {o : Output} {vs : List Node} (h : t.printing? = some (o, vs, k)) :
    step σ t = .quiet (σ.print o vs k) := by
  unfold Thread.printing? at h
  obtain ⟨control, stack⟩ := t
  split at h
  · rename_i hcontrol hstack
    cases hcontrol
    cases hstack
    cases h
    rfl
  · rename_i hcontrol hstack
    cases hcontrol
    cases hstack
    cases h
    rfl
  · cases h

/-- What it takes to be about to apply a special form. -/
lemma Thread.exists_of_enters {f : Form} {n : Nat} (h : t.enters f n = true) :
    ∃ s args l k, args.length = n ∧
      t = ⟨.value (.primitive (.builtin (.form f))), .operator s args l :: k⟩ := by
  unfold Thread.enters at h
  obtain ⟨control, stack⟩ := t
  split at h
  · rename_i g s args l k hcontrol hstack
    cases hcontrol
    cases hstack
    obtain ⟨rfl, hn⟩ : g = f ∧ args.length = n := by simpa using h
    exact ⟨s, args, l, k, hn, rfl⟩
  · cases h

/-- A call that makes a channel gives the next one, and counts it. -/
lemma step_of_channel (h : t.enters .channel 0 = true) :
    (step σ t).thread.control = .value (.chan σ.nextChannel) ∧
      (step σ t).store = { σ with nextChannel := σ.nextChannel + 1 } := by
  obtain ⟨s, args, l, k, hargs, rfl⟩ := Thread.exists_of_enters h
  obtain rfl := List.length_eq_zero_iff.1 hargs
  exact ⟨rfl, rfl⟩

/-! ### Steps that act on the heap alone -/

namespace Store

variable {vs : List Node} {target : Target}

lemma enter_over {kind : Kind} {cl : Closure Node} {l : Option Location} :
    Turn.quiet ((σ.over c κ).enter kind cl vs l k)
      = (Turn.quiet (σ.enter kind cl vs l k)).over c κ := by
  unfold enter
  split <;> rfl

lemma finish_over (h : ∀ o, target ≠ .output o) :
    Turn.quiet ((σ.over c κ).finish target vs k)
      = (Turn.quiet (σ.finish target vs k)).over c κ := by
  cases target with
  | function cl l => exact enter_over
  | operation op => rfl
  | output o => exact absurd rfl (h o)

lemma operands_over {done todo : List Node} (h : todo = [] → ∀ o, target ≠ .output o) :
    Turn.quiet ((σ.over c κ).operands s target done todo k)
      = (Turn.quiet (σ.operands s target done todo k)).over c κ := by
  cases todo with
  | nil => exact finish_over (h rfl)
  | cons a rest => rfl

lemma bindings_over {todo body : List Node} :
    Turn.quiet ((σ.over c κ).bindings s todo body k)
      = (Turn.quiet (σ.bindings s todo body k)).over c κ := by
  unfold bindings
  split
  · rfl
  · split <;> rfl

end Store

lemma Form.enter_over {f : Form} (h : f = .channel → args ≠ []) :
    f.enter (σ.over c κ) s args k = (f.enter σ s args k).over c κ := by
  unfold Form.enter
  split
  case h_9 bs body =>
    -- local bindings have a new scope
    cases expectList Form.bind.name bs with
    | error e => rfl
    | ok todo => exact Store.bindings_over (σ := σ.pushScope ⟨Form.bind.name, some s, []⟩)
  case h_14 => exact absurd rfl (h rfl)
  all_goals
    first
      | rfl
      | split <;> rfl

lemma Primitive.enter_over {q : Primitive}
    (hform : q = .builtin (.form .channel) → args ≠ [])
    (houtput : ∀ o, q = .builtin (.output o) → args ≠ []) :
    q.enter (σ.over c κ) s args k = (q.enter σ s args k).over c κ := by
  unfold Primitive.enter
  split
  · cases q with
    | builtin b =>
      cases b with
      | form f => exact Form.enter_over fun hf => hform (by rw [hf])
      | operation op => exact Store.operands_over fun _ _ => nofun
      | output o => exact Store.operands_over fun hnil => absurd hnil (houtput o rfl)
    | host q => rfl
  · rfl

lemma apply_over {callee : Node} {l : Option Location}
    (hform : callee = .primitive (.builtin (.form .channel)) → args ≠ [])
    (houtput : ∀ o, callee = .primitive (.builtin (.output o)) → args ≠ []) :
    apply (σ.over c κ) s callee args l k = (apply σ s callee args l k).over c κ := by
  cases callee with
  | primitive q =>
    refine Primitive.enter_over (fun hq => hform ?_) (fun o hq => houtput o ?_)
    · rw [hq]
    · rw [hq]
  | function cl => exact Store.operands_over fun _ _ => nofun
  | transformer cl => exact Store.enter_over
  | _ => rfl

lemma resume_over {f : Frame} {v : Node} (h : Thread.IsInward ⟨.value v, f :: k⟩) :
    resume (σ.over c κ) f v k = (resume σ f v k).over c κ := by
  cases f with
  | operator s args l =>
    refine apply_over ?_ ?_
    · rintro rfl rfl
      exact absurd h.channel (by simp [Thread.enters])
    · rintro o rfl rfl
      exact absurd h.printing (Option.some_ne_none _)
  | operands s target done todo =>
    refine Store.operands_over ?_
    rintro rfl o rfl
    exact absurd h.printing (Option.some_ne_none _)
  | branch s yes no? =>
    simp only [resume]
    split
    · rfl
    · cases no? <;> rfl
  | assign s x l =>
    have htarget : (σ.over c κ).heap.target s x l = σ.heap.target s x l := rfl
    simp only [resume, htarget]
    cases σ.heap.target s x l <;> rfl
  | sequence s todo => cases todo <;> rfl
  | binding s x todo body => exact Store.bindings_over (σ := σ.define s x (v.named x))
  | evaluate s there? => cases there? <;> rfl
  | within form => cases v <;> rfl
  | sendOn s form => cases v <;> rfl
  | receiveFrom => cases v <;> rfl
  | locate _ | define _ _ | sendValue _ | expansion _ | detached => rfl

/-- A step that acts on the heap alone is the same step with any count of channels and any
sink, and leaves these as they are. -/
theorem step_over (h : t.IsInward) (σ : Store) (c : ChannelId) (κ : Sink) :
    step (σ.over c κ) t = (step σ t).over c κ := by
  obtain ⟨control, stack⟩ := t
  cases control with
  | eval s n => rfl
  | value v =>
    cases stack with
    | nil => rfl
    | cons f k => exact resume_over h
  | raise e =>
    cases stack with
    | nil => rfl
    | cons f k =>
      cases f with
      | detached => exact absurd h.reports nofun
      | _ => rfl
  | _ => rfl

lemma step_nextChannel_of_inward (h : t.IsInward) :
    (step σ t).store.nextChannel = σ.nextChannel :=
  congrArg (fun r => r.store.nextChannel) (step_over h σ σ.nextChannel σ.sink)

/-- Only a call that makes a channel changes the count of channels. -/
lemma step_nextChannel (h : t.enters .channel 0 = false) :
    (step σ t).store.nextChannel = σ.nextChannel := by
  rcases hp : t.printing? with _ | ⟨o, vs, k⟩
  · by_cases hr : t.reports = true
    · obtain ⟨control, stack⟩ := t
      unfold Thread.reports at hr
      split at hr
      · rename_i e k hcontrol hstack
        cases hcontrol
        cases hstack
        rfl
      · cases hr
    · exact step_nextChannel_of_inward ⟨hp, by simpa using hr, h⟩
  · rw [step_of_printing hp]
    rfl

end ChannelLisp
