import ChannelLisp.Proofs.Containment
import Mathlib.Tactic

/-!
Definitions are local. A thread acts in scopes: the one its next form is evaluated in and those
that its frames go on in. Unless it updates a name or evaluates a form in a scope that is a
value, the scopes a step acts in are those the thread acted in before or the scope that the
step created: the bodies of functions and transformers and local bindings have scopes of their
own, while an expansion is evaluated where the call stands. Only the scopes a thread acts in
are written to. A step moreover leaves the frames below the topmost one alone.
-/

namespace ChannelLisp

/-- The frame goes on in allowed scopes only. An update writes to any scope of a chain, and a
form may be evaluated in any scope that is a value, so these ask for all scopes. -/
def Frame.ActsIn (P : ScopeId → Prop) : Frame → Prop
  | .operator s _ _ | .operands s _ _ _ | .branch s _ _ | .define s _ | .sequence s _
  | .binding s _ _ _ | .evaluate s none | .sendOn s _ | .expansion s => P s
  | .assign _ _ _ | .evaluate _ (some _) | .within _ => ∀ i, P i
  | .locate _ | .sendValue _ | .receiveFrom | .detached => True

def Control.ActsIn (P : ScopeId → Prop) : Control → Prop
  | .eval s _ => P s
  | _ => True

/-- The thread acts in allowed scopes only. -/
structure Thread.ActsIn (P : ScopeId → Prop) (t : Thread) : Prop where
  control : t.control.ActsIn P
  stack : ∀ f ∈ t.stack, f.ActsIn P

/-- The thread is about to apply a special form to so many arguments. -/
def Thread.enters (t : Thread) (f : Form) (count : Nat) : Bool :=
  match t.control, t.stack with
  | .value (.primitive (.builtin (.form g))), .operator _ args _ :: _ =>
    g = f && args.length = count
  | _, _ => false

/-- The thread is about to update a name, or to evaluate a form in a scope that is a value. -/
def Thread.reachesOut (t : Thread) : Bool := t.enters .update 2 || t.enters .evaluate 2

/-- What may come of a step with the frames `k` below: they are still there, the thread acts in
allowed scopes above them, and other scopes are what they were. -/
structure Turn.ActsIn (P : ScopeId → Prop) (σ : Store) (k : List Frame) (r : Turn) : Prop where
  control : r.thread.control.ActsIn P
  stack : ∃ new, r.thread.stack = new ++ k ∧ ∀ f ∈ new, f.ActsIn P
  store : ∀ i sc, ¬ P i → σ.heap.get? i = some sc → r.store.heap.get? i = some sc

variable {P : ScopeId → Prop} {σ σ' : Store} {k : List Frame} {s : ScopeId}

namespace Turn.ActsIn

/-- Nothing is added to the frames, and the scopes stay as they are. -/
lemma keep {c : Control} {u : Option Thread} (hc : c.ActsIn P) : ActsIn P σ k ⟨σ, ⟨c, k⟩, u⟩ :=
  ⟨hc, ⟨[], rfl, by simp⟩, fun _ _ _ h => h⟩

/-- One frame is added. -/
lemma push {c : Control} {f : Frame} {u : Option Thread} (hc : c.ActsIn P) (hf : f.ActsIn P) :
    ActsIn P σ k ⟨σ, ⟨c, f :: k⟩, u⟩ :=
  ⟨hc, ⟨[f], rfl, by simpa using hf⟩, fun _ _ _ h => h⟩

/-- The lowest of the new frames is counted among those that were there. -/
lemma below {f : Frame} {r : Turn} (h : ActsIn P σ (f :: k) r) (hf : f.ActsIn P) :
    ActsIn P σ k r := by
  obtain ⟨hc, ⟨new, hstack, hnew⟩, hstore⟩ := h
  refine ⟨hc, ⟨new ++ [f], by simp [hstack], ?_⟩, hstore⟩
  intro g hg
  rcases List.mem_append.1 hg with hg | hg
  · exact hnew g hg
  · rw [List.mem_singleton.1 hg]
    exact hf

/-- A change of the store comes first. -/
lemma after {r : Turn} (h : ActsIn P σ' k r)
    (hσ : ∀ i sc, ¬ P i → σ.heap.get? i = some sc → σ'.heap.get? i = some sc) :
    ActsIn P σ k r :=
  ⟨h.control, h.stack, fun i sc hi hget => h.store i sc hi (hσ i sc hi hget)⟩

end Turn.ActsIn

/-! ### Steps -/

lemma Control.actsIn_ofAnswer (a : Answer) : (Control.ofAnswer a).ActsIn P := by
  cases a <;> exact trivial

lemma Thread.actsIn_body {forms : List Node} {u : Option Thread} (hs : P s) :
    Turn.ActsIn P σ k ⟨σ, .body s forms k, u⟩ := by
  cases forms with
  | nil => exact .keep trivial
  | cons f fs => exact .push hs hs

namespace Store

variable {vs : List Node} {target : Target}

/-- The body of a closure has a new scope. -/
lemma enter_actsIn {kind : Kind} {c : Closure Node} {l : Option Location}
    (hfresh : P σ.heap.fresh) : Turn.ActsIn P σ k (.quiet (σ.enter kind c vs l k)) := by
  unfold enter
  split
  · exact .keep trivial
  · exact (Thread.actsIn_body hfresh).after fun _ _ _ hget => get?_pushScope hget

lemma finish_actsIn (hfresh : P σ.heap.fresh) :
    Turn.ActsIn P σ k (.quiet (σ.finish target vs k)) := by
  cases target with
  | function c l => exact enter_actsIn hfresh
  | operation op => exact .keep (Control.actsIn_ofAnswer _)
  | output o =>
    simp only [finish, print]
    split
    · exact ⟨trivial, ⟨[], rfl, by simp⟩, fun _ _ _ h => h⟩
    · exact ⟨trivial, ⟨[], rfl, by simp⟩, fun _ _ _ h => h⟩

lemma operands_actsIn {done todo : List Node} (hs : P s) (hfresh : P σ.heap.fresh) :
    Turn.ActsIn P σ k (.quiet (σ.operands s target done todo k)) := by
  cases todo with
  | nil => exact finish_actsIn hfresh
  | cons a rest => exact .push hs hs

lemma bindings_actsIn {todo body : List Node} (hs : P s) :
    Turn.ActsIn P σ k (.quiet (σ.bindings s todo body k)) := by
  cases todo with
  | nil => exact Thread.actsIn_body hs
  | cons b rest =>
    simp only [bindings]
    split
    · exact .keep trivial
    · exact .push hs hs

end Store

lemma Form.enter_actsIn {f : Form} {args : List Node} (hs : P s) (hfresh : P σ.heap.fresh)
    (hout : f = .update ∨ f = .evaluate → args.length = 2 → ∀ i, P i) :
    Turn.ActsIn P σ k (f.enter σ s args k) := by
  unfold Form.enter
  split
  · exact .keep trivial
  · exact .push hs hs
  · exact .push hs hs
  · split
    · exact .keep trivial
    · exact .push hs hs
  · -- an update
    have hall := hout (.inl rfl) rfl
    split
    · exact .keep trivial
    · exact .push hs hall
  · split
    · exact .keep trivial
    · exact .keep trivial
  · split
    · exact .keep trivial
    · exact .keep trivial
  · exact Thread.actsIn_body hs
  · -- local bindings have a new scope
    split
    · exact .keep trivial
    · exact (Store.bindings_actsIn hfresh).after fun _ _ _ hget => Store.get?_pushScope hget
  · exact .push hs hs
  · exact .push hs (hout (.inr rfl) rfl)
  · exact .keep trivial
  · exact .keep trivial
  · exact ⟨trivial, ⟨[], rfl, by simp⟩, fun _ _ _ h => h⟩
  · exact .push hs hs
  · exact .push hs trivial
  · exact .keep trivial

lemma Primitive.enter_actsIn {q : Primitive} {args : List Node} (hs : P s)
    (hfresh : P σ.heap.fresh)
    (hout : ∀ f, q = .builtin (.form f) → f = .update ∨ f = .evaluate → args.length = 2 →
      ∀ i, P i) : Turn.ActsIn P σ k (q.enter σ s args k) := by
  unfold Primitive.enter
  split
  · split
    · exact Form.enter_actsIn hs hfresh (hout _ rfl)
    · exact Store.operands_actsIn hs hfresh
    · exact Store.operands_actsIn hs hfresh
    · exact .keep (Control.actsIn_ofAnswer _)
  · exact .keep trivial

/-- The operands of a call are evaluated where the call stands, and so is an expansion. -/
lemma apply_actsIn {callee : Node} {args : List Node} {l : Option Location} (hs : P s)
    (hfresh : P σ.heap.fresh)
    (hout : ∀ f, callee = .primitive (.builtin (.form f)) → f = .update ∨ f = .evaluate →
      args.length = 2 → ∀ i, P i) : Turn.ActsIn P σ k (apply σ s callee args l k) := by
  cases callee with
  | primitive q =>
    refine Primitive.enter_actsIn hs hfresh fun f hf => hout f ?_
    rw [hf]
  | function c => exact Store.operands_actsIn hs hfresh
  | transformer c => exact (Store.enter_actsIn hfresh).below hs
  | _ => exact .keep trivial

lemma evaluate_actsIn {n : Node} (hs : P s) :
    Turn.ActsIn P σ k ⟨σ, evaluate σ s n k, none⟩ := by
  cases n with
  | symbol x l =>
    simp only [evaluate]
    split
    · exact .keep trivial
    · exact .keep trivial
  | call items l =>
    cases items with
    | nil => exact .keep trivial
    | cons head args => exact .push hs hs
  | _ => exact .keep trivial

lemma resume_actsIn {f : Frame} {v : Node} (hf : f.ActsIn P) (hfresh : P σ.heap.fresh)
    (hout : Thread.reachesOut ⟨.value v, f :: k⟩ = true → ∀ i, P i) :
    Turn.ActsIn P σ k (resume σ f v k) := by
  cases f with
  | operator s args l =>
    refine (apply_actsIn (k := .locate l :: k) hf hfresh fun g hg hform hcount => hout ?_).below
      trivial
    subst hg
    rcases hform with rfl | rfl <;> simp [Thread.reachesOut, Thread.enters, hcount]
  | operands s target done todo => exact Store.operands_actsIn hf hfresh
  | branch s yes no? =>
    simp only [resume]
    split
    · exact .keep hf
    · cases no? with
      | some no => exact .keep hf
      | none => exact .keep trivial
  | define s x =>
    have hold (i : ScopeId) (hi : ¬ P i) : i ≠ s := fun heq => hi (heq ▸ hf)
    exact ⟨trivial, ⟨[], rfl, by simp⟩, fun i _ hi hget => Store.get?_define_of_ne (hold i hi) hget⟩
  | assign s x l =>
    simp only [resume]
    split
    · exact ⟨trivial, ⟨[], rfl, by simp⟩, fun i _ hi => absurd (hf i) hi⟩
    · exact .keep trivial
  | sequence s todo =>
    cases todo with
    | nil => exact .keep trivial
    | cons form forms => exact .push hf hf
  | binding s x todo body =>
    have hold (i : ScopeId) (hi : ¬ P i) : i ≠ s := fun heq => hi (heq ▸ hf)
    exact (Store.bindings_actsIn hf).after fun i _ hi hget =>
      Store.get?_define_of_ne (hold i hi) hget
  | evaluate s there? =>
    cases there? with
    | none => exact .keep hf
    | some there => exact .push (hf s) hf
  | within form =>
    cases v with
    | scope i x => exact .keep (hf i)
    | _ => exact .keep trivial
  | sendOn s form =>
    cases v with
    | chan c => exact .push hf trivial
    | _ => exact .keep trivial
  | receiveFrom => cases v <;> exact .keep trivial
  | expansion s => exact .keep hf
  | locate _ | sendValue _ | detached => exact .keep trivial

lemma unwind_actsIn {f : Frame} {e : EvalError} : Turn.ActsIn P σ k (unwind σ f e k) := by
  unfold unwind
  split
  · exact .keep trivial
  · exact ⟨trivial, ⟨[], rfl, by simp⟩, fun _ _ _ h => h⟩
  · exact .keep trivial

variable {t t' : Thread} {fuel : Nat}

/-- A thread that acts in allowed scopes, and does not reach out, goes on to do so, and writes
to such scopes only. -/
lemma step_actsIn (ht : t.ActsIn P) (hfresh : P σ.heap.fresh)
    (hout : t.reachesOut = true → ∀ i, P i) :
    (step σ t).thread.ActsIn P ∧
      ∀ i sc, ¬ P i → σ.heap.get? i = some sc → (step σ t).store.heap.get? i = some sc := by
  have whole {r : Turn} {k : List Frame} (hr : Turn.ActsIn P σ k r) (hk : ∀ f ∈ k, f.ActsIn P) :
      r.thread.ActsIn P ∧
        ∀ i sc, ¬ P i → σ.heap.get? i = some sc → r.store.heap.get? i = some sc := by
    obtain ⟨hc, ⟨new, hstack, hnew⟩, hstore⟩ := hr
    refine ⟨⟨hc, ?_⟩, hstore⟩
    rw [hstack]
    intro f hf
    rcases List.mem_append.1 hf with hf | hf
    · exact hnew f hf
    · exact hk f hf
  obtain ⟨control, stack⟩ := t
  obtain ⟨hcontrol, hstack⟩ := ht
  cases control with
  | eval s n => exact whole (evaluate_actsIn hcontrol) hstack
  | value v =>
    cases stack with
    | nil => exact whole (.keep trivial) hstack
    | cons f k =>
      obtain ⟨hf, hk⟩ := List.forall_mem_cons.1 hstack
      exact whole (resume_actsIn hf hfresh hout) hk
  | raise e =>
    cases stack with
    | nil => exact whole (.keep trivial) hstack
    | cons f k => exact whole unwind_actsIn (List.forall_mem_cons.1 hstack).2
  | send c v => exact whole (.keep trivial) hstack
  | receive c => exact whole (.keep trivial) hstack
  | crash detail => exact whole (.keep trivial) hstack

/-! ### Runs -/

/-- A run that never reaches out keeps the scopes that it does not act in. New scopes are its
own. -/
lemma solo_actsIn (h : solo fuel σ t = some (σ', t')) (ht : t.ActsIn P)
    (hnew : ∀ i, σ.heap.size ≤ i → P i)
    (hout : ∀ n τ u, solo n σ t = some (τ, u) → u.reachesOut = false) :
    ∀ i sc, ¬ P i → σ.heap.get? i = some sc → σ'.heap.get? i = some sc := by
  induction fuel generalizing σ t with
  | zero =>
    cases h
    exact fun _ _ _ hget => hget
  | succ fuel ih =>
    obtain ⟨hs, hrun⟩ := solo_succ_eq_some h
    have hhere : t.reachesOut = false := hout 0 σ t rfl
    obtain ⟨hthread, hstore⟩ :=
      step_actsIn (σ := σ) ht (hnew _ le_rfl) fun hreaches => by simp [hhere] at hreaches
    have hgrows := (step_change σ t).grows.1
    have hlater := ih hrun hthread (fun i hi => hnew i (le_trans hgrows hi)) fun n τ u hn =>
      hout (n + 1) τ u (by rwa [solo_succ hs])
    exact fun i sc hi hget => hlater i sc hi (hstore i sc hi hget)

/-- In the course of an evaluation, no name is updated and no form is evaluated in a scope that
is a value. -/
def StaysIn (σ : Store) (e : ScopeId) (n : Node) : Prop :=
  ∀ fuel σ' t, Pool.run fuel ⟨σ, [.start e n]⟩ = ⟨σ', [t]⟩ → t.reachesOut = false

/-- **Definitions are local**: an evaluation that updates nothing and evaluates nothing in a
scope that is a value leaves every scope that was there as it was, but for its own. -/
theorem completes_defines_locally {e : ScopeId} {n : Node} {a : Answer}
    (h : Completes σ e n σ' a) (hin : StaysIn σ e n) :
    ∀ i sc, i ≠ e → σ.heap.get? i = some sc → σ'.heap.get? i = some sc := by
  obtain ⟨fuel, t, hrun, -⟩ := completes_iff_solo.1 h
  have hstart : (Thread.start e n).ActsIn fun i => i = e ∨ σ.heap.size ≤ i :=
    ⟨.inl rfl, by simp [Thread.start]⟩
  have hkept := solo_actsIn hrun hstart (fun i hi => .inr hi) fun m τ u hm =>
    hin m τ u (Pool.run_single.2 hm)
  intro i sc hi hget
  refine hkept i sc ?_ hget
  rintro (rfl | hle)
  · exact hi rfl
  · rw [Heap.get?, Array.getElem?_eq_none hle] at hget
    cases hget

/-! ### A scope inside another -/

/-- An evaluation that has ended reaches out before its end or not at all. -/
lemma staysIn_of_solo {e : ScopeId} {n : Node} (h : solo fuel σ (.start e n) = some (σ', t))
    (ht : t.canStep = false)
    (hsteps : ∀ m ≤ fuel, (solo m σ (.start e n)).all (fun r => !r.2.reachesOut) = true) :
    StaysIn σ e n := by
  have hstep {m : Nat} {τ : Store} {u : Thread} (hm : m ≤ fuel)
      (hrun : solo m σ (.start e n) = some (τ, u)) : u.reachesOut = false := by
    simpa [hrun] using hsteps m hm
  intro m τ u hrun
  have hrun := Pool.run_single.1 hrun
  rcases Nat.le_total m fuel with hle | hle
  · exact hstep hle hrun
  · have hend := solo_le hle h ht
    rw [hrun] at hend
    cases hend
    exact hstep le_rfl h

/-- A call of a special form. -/
def Form.call (f : Form) (args : List Node) : Node :=
  .call (.primitive (.builtin (.form f)) :: args) none

/-- A form that defines `x`. -/
def definesX (n : Int64) : Node := Form.define.call [.symbol "x" none, .int n]

/-- Definitions in the body of a function, beside local bindings, in a form that is evaluated,
and in an expansion. -/
def nestedDefinitions : Node :=
  Form.sequence.call
    [.call [Form.lambda.call [.list [], definesX 1]] none,
      Form.bind.call [.list [], definesX 2],
      Form.evaluate.call [Form.quote.call [definesX 3]],
      .call [Form.transformer.call [.list [.symbol "form" none], .symbol "form" none],
        definesX 4] none]

/-- Two scopes, one inside the other; the outer one binds `x`. -/
def outerAndInner : Store :=
  ⟨⟨#[⟨"outer", none, [("x", .int 0)]⟩, ⟨"inner", some 0, []⟩]⟩, 0, .unlimited⟩

theorem completes_defines_locally_nested :
    ∃ σ', Completes outerAndInner 1 nestedDefinitions σ' (.value (.int 4)) ∧
      StaysIn outerAndInner 1 nestedDefinitions ∧
      σ'.heap.get? 0 = some ⟨"outer", none, [("x", .int 0)]⟩ ∧
      σ'.heap.get? 1 = some ⟨"inner", some 0, [("x", .int 4)]⟩ := by
  have hsolo : solo 64 outerAndInner (.start 1 nestedDefinitions)
      = some (_, ⟨.value (.int 4), []⟩) := rfl
  have hrun := completes_iff_solo.2 ⟨64, _, hsolo, rfl⟩
  have hin : StaysIn outerAndInner 1 nestedDefinitions := staysIn_of_solo hsolo rfl (by decide)
  exact ⟨_, hrun, hin, completes_defines_locally hrun hin 0 _ (by decide) rfl, rfl⟩

end ChannelLisp
