import ChannelLisp.Proofs.Solo
import Mathlib.Tactic

/-!
Evaluations inside evaluations. A thread that has something to do takes no notice of the frames
at the bottom of its stack, so an evaluation with frames below is the evaluation without them,
and then what the frames do with its answer. The operands of a call are evaluated one after
another, and the call acts on their values.
-/

namespace ChannelLisp

/-- The thread with more frames below. -/
def Thread.onto (t : Thread) (k : List Frame) : Thread := { t with stack := t.stack ++ k }

def Turn.onto (r : Turn) (k : List Frame) : Turn := { r with thread := r.thread.onto k }

variable {σ σ' σ₁ : Store} {s e : ScopeId} {k k' : List Frame} {args : List Node}
  {t t' t₁ : Thread} {a b : Answer} {n : Node} {l : Option Location}

/-! ### Steps -/

lemma Thread.body_onto (forms : List Node) :
    Thread.body s forms (k ++ k') = (Thread.body s forms k).onto k' := by
  cases forms <;> rfl

namespace Store

variable {vs : List Node} {target : Target}

lemma enter_onto {kind : Kind} {c : Closure Node} :
    Turn.quiet (σ.enter kind c vs l (k ++ k')) = (Turn.quiet (σ.enter kind c vs l k)).onto k' := by
  unfold enter
  split
  · rfl
  · exact congrArg (Turn.mk _ · none) (Thread.body_onto c.body)

lemma finish_onto :
    Turn.quiet (σ.finish target vs (k ++ k')) = (Turn.quiet (σ.finish target vs k)).onto k' := by
  cases target with
  | function c l => exact enter_onto
  | operation op => rfl
  | output o =>
    simp only [finish, print]
    split <;> rfl

lemma operands_onto {done todo : List Node} :
    Turn.quiet (σ.operands s target done todo (k ++ k'))
      = (Turn.quiet (σ.operands s target done todo k)).onto k' := by
  cases todo with
  | nil => exact finish_onto
  | cons a rest => rfl

lemma bindings_onto {todo body : List Node} :
    Turn.quiet (σ.bindings s todo body (k ++ k'))
      = (Turn.quiet (σ.bindings s todo body k)).onto k' := by
  unfold bindings
  split
  · exact congrArg (Turn.mk _ · none) (Thread.body_onto body)
  · split <;> rfl

end Store

lemma Form.enter_onto (f : Form) :
    f.enter σ s args (k ++ k') = (f.enter σ s args k).onto k' := by
  unfold Form.enter
  split
  case h_8 forms => exact congrArg (Turn.mk σ · none) (Thread.body_onto args)
  case h_9 bs body =>
    cases expectList Form.bind.name bs with
    | error e => rfl
    | ok todo => exact Store.bindings_onto
  all_goals
    first
      | rfl
      | split <;> rfl

lemma Primitive.enter_onto (q : Primitive) :
    q.enter σ s args (k ++ k') = (q.enter σ s args k).onto k' := by
  unfold Primitive.enter
  split
  · split
    · exact Form.enter_onto _
    · exact Store.operands_onto
    · exact Store.operands_onto
    · rfl
  · rfl

lemma apply_onto {callee : Node} :
    apply σ s callee args l (k ++ k') = (apply σ s callee args l k).onto k' := by
  cases callee with
  | primitive q => exact Primitive.enter_onto q
  | function c => exact Store.operands_onto
  | transformer c => exact Store.enter_onto (k := .expansion s :: k)
  | _ => rfl

lemma evaluate_onto : evaluate σ s n (k ++ k') = (evaluate σ s n k).onto k' := by
  cases n with
  | symbol x l =>
    simp only [evaluate]
    split <;> rfl
  | call items l => cases items <;> rfl
  | _ => rfl

lemma resume_onto (f : Frame) (v : Node) :
    resume σ f v (k ++ k') = (resume σ f v k).onto k' := by
  cases f with
  | operator s args l => exact apply_onto (k := .locate l :: k)
  | operands s target done todo => exact Store.operands_onto
  | branch s yes no? =>
    simp only [resume]
    split
    · rfl
    · cases no? <;> rfl
  | assign s x l =>
    simp only [resume]
    split <;> rfl
  | sequence s todo => cases todo <;> rfl
  | binding s x todo body => exact Store.bindings_onto
  | evaluate s there? => cases there? <;> rfl
  | within form => cases v <;> rfl
  | sendOn s form => cases v <;> rfl
  | receiveFrom => cases v <;> rfl
  | locate _ | define _ _ | sendValue _ | expansion _ | detached => rfl

/-- A thread that has a step takes it whatever is below. -/
lemma step_onto (h : t.canStep = true) (σ : Store) (k : List Frame) :
    step σ (t.onto k) = (step σ t).onto k := by
  obtain ⟨control, stack⟩ := t
  cases control with
  | eval s n => exact congrArg (Turn.mk σ · none) evaluate_onto
  | value v =>
    cases stack with
    | nil => cases h
    | cons f stack => exact resume_onto f v
  | raise e =>
    cases stack with
    | nil => cases h
    | cons f stack => cases f <;> rfl
  | _ => cases h

/-! ### Runs -/

/-- The thread gets there by its own steps, and starts no other on the way. -/
def Leads (σ : Store) (t : Thread) (σ' : Store) (t' : Thread) : Prop :=
  ∃ n, solo n σ t = some (σ', t')

def Ends (σ : Store) (t : Thread) (σ' : Store) (a : Answer) : Prop :=
  ∃ t', Leads σ t σ' t' ∧ t'.answer? = some a

/-- As long as the thread goes on, it starts no other. -/
def Quiet (σ : Store) (t : Thread) : Prop := ∀ n, (solo n σ t).isSome

lemma completes_iff_ends : Completes σ e n σ' a ↔ Ends σ (.start e n) σ' a := by
  rw [completes_iff_solo]
  constructor
  · rintro ⟨fuel, t, hrun, ht⟩
    exact ⟨t, ⟨fuel, hrun⟩, ht⟩
  · rintro ⟨t, ⟨fuel, hrun⟩, ht⟩
    exact ⟨fuel, t, hrun, ht⟩

lemma alone_iff_quiet : Alone σ e n ↔ Quiet σ (.start e n) := by
  simp [alone_iff_solo, Quiet, Option.isSome_iff_exists]

lemma solo_isSome_of_add {n m : Nat} (h : (solo (n + m) σ t).isSome) : (solo n σ t).isSome := by
  induction n generalizing σ t with
  | zero => rfl
  | succ n ih =>
    obtain ⟨⟨σ', t'⟩, hrun⟩ := Option.isSome_iff_exists.1 h
    rw [Nat.succ_add] at hrun
    obtain ⟨hs, hrest⟩ := solo_succ_eq_some hrun
    rw [solo_succ hs]
    exact ih (Option.isSome_iff_exists.2 ⟨_, hrest⟩)

lemma leads_of_step (h : step σ t = ⟨σ', t', none⟩) : Leads σ t σ' t' :=
  ⟨1, by rw [solo_succ (by rw [h]), h]; rfl⟩

namespace Leads

lemma refl : Leads σ t σ t := ⟨0, rfl⟩

lemma trans (h : Leads σ t σ₁ t₁) (h' : Leads σ₁ t₁ σ' t') : Leads σ t σ' t' := by
  obtain ⟨n, hn⟩ := h
  obtain ⟨m, hm⟩ := h'
  exact ⟨n + m, (solo_add hn).trans hm⟩

/-- Where a thread ends is where it ends from any state on its way. -/
lemma ends_iff (h : Leads σ t σ₁ t₁) : Ends σ t σ' a ↔ Ends σ₁ t₁ σ' a := by
  constructor
  · rintro ⟨t', ⟨m, hm⟩, ht'⟩
    obtain ⟨n, hn⟩ := h
    have hlong := solo_le (Nat.le_add_left m n) hm (canStep_of_answer? ht')
    exact ⟨t', ⟨m, (solo_add hn).symm.trans hlong⟩, ht'⟩
  · rintro ⟨t', ht, ht'⟩
    exact ⟨t', h.trans ht, ht'⟩

lemma quiet_iff (h : Leads σ t σ₁ t₁) : Quiet σ t ↔ Quiet σ₁ t₁ := by
  obtain ⟨n, hn⟩ := h
  constructor
  · intro hq m
    rw [← solo_add hn]
    exact hq (n + m)
  · intro hq m
    apply solo_isSome_of_add (m := n)
    rw [Nat.add_comm, solo_add hn]
    exact hq m

/-- The frames below do not matter until they are reached. -/
lemma onto (h : Leads σ t σ' t') (k : List Frame) : Leads σ (t.onto k) σ' (t'.onto k) := by
  obtain ⟨n, hn⟩ := h
  induction n generalizing σ t with
  | zero =>
    cases hn
    exact refl
  | succ n ih =>
    cases hc : t.canStep with
    | false =>
      rw [solo_of_not_canStep hc] at hn
      cases hn
      exact refl
    | true =>
      obtain ⟨hs, hrest⟩ := solo_succ_eq_some hn
      have hstep : step σ (t.onto k) = ⟨(step σ t).store, (step σ t).thread.onto k, none⟩ := by
        rw [step_onto hc, Turn.onto, hs]
      exact (leads_of_step hstep).trans (ih hrest)

end Leads

lemma Thread.eq_of_answer?_value {v : Node} (h : t.answer? = some (.value v)) :
    t = ⟨.value v, []⟩ := by
  obtain ⟨control, stack⟩ := t
  cases control <;> cases stack <;> simp_all [Thread.answer?]

/-- A value is handed to the frames below. -/
lemma Completes.leads {v : Node} (h : Completes σ e n σ' (.value v)) (k : List Frame) :
    Leads σ ⟨.eval e n, k⟩ σ' ⟨.value v, k⟩ := by
  obtain ⟨t, hleads, ht⟩ := completes_iff_ends.1 h
  obtain rfl := Thread.eq_of_answer?_value ht
  exact hleads.onto k

/-! ### The place of a call -/

def Answer.withLocation (l : Option Location) : Answer → Answer
  | .error e => .error (e.withLocation l)
  | a => a

lemma Answer.withLocation_none (a : Answer) : a.withLocation none = a := by
  cases a <;> simp [Answer.withLocation, EvalError.withLocation]

/-- An answer that reaches the frame of a call goes on with the place of the call. -/
lemma ends_ofAnswer (σ : Store) (a : Answer) (l : Option Location) :
    Ends σ ⟨.ofAnswer a, [.locate l]⟩ σ (a.withLocation l) := by
  cases a with
  | value v => exact ⟨⟨.value v, []⟩, leads_of_step rfl, rfl⟩
  | error e => exact ⟨⟨.raise (e.withLocation l), []⟩, leads_of_step rfl, rfl⟩
  | crash detail => exact ⟨⟨.crash detail, [.locate l]⟩, .refl, rfl⟩

lemma Ends.unique (h : Ends σ t σ' a) (h' : Ends σ t σ₁ b) : σ' = σ₁ ∧ a = b := by
  obtain ⟨t', hleads, ht'⟩ := h
  obtain ⟨t₁, ⟨n, hn⟩, ht₁⟩ := hleads.ends_iff.1 h'
  rw [solo_of_not_canStep (canStep_of_answer? ht')] at hn
  cases hn
  exact ⟨rfl, Option.some.inj (ht'.symm.trans ht₁)⟩

lemma ends_onto_of_answer? (h : t.answer? = some a) (l : Option Location) :
    Ends σ (t.onto [.locate l]) σ (a.withLocation l) := by
  obtain ⟨control, stack⟩ := t
  cases control with
  | value v =>
    cases stack with
    | nil =>
      cases h
      exact ends_ofAnswer σ (.value v) l
    | cons f stack => cases h
  | raise e =>
    cases stack with
    | nil =>
      cases h
      exact ends_ofAnswer σ (.error e) l
    | cons f stack => cases h
  | crash detail =>
    obtain rfl : .crash detail = a := by simpa [Thread.answer?] using h
    exact ⟨_, .refl, rfl⟩
  | _ => cases h

/-- A thread that neither ends nor has a step stands at a channel, with any frames below. -/
lemma onto_stuck (h : t.canStep = false) (ha : t.answer? = none) (k : List Frame) :
    (t.onto k).canStep = false ∧ (t.onto k).answer? = none := by
  obtain ⟨control, stack⟩ := t
  cases control with
  | eval => cases h
  | value => cases stack <;> [cases ha; cases h]
  | raise => cases stack <;> [cases ha; cases h]
  | crash => cases ha
  | send | receive => exact ⟨rfl, rfl⟩

lemma canStep_onto (h : t.canStep = true) (k : List Frame) : (t.onto k).canStep = true := by
  obtain ⟨control, stack⟩ := t
  cases control <;> cases stack <;> first | rfl | cases h

/-- What is above the frames ends before the frames do. -/
lemma Ends.of_onto (h : Ends σ (t.onto k) σ' b) : ∃ σ₁ a, Ends σ t σ₁ a := by
  obtain ⟨t', ⟨n, hn⟩, ht'⟩ := h
  induction n generalizing σ t with
  | zero =>
    cases hn
    cases ha : t.answer? with
    | some a => exact ⟨_, a, t, .refl, ha⟩
    | none =>
      have hc := canStep_of_answer? ht'
      cases hct : t.canStep with
      | true => rw [canStep_onto hct] at hc; cases hc
      | false => rw [(onto_stuck hct ha k).2] at ht'; cases ht'
  | succ n ih =>
    cases ha : t.answer? with
    | some a => exact ⟨σ, a, t, .refl, ha⟩
    | none =>
      cases hct : t.canStep with
      | true =>
        obtain ⟨hs, hrest⟩ := solo_succ_eq_some hn
        rw [step_onto hct] at hs hrest
        obtain ⟨σ₁, a, t₁, hleads, ht₁⟩ := ih hrest
        exact ⟨σ₁, a, t₁, (leads_of_step (congrArg (Turn.mk _ _) hs)).trans hleads, ht₁⟩
      | false =>
        obtain ⟨hstuck, hnone⟩ := onto_stuck hct ha k
        rw [solo_of_not_canStep hstuck] at hn
        cases hn
        rw [hnone] at ht'
        cases ht'

/-- The frame of a call does nothing but give its place to an error. -/
lemma ends_locate_iff : Ends σ (t.onto [.locate l]) σ' b
    ↔ ∃ a, Ends σ t σ' a ∧ b = a.withLocation l := by
  have forth {σ' : Store} {a : Answer} (h : Ends σ t σ' a) :
      Ends σ (t.onto [.locate l]) σ' (a.withLocation l) := by
    obtain ⟨t', hleads, ht'⟩ := h
    exact (hleads.onto _).ends_iff.2 (ends_onto_of_answer? ht' l)
  constructor
  · intro h
    obtain ⟨σ₁, a, ha⟩ := h.of_onto
    obtain ⟨rfl, rfl⟩ := h.unique (forth ha)
    exact ⟨a, ha, rfl⟩
  · rintro ⟨a, ha, rfl⟩
    exact forth ha

lemma Ends.quiet (h : Ends σ t σ' a) : Quiet σ t := by
  obtain ⟨t', ⟨n, hn⟩, ht'⟩ := h
  intro m
  apply solo_isSome_of_add (m := n)
  rw [solo_le (Nat.le_add_left n m) hn (canStep_of_answer? ht')]
  rfl

lemma isSome_solo_locate (n : Nat) :
    (solo n σ (t.onto [.locate l])).isSome = (solo n σ t).isSome := by
  induction n generalizing σ t with
  | zero => rfl
  | succ n ih =>
    cases hc : t.canStep with
    | true =>
      rw [solo, solo, step_onto hc]
      dsimp only [Turn.onto]
      split
      · exact ih
      · rfl
    | false =>
      rw [solo_of_not_canStep hc]
      cases ha : t.answer? with
      | some a => exact (ends_onto_of_answer? ha l).quiet (n + 1)
      | none =>
        rw [solo_of_not_canStep (onto_stuck hc ha _).1]
        rfl

lemma quiet_locate_iff : Quiet σ (t.onto [.locate l]) ↔ Quiet σ t :=
  forall_congr' fun n => by rw [isSome_solo_locate]

/-! ### Operands -/

/-- Evaluating the forms one after another ends with the values. -/
inductive CompletesAll (e : ScopeId) : Store → List Node → Store → List Node → Prop
  | nil {σ : Store} : CompletesAll e σ [] σ []
  | cons {σ σ₁ σ' : Store} {n v : Node} {ns vs : List Node} : Completes σ e n σ₁ (.value v) →
      CompletesAll e σ₁ ns σ' vs → CompletesAll e σ (n :: ns) σ' (v :: vs)

lemma CompletesAll.length_eq {vs : List Node} (h : CompletesAll e σ args σ' vs) :
    vs.length = args.length := by
  induction h with
  | nil => rfl
  | cons _ _ ih => exact congrArg (· + 1) ih

/-- Operands are evaluated from left to right, and then acted on. -/
lemma CompletesAll.leads {vs : List Node} (h : CompletesAll e σ args σ' vs) (goal : Target)
    (done : List Node) (k : List Frame) :
    Leads (σ.operands e goal done args k).1 (σ.operands e goal done args k).2
      (σ'.finish goal (done.reverse ++ vs) k).1 (σ'.finish goal (done.reverse ++ vs) k).2 := by
  induction h generalizing done with
  | nil =>
    rw [List.append_nil]
    exact .refl
  | @cons σ σ₁ σ' n v ns vs hn _ ih =>
    have hvalue : Leads σ ⟨.eval e n, .operands e goal done ns :: k⟩ σ₁
        ⟨.value v, .operands e goal done ns :: k⟩ := hn.leads _
    have hnext := ih (v :: done)
    rw [List.reverse_cons, List.append_assoc] at hnext
    exact hvalue.trans ((leads_of_step rfl).trans hnext)

lemma operands_operation {op : Operation} {vs : List Node} :
    σ.operands e (.operation op) vs.reverse [] k = (σ, ⟨.ofAnswer (op.run vs), k⟩) := by
  rw [Store.operands, List.reverse_reverse, Store.finish]

/-- A call of an operation evaluates the head, then the operands, and ends with what the
operation gives for their values. -/
lemma completes_operation {σ₀ : Store} {head : Node} {vs : List Node} {op : Operation}
    (hhead : Completes σ e head σ₀ (.value (.primitive (.builtin (.operation op)))))
    (hcount : op.arity.accepts args.length = true) (hargs : CompletesAll e σ₀ args σ' vs) :
    Completes σ e (.call (head :: args) l) σ' ((op.run vs).withLocation l) := by
  have hcall : Leads σ (.start e (.call (head :: args) l)) σ
      ⟨.eval e head, [.operator e args l]⟩ := leads_of_step rfl
  have hstep : step σ₀ ⟨.value (.primitive (.builtin (.operation op))), [.operator e args l]⟩
      = .quiet (σ₀.operands e (.operation op) [] args [.locate l]) := if_pos hcount
  have hleads := hcall.trans ((hhead.leads _).trans
    ((leads_of_step hstep).trans (hargs.leads (.operation op) [] [.locate l])))
  exact completes_iff_ends.2 (hleads.ends_iff.2 (ends_ofAnswer σ' (op.run vs) l))

end ChannelLisp
