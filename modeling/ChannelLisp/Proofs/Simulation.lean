import ChannelLisp.Proofs.Containment
import ChannelLisp.Proofs.View
import Mathlib.Tactic

/-!
Two runs in step. Two stores are tied if looking up gives the same in both, up to a view, and
each effect that a step can have keeps them related. A step from tied stores, of a thread and
of the same thread as the view shows it, then leads to related stores and to the same thread
again: nothing else of the store decides what a step does.
-/

namespace ChannelLisp

def Scope.view (w : View) (s : Scope) : Scope :=
  ⟨s.name, s.parent?.map w.scope, s.bindings.map (Prod.map id (Node.view w))⟩

def Target.view (w : View) : Target → Target
  | .function c l => .function (c.view w) (w.place l)
  | .operation op => .operation op
  | .output o => .output o

def Frame.view (w : View) : Frame → Frame
  | .operator s args l => .operator (w.scope s) (args.map (Node.view w)) (w.place l)
  | .locate l => .locate (w.place l)
  | .operands s target done todo =>
    .operands (w.scope s) (target.view w) (done.map (Node.view w)) (todo.map (Node.view w))
  | .branch s yes no? => .branch (w.scope s) (yes.view w) (no?.map (Node.view w))
  | .define s x => .define (w.scope s) x
  | .assign s x l => .assign (w.scope s) x (w.place l)
  | .sequence s todo => .sequence (w.scope s) (todo.map (Node.view w))
  | .binding s x todo body =>
    .binding (w.scope s) x (todo.map (Node.view w)) (body.map (Node.view w))
  | .evaluate s there? => .evaluate (w.scope s) (there?.map (Node.view w))
  | .within form => .within (form.view w)
  | .sendOn s form => .sendOn (w.scope s) (form.view w)
  | .sendValue c => .sendValue c
  | .receiveFrom => .receiveFrom
  | .expansion s => .expansion (w.scope s)
  | .detached => .detached

def Control.view (w : View) : Control → Control
  | .eval s n => .eval (w.scope s) (n.view w)
  | .value v => .value (v.view w)
  | .raise e => .raise (e.view w)
  | .send c v => .send c (v.view w)
  | .receive c => .receive c
  | .crash detail => .crash detail

def Thread.view (w : View) (t : Thread) : Thread :=
  ⟨t.control.view w, t.stack.map (Frame.view w)⟩

/-- What decides a step of a thread that obeys a policy is the same in two stores, and its
effects keep them related. -/
structure Tied (w : View) (p : Policy) (R : Store → Store → Prop) (σ τ : Store) : Prop where
  same : R σ τ
  lookup : ∀ i x, p.scope i → p.name x →
    τ.heap.lookup? (w.scope i) x = (σ.heap.lookup? i x).map (Node.view w)
  holder : ∀ i x, p.scope i → p.name x →
    τ.heap.holder? (w.scope i) x = (σ.heap.holder? i x).map w.scope
  nameOf : ∀ i, p.scope i → τ.heap.nameOf (w.scope i) = σ.heap.nameOf i
  fresh : τ.heap.fresh = w.scope σ.heap.fresh
  push : ∀ s, s.Obeys p → R (σ.pushScope s) (τ.pushScope (s.view w))
  define : ∀ i x v, p.scope i → p.name x → v.Obeys p →
    R (σ.define i x v) (τ.define (w.scope i) x (v.view w))
  nextChannel : τ.nextChannel = σ.nextChannel
  channel : R { σ with nextChannel := σ.nextChannel + 1 }
    { τ with nextChannel := τ.nextChannel + 1 }
  refusal : ∀ (o : Output) text, (o.write τ.sink text).2 = (o.write σ.sink text).2
  print : ∀ (o : Output) text, R { σ with sink := (o.write σ.sink text).1 }
    { τ with sink := (o.write τ.sink text).1 }
  report : p.apart → ∀ e : EvalError, R { σ with sink := σ.sink.report e.text }
    { τ with sink := τ.sink.report (e.view w).text }

/-- The stores are related, and the threads are the same up to the view. -/
structure Turn.Matches (w : View) (R : Store → Store → Prop) (r r' : Turn) : Prop where
  store : R r.store r'.store
  thread : r'.thread = r.thread.view w
  spawned : r'.spawned? = r.spawned?.map (Thread.view w)

variable {w : View} {p : Policy} {R : Store → Store → Prop} {σ τ : Store} {k : List Frame}
  {s : ScopeId}

/-! ### Scopes and arguments -/

lemma put_view (x : String) (v : Node) (bs : List (String × Node)) :
    put x (v.view w) (bs.map (Prod.map id (Node.view w)))
      = (put x v bs).map (Prod.map id (Node.view w)) := by
  induction bs with
  | nil => rfl
  | cons b bs ih =>
    obtain ⟨y, u⟩ := b
    by_cases hy : y = x
    · simp [put, hy]
    · simp [put, hy, ih]

lemma get?_view (x : String) (bs : List (String × Node)) :
    get? x (bs.map (Prod.map id (Node.view w))) = (get? x bs).map (Node.view w) := by
  induction bs with
  | nil => rfl
  | cons b bs ih =>
    obtain ⟨y, u⟩ := b
    by_cases hy : y = x
    · simp [get?, hy]
    · simp [get?, hy, ih]

lemma bindAll_view (xs : List String) (vs : List Node) :
    bindAll xs (vs.map (Node.view w)) = (bindAll xs vs).map (Prod.map id (Node.view w)) := by
  have fold : ∀ (ps bs : List (String × Node)),
      (ps.map (Prod.map id (Node.view w))).foldl (fun bs b => put b.1 b.2 bs)
          (bs.map (Prod.map id (Node.view w)))
        = (ps.foldl (fun bs b => put b.1 b.2 bs) bs).map (Prod.map id (Node.view w)) := by
    intro ps
    induction ps with
    | nil => exact fun bs => rfl
    | cons b ps ih =>
      intro bs
      rw [List.map_cons, List.foldl_cons, List.foldl_cons, ← ih, ← put_view b.1 b.2 bs]
      rfl
  have hzip : xs.zip (vs.map (Node.view w)) = (xs.zip vs).map (Prod.map id (Node.view w)) := by
    rw [List.zip_map_right]
  rw [bindAll_eq_foldl, bindAll_eq_foldl, hzip]
  exact fold _ []

lemma Closure.frame_view (c : Closure Node) (kind : Kind) (vs : List Node)
    (l : Option Location) :
    (c.view w).frame kind (vs.map (Node.view w)) (w.place l)
      = w.result (Scope.view w) (c.frame kind vs l) := by
  unfold Closure.frame
  simp only [List.length_map, Closure.view]
  split
  · simp [Scope.view, Closure.title, bindAll_view]
  · rfl

section Arguments

variable {taker : String}

lemma expectSymbol_view (v : Node) :
    expectSymbol taker (v.view w) = w.result id (expectSymbol taker v) := by
  cases v <;> simp [expectSymbol, EvalError.view, Cause.view, Node.loc?]

lemma expectList_view (v : Node) :
    expectList taker (v.view w) = w.result (List.map (Node.view w)) (expectList taker v) := by
  cases v <;> simp [expectList, EvalError.view, Cause.view, Node.loc?]

lemma expectSymbols_view (vs : List Node) :
    expectSymbols taker (vs.map (Node.view w)) = w.result id (expectSymbols taker vs) := by
  induction vs with
  | nil => rfl
  | cons v vs ih =>
    rw [List.map_cons, expectSymbols, expectSymbols, expectSymbol_view, ih]
    cases expectSymbol taker v <;> cases expectSymbols taker vs <;> rfl

lemma makeClosure_view (params : Node) (body : List Node) :
    makeClosure taker (w.scope s) (params.view w) (body.map (Node.view w))
      = w.result (Closure.view w) (makeClosure taker s params body) := by
  unfold makeClosure
  rw [expectList_view]
  cases expectList taker params with
  | error e => rfl
  | ok ps =>
    simp only [View.result_ok]
    rw [expectSymbols_view]
    cases expectSymbols taker ps <;> rfl

lemma expectBinding_view (b : Node) :
    expectBinding (b.view w) = w.result (Prod.map id (Node.view w)) (expectBinding b) := by
  unfold expectBinding
  rw [expectList_view]
  match expectList Form.bind.name b with
  | .error e => rfl
  | .ok [x, form] =>
    simp only [View.result_ok, List.map_cons, List.map_nil]
    rw [expectSymbol_view]
    cases expectSymbol Form.bind.name x <;> rfl
  | .ok [] | .ok [_] | .ok (_ :: _ :: _ :: _) => simp [EvalError.view, Cause.view]

end Arguments

/-! ### Steps -/

/-- What a host does is the same in every view, up to the view. -/
lemma HostAct.answer_view (act : HostAct) (args : List Node) :
    act.answer (args.map (Node.view w)) = (act.answer args).view w := by
  have hlist : Node.list (args.map (Node.view w)) = (Node.list args).view w := by
    simp [Node.list]
  have hshown : (args.map (Node.view w)).map Node.shown = args.map Node.shown := by
    simp [Function.comp_def]
  unfold HostAct.answer
  rw [hshown, hlist]
  split
  · exact congrArg Answer.value (HostValue.node_view _ _)
  · simp [Answer.view, EvalError.view, Cause.view]
  · rfl

lemma Control.view_ofAnswer (a : Answer) :
    (Control.ofAnswer a).view w = .ofAnswer (a.view w) := by
  cases a <;> rfl

lemma Thread.view_body (forms : List Node) : (Thread.body s forms k).view w
    = .body (w.scope s) (forms.map (Node.view w)) (k.map (Frame.view w)) := by
  cases forms with
  | nil => simp [Thread.body, Thread.view, Control.view]
  | cons f fs => rfl

lemma Thread.answer?_view (w : View) (t : Thread) :
    (t.view w).answer? = t.answer?.map (Answer.view w) := by
  obtain ⟨control, stack⟩ := t
  cases control <;> cases stack <;> rfl

namespace Tied

variable {vs : List Node} {goal : Target} {l : Option Location} {x : String}

/-- A step without an effect on the store. -/
lemma stay (h : Tied w p R σ τ) {t t' : Thread} (ht : t' = t.view w) :
    Turn.Matches w R ⟨σ, t, none⟩ ⟨τ, t', none⟩ := ⟨h.same, ht, rfl⟩

/-- An error that a primitive raises has no place of its own. -/
lemma fail (h : Tied w p R σ τ) {c c' : Cause} (hc : c' = c.view w) :
    Turn.Matches w R ⟨σ, .raise ⟨c, none⟩ k, none⟩
      ⟨τ, .raise ⟨c', none⟩ (k.map (Frame.view w)), none⟩ := by
  refine h.stay ?_
  simp [hc, Thread.view, Thread.raise, Control.view, EvalError.view]

lemma resolve (h : Tied w p R σ τ) (hs : p.scope s) (hx : p.name x) (l : Option Location) :
    τ.heap.resolve (w.scope s) x (w.place l)
      = w.result (Node.view w) (σ.heap.resolve s x l) := by
  unfold Heap.resolve
  rw [h.lookup s x hs hx, h.nameOf s hs]
  cases σ.heap.lookup? s x <;> rfl

lemma target (h : Tied w p R σ τ) (hs : p.scope s) (hx : p.name x) (l : Option Location) :
    τ.heap.target (w.scope s) x (w.place l) = w.result w.scope (σ.heap.target s x l) := by
  unfold Heap.target
  rw [h.holder s x hs hx, h.nameOf s hs]
  cases σ.heap.holder? s x <;> rfl

lemma enter (h : Tied w p R σ τ) (kind : Kind) {c : Closure Node} (hc : c.Obeys p)
    (hvs : ∀ v ∈ vs, v.Obeys p) (hl : p.place? l) :
    Turn.Matches w R (.quiet (σ.enter kind c vs l k)) (.quiet (τ.enter kind (c.view w)
      (vs.map (Node.view w)) (w.place l) (k.map (Frame.view w)))) := by
  have hframe := hc.frame kind hvs hl
  unfold Store.enter
  rw [Closure.frame_view]
  cases hsc : c.frame kind vs l with
  | error e => exact h.stay rfl
  | ok sc =>
    rw [hsc] at hframe
    refine ⟨h.push sc hframe, ?_, rfl⟩
    dsimp only [Turn.quiet, View.result_ok]
    rw [h.fresh, Thread.view_body]
    rfl

lemma printing (h : Tied w p R σ τ) (o : Output) (vs : List Node) :
    Turn.Matches w R (.quiet (σ.print o vs k))
      (.quiet (τ.print o (vs.map (Node.view w)) (k.map (Frame.view w)))) := by
  have htext : (vs.map (Node.view w)).map Node.raw = vs.map Node.raw := by
    simp [Function.comp_def]
  unfold Store.print
  rw [htext]
  refine ⟨h.print o _, ?_, rfl⟩
  dsimp only [Turn.quiet]
  rw [h.refusal]
  split
  · simp [Thread.view, Control.view]
  · simp [Thread.view, Thread.raise, Control.view, EvalError.view, Cause.view]

lemma finish (h : Tied w p R σ τ) (hg : goal.Obeys p) (hvs : ∀ v ∈ vs, v.Obeys p) :
    Turn.Matches w R (.quiet (σ.finish goal vs k)) (.quiet (τ.finish (goal.view w)
      (vs.map (Node.view w)) (k.map (Frame.view w)))) := by
  cases goal with
  | function c l => exact h.enter .function hg.1 hvs hg.2
  | operation op =>
    have hanswer : Control.ofAnswer (op.run (vs.map (Node.view w)))
        = (Control.ofAnswer (op.run vs)).view w := by
      rw [Operation.run_view, Control.view_ofAnswer]
    exact h.stay (congrArg (Thread.mk · _) hanswer)
  | output o => exact h.printing o vs

lemma operands (h : Tied w p R σ τ) (goal : Target) (done todo : List Node)
    (hg : goal.Obeys p) (hd : ∀ v ∈ done, v.Obeys p) :
    Turn.Matches w R (.quiet (σ.operands s goal done todo k))
      (.quiet (τ.operands (w.scope s) (goal.view w) (done.map (Node.view w))
        (todo.map (Node.view w)) (k.map (Frame.view w)))) := by
  cases todo with
  | nil =>
    unfold Store.operands
    rw [List.map_nil, ← List.map_reverse]
    exact h.finish hg fun v hv => hd v (List.mem_reverse.1 hv)
  | cons a rest => exact h.stay rfl

/-- Going on with local bindings leaves the store as it is, so only the thread is compared. -/
lemma bindings (todo body : List Node) :
    (τ.bindings (w.scope s) (todo.map (Node.view w)) (body.map (Node.view w))
        (k.map (Frame.view w))).2
      = (σ.bindings s todo body k).2.view w := by
  cases todo with
  | nil => exact (Thread.view_body body).symm
  | cons b rest =>
    unfold Store.bindings
    simp only [List.map_cons]
    rw [expectBinding_view]
    cases expectBinding b <;> rfl

lemma form (h : Tied w p R σ τ) (f : Form) (hs : p.scope s) (args : List Node) :
    Turn.Matches w R (f.enter σ s args k)
      (f.enter τ (w.scope s) (args.map (Node.view w)) (k.map (Frame.view w))) := by
  cases f with
  | quote | receive =>
    rcases args with _ | ⟨form, _ | ⟨_, _⟩⟩ <;> exact h.stay rfl
  | spawn =>
    rcases args with _ | ⟨form, _ | ⟨_, _⟩⟩
    · exact h.stay rfl
    · exact ⟨h.same, by simp [Form.enter, Thread.view, Control.view], rfl⟩
    · exact h.stay rfl
  | branch =>
    rcases args with _ | ⟨test, _ | ⟨yes, _ | ⟨no, _ | ⟨_, _⟩⟩⟩⟩ <;> exact h.stay rfl
  | define | update =>
    rcases args with _ | ⟨x, _ | ⟨form, _ | ⟨_, _⟩⟩⟩
    · exact h.stay rfl
    · exact h.stay rfl
    · simp only [Form.enter, List.map_cons, List.map_nil, Node.loc?_view]
      rw [expectSymbol_view]
      cases expectSymbol _ x with
      | error e => exact h.stay rfl
      | ok name => exact h.stay rfl
    · exact h.stay rfl
  | lambda | transformer =>
    rcases args with _ | ⟨params, body⟩
    · exact h.stay rfl
    · simp only [Form.enter, List.map_cons]
      rw [makeClosure_view]
      cases makeClosure _ s params body with
      | error e => exact h.stay rfl
      | ok c => exact h.stay (by simp [Thread.view, Control.view])
  | sequence => exact h.stay (Thread.view_body args).symm
  | bind =>
    rcases args with _ | ⟨bs, body⟩
    · exact h.stay rfl
    · simp only [Form.enter, List.map_cons]
      rw [expectList_view]
      cases expectList Form.bind.name bs with
      | error e => exact h.stay rfl
      | ok todo =>
        have hscope : Scope.Obeys p ⟨Form.bind.name, some s, []⟩ := ⟨by simpa using hs, by simp⟩
        refine ⟨?_, ?_, rfl⟩
        · simp only [View.result_ok, Turn.quiet, Store.bindings_fst]
          exact h.push _ hscope
        · simp only [View.result_ok, Turn.quiet]
          rw [h.fresh]
          exact bindings todo body
  | evaluate =>
    rcases args with _ | ⟨form, _ | ⟨there, _ | ⟨_, _⟩⟩⟩ <;> exact h.stay rfl
  | here =>
    rcases args with _ | ⟨_, _⟩
    · refine h.stay ?_
      rw [h.nameOf s hs]
      rfl
    · exact h.stay rfl
  | channel =>
    rcases args with _ | ⟨_, _⟩
    · refine ⟨h.channel, ?_, rfl⟩
      simp only [Form.enter, List.map_nil, h.nextChannel]
      rfl
    · exact h.stay rfl
  | send =>
    rcases args with _ | ⟨c, _ | ⟨form, _ | ⟨_, _⟩⟩⟩ <;> exact h.stay rfl

lemma primitive (h : Tied w p R σ τ) (q : Primitive) (hs : p.scope s) (args : List Node) :
    Turn.Matches w R (q.enter σ s args k)
      (q.enter τ (w.scope s) (args.map (Node.view w)) (k.map (Frame.view w))) := by
  unfold Primitive.enter
  rw [List.length_map]
  split
  · rcases q with (f | op | o) | q
    · exact h.form f hs args
    · exact h.operands (.operation op) [] args trivial (by simp)
    · exact h.operands (.output o) [] args trivial (by simp)
    · refine h.stay ?_
      rw [HostAct.answer_view, ← Control.view_ofAnswer]
      rfl
  · exact h.fail rfl

lemma application (h : Tied w p R σ τ) {callee : Node} {args : List Node} (hs : p.scope s)
    (hc : callee.Obeys p) (hargs : ∀ n ∈ args, n.Obeys p) (hl : p.place? l) :
    Turn.Matches w R (apply σ s callee args l k) (apply τ (w.scope s) (callee.view w)
      (args.map (Node.view w)) (w.place l) (k.map (Frame.view w))) := by
  cases callee with
  | primitive q => exact h.primitive q hs args
  | function c =>
    rw [Node.view_function]
    exact h.operands (.function c l) [] args ⟨Node.obeys_function.1 hc, hl⟩ (by simp)
  | transformer c =>
    rw [Node.view_transformer]
    exact h.enter (k := .expansion s :: k) .transformer (Node.obeys_transformer.1 hc) hargs hl
  | _ => exact h.fail rfl

lemma evaluation (h : Tied w p R σ τ) {n : Node} (hs : p.scope s) (hn : n.Obeys p) :
    evaluate τ (w.scope s) (n.view w) (k.map (Frame.view w)) = (evaluate σ s n k).view w := by
  cases n with
  | symbol x l =>
    simp only [Node.view_symbol, evaluate]
    rw [h.resolve hs (Node.obeys_symbol.1 hn).1]
    cases σ.heap.resolve s x l <;> rfl
  | call items l =>
    rw [Node.view_call]
    cases items <;> rfl
  | function c => simp [evaluate, Thread.view, Control.view]
  | transformer c => simp [evaluate, Thread.view, Control.view]
  | _ => rfl

lemma resumption (h : Tied w p R σ τ) (hσ : σ.heap.Obeys p) {f : Frame} {v : Node}
    (hf : f.Obeys p) (hv : v.Obeys p) :
    Turn.Matches w R (resume σ f v k)
      (resume τ (f.view w) (v.view w) (k.map (Frame.view w))) := by
  cases f with
  | operator s args l =>
    exact h.application (k := .locate l :: k) hf.1 hv hf.2.1 hf.2.2
  | operands s goal done todo =>
    obtain ⟨-, hg, hd, -⟩ := hf
    exact h.operands goal (v :: done) todo hg (List.forall_mem_cons.2 ⟨hv, hd⟩)
  | branch s yes no? =>
    simp only [Frame.view, resume, Node.isTruthy_view]
    split
    · exact h.stay rfl
    · cases no? with
      | none => exact h.stay (by simp [Thread.view, Control.view])
      | some no => exact h.stay rfl
  | define s x =>
    simp only [Frame.view, resume]
    rw [← Node.view_named]
    exact ⟨h.define s x _ hf.1 hf.2 (hv.named x), rfl, rfl⟩
  | assign s x l =>
    obtain ⟨hs, hx, hl⟩ := hf
    have htarget := hσ.target (x := x) hs hl
    simp only [Frame.view, resume]
    rw [h.target hs hx]
    cases hi : σ.heap.target s x l with
    | error e => exact h.stay rfl
    | ok i =>
      rw [hi] at htarget
      exact ⟨h.define i x v htarget hx hv, rfl, rfl⟩
  | sequence s todo =>
    cases todo with
    | nil => exact h.stay rfl
    | cons n todo => exact h.stay rfl
  | binding s x todo body =>
    simp only [Frame.view, resume]
    rw [← Node.view_named]
    refine ⟨?_, bindings todo body, rfl⟩
    simp only [Turn.quiet, Store.bindings_fst]
    exact h.define s x _ hf.1 hf.2.1 (hv.named x)
  | evaluate s there? =>
    cases there? with
    | none => exact h.stay rfl
    | some there => exact h.stay rfl
  | within form =>
    cases v with
    | scope i y => exact h.stay rfl
    | _ => exact h.fail rfl
  | sendOn s form =>
    cases v with
    | chan c => exact h.stay rfl
    | _ => exact h.fail rfl
  | receiveFrom =>
    cases v with
    | chan c => exact h.stay rfl
    | _ => exact h.fail rfl
  | locate | sendValue | expansion | detached => exact h.stay rfl

lemma unwinding (h : Tied w p R σ τ) {f : Frame} (hf : f.Obeys p) (e : EvalError) :
    Turn.Matches w R (unwind σ f e k)
      (unwind τ (f.view w) (e.view w) (k.map (Frame.view w))) := by
  cases f with
  | locate l =>
    refine h.stay ?_
    rw [← EvalError.view_withLocation]
    rfl
  | detached => exact ⟨h.report hf e, by simp [unwind, Frame.view, Thread.view, Control.view], rfl⟩
  | _ => exact h.stay rfl

end Tied

/-- **A step sees no more than the view shows**: from tied stores, a thread and its view take
the same step. -/
theorem step_matches (h : Tied w p R σ τ) (hσ : σ.heap.Obeys p) {t : Thread} (ht : t.Obeys p) :
    Turn.Matches w R (step σ t) (step τ (t.view w)) := by
  obtain ⟨control, stack⟩ := t
  obtain ⟨hcontrol, hstack⟩ := ht
  cases control with
  | eval s n => exact h.stay (h.evaluation hcontrol.1 hcontrol.2)
  | value v =>
    cases stack with
    | nil => exact h.stay rfl
    | cons f k => exact h.resumption hσ (hstack f List.mem_cons_self) hcontrol
  | raise e =>
    cases stack with
    | nil => exact h.stay rfl
    | cons f k => exact h.unwinding (hstack f List.mem_cons_self) e
  | send c v => exact h.stay rfl
  | receive c => exact h.stay rfl
  | crash detail => exact h.stay rfl

/-- If a thread and its view take the same step as long as something holds that steps keep, then
their runs stay in step to the end. -/
lemma solo_lockstep {I : Store → Thread → Prop}
    (hstep : ∀ σ τ t, R σ τ → I σ t → Turn.Matches w R (step σ t) (step τ (t.view w)))
    (hkeep : ∀ σ t, I σ t → I (step σ t).store (step σ t).thread) (fuel : Nat) {t : Thread}
    (h : R σ τ) (ht : I σ t) :
    Option.Rel (fun r r' => R r.1 r'.1 ∧ r'.2 = r.2.view w)
      (solo fuel σ t) (solo fuel τ (t.view w)) := by
  induction fuel generalizing σ τ t with
  | zero => exact .some ⟨h, rfl⟩
  | succ fuel ih =>
    have hmatches := hstep σ τ t h ht
    have hspawned := hmatches.spawned
    cases hs : (step σ t).spawned? with
    | some u =>
      rw [hs] at hspawned
      rw [solo, solo, hs, hspawned]
      exact .none
    | none =>
      rw [hs] at hspawned
      rw [solo_succ hs, solo_succ hspawned, hmatches.thread]
      exact ih hmatches.store (hkeep σ t ht)

/-- If related stores are always tied, runs stay in step to the end, under a policy by which
everything that a run creates may occur. -/
theorem solo_matches (htied : ∀ σ τ, R σ τ → Tied w p R σ τ)
    (hnew : ∀ σ σ' : Store, p.Admits σ σ') (fuel : Nat) {t : Thread} (h : R σ τ)
    (hσ : σ.heap.Obeys p) (ht : t.Obeys p) :
    Option.Rel (fun r r' => R r.1 r'.1 ∧ r'.2 = r.2.view w)
      (solo fuel σ t) (solo fuel τ (t.view w)) := by
  have hkeep (σ : Store) (t : Thread) (ht : σ.heap.Obeys p ∧ t.Obeys p) :
      (step σ t).store.heap.Obeys p ∧ (step σ t).thread.Obeys p := by
    have hallowed := step_allowed ht.1 ht.2
    exact ⟨hallowed.change.obeys ht.1, hallowed.thread (hnew _ _)⟩
  exact solo_lockstep (fun σ τ t h ht => step_matches (htied σ τ h) ht.1 ht.2) hkeep fuel h
    ⟨hσ, ht⟩

end ChannelLisp
