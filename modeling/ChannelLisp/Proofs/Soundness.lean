import ChannelLisp.Proofs.Arithmetic
import ChannelLisp.Proofs.Containment
import ChannelLisp.Proofs.Cursor
import ChannelLisp.Session
import Mathlib.Tactic

/-!
The language does not crash its host. A crash is a procedure of the host breaking down or a
primitive that is entered without an argument it needs. A session that was given sources only
has no procedure of the host anywhere in its store or its threads, and an operation whose
operands are being evaluated has as many of them as it takes. Both are kept by every step, so
by every schedule, and neither the prelude nor redefinitions of names make a difference.
-/

namespace ChannelLisp

/-! ### Arguments in the right number -/

lemma Arity.accepts_iff {a : Arity} {n : Nat} :
    a.accepts n = true ↔ a.least ≤ n ∧ ∀ m ∈ a.most, n ≤ m := by
  obtain ⟨least, most⟩ := a
  cases most <;> simp [accepts]

lemma Arity.accepts_exactly {m n : Nat} : (Arity.exactly m).accepts n = true ↔ n = m := by
  have hmost : (∀ x ∈ (Arity.exactly m).most, n ≤ x) ↔ n ≤ m := by simp [exactly]
  rw [accepts_iff, hmost]
  exact ⟨fun h => le_antisymm h.2 h.1, fun h => ⟨h.ge, h.le⟩⟩

def Answer.Sound : Answer → Prop
  | .crash _ => False
  | _ => True

def Control.Sound : Control → Prop
  | .crash _ => False
  | _ => True

/-- A number of operands is one that the target takes. What closures take is checked when
their operands are there. -/
def Target.Takes : Target → Nat → Prop
  | .operation op, n => op.arity.accepts n
  | .function _ _, _ | .output _, _ => True

/-- If operands are being evaluated, they are in the right number. -/
def Frame.Counted : Frame → Prop
  | .operands _ target done todo => target.Takes (done.length + 1 + todo.length)
  | _ => True

/-- The thread has not crashed, and all operands on the way are in the right number. -/
structure Thread.Sound (t : Thread) : Prop where
  control : t.control.Sound
  stack : ∀ f ∈ t.stack, f.Counted

/-- One more frame, on a stack whose operands are in the right number. -/
lemma Thread.Sound.push {c : Control} {f : Frame} {k : List Frame} (hk : ∀ g ∈ k, g.Counted)
    (hc : c.Sound) (hf : f.Counted) : Thread.Sound ⟨c, f :: k⟩ :=
  ⟨hc, List.forall_mem_cons.2 ⟨hf, hk⟩⟩

lemma Answer.sound_ofExcept (r : Except EvalError Node) : (Answer.ofExcept r).Sound := by
  cases r <;> exact trivial

lemma Control.sound_ofAnswer {a : Answer} : (Control.ofAnswer a).Sound ↔ a.Sound := by
  cases a <;> rfl

/-- An operation with as many arguments as its arity allows has all that it needs. -/
lemma Operation.run_sound {op : Operation} {vs : List Node} (h : op.arity.accepts vs.length) :
    (op.run vs).Sound := by
  cases op with
  | add | sub | mul => exact Answer.sound_ofExcept _
  | list => exact trivial
  | div =>
    rcases vs with _ | ⟨v, vs⟩
    · exact absurd h (by decide)
    · exact Answer.sound_ofExcept _
  | mod | less | greater | atMost | atLeast | equal | cons =>
    obtain ⟨a, b, rfl⟩ := List.length_eq_two.1 (Arity.accepts_exactly.1 h)
    exact Answer.sound_ofExcept _
  | first | rest | isEmpty =>
    obtain ⟨l, rfl⟩ := List.length_eq_one_iff.1 (Arity.accepts_exactly.1 h)
    exact Answer.sound_ofExcept _
  | not | kindOf =>
    obtain ⟨v, rfl⟩ := List.length_eq_one_iff.1 (Arity.accepts_exactly.1 h)
    exact trivial

variable {σ : Store} {s : ScopeId} {k : List Frame} {args : List Node}

lemma Thread.sound_body {forms : List Node} (hk : ∀ f ∈ k, f.Counted) :
    (Thread.body s forms k).Sound := by
  cases forms with
  | nil => exact ⟨trivial, hk⟩
  | cons f fs => exact .push hk trivial trivial

namespace Store

lemma enter_sound {kind : Kind} {c : Closure Node} {vs : List Node} {l : Option Location}
    (hk : ∀ f ∈ k, f.Counted) : (σ.enter kind c vs l k).2.Sound := by
  unfold enter
  split
  · exact ⟨trivial, hk⟩
  · exact Thread.sound_body hk

lemma finish_sound {target : Target} {vs : List Node} (h : target.Takes vs.length)
    (hk : ∀ f ∈ k, f.Counted) : (σ.finish target vs k).2.Sound := by
  cases target with
  | function c l => exact enter_sound hk
  | operation op => exact ⟨Control.sound_ofAnswer.2 (Operation.run_sound h), hk⟩
  | output o =>
    simp only [finish, print]
    split
    · exact ⟨trivial, hk⟩
    · exact ⟨trivial, hk⟩

lemma operands_sound {target : Target} {done todo : List Node}
    (h : target.Takes (done.length + todo.length)) (hk : ∀ f ∈ k, f.Counted) :
    (σ.operands s target done todo k).2.Sound := by
  cases todo with
  | nil => exact finish_sound (by simpa using h) hk
  | cons a rest =>
    have hframe : (Frame.operands s target done rest).Counted := by
      have hcount : done.length + (a :: rest).length = done.length + 1 + rest.length := by
        rw [List.length_cons]
        omega
      rwa [hcount] at h
    exact .push hk trivial hframe

lemma bindings_sound {todo body : List Node} (hk : ∀ f ∈ k, f.Counted) :
    (σ.bindings s todo body k).2.Sound := by
  cases todo with
  | nil => exact Thread.sound_body hk
  | cons b rest =>
    simp only [bindings]
    split
    · exact ⟨trivial, hk⟩
    · exact .push hk trivial trivial

end Store

/-- A special form with as many arguments as its arity allows has all that it needs. -/
lemma Form.enter_sound {f : Form} (h : f.arity.accepts args.length) (hk : ∀ f ∈ k, f.Counted) :
    (f.enter σ s args k).thread.Sound := by
  cases f with
  | quote | spawn =>
    obtain ⟨form, rfl⟩ := List.length_eq_one_iff.1 (Arity.accepts_exactly.1 h)
    exact ⟨trivial, hk⟩
  | receive =>
    obtain ⟨form, rfl⟩ := List.length_eq_one_iff.1 (Arity.accepts_exactly.1 h)
    exact .push hk trivial trivial
  | branch =>
    obtain ⟨hleast, hmost⟩ := Arity.accepts_iff.1 h
    have hmost : args.length ≤ 3 := hmost 3 rfl
    rcases args with _ | ⟨test, _ | ⟨yes, _ | ⟨no, _ | ⟨_, rest⟩⟩⟩⟩
    · exact absurd hleast (by decide : ¬ 2 ≤ 0)
    · exact absurd hleast (by decide : ¬ 2 ≤ 1)
    · exact .push hk trivial trivial
    · exact .push hk trivial trivial
    · simp only [List.length_cons] at hmost
      omega
  | define | update =>
    obtain ⟨x, form, rfl⟩ := List.length_eq_two.1 (Arity.accepts_exactly.1 h)
    simp only [Form.enter]
    split
    · exact ⟨trivial, hk⟩
    · exact .push hk trivial trivial
  | send =>
    obtain ⟨c, form, rfl⟩ := List.length_eq_two.1 (Arity.accepts_exactly.1 h)
    exact .push hk trivial trivial
  | lambda | transformer =>
    rcases args with _ | ⟨params, body⟩
    · exact absurd h (by decide)
    · simp only [Form.enter]
      split
      · exact ⟨trivial, hk⟩
      · exact ⟨trivial, hk⟩
  | sequence => exact Thread.sound_body hk
  | bind =>
    rcases args with _ | ⟨bs, body⟩
    · exact absurd h (by decide)
    · simp only [Form.enter]
      split
      · exact ⟨trivial, hk⟩
      · exact Store.bindings_sound hk
  | evaluate =>
    obtain ⟨hleast, hmost⟩ := Arity.accepts_iff.1 h
    have hmost : args.length ≤ 2 := hmost 2 rfl
    rcases args with _ | ⟨form, _ | ⟨there, _ | ⟨_, rest⟩⟩⟩
    · exact absurd hleast (by decide : ¬ 1 ≤ 0)
    · exact .push hk trivial trivial
    · exact .push hk trivial trivial
    · simp only [List.length_cons] at hmost
      omega
  | here | channel =>
    obtain rfl := List.length_eq_zero_iff.1 (Arity.accepts_exactly.1 h)
    exact ⟨trivial, hk⟩

/-! ### Steps -/

/-- Nothing may occur that a host added. -/
def Policy.builtins : Policy := { any True with primitive := fun q => ∃ b, q = .builtin b }

variable {t u : Thread}

lemma Primitive.enter_sound (b : Builtin) (hk : ∀ f ∈ k, f.Counted) :
    ((Primitive.builtin b).enter σ s args k).thread.Sound := by
  unfold Primitive.enter
  split
  · rename_i h
    cases b with
    | form f => exact Form.enter_sound h hk
    | operation op =>
      have htakes : (Target.operation op).Takes (0 + args.length) := (Nat.zero_add _).symm ▸ h
      exact Store.operands_sound htakes hk
    | output o => exact Store.operands_sound trivial hk
  · exact ⟨trivial, hk⟩

lemma apply_sound {callee : Node} {l : Option Location} (hc : callee.Obeys .builtins)
    (hk : ∀ f ∈ k, f.Counted) : (apply σ s callee args l k).thread.Sound := by
  cases callee with
  | primitive q =>
    obtain ⟨b, rfl⟩ := Node.obeys_primitive.1 hc
    exact Primitive.enter_sound b hk
  | function c => exact Store.operands_sound trivial hk
  | transformer c => exact Store.enter_sound (List.forall_mem_cons.2 ⟨trivial, hk⟩)
  | _ => exact ⟨trivial, hk⟩

lemma evaluate_sound (n : Node) (hk : ∀ f ∈ k, f.Counted) : (evaluate σ s n k).Sound := by
  cases n with
  | symbol x l =>
    simp only [evaluate]
    split
    · exact ⟨trivial, hk⟩
    · exact ⟨trivial, hk⟩
  | call items l =>
    cases items with
    | nil => exact ⟨trivial, hk⟩
    | cons head args => exact .push hk trivial trivial
  | _ => exact ⟨trivial, hk⟩

lemma resume_sound {f : Frame} {v : Node} (hv : v.Obeys .builtins) (hf : f.Counted)
    (hk : ∀ f ∈ k, f.Counted) : (resume σ f v k).thread.Sound := by
  cases f with
  | operator s args l => exact apply_sound hv (List.forall_mem_cons.2 ⟨trivial, hk⟩)
  | operands s target done todo => exact Store.operands_sound hf hk
  | branch s yes no? =>
    simp only [resume]
    split
    · exact ⟨trivial, hk⟩
    · cases no? <;> exact ⟨trivial, hk⟩
  | assign s x l =>
    simp only [resume]
    split
    · exact ⟨trivial, hk⟩
    · exact ⟨trivial, hk⟩
  | sequence s todo =>
    cases todo with
    | nil => exact ⟨trivial, hk⟩
    | cons form forms => exact .push hk trivial trivial
  | binding s x todo body => exact Store.bindings_sound hk
  | evaluate s there? =>
    cases there? with
    | none => exact ⟨trivial, hk⟩
    | some there => exact .push hk trivial trivial
  | within form => cases v <;> exact ⟨trivial, hk⟩
  | sendOn s form =>
    cases v with
    | chan c => exact .push hk trivial trivial
    | _ => exact ⟨trivial, hk⟩
  | receiveFrom => cases v <;> exact ⟨trivial, hk⟩
  | locate _ | define _ _ | sendValue _ | expansion _ | detached => exact ⟨trivial, hk⟩

lemma unwind_sound {f : Frame} {e : EvalError} (hk : ∀ f ∈ k, f.Counted) :
    (unwind σ f e k).thread.Sound := by
  cases f <;> exact ⟨trivial, hk⟩

/-- A step of a thread that holds no procedure of the host does not crash it. -/
lemma step_sound (ht : t.Sound) (hobeys : t.Obeys .builtins) : (step σ t).thread.Sound := by
  obtain ⟨control, stack⟩ := t
  obtain ⟨hcontrol, hstack⟩ := ht
  cases control with
  | eval s n => exact evaluate_sound n hstack
  | value v =>
    cases stack with
    | nil => exact ⟨trivial, hstack⟩
    | cons f k =>
      obtain ⟨hf, hk⟩ := List.forall_mem_cons.1 hstack
      exact resume_sound hobeys.control hf hk
  | raise e =>
    cases stack with
    | nil => exact ⟨trivial, hstack⟩
    | cons f k => exact unwind_sound (List.forall_mem_cons.1 hstack).2
  | send c v => exact ⟨trivial, hstack⟩
  | receive c => exact ⟨trivial, hstack⟩
  | crash detail => exact hcontrol.elim

/-- The form in a new thread is an argument of the call that started it. -/
lemma Form.spawned?_enter {f : Form} (h : (f.enter σ s args k).spawned? = some u) :
    ∃ n ∈ args, u = .detached s n := by
  by_cases hf : f = .spawn
  · subst hf
    rcases args with _ | ⟨n, _ | ⟨_, _⟩⟩
    · cases h
    · cases h
      exact ⟨n, by simp, rfl⟩
    · cases h
  · -- every other form goes on with the one thread
    unfold Form.enter at h
    split at h
    all_goals
      first
        | exact absurd rfl hf
        | cases h
        | split at h <;> cases h

lemma spawned?_resume {f : Frame} {v : Node} (h : (resume σ f v k).spawned? = some u) :
    ∃ s args l n, f = .operator s args l ∧ n ∈ args ∧ u = .detached s n := by
  cases f with
  | operator s args l =>
    cases v with
    | primitive q =>
      simp only [resume, apply, Primitive.enter] at h
      split at h
      · split at h
        · obtain ⟨n, hn, rfl⟩ := Form.spawned?_enter h
          exact ⟨s, args, l, n, rfl, hn, rfl⟩
        all_goals cases h
      · cases h
    | _ => cases h
  | branch s yes no? =>
    simp only [resume] at h
    split at h
    · cases h
    · cases no? <;> cases h
  | assign s x l =>
    simp only [resume] at h
    split at h <;> cases h
  | sequence s todo => cases todo <;> cases h
  | evaluate s there? => cases there? <;> cases h
  | within form => cases v <;> cases h
  | sendOn s form => cases v <;> cases h
  | receiveFrom => cases v <;> cases h
  | _ => cases h

/-- A thread is started by a call only. -/
lemma spawned?_step (h : (step σ t).spawned? = some u) :
    ∃ s args l k n, t.stack = .operator s args l :: k ∧ n ∈ args ∧ u = .detached s n := by
  obtain ⟨control, stack⟩ := t
  cases control with
  | value v =>
    cases stack with
    | nil => cases h
    | cons f k =>
      obtain ⟨s, args, l, n, rfl, hn, rfl⟩ := spawned?_resume h
      exact ⟨s, args, l, k, n, rfl, hn, rfl⟩
  | raise e =>
    cases stack with
    | nil => cases h
    | cons f k => cases f <;> cases h
  | _ => cases h

lemma Thread.Obeys.spawned? {p : Policy} (ht : t.Obeys p) (hp : p.apart)
    (h : (step σ t).spawned? = some u) : u.Obeys p := by
  obtain ⟨s, args, l, k, n, hstack, hn, rfl⟩ := spawned?_step h
  obtain ⟨hs, hargs, -⟩ := ht.stack (.operator s args l) (by simp [hstack])
  refine ⟨⟨hs, hargs n hn⟩, fun f hf => ?_⟩
  rw [List.mem_singleton.1 hf]
  exact hp

/-! ### Pools -/

/-- Nothing of a host's occurs in the store or in a thread, and no thread has crashed. -/
structure Pool.Sound (p : Pool) : Prop where
  heap : p.store.heap.Obeys .builtins
  threads : ∀ t ∈ p.threads, t.Obeys .builtins ∧ t.Sound

lemma Policy.admits_builtins (σ σ' : Store) : Policy.builtins.Admits σ σ' :=
  ⟨fun _ _ _ => trivial, fun _ _ _ => trivial⟩

/-- A step leaves a store, a thread and perhaps a new thread of which the same holds. -/
lemma step_safe (hσ : σ.heap.Obeys .builtins) (ht : t.Obeys .builtins ∧ t.Sound) :
    (step σ t).store.heap.Obeys .builtins ∧
      ∀ u, u = (step σ t).thread ∨ u ∈ (step σ t).spawned? → u.Obeys .builtins ∧ u.Sound := by
  have hallowed := step_allowed hσ ht.1
  refine ⟨hallowed.change.obeys hσ, ?_⟩
  rintro u (rfl | hu)
  · exact ⟨hallowed.thread (Policy.admits_builtins _ _), step_sound ht.2 ht.1⟩
  · refine ⟨ht.1.spawned? trivial hu, ?_⟩
    obtain ⟨s, args, l, k, n, -, -, rfl⟩ := spawned?_step hu
    exact ⟨trivial, by simp [Thread.detached, Frame.Counted]⟩

lemma resumeWith_safe {v : Node} (ht : t.Obeys .builtins ∧ t.Sound) (hv : v.Obeys .builtins) :
    (t.resumeWith v).Obeys .builtins ∧ (t.resumeWith v).Sound :=
  ⟨⟨hv, ht.1.stack⟩, ⟨trivial, ht.2.stack⟩⟩

namespace Pool.Sound

variable {p : Pool}

/-- Whatever moves next, the pool stays sound. -/
lemma move (h : p.Sound) (m : Move) : (p.move m).Sound := by
  obtain ⟨store, threads⟩ := p
  cases m with
  | advance i =>
    simp only [Pool.move]
    split
    · exact h
    · rename_i t ht
      obtain ⟨hheap, hsafe⟩ := step_safe h.heap (h.threads t (List.mem_of_getElem? ht))
      refine ⟨hheap, fun u hu => ?_⟩
      rcases List.mem_append.1 hu with hu | hu
      · rcases List.mem_or_eq_of_mem_set hu with hu | rfl
        · exact h.threads u hu
        · exact hsafe _ (.inl rfl)
      · exact hsafe u (.inr (Option.mem_toList.1 hu))
  | handOff i j =>
    simp only [Pool.move]
    split
    · rename_i s r hs hr
      split
      · rename_i c v c' hsend hreceive
        split
        · have hsender := h.threads s (List.mem_of_getElem? hs)
          have hreceiver := h.threads r (List.mem_of_getElem? hr)
          have hv : v.Obeys .builtins := by
            have hcontrol := hsender.1.control
            rw [hsend] at hcontrol
            exact hcontrol.2
          refine ⟨h.heap, fun u hu => ?_⟩
          rcases List.mem_or_eq_of_mem_set hu with hu | rfl
          · rcases List.mem_or_eq_of_mem_set hu with hu | rfl
            · exact h.threads u hu
            · exact resumeWith_safe hsender hv
          · exact resumeWith_safe hreceiver hv
        · exact h
      · exact h
    · exact h

/-- The main thread does not end with a crash. -/
lemma answer?_ne_crash (h : p.Sound) (detail : Option String) :
    p.answer? ≠ some (.crash detail) := by
  intro hanswer
  obtain ⟨t, ht, ha⟩ := Option.bind_eq_some_iff.1 hanswer
  have hcontrol := (h.threads t (List.mem_of_mem_head? ht)).2.control
  obtain ⟨control, stack⟩ := t
  cases control <;> cases stack <;> simp [Thread.answer?, Control.Sound] at ha hcontrol

end Pool.Sound

/-! ### Sessions -/

mutual

/-- What is read has no live object in it, and the places and names of its tokens only; the
name that stands for a quote mark is the one exception. -/
lemma Grammar.Derives.obeys {p : Policy} {file : String} {d : Nat} {ts : List Token} {n : Node}
    (h : Derives file d ts n) (hplace : ∀ t ∈ ts, p.place ⟨file, t.line⟩)
    (hname : ∀ t ∈ ts, ∀ x, t.shape = .atom x → p.name x) (hquote : p.name "quote") :
    n.Obeys p := by
  cases h with
  | @list d o c ts ns ho h hc =>
    have hinside : ∀ t ∈ ts, t ∈ o :: (ts ++ [c]) := fun t ht => by simp [ht]
    have hitems := h.obeys (fun t ht => hplace t (hinside t ht))
      (fun t ht => hname t (hinside t ht)) hquote
    exact .call hitems (by simpa [Policy.place?] using hplace o List.mem_cons_self)
  | @quote d q ts n hq h =>
    have hloc : p.place? (some ⟨file, q.line⟩) := by
      simpa [Policy.place?] using hplace q List.mem_cons_self
    have hform := h.obeys (fun t ht => hplace t (List.mem_cons_of_mem _ ht))
      (fun t ht => hname t (List.mem_cons_of_mem _ ht)) hquote
    exact .call (List.forall_mem_cons.2 ⟨.symbol hquote hloc, by simpa using hform⟩) hloc
  | @string t s ht =>
    exact .literal (by simpa [Policy.place?] using hplace t List.mem_cons_self)
  | @atom t s n ht h =>
    have hloc : p.place? (some ⟨file, t.line⟩) := by
      simpa [Policy.place?] using hplace t List.mem_cons_self
    cases h with
    | symbol _ _ => exact .symbol (hname t List.mem_cons_self s ht) hloc
    | _ => exact .literal hloc

lemma Grammar.DerivesAll.obeys {p : Policy} {file : String} {d : Nat} {ts : List Token}
    {ns : List Node} (h : DerivesAll file d ts ns) (hplace : ∀ t ∈ ts, p.place ⟨file, t.line⟩)
    (hname : ∀ t ∈ ts, ∀ x, t.shape = .atom x → p.name x) (hquote : p.name "quote") :
    ∀ n ∈ ns, n.Obeys p := by
  cases h with
  | nil => simp
  | cons h hs =>
    refine List.forall_mem_cons.2 ⟨h.obeys ?_ ?_ hquote, hs.obeys ?_ ?_ hquote⟩
    · exact fun t ht => hplace t (List.mem_append_left _ ht)
    · exact fun t ht => hname t (List.mem_append_left _ ht)
    · exact fun t ht => hplace t (List.mem_append_right _ ht)
    · exact fun t ht => hname t (List.mem_append_right _ ht)

end

lemma obeys_of_mem_read {p : Policy} {source label : String} {n : Node}
    (h : n ∈ (read source label).1)
    (hplace : ∀ t ∈ tokenize source, t.shape ≠ .eof → p.place ⟨label, t.line⟩)
    (hname : ∀ t ∈ tokenize source, ∀ x, t.shape = .atom x → p.name x)
    (hquote : p.name "quote") : n.Obeys p := by
  obtain ⟨_, _, us, hus, hder⟩ := Reader.derives_of_mem_program h
  exact hder.obeys (fun t ht => hplace t (hus ht) (hder.shape_ne_eof t ht))
    (fun t ht => hname t (hus ht)) hquote

/-- What is read has no primitive in it. -/
lemma builtins_of_mem_read {source label : String} {n : Node} (h : n ∈ (read source label).1) :
    n.Obeys .builtins :=
  obeys_of_mem_read h (fun _ _ _ => trivial) (fun _ _ _ _ => trivial) trivial

/-- The states in the life of sessions that were given sources only, whatever the schedule. A
form of a source may be started at any time and beside any threads; any thread may move; lines
may be reported; and threads may be dropped once nobody asks for them. -/
inductive Live : Pool → Prop
  | bare (sink : Sink) : Live ⟨(Session.bare sink).store, []⟩
  | submit {p : Pool} {source label : String} {n : Node} :
      Live p → n ∈ (read source label).1 → Live ⟨p.store, .start Session.top n :: p.threads⟩
  | move {p : Pool} (m : Move) : Live p → Live (p.move m)
  | report {p : Pool} (sink : Sink) : Live p → Live ⟨{ p.store with sink := sink }, p.threads⟩
  | drop {p : Pool} {ts : List Thread} : Live p → ts ⊆ p.threads → Live ⟨p.store, ts⟩

lemma topLevel_obeys {p : Policy} (hp : ∀ b, p.primitive (.builtin b)) :
    Session.topLevel.Obeys p := by
  refine ⟨by simp [Session.topLevel], fun b hb => ?_⟩
  obtain ⟨c, -, rfl⟩ := List.mem_map.1 hb
  exact .primitive (hp c)

/-- At first there is one scope. -/
lemma get?_bare {sink : Sink} {i : ScopeId} {s : Scope}
    (hs : (Session.bare sink).store.heap.get? i = some s) :
    i = Session.top ∧ s = Session.topLevel := by
  have hpush : (Heap.empty.push Session.topLevel).get? i = some s := hs
  rw [Heap.get?_push] at hpush
  split at hpush
  · rename_i hi
    exact ⟨hi, (Option.some.inj hpush).symm⟩
  · simp [Heap.get?, Heap.empty] at hpush

/-- The first heap obeys if the primitives of the language may occur. -/
lemma heap_bare_obeys {p : Policy} (hp : ∀ b, p.primitive (.builtin b)) (sink : Sink) :
    (Session.bare sink).store.heap.Obeys p := by
  intro i s _ hs
  rw [(get?_bare hs).2]
  exact topLevel_obeys hp

lemma Live.sound {p : Pool} (h : Live p) : p.Sound := by
  induction h with
  | bare sink => exact ⟨heap_bare_obeys (p := .builtins) (fun b => ⟨b, rfl⟩) sink, by simp⟩
  | @submit _ _ _ n _ hn ih =>
    have hobeys := Thread.obeys_start (s := Session.top) trivial (builtins_of_mem_read hn)
    have hsound : (Thread.start Session.top n).Sound := ⟨trivial, by simp [Thread.start]⟩
    exact ⟨ih.heap, List.forall_mem_cons.2 ⟨⟨hobeys, hsound⟩, ih.threads⟩⟩
  | move m _ ih => exact ih.move m
  | report sink _ ih => exact ⟨ih.heap, ih.threads⟩
  | drop _ hts ih => exact ⟨ih.heap, fun t ht => ih.threads t (hts ht)⟩

lemma Live.runUntil {p : Pool} (h : Live p) (stop : Pool → Bool) (fuel time : Nat) :
    Live (p.runUntil stop fuel time) := by
  induction fuel generalizing p time with
  | zero => exact h
  | succ fuel ih =>
    rw [Pool.runUntil]
    split
    · exact h
    · split
      · exact h
      · exact ih (.move _ h) _

namespace Session

/-- The session after sources were submitted to it, one after another. -/
def after (s : Session) (sources : List (String × String)) : Session :=
  sources.foldl (fun s source => (s.evalSource source.1 source.2).1) s

/-- The session is in a state that sources can bring about. -/
def IsLive (s : Session) : Prop := Live ⟨s.store, s.workers⟩

/-- A result of a session that leaves it in such a state, and is no crash. -/
def Safe {α : Type} (r : Session × Outcome α) : Prop := r.1.IsLive ∧ ∀ detail, r.2 ≠ .crash detail

variable {s : Session}

lemma isLive_bare (sink : Sink) : (bare sink).IsLive := .bare sink

lemma IsLive.report (h : s.IsLive) (line : String) : (s.report line).IsLive :=
  Live.report _ h

lemma IsLive.reportFaults (h : s.IsLive) (errors : List ReadError) :
    (s.reportFaults errors).IsLive := by
  unfold Session.reportFaults
  split
  · exact h
  · exact h.report _

/-- A form of a source is evaluated without a crash. -/
lemma IsLive.evalIn (h : s.IsLive) {source label : String} {n : Node}
    (hn : n ∈ (read source label).1) : Safe (s.evalIn top n) := by
  obtain ⟨store, workers, fuel⟩ := s
  have hrun : Live (Pool.run fuel ⟨store, .start top n :: workers⟩) :=
    (Live.submit h hn).runUntil _ fuel 0
  refine ⟨.drop hrun fun t ht => ?_, fun detail hcrash => ?_⟩
  · exact List.mem_of_mem_tail (List.mem_filter.1 ht).1
  · have hanswer := hrun.sound.answer?_ne_crash detail
    simp only [Session.evalIn, perform, Outcome.ofAnswer?] at hcrash
    split at hcrash
    · cases hcrash
    · cases hcrash
    · rename_i detail' ha
      cases hcrash
      exact hanswer ha
    · cases hcrash

/-- What follows a result that is no crash decides. -/
lemma Safe.andThen {α β : Type} {r : Session × Outcome α} {next : Session → α → Session × Outcome β}
    (h : Safe r) (hnext : ∀ s a, s.IsLive → Safe (next s a)) : Safe (andThen r next) := by
  obtain ⟨s, outcome⟩ := r
  cases outcome with
  | ok a => exact hnext s a h.1
  | error e => exact ⟨h.1, nofun⟩
  | crash detail => exact absurd rfl (h.2 detail)
  | stalled => exact ⟨h.1, nofun⟩

lemma IsLive.evalForms (h : s.IsLive) {source label : String} {forms : List Node}
    (hforms : ∀ n ∈ forms, n ∈ (read source label).1) (last : Option Node) :
    Safe (s.evalForms last forms) := by
  induction forms generalizing s last with
  | nil => exact ⟨h, nofun⟩
  | cons n forms ih =>
    obtain ⟨hn, hforms⟩ := List.forall_mem_cons.1 hforms
    exact (h.evalIn hn).andThen fun s' v hs' => ih hs' hforms (some v)

/-- A source is evaluated without a crash, so none is reported. -/
lemma IsLive.evalSource (h : s.IsLive) (source label : String) :
    Safe (s.evalSource source label) := by
  have hsafe : Safe ((s.reportFaults (read source label).2).evalForms none (read source label).1) :=
    (h.reportFaults _).evalForms (fun _ hn => hn) none
  unfold Session.evalSource
  dsimp only
  split
  · rename_i s' detail hcrash
    exact absurd (by rw [hcrash]) (hsafe.2 detail)
  · exact hsafe

lemma isLive_new (sink : Sink) (withPrelude : Bool) : (new sink withPrelude).IsLive := by
  unfold new
  split
  · exact ((isLive_bare sink).evalSource _ _).1
  · exact isLive_bare sink

lemma IsLive.after (h : s.IsLive) (sources : List (String × String)) :
    (s.after sources).IsLive := by
  induction sources generalizing s with
  | nil => exact h
  | cons source sources ih => exact ih (h.evalSource _ _).1

end Session

/-! ### No failure of the host -/

/-- A call of a primitive in a state of a session: the primitive is one of the language, and it
is entered with as many arguments as it takes, or else there is an error and nothing more. -/
lemma Live.enters {p : Pool} (h : Live p) {q : Primitive} {s : ScopeId} {args : List Node}
    {l : Option Location} {k : List Frame}
    (ht : ⟨.value (.primitive q), .operator s args l :: k⟩ ∈ p.threads) :
    ∃ b, q = .builtin b ∧ (b.arity.accepts args.length = true ∨
      step p.store ⟨.value (.primitive q), .operator s args l :: k⟩ =
        ⟨p.store, .raise ⟨.primitiveArity b.name b.arity args.length, none⟩ (.locate l :: k),
          none⟩) := by
  obtain ⟨b, rfl⟩ := Node.obeys_primitive.1 (h.sound.threads _ ht).1.control
  refine ⟨b, rfl, ?_⟩
  by_cases haccepts : b.arity.accepts args.length = true
  · exact .inl haccepts
  · refine .inr ?_
    have harity : (Primitive.builtin b).arity = b.arity := rfl
    simp only [step, resume, apply, Primitive.enter, harity]
    rw [if_neg haccepts]
    rfl

/-- **The language does not fail its host.** Reading a source of less than 2^31 bytes takes no
slice and no index out of range and no count out of its range. In every state of a session,
whatever the schedule, no thread has crashed, an operation whose operands are being evaluated
has as many of them as it takes, and a primitive that is called is one of the language and is
entered with as many arguments as it takes. Arithmetic on words is exact or refused, and an
integer computed from integers is the exact result. So evaluating a source, after any others
and with or without the prelude, is no crash. -/
theorem sources_never_crash :
    (∀ source label : String, source.utf8ByteSize < 2 ^ 31 →
      read? source label = some (read source label)) ∧
    (∀ p, Live p → ∀ t ∈ p.threads, (∀ detail, t.control ≠ .crash detail) ∧
      (∀ f ∈ t.stack, f.Counted) ∧
      ∀ q s args l k, t = ⟨.value (.primitive q), .operator s args l :: k⟩ →
        ∃ b, q = .builtin b ∧ (b.arity.accepts args.length = true ∨
          step p.store t = ⟨p.store,
            .raise ⟨.primitiveArity b.name b.arity args.length, none⟩ (.locate l :: k), none⟩)) ∧
    (Word.Exact Word.add? (· + ·) ∧ Word.Exact Word.sub? (· - ·) ∧ Word.Exact Word.mul? (· * ·) ∧
      Word.Exact Word.div? Int.tdiv ∧ Word.Exact Word.mod? (· % ·)) ∧
    (∀ (op : Operation) (ns : List Int64) (w : Int64),
      op.run (ns.map Node.int) = .value (.int w) →
        op.unbounded? (ns.map Int64.toInt) = some w.toInt) ∧
    ∀ (sink : Sink) (withPrelude : Bool) (sources : List (String × String)),
      ((Session.new sink withPrelude).after sources).IsLive ∧
        ∀ source label detail,
          (((Session.new sink withPrelude).after sources).evalSource source label).2
            ≠ .crash detail := by
  refine ⟨fun source label h => read?_eq h label, fun p hp t ht => ?_,
    ⟨Word.exact_add?, Word.exact_sub?, Word.exact_mul?, Word.exact_div?, Word.exact_mod?⟩,
    fun op ns w => Operation.run_exact, fun sink w sources => ?_⟩
  · have hsound := (hp.sound.threads t ht).2
    refine ⟨fun detail hcrash => ?_, hsound.stack, ?_⟩
    · have hcontrol := hsound.control
      rw [hcrash] at hcontrol
      exact hcontrol
    · rintro q s args l k rfl
      exact hp.enters ht
  · have hlive := (Session.isLive_new sink w).after sources
    exact ⟨hlive, fun source label => (hlive.evalSource source label).2⟩

/-- A session in which an operation is about to be applied to no arguments. -/
lemma live_first : Live ((⟨(Session.bare .unlimited).store,
    [.start Session.top (.call [.symbol "first" (some ⟨"test", 1⟩)] (some ⟨"test", 1⟩))]⟩ :
      Pool).move (.advance 0) |>.move (.advance 0)) := by
  have hread : .call [.symbol "first" (some ⟨"test", 1⟩)] (some ⟨"test", 1⟩) ∈
      (read "(first)" "test").1 := List.mem_singleton.2 rfl
  exact .move _ (.move _ (.submit (.bare .unlimited) hread))

theorem sources_never_crash_first :
    read? "(first)" "test" = some (read "(first)" "test") ∧
      (∃ σ, step σ ⟨.value (.primitive (.builtin (.operation .first))),
          [.operator 0 [] (some ⟨"test", 1⟩)]⟩ =
        ⟨σ, .raise ⟨.primitiveArity "first" (.exactly 1) 0, none⟩ [.locate (some ⟨"test", 1⟩)],
          none⟩) ∧
      (Operation.sub.run [.int 2, .int 5] = .value (.int (-3)) ∧
        Operation.sub.unbounded? [2, 5] = some (-3)) ∧
      ∀ detail, (((Session.new .unlimited true).after [("(first)", "test")]).evalSource "(/ 1)"
        "test").2 ≠ .crash detail := by
  obtain ⟨hread, hstates, -, hexact, hsessions⟩ := sources_never_crash
  have hsub : Operation.sub.run [.int 2, .int 5] = .value (.int (-3)) := rfl
  refine ⟨hread _ _ (by decide), ?_, ⟨hsub, hexact .sub [2, 5] (-3) hsub⟩,
    (hsessions .unlimited true _).2 "(/ 1)" "test"⟩
  obtain ⟨-, -, hcall⟩ := hstates _ live_first _ (List.mem_singleton.2 rfl)
  obtain ⟨b, hb, hcount | hstep⟩ := hcall _ _ _ _ _ rfl
  · cases hb
    exact absurd hcount (by decide)
  · cases hb
    exact ⟨_, hstep⟩

end ChannelLisp
