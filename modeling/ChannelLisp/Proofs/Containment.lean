import ChannelLisp.Proofs.Policy
import ChannelLisp.Proofs.Solo
import Mathlib.Tactic

/-!
A step makes nothing up. On the store it has one of five effects, and of the scopes that were
there, it changes only ones that a policy allows. Of a thread that obeys, in a heap whose allowed
scopes hold nodes that obey, it leaves a thread that obeys, once the scope or the channel that
it creates is allowed too. The same holds of a whole run.
-/

namespace ChannelLisp

/-- A scope as calls and local bindings make it: it lies inside another one, and no name is in
it twice. -/
structure Scope.Inner (s : Scope) : Prop where
  parent : ∃ i, s.parent? = some i
  distinct : s.symbols.Nodup

/-- What a step does to the store. -/
inductive Store.Change (p : Policy) (σ : Store) : Store → Prop
  | same : Change p σ σ
  | scope {s : Scope} : s.Inner → s.Obeys p → Change p σ (σ.pushScope s)
  | define {i : ScopeId} {x : String} {v : Node} :
      p.scope i → v.Obeys p → Change p σ (σ.define i x v)
  | channel : Change p σ { σ with nextChannel := σ.nextChannel + 1 }
  | sink {k : Sink} : Change p σ { σ with sink := k }

/-- The scopes and channels of a store that are not in an earlier one may occur. -/
structure Policy.Admits (p : Policy) (σ σ' : Store) : Prop where
  scopes : ∀ i, σ.heap.size ≤ i → i < σ'.heap.size → p.scope i
  channels : ∀ c, σ.nextChannel ≤ c → c < σ'.nextChannel → p.channel c

variable {p : Policy} {σ σ' : Store} {k : List Frame} {s : ScopeId}

/-! ### New scopes -/

lemma distinct_put {x : String} {v : Node} {bs : List (String × Node)}
    (h : (bs.map (·.1)).Nodup) : ((put x v bs).map (·.1)).Nodup := by
  rw [map_fst_put]
  split
  · exact h
  · rename_i hx
    rw [← List.concat_eq_append]
    exact h.concat hx

/-- A repeated parameter is bound once. -/
lemma distinct_bindAll (xs : List String) (vs : List Node) :
    ((bindAll xs vs).map (·.1)).Nodup := by
  have fold : ∀ ps bs : List (String × Node), (bs.map (·.1)).Nodup →
      ((ps.foldl (fun bs b => put b.1 b.2 bs) bs).map (·.1)).Nodup := by
    intro ps
    induction ps with
    | nil => exact fun bs hbs => hbs
    | cons q ps ih => exact fun bs hbs => ih _ (distinct_put hbs)
  rw [bindAll_eq_foldl]
  exact fold _ [] List.nodup_nil

lemma Closure.inner_of_frame {c : Closure Node} {kind : Kind} {vs : List Node}
    {l : Option Location} {sc : Scope} (h : c.frame kind vs l = .ok sc) : sc.Inner := by
  unfold Closure.frame at h
  split at h
  · cases h
    exact ⟨⟨c.scope, rfl⟩, distinct_bindAll _ _⟩
  · cases h

/-! ### Steps -/

/-- What may come of a step: a change of the store and, if what is new in it is admitted, a
thread that obeys. -/
structure Allowed (p : Policy) (σ σ' : Store) (t : Thread) : Prop where
  change : σ.Change p σ'
  thread : p.Admits σ σ' → t.Obeys p

lemma Allowed.same {t : Thread} (h : t.Obeys p) : Allowed p σ σ t := ⟨.same, fun _ => h⟩

lemma Policy.Admits.fresh {sc : Scope} (h : p.Admits σ (σ.pushScope sc)) :
    p.scope σ.heap.fresh := by
  refine h.scopes _ le_rfl ?_
  have hsize : (σ.pushScope sc).heap.size = σ.heap.size + 1 := Heap.size_push _ _
  rw [hsize]
  exact Nat.lt_succ_self _

lemma Policy.Admits.nextChannel
    (h : p.Admits σ { σ with nextChannel := σ.nextChannel + 1 }) : p.channel σ.nextChannel :=
  h.channels _ le_rfl (Nat.lt_succ_self _)

lemma Thread.Obeys.answer {t : Thread} {a : Answer} (ht : t.Obeys p) (h : t.answer? = some a) :
    a.Obeys p := by
  obtain ⟨control, stack⟩ := t
  have hcontrol := ht.control
  cases control <;> cases stack <;> simp only [Thread.answer?, reduceCtorEq] at h <;> cases h <;>
    exact hcontrol

lemma Thread.obeys_start {n : Node} (hs : p.scope s) (hn : n.Obeys p) : (start s n).Obeys p :=
  ⟨⟨hs, hn⟩, fun _ hf => absurd hf List.not_mem_nil⟩

lemma Thread.obeys_body {forms : List Node} (hs : p.scope s) (h : ∀ n ∈ forms, n.Obeys p)
    (hk : ∀ f ∈ k, f.Obeys p) : (Thread.body s forms k).Obeys p := by
  cases forms with
  | nil => exact ⟨Node.obeys_nil, hk⟩
  | cons f fs =>
    obtain ⟨hf, hfs⟩ := List.forall_mem_cons.1 h
    exact ⟨⟨hs, hf⟩, List.forall_mem_cons.2 ⟨⟨hs, hfs⟩, hk⟩⟩

namespace Store

variable {vs : List Node} {target : Target}

lemma enter_allowed {c : Closure Node} {kind : Kind} {l : Option Location} (hc : c.Obeys p)
    (h : ∀ v ∈ vs, v.Obeys p) (hl : p.place? l) (hk : ∀ f ∈ k, f.Obeys p) :
    Allowed p σ (σ.enter kind c vs l k).1 (σ.enter kind c vs l k).2 := by
  have hframe := hc.frame kind h hl
  unfold enter
  split
  · rename_i e he
    rw [he] at hframe
    exact .same ⟨hframe, hk⟩
  · rename_i sc hsc
    rw [hsc] at hframe
    refine ⟨.scope (Closure.inner_of_frame hsc) hframe, fun hnew => ?_⟩
    exact Thread.obeys_body hnew.fresh hc.body hk

lemma print_allowed (o : Output) (hk : ∀ f ∈ k, f.Obeys p) :
    Allowed p σ (σ.print o vs k).1 (σ.print o vs k).2 := by
  refine ⟨.sink, fun _ => ?_⟩
  unfold print
  dsimp only
  split
  · exact ⟨Node.obeys_nil, hk⟩
  · exact ⟨p.place?_none, hk⟩

lemma finish_allowed (ht : target.Obeys p) (h : ∀ v ∈ vs, v.Obeys p) (hk : ∀ f ∈ k, f.Obeys p) :
    Allowed p σ (σ.finish target vs k).1 (σ.finish target vs k).2 := by
  cases target with
  | function c l => exact enter_allowed ht.1 h ht.2 hk
  | operation op => exact .same ⟨Control.obeys_ofAnswer.2 (op.run_obeys h), hk⟩
  | output o => exact print_allowed o hk

lemma operands_allowed {done todo : List Node} (hs : p.scope s) (ht : target.Obeys p)
    (hd : ∀ v ∈ done, v.Obeys p) (h : ∀ v ∈ todo, v.Obeys p) (hk : ∀ f ∈ k, f.Obeys p) :
    Allowed p σ (σ.operands s target done todo k).1 (σ.operands s target done todo k).2 := by
  cases todo with
  | nil => exact finish_allowed ht (fun v hv => hd v (List.mem_reverse.1 hv)) hk
  | cons a rest =>
    obtain ⟨ha, hrest⟩ := List.forall_mem_cons.1 h
    exact .same ⟨⟨hs, ha⟩, List.forall_mem_cons.2 ⟨⟨hs, ht, hd, hrest⟩, hk⟩⟩

/-- Going on with local bindings is no change of the store yet. -/
lemma bindings_fst {todo body : List Node} : (σ.bindings s todo body k).1 = σ := by
  unfold bindings
  split
  · rfl
  · split <;> rfl

lemma bindings_obeys {todo body : List Node} (hs : p.scope s) (h : ∀ v ∈ todo, v.Obeys p)
    (hb : ∀ v ∈ body, v.Obeys p) (hk : ∀ f ∈ k, f.Obeys p) :
    (σ.bindings s todo body k).2.Obeys p := by
  cases todo with
  | nil => exact Thread.obeys_body hs hb hk
  | cons b rest =>
    obtain ⟨hfirst, hrest⟩ := List.forall_mem_cons.1 h
    have hbind := expectBinding_result hfirst
    unfold bindings
    dsimp only
    split
    · rename_i e he
      rw [he] at hbind
      exact ⟨hbind, hk⟩
    · rename_i name form he
      rw [he] at hbind
      exact ⟨⟨hs, hbind.2⟩, List.forall_mem_cons.2 ⟨⟨hs, hbind.1, hrest, hb⟩, hk⟩⟩

end Store

section Calls

variable {args : List Node} {l : Option Location}

lemma Form.enter_allowed (f : Form) (hs : p.scope s) (h : ∀ n ∈ args, n.Obeys p)
    (hk : ∀ f ∈ k, f.Obeys p) :
    Allowed p σ (f.enter σ s args k).store (f.enter σ s args k).thread := by
  -- what is left when arguments are missing
  have crashed : Allowed p σ σ ⟨.ofAnswer .missingArgument, k⟩ := .same ⟨trivial, hk⟩
  cases f with
  | quote =>
    rcases args with _ | ⟨form, _ | ⟨_, _⟩⟩
    · exact crashed
    · exact .same ⟨h form (by simp), hk⟩
    · exact crashed
  | branch =>
    rcases args with _ | ⟨test, _ | ⟨yes, _ | ⟨no, _ | ⟨_, _⟩⟩⟩⟩
    · exact crashed
    · exact crashed
    · have hframe : (Frame.branch s yes none).Obeys p := ⟨hs, h yes (by simp), by simp⟩
      exact .same ⟨⟨hs, h test (by simp)⟩, List.forall_mem_cons.2 ⟨hframe, hk⟩⟩
    · have hframe : (Frame.branch s yes (some no)).Obeys p :=
        ⟨hs, h yes (by simp), by simpa using h no (by simp)⟩
      exact .same ⟨⟨hs, h test (by simp)⟩, List.forall_mem_cons.2 ⟨hframe, hk⟩⟩
    · exact crashed
  | define =>
    rcases args with _ | ⟨x, _ | ⟨form, _ | ⟨_, _⟩⟩⟩
    · exact crashed
    · exact crashed
    · have hx := expectSymbol_result Form.define.name (h x (by simp))
      simp only [Form.enter]
      split
      · rename_i e he
        rw [he] at hx
        exact .same ⟨hx, hk⟩
      · rename_i name hname
        rw [hname] at hx
        exact .same ⟨⟨hs, h form (by simp)⟩, List.forall_mem_cons.2 ⟨⟨hs, hx⟩, hk⟩⟩
    · exact crashed
  | update =>
    rcases args with _ | ⟨x, _ | ⟨form, _ | ⟨_, _⟩⟩⟩
    · exact crashed
    · exact crashed
    · have hx := expectSymbol_result Form.update.name (h x (by simp))
      have hloc := (h x (by simp)).loc?
      simp only [Form.enter]
      split
      · rename_i e he
        rw [he] at hx
        exact .same ⟨hx, hk⟩
      · rename_i name hname
        rw [hname] at hx
        exact .same ⟨⟨hs, h form (by simp)⟩, List.forall_mem_cons.2 ⟨⟨hs, hx, hloc⟩, hk⟩⟩
    · exact crashed
  | lambda =>
    rcases args with _ | ⟨params, body⟩
    · exact crashed
    · obtain ⟨hparams, hbody⟩ := List.forall_mem_cons.1 h
      have hc := makeClosure_result Form.lambda.name hs hparams hbody
      simp only [Form.enter]
      split
      · rename_i e he
        rw [he] at hc
        exact .same ⟨hc, hk⟩
      · rename_i c he
        rw [he] at hc
        exact .same ⟨Node.obeys_function.2 hc, hk⟩
  | transformer =>
    rcases args with _ | ⟨params, body⟩
    · exact crashed
    · obtain ⟨hparams, hbody⟩ := List.forall_mem_cons.1 h
      have hc := makeClosure_result Form.transformer.name hs hparams hbody
      simp only [Form.enter]
      split
      · rename_i e he
        rw [he] at hc
        exact .same ⟨hc, hk⟩
      · rename_i c he
        rw [he] at hc
        exact .same ⟨Node.obeys_transformer.2 hc, hk⟩
  | sequence => exact .same (Thread.obeys_body hs h hk)
  | bind =>
    rcases args with _ | ⟨bs, body⟩
    · exact crashed
    · obtain ⟨hbs, hbody⟩ := List.forall_mem_cons.1 h
      have hlist := expectList_result Form.bind.name hbs
      simp only [Form.enter]
      split
      · rename_i e he
        rw [he] at hlist
        exact .same ⟨hlist, hk⟩
      · rename_i todo he
        rw [he] at hlist
        have hscope : Scope.Obeys p ⟨Form.bind.name, some s, []⟩ := ⟨by simpa using hs, by simp⟩
        refine ⟨?_, fun hnew => ?_⟩
        · rw [Turn.quiet, Store.bindings_fst]
          exact .scope ⟨⟨s, rfl⟩, List.nodup_nil⟩ hscope
        · rw [Turn.quiet, Store.bindings_fst] at hnew
          exact Store.bindings_obeys hnew.fresh hlist hbody hk
  | evaluate =>
    rcases args with _ | ⟨form, _ | ⟨there, _ | ⟨_, _⟩⟩⟩
    · exact crashed
    · have hframe : (Frame.evaluate s none).Obeys p := ⟨hs, by simp⟩
      exact .same ⟨⟨hs, h form (by simp)⟩, List.forall_mem_cons.2 ⟨hframe, hk⟩⟩
    · have hframe : (Frame.evaluate s (some there)).Obeys p :=
        ⟨hs, by simpa using h there (by simp)⟩
      exact .same ⟨⟨hs, h form (by simp)⟩, List.forall_mem_cons.2 ⟨hframe, hk⟩⟩
    · exact crashed
  | spawn =>
    rcases args with _ | ⟨form, _ | ⟨_, _⟩⟩
    · exact crashed
    · exact .same ⟨Node.obeys_nil, hk⟩
    · exact crashed
  | here =>
    rcases args with _ | ⟨_, _⟩
    · exact .same ⟨Node.obeys_scope.2 hs, hk⟩
    · exact crashed
  | channel =>
    rcases args with _ | ⟨_, _⟩
    · exact ⟨.channel, fun hnew => ⟨Node.obeys_chan.2 hnew.nextChannel, hk⟩⟩
    · exact crashed
  | send =>
    rcases args with _ | ⟨c, _ | ⟨form, _ | ⟨_, _⟩⟩⟩
    · exact crashed
    · exact crashed
    · have hframe : (Frame.sendOn s form).Obeys p := ⟨hs, h form (by simp)⟩
      exact .same ⟨⟨hs, h c (by simp)⟩, List.forall_mem_cons.2 ⟨hframe, hk⟩⟩
    · exact crashed
  | receive =>
    rcases args with _ | ⟨c, _ | ⟨_, _⟩⟩
    · exact crashed
    · exact .same ⟨⟨hs, h c (by simp)⟩, List.forall_mem_cons.2 ⟨trivial, hk⟩⟩
    · exact crashed

lemma Node.Obeys.part {n : Node} (h : n.Obeys p) (path : List Nat) : (n.part path).Obeys p := by
  induction path generalizing n with
  | nil => exact h
  | cons i path ih =>
    cases n with
    | call items l =>
      refine ih ?_
      cases hi : items[i]? with
      | none => exact Node.obeys_nil
      | some m => exact (Node.obeys_call.1 h).1 m (List.mem_of_getElem? hi)
    | _ => exact Node.obeys_nil

mutual

lemma HostValue.node_obeys {n : Node} (h : n.Obeys p) : ∀ v : HostValue, (v.node n).Obeys p
  | .literal v => Node.obeys_made v
  | .part path => h.part path
  | .list vs => Node.obeys_call.2 ⟨HostValue.nodes_obeys h vs, p.place?_none⟩

lemma HostValue.nodes_obeys {n : Node} (h : n.Obeys p) :
    ∀ vs : List HostValue, ∀ m ∈ HostValue.nodes n vs, m.Obeys p
  | [] => List.forall_mem_nil _
  | v :: vs => List.forall_mem_cons.2 ⟨HostValue.node_obeys h v, HostValue.nodes_obeys h vs⟩

end

/-- A host makes nothing up, whatever it does. -/
lemma HostAct.answer_obeys (act : HostAct) (h : ∀ n ∈ args, n.Obeys p) :
    (act.answer args).Obeys p := by
  have hargs : (Node.list args).Obeys p := Node.obeys_call.2 ⟨h, p.place?_none⟩
  unfold HostAct.answer
  split
  · exact HostValue.node_obeys hargs _
  · exact p.place?_none
  · exact trivial

lemma Primitive.enter_allowed (q : Primitive) (hs : p.scope s) (h : ∀ n ∈ args, n.Obeys p)
    (hk : ∀ f ∈ k, f.Obeys p) :
    Allowed p σ (q.enter σ s args k).store (q.enter σ s args k).thread := by
  unfold Primitive.enter
  split
  · split
    · exact Form.enter_allowed _ hs h hk
    · exact Store.operands_allowed hs trivial (by simp) h hk
    · exact Store.operands_allowed hs trivial (by simp) h hk
    · exact .same ⟨Control.obeys_ofAnswer.2 (HostAct.answer_obeys _ h), hk⟩
  · exact .same ⟨p.place?_none, hk⟩

lemma apply_allowed {callee : Node} (hs : p.scope s) (hc : callee.Obeys p)
    (h : ∀ n ∈ args, n.Obeys p) (hl : p.place? l) (hk : ∀ f ∈ k, f.Obeys p) :
    Allowed p σ (apply σ s callee args l k).store (apply σ s callee args l k).thread := by
  unfold apply
  split
  · exact Primitive.enter_allowed _ hs h hk
  · exact Store.operands_allowed hs ⟨Node.obeys_function.1 hc, hl⟩ (by simp) h hk
  · exact Store.enter_allowed (Node.obeys_transformer.1 hc) h hl
      (List.forall_mem_cons.2 ⟨hs, hk⟩)
  · exact .same ⟨p.place?_none, hk⟩

end Calls

lemma evaluate_obeys {n : Node} (hσ : σ.heap.Obeys p) (hs : p.scope s) (hn : n.Obeys p)
    (hk : ∀ f ∈ k, f.Obeys p) : (evaluate σ s n k).Obeys p := by
  cases n with
  | symbol x l =>
    have hres := hσ.resolve (x := x) hs (Node.obeys_symbol.1 hn).2
    simp only [evaluate]
    split
    · rename_i v hv
      rw [hv] at hres
      exact ⟨hres, hk⟩
    · rename_i e he
      rw [he] at hres
      exact ⟨hres, hk⟩
  | call items l =>
    obtain ⟨hitems, hl⟩ := Node.obeys_call.1 hn
    cases items with
    | nil => exact ⟨hl, hk⟩
    | cons head args =>
      obtain ⟨hhead, hargs⟩ := List.forall_mem_cons.1 hitems
      exact ⟨⟨hs, hhead⟩, List.forall_mem_cons.2 ⟨⟨hs, hargs, hl⟩, hk⟩⟩
  | _ => exact ⟨hn, hk⟩

lemma resume_allowed {f : Frame} {v : Node} (hσ : σ.heap.Obeys p) (hf : f.Obeys p)
    (hv : v.Obeys p) (hk : ∀ f ∈ k, f.Obeys p) :
    Allowed p σ (resume σ f v k).store (resume σ f v k).thread := by
  cases f with
  | operator s args l =>
    obtain ⟨hs, hargs, hl⟩ := hf
    exact apply_allowed hs hv hargs hl (List.forall_mem_cons.2 ⟨hl, hk⟩)
  | locate l => exact .same ⟨hv, hk⟩
  | operands s target done todo =>
    obtain ⟨hs, ht, hd, htodo⟩ := hf
    exact Store.operands_allowed hs ht (List.forall_mem_cons.2 ⟨hv, hd⟩) htodo hk
  | branch s yes no? =>
    obtain ⟨hs, hyes, hno⟩ := hf
    simp only [resume]
    split
    · exact .same ⟨⟨hs, hyes⟩, hk⟩
    · cases no? with
      | some no => exact .same ⟨⟨hs, hno no rfl⟩, hk⟩
      | none => exact .same ⟨Node.obeys_nil, hk⟩
  | define s x => exact ⟨.define hf.1 (hv.named x), fun _ => ⟨hv.named x, hk⟩⟩
  | assign s x l =>
    have htarget := hσ.target (x := x) hf.1 hf.2.2
    simp only [resume]
    split
    · rename_i i hi
      rw [hi] at htarget
      exact ⟨.define htarget hv, fun _ => ⟨hv, hk⟩⟩
    · rename_i e he
      rw [he] at htarget
      exact .same ⟨htarget, hk⟩
  | sequence s todo =>
    obtain ⟨hs, hforms⟩ := hf
    cases todo with
    | nil => exact .same ⟨hv, hk⟩
    | cons form forms =>
      obtain ⟨hform, hrest⟩ := List.forall_mem_cons.1 hforms
      exact .same ⟨⟨hs, hform⟩, List.forall_mem_cons.2 ⟨⟨hs, hrest⟩, hk⟩⟩
  | binding s x todo body =>
    obtain ⟨hs, -, htodo, hbody⟩ := hf
    refine ⟨?_, fun _ => Store.bindings_obeys hs htodo hbody hk⟩
    rw [resume, Turn.quiet, Store.bindings_fst]
    exact .define hs (hv.named x)
  | evaluate s there? =>
    cases there? with
    | none => exact .same ⟨⟨hf.1, hv⟩, hk⟩
    | some there => exact .same ⟨⟨hf.1, hf.2 _ rfl⟩, List.forall_mem_cons.2 ⟨hv, hk⟩⟩
  | within form =>
    cases v with
    | scope i x => exact .same ⟨⟨Node.obeys_scope.1 hv, hf⟩, hk⟩
    | _ => exact .same ⟨p.place?_none, hk⟩
  | sendOn s form =>
    cases v with
    | chan c => exact .same ⟨hf, List.forall_mem_cons.2 ⟨Node.obeys_chan.1 hv, hk⟩⟩
    | _ => exact .same ⟨p.place?_none, hk⟩
  | sendValue c => exact .same ⟨⟨hf, hv⟩, hk⟩
  | receiveFrom =>
    cases v with
    | chan c => exact .same ⟨Node.obeys_chan.1 hv, hk⟩
    | _ => exact .same ⟨p.place?_none, hk⟩
  | expansion s => exact .same ⟨⟨hf, hv⟩, hk⟩
  | detached => exact .same ⟨hv, hk⟩

lemma unwind_allowed {f : Frame} {e : EvalError} (hf : f.Obeys p) (he : e.Obeys p)
    (hk : ∀ f ∈ k, f.Obeys p) :
    Allowed p σ (unwind σ f e k).store (unwind σ f e k).thread := by
  unfold unwind
  split
  · exact .same ⟨Policy.place?_or he hf, hk⟩
  · exact ⟨.sink, fun _ => ⟨Node.obeys_nil, hk⟩⟩
  · exact .same ⟨he, hk⟩

variable {t t' : Thread} {fuel : Nat}

/-- **Nothing is made up**: a step changes only what may occur, and what it leaves behind may
occur, if the scope or the channel that it created may. -/
theorem step_allowed (hσ : σ.heap.Obeys p) (ht : t.Obeys p) :
    Allowed p σ (step σ t).store (step σ t).thread := by
  obtain ⟨control, stack⟩ := t
  obtain ⟨hcontrol, hstack⟩ := ht
  cases control with
  | eval s n => exact .same (evaluate_obeys hσ hcontrol.1 hcontrol.2 hstack)
  | value v =>
    cases stack with
    | nil => exact .same ⟨hcontrol, hstack⟩
    | cons f k =>
      obtain ⟨hf, hk⟩ := List.forall_mem_cons.1 hstack
      exact resume_allowed hσ hf hcontrol hk
  | raise e =>
    cases stack with
    | nil => exact .same ⟨hcontrol, hstack⟩
    | cons f k =>
      obtain ⟨hf, hk⟩ := List.forall_mem_cons.1 hstack
      exact unwind_allowed hf hcontrol hk
  | send c v => exact .same ⟨hcontrol, hstack⟩
  | receive c => exact .same ⟨hcontrol, hstack⟩
  | crash detail => exact .same ⟨hcontrol, hstack⟩

/-! ### Runs -/

namespace Store

variable {sc sc' : Scope} {i j : ScopeId}

/-- A new scope takes no other's place. -/
lemma get?_pushScope (h : σ.heap.get? i = some sc) :
    (σ.pushScope sc').heap.get? i = some sc := by
  have hold : i ≠ σ.heap.fresh := by
    rintro rfl
    simp [Heap.get?, Heap.fresh] at h
  rw [Store.pushScope, Heap.get?_push, if_neg hold, h]

lemma get?_define_of_ne {x : String} {v : Node} (hne : i ≠ j) (h : σ.heap.get? i = some sc) :
    (σ.define j x v).heap.get? i = some sc := by
  rw [Store.define, Heap.get?_define, if_neg hne, h]

end Store

namespace Store.Change

/-- Nothing that may occur comes to hold what may not. -/
lemma obeys (h : σ.Change p σ') (hσ : σ.heap.Obeys p) : σ'.heap.Obeys p := by
  cases h with
  | same => exact hσ
  | scope _ hsc =>
    intro i s hi hget
    rw [Store.pushScope, Heap.get?_push] at hget
    split_ifs at hget
    · cases hget
      exact hsc
    · exact hσ i s hi hget
  | define _ hv =>
    intro i s hi hget
    rw [Store.define, Heap.get?_define] at hget
    split_ifs at hget
    · obtain ⟨s, hs, rfl⟩ := Option.map_eq_some_iff.1 hget
      have hobeys := hσ i s hi hs
      refine ⟨hobeys.parent, fun b hb => ?_⟩
      rcases mem_put hb with rfl | hb
      · exact hv
      · exact hobeys.bindings b hb
    · exact hσ i s hi hget
  | channel => exact hσ
  | sink => exact hσ

lemma grows (h : σ.Change p σ') :
    σ.heap.size ≤ σ'.heap.size ∧ σ.nextChannel ≤ σ'.nextChannel := by
  cases h with
  | scope => simp [Store.pushScope]
  | define => simp [Store.define]
  | _ => simp

/-- A scope that may not occur stays as it is. -/
lemma get?_eq {i : ScopeId} {sc : Scope} (h : σ.Change p σ') (hi : ¬ p.scope i)
    (hsc : σ.heap.get? i = some sc) : σ'.heap.get? i = some sc := by
  cases h with
  | scope => exact get?_pushScope hsc
  | define hj => exact get?_define_of_ne (fun heq => hi (heq ▸ hj)) hsc
  | _ => exact hsc

lemma run_get?_eq {i : ScopeId} {sc : Scope} (h : Relation.ReflTransGen (Store.Change p) σ σ')
    (hi : ¬ p.scope i) (hsc : σ.heap.get? i = some sc) : σ'.heap.get? i = some sc := by
  induction h with
  | refl => exact hsc
  | tail _ hchange ih => exact hchange.get?_eq hi ih

end Store.Change

@[simp] lemma Closure.obeys_any (P : Prop) (c : Closure Node) : c.Obeys (.any P) :=
  ⟨trivial, fun _ _ => trivial, fun n _ => n.obeys_any P⟩

@[simp] lemma Target.obeys_any (P : Prop) (t : Target) : t.Obeys (.any P) := by
  cases t <;> simp [Target.Obeys]

lemma Frame.obeys_any (f : Frame) : f.Obeys (.any True) := by
  cases f with
  | detached => exact trivial
  | _ => simp [Frame.Obeys]

lemma Thread.obeys_any (t : Thread) : t.Obeys (.any True) := by
  refine ⟨?_, fun f _ => f.obeys_any⟩
  cases t.control <;> simp [Control.Obeys, EvalError.Obeys]

lemma Heap.obeys_any (P : Prop) (h : Heap) : h.Obeys (.any P) :=
  fun _ _ _ _ => ⟨fun _ _ => trivial, fun b _ => b.2.obeys_any P⟩

/-- Every step has one of the effects on the store. -/
lemma step_change (σ : Store) (t : Thread) : σ.Change (.any True) (step σ t).store :=
  (step_allowed (σ.heap.obeys_any True) t.obeys_any).change

lemma solo_grows (h : solo fuel σ t = some (σ', t')) :
    σ.heap.size ≤ σ'.heap.size ∧ σ.nextChannel ≤ σ'.nextChannel := by
  refine solo_invariant (P := fun τ _ => σ.heap.size ≤ τ.heap.size
    ∧ σ.nextChannel ≤ τ.nextChannel) (fun τ u hτ _ => ?_) h ⟨le_rfl, le_rfl⟩
  obtain ⟨hsize, hnext⟩ := (step_change τ u).grows
  exact ⟨le_trans hτ.1 hsize, le_trans hτ.2 hnext⟩

lemma Policy.Admits.left {σ₁ : Store} (h : p.Admits σ σ')
    (hgrows : σ₁.heap.size ≤ σ'.heap.size ∧ σ₁.nextChannel ≤ σ'.nextChannel) :
    p.Admits σ σ₁ :=
  ⟨fun i hi hlt => h.scopes i hi (lt_of_lt_of_le hlt hgrows.1),
    fun c hc hlt => h.channels c hc (lt_of_lt_of_le hlt hgrows.2)⟩

lemma Policy.Admits.right {σ₁ : Store} (h : p.Admits σ σ')
    (hgrows : σ.heap.size ≤ σ₁.heap.size ∧ σ.nextChannel ≤ σ₁.nextChannel) :
    p.Admits σ₁ σ' :=
  ⟨fun i hi hlt => h.scopes i (le_trans hgrows.1 hi) hlt,
    fun c hc hlt => h.channels c (le_trans hgrows.2 hc) hlt⟩

/-- **Runs make nothing up**: if everything at the start may occur, and all the scopes and
channels that the run creates, then so may everything at its end, and the store has seen no
other changes. -/
theorem solo_allowed (h : solo fuel σ t = some (σ', t')) (hnew : p.Admits σ σ')
    (hσ : σ.heap.Obeys p) (ht : t.Obeys p) :
    Relation.ReflTransGen (Store.Change p) σ σ' ∧ σ'.heap.Obeys p ∧ t'.Obeys p := by
  induction fuel generalizing σ t with
  | zero =>
    cases h
    exact ⟨.refl, hσ, ht⟩
  | succ fuel ih =>
    obtain ⟨-, hrun⟩ := solo_succ_eq_some h
    have hstep := step_allowed hσ ht
    have hthread := hstep.thread (hnew.left (solo_grows hrun))
    obtain ⟨hchanges, hrest⟩ :=
      ih hrun (hnew.right hstep.change.grows) (hstep.change.obeys hσ) hthread
    exact ⟨.head hstep.change hchanges, hrest⟩

end ChannelLisp
