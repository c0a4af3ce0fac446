import ChannelLisp.Machine
import ChannelLisp.Proofs.Erasure
import Mathlib.Tactic

/-!
What may occur in a state. A policy tells which scopes, channels, places, names and primitives
are allowed; a node obeys it if only such are inside, closures and lists included. Operations,
looking up and taking arguments apart give nothing that is not allowed if they are given nothing
such.
-/

namespace ChannelLisp

/-- What may occur. -/
structure Policy where
  scope : ScopeId → Prop
  channel : ChannelId → Prop
  place : Location → Prop
  /-- As a symbol or a parameter. -/
  name : String → Prop
  primitive : Primitive → Prop
  /-- Whether a thread may be one that nobody waits for. -/
  apart : Prop

namespace Policy

/-- Everything may occur, but perhaps no thread that nobody waits for. -/
def any (apart : Prop) : Policy :=
  ⟨fun _ => True, fun _ => True, fun _ => True, fun _ => True, fun _ => True, apart⟩

/-- The place, if there is one, may occur. -/
def place? (p : Policy) (l : Option Location) : Prop := ∀ x ∈ l, p.place x

@[simp] lemma scope_any (P : Prop) (i : ScopeId) : (any P).scope i := trivial

@[simp] lemma channel_any (P : Prop) (c : ChannelId) : (any P).channel c := trivial

@[simp] lemma name_any (P : Prop) (x : String) : (any P).name x := trivial

@[simp] lemma primitive_any (P : Prop) (q : Primitive) : (any P).primitive q := trivial

@[simp] lemma place?_any (P : Prop) (l : Option Location) : (any P).place? l := fun _ _ => trivial

@[simp] lemma place?_none (p : Policy) : p.place? none := by
  simp [place?]

lemma place?_or {p : Policy} {l l' : Option Location} (h : p.place? l) (h' : p.place? l') :
    p.place? (l.or l') := by
  cases l with
  | none => exact h'
  | some x => exact h

end Policy

inductive Node.Obeys (p : Policy) : Node → Prop
  | literal {v : Literal} {l : Option Location} : p.place? l → Obeys p (.literal v l)
  | symbol {x : String} {l : Option Location} : p.name x → p.place? l → Obeys p (.symbol x l)
  | call {items : List Node} {l : Option Location} :
      (∀ n ∈ items, Obeys p n) → p.place? l → Obeys p (.call items l)
  | scope {i : ScopeId} {x : String} : p.scope i → Obeys p (.scope i x)
  | primitive {q : Primitive} : p.primitive q → Obeys p (.primitive q)
  | function {c : Closure Node} : p.scope c.scope → (∀ x ∈ c.params, p.name x) →
      (∀ n ∈ c.body, Obeys p n) → Obeys p (.function c)
  | transformer {c : Closure Node} : p.scope c.scope → (∀ x ∈ c.params, p.name x) →
      (∀ n ∈ c.body, Obeys p n) → Obeys p (.transformer c)
  | chan {i : ChannelId} : p.channel i → Obeys p (.chan i)

structure Closure.Obeys (p : Policy) (c : Closure Node) : Prop where
  scope : p.scope c.scope
  params : ∀ x ∈ c.params, p.name x
  body : ∀ n ∈ c.body, n.Obeys p

/-- The causes of errors are only shown, so nothing is asked of them. -/
def EvalError.Obeys (p : Policy) (e : EvalError) : Prop := p.place? e.loc?

def Answer.Obeys (p : Policy) : Answer → Prop
  | .value v => v.Obeys p
  | .error e => e.Obeys p
  | .crash _ => True

/-- A good result is as `P` says, and an error obeys. -/
def Policy.Result {α : Type} (p : Policy) (P : α → Prop) : Except EvalError α → Prop
  | .ok a => P a
  | .error e => e.Obeys p

def Target.Obeys (p : Policy) : Target → Prop
  | .function c l => c.Obeys p ∧ p.place? l
  | .operation _ | .output _ => True

def Frame.Obeys (p : Policy) : Frame → Prop
  | .operator s args l => p.scope s ∧ (∀ n ∈ args, n.Obeys p) ∧ p.place? l
  | .locate l => p.place? l
  | .operands s target done todo =>
    p.scope s ∧ target.Obeys p ∧ (∀ n ∈ done, n.Obeys p) ∧ ∀ n ∈ todo, n.Obeys p
  | .branch s yes no? => p.scope s ∧ yes.Obeys p ∧ ∀ n ∈ no?, n.Obeys p
  | .define s x => p.scope s ∧ p.name x
  | .assign s x l => p.scope s ∧ p.name x ∧ p.place? l
  | .sequence s todo => p.scope s ∧ ∀ n ∈ todo, n.Obeys p
  | .binding s x todo body =>
    p.scope s ∧ p.name x ∧ (∀ n ∈ todo, n.Obeys p) ∧ ∀ n ∈ body, n.Obeys p
  | .evaluate s there? => p.scope s ∧ ∀ n ∈ there?, n.Obeys p
  | .within form => form.Obeys p
  | .sendOn s form => p.scope s ∧ form.Obeys p
  | .sendValue c => p.channel c
  | .receiveFrom => True
  | .expansion s => p.scope s
  | .detached => p.apart

def Control.Obeys (p : Policy) : Control → Prop
  | .eval s n => p.scope s ∧ n.Obeys p
  | .value v => v.Obeys p
  | .raise e => e.Obeys p
  | .send c v => p.channel c ∧ v.Obeys p
  | .receive c => p.channel c
  | .crash _ => True

structure Thread.Obeys (p : Policy) (t : Thread) : Prop where
  control : t.control.Obeys p
  stack : ∀ f ∈ t.stack, f.Obeys p

structure Scope.Obeys (p : Policy) (s : Scope) : Prop where
  parent : ∀ i ∈ s.parent?, p.scope i
  bindings : ∀ b ∈ s.bindings, b.2.Obeys p

/-- The scopes that may occur obey; nothing is asked of the others. -/
def Heap.Obeys (p : Policy) (h : Heap) : Prop :=
  ∀ i s, p.scope i → h.get? i = some s → s.Obeys p

variable {p : Policy} {s : ScopeId}

/-! ### Small facts -/

namespace Node

@[simp] lemma obeys_literal {v : Literal} {l : Option Location} :
    (literal v l).Obeys p ↔ p.place? l :=
  ⟨fun | .literal h => h, .literal⟩

@[simp] lemma obeys_symbol {x : String} {l : Option Location} :
    (symbol x l).Obeys p ↔ p.name x ∧ p.place? l :=
  ⟨fun | .symbol h h' => ⟨h, h'⟩, fun h => .symbol h.1 h.2⟩

@[simp] lemma obeys_call {items : List Node} {l : Option Location} :
    (call items l).Obeys p ↔ (∀ n ∈ items, n.Obeys p) ∧ p.place? l :=
  ⟨fun | .call h h' => ⟨h, h'⟩, fun h => .call h.1 h.2⟩

@[simp] lemma obeys_scope {i : ScopeId} {x : String} : (scope i x).Obeys p ↔ p.scope i :=
  ⟨fun | .scope h => h, .scope⟩

@[simp] lemma obeys_primitive {q : Primitive} : (primitive q).Obeys p ↔ p.primitive q :=
  ⟨fun | .primitive h => h, .primitive⟩

@[simp] lemma obeys_function {c : Closure Node} : (function c).Obeys p ↔ c.Obeys p :=
  ⟨fun | .function hs hx hb => ⟨hs, hx, hb⟩, fun h => .function h.scope h.params h.body⟩

@[simp] lemma obeys_transformer {c : Closure Node} : (transformer c).Obeys p ↔ c.Obeys p :=
  ⟨fun | .transformer hs hx hb => ⟨hs, hx, hb⟩, fun h => .transformer h.scope h.params h.body⟩

@[simp] lemma obeys_chan {i : ChannelId} : (chan i).Obeys p ↔ p.channel i :=
  ⟨fun | .chan h => h, .chan⟩

/-- What is made at run time has no place. -/
lemma obeys_made (v : Literal) : (literal v none).Obeys p := obeys_literal.2 p.place?_none

@[simp] lemma obeys_nil : nil.Obeys p := obeys_made .nil

lemma Obeys.loc? {n : Node} (h : n.Obeys p) : p.place? n.loc? := by
  cases n <;> simp_all [Node.loc?]

lemma Obeys.named {n : Node} (h : n.Obeys p) (x : String) : (n.named x).Obeys p := by
  cases n with
  | function c =>
    obtain ⟨name, params, body, scope⟩ := c
    cases name with
    | none =>
      obtain ⟨hs, hx, hb⟩ := obeys_function.1 h
      exact obeys_function.2 ⟨hs, hx, hb⟩
    | some y => exact h
  | transformer c =>
    obtain ⟨name, params, body, scope⟩ := c
    cases name with
    | none =>
      obtain ⟨hs, hx, hb⟩ := obeys_transformer.1 h
      exact obeys_transformer.2 ⟨hs, hx, hb⟩
    | some y => exact h
  | _ => exact h

/-- The policy that allows everything asks for nothing. -/
@[simp] lemma obeys_any (P : Prop) (n : Node) : n.Obeys (.any P) := by
  induction n using Node.induction with
  | call items l ih => simpa using ih
  | function c ih => exact .function trivial (fun _ _ => trivial) ih
  | transformer c ih => exact .transformer trivial (fun _ _ => trivial) ih
  | _ => simp

end Node

namespace Policy.Result

variable {α β : Type} {P : α → Prop} {Q : β → Prop} {r : Except EvalError α}

lemma bind {f : α → Except EvalError β} (h : p.Result P r) (hf : ∀ a, P a → p.Result Q (f a)) :
    p.Result Q (r >>= f) := by
  cases r with
  | ok a => exact hf a h
  | error e => exact h

lemma map {f : α → β} (h : p.Result P r) (hf : ∀ a, P a → Q (f a)) : p.Result Q (r.map f) := by
  cases r with
  | ok a => exact hf a h
  | error e => exact h

lemma answer {r : Except EvalError Node} (h : p.Result (Node.Obeys p) r) :
    (Answer.ofExcept r).Obeys p := by
  cases r with
  | ok v => exact h
  | error e => exact h

end Policy.Result

lemma Control.obeys_ofAnswer {a : Answer} : (Control.ofAnswer a).Obeys p ↔ a.Obeys p := by
  cases a <;> rfl

/-! ### Wider policies -/

/-- All that the first policy allows, the second one allows. -/
structure Policy.Le (p q : Policy) : Prop where
  scope : ∀ i, p.scope i → q.scope i
  channel : ∀ c, p.channel c → q.channel c
  place : ∀ l, p.place l → q.place l
  name : ∀ x, p.name x → q.name x
  primitive : ∀ r, p.primitive r → q.primitive r
  apart : p.apart → q.apart

section Wider

variable {q : Policy} (hpq : p.Le q)

include hpq

lemma Policy.Le.place? {l : Option Location} (h : p.place? l) : q.place? l :=
  fun x hx => hpq.place x (h x hx)

lemma Node.Obeys.mono {n : Node} (h : n.Obeys p) : n.Obeys q := by
  induction h with
  | literal hl => exact .literal (hpq.place? hl)
  | symbol hx hl => exact .symbol (hpq.name _ hx) (hpq.place? hl)
  | call _ hl ih => exact .call ih (hpq.place? hl)
  | scope hi => exact .scope (hpq.scope _ hi)
  | primitive hr => exact .primitive (hpq.primitive _ hr)
  | function hs hx _ ih =>
    exact .function (hpq.scope _ hs) (fun x hmem => hpq.name x (hx x hmem)) ih
  | transformer hs hx _ ih =>
    exact .transformer (hpq.scope _ hs) (fun x hmem => hpq.name x (hx x hmem)) ih
  | chan hi => exact .chan (hpq.channel _ hi)

lemma Node.obeys_all_mono {ns : List Node} (h : ∀ n ∈ ns, n.Obeys p) : ∀ n ∈ ns, n.Obeys q :=
  fun n hn => (h n hn).mono hpq

lemma Closure.Obeys.mono {c : Closure Node} (h : c.Obeys p) : c.Obeys q :=
  ⟨hpq.scope _ h.scope, fun x hx => hpq.name x (h.params x hx), Node.obeys_all_mono hpq h.body⟩

lemma Target.Obeys.mono {t : Target} (h : t.Obeys p) : t.Obeys q := by
  cases t with
  | function c l => exact ⟨h.1.mono hpq, hpq.place? h.2⟩
  | operation op => exact trivial
  | output o => exact trivial

lemma Frame.Obeys.mono {f : Frame} (h : f.Obeys p) : f.Obeys q := by
  cases f with
  | operator s args l =>
    exact ⟨hpq.scope s h.1, Node.obeys_all_mono hpq h.2.1, hpq.place? h.2.2⟩
  | locate l => exact hpq.place? h
  | operands s target done todo =>
    obtain ⟨hs, ht, hdone, htodo⟩ := h
    exact ⟨hpq.scope s hs, ht.mono hpq, Node.obeys_all_mono hpq hdone,
      Node.obeys_all_mono hpq htodo⟩
  | branch s yes no? => exact ⟨hpq.scope s h.1, h.2.1.mono hpq, fun n hn => (h.2.2 n hn).mono hpq⟩
  | define s x => exact ⟨hpq.scope s h.1, hpq.name x h.2⟩
  | assign s x l => exact ⟨hpq.scope s h.1, hpq.name x h.2.1, hpq.place? h.2.2⟩
  | sequence s todo => exact ⟨hpq.scope s h.1, Node.obeys_all_mono hpq h.2⟩
  | binding s x todo body =>
    obtain ⟨hs, hx, htodo, hbody⟩ := h
    exact ⟨hpq.scope s hs, hpq.name x hx, Node.obeys_all_mono hpq htodo,
      Node.obeys_all_mono hpq hbody⟩
  | evaluate s there? => exact ⟨hpq.scope s h.1, fun n hn => (h.2 n hn).mono hpq⟩
  | within form => exact Node.Obeys.mono hpq h
  | sendOn s form => exact ⟨hpq.scope s h.1, h.2.mono hpq⟩
  | sendValue c => exact hpq.channel c h
  | receiveFrom => exact trivial
  | expansion s => exact hpq.scope s h
  | detached => exact hpq.apart h

lemma Control.Obeys.mono {c : Control} (h : c.Obeys p) : c.Obeys q := by
  cases c with
  | eval s n => exact ⟨hpq.scope s h.1, h.2.mono hpq⟩
  | value v => exact Node.Obeys.mono hpq h
  | raise e => exact hpq.place? h
  | send c v => exact ⟨hpq.channel c h.1, h.2.mono hpq⟩
  | receive c => exact hpq.channel c h
  | crash detail => exact trivial

lemma Thread.Obeys.mono {t : Thread} (h : t.Obeys p) : t.Obeys q :=
  ⟨h.control.mono hpq, fun f hf => (h.stack f hf).mono hpq⟩

lemma Scope.Obeys.mono {sc : Scope} (h : sc.Obeys p) : sc.Obeys q :=
  ⟨fun i hi => hpq.scope i (h.parent i hi), fun b hb => (h.bindings b hb).mono hpq⟩

end Wider

/-! ### Operations -/

lemma Node.refuse?_obeys {a b : Node} {e : EvalError} (ha : a.Obeys p) (hb : b.Obeys p)
    (h : Node.refuse? a b = some e) : e.Obeys p := by
  have hloc : p.place? (b.loc?.or a.loc?) := Policy.place?_or hb.loc? ha.loc?
  unfold Node.refuse? at h
  split_ifs at h
  · cases h
    exact hloc
  · cases h
    exact hloc

lemma equalsAll_result {as bs : List Node}
    (h : ∀ a ∈ as, ∀ b ∈ bs, p.Result (fun _ => True) (a.equals b)) :
    p.Result (fun _ => True) (equalsAll as bs) := by
  induction as generalizing bs with
  | nil => rw [equalsAll.eq_def]; exact trivial
  | cons a as ih =>
    cases bs with
    | nil => rw [equalsAll.eq_def]; exact trivial
    | cons b bs =>
      rw [equalsAll]
      split
      · refine ih fun x hx y hy => ?_
        exact h x (List.mem_cons_of_mem _ hx) y (List.mem_cons_of_mem _ hy)
      · exact h a List.mem_cons_self b List.mem_cons_self

/-- An error is that of two nodes at one position, and has the place of one of them. -/
lemma Node.equals_result {a b : Node} (ha : a.Obeys p) (hb : b.Obeys p) :
    p.Result (fun _ => True) (a.equals b) := by
  induction a using Node.induction generalizing b with
  | call items l ih =>
    rw [Node.equals.eq_def]
    split
    · rename_i e he
      exact refuse?_obeys ha hb he
    · cases b with
      | call items' l' =>
        have hitems := (obeys_call.1 ha).1
        have hitems' := (obeys_call.1 hb).1
        dsimp only
        split
        · exact equalsAll_result fun x hx y hy => ih x hx (hitems x hx) (hitems' y hy)
        · exact trivial
      | _ => exact trivial
  | _ =>
    rw [Node.equals.eq_def]
    split
    · rename_i e he
      exact refuse?_obeys ha hb he
    · cases b <;> exact trivial

namespace Operation

variable {op : Operation}

lemma number_result (op : Operation) (v : Node) : p.Result (fun _ => True) (op.number v) := by
  unfold number
  split
  · exact trivial
  · exact trivial
  · exact p.place?_none

lemma numbers_result (vs : List Node) : p.Result (fun _ => True) (op.numbers vs) := by
  induction vs with
  | nil => exact trivial
  | cons v vs ih =>
    have hv := number_result (p := p) op v
    rw [numbers]
    split
    · rename_i e he
      rwa [he] at hv
    · exact trivial
    · rename_i e he
      rwa [he] at ih

lemma combine_result {word : Int64 → Int64 → Option Int64} {double : Float → Float → Float}
    (a b : Number) : p.Result (fun _ => True) (op.combine word double a b) := by
  unfold combine
  split
  · split
    · exact trivial
    · exact p.place?_none
  · exact trivial

lemma obeys_toNode (n : Number) : n.toNode.Obeys p := by
  cases n <;> simp [Number.toNode, Node.int, Node.float]

lemma foldFrom_result {f : Number → Number → Except EvalError Number}
    (hf : ∀ a b, p.Result (fun _ => True) (f a b)) (acc : Number) (ns : List Number) :
    p.Result (fun _ => True) (foldFrom f acc ns) := by
  induction ns generalizing acc with
  | nil => exact trivial
  | cons n ns ih =>
    have h := hf acc n
    rw [foldFrom]
    split
    · exact ih _
    · rename_i e he
      rwa [he] at h

lemma fold_result {f : Number → Number → Except EvalError Number}
    (hf : ∀ a b, p.Result (fun _ => True) (f a b)) (unit : Int64) (ns : List Number) :
    p.Result (Node.Obeys p) (fold f unit ns) := by
  unfold fold
  refine Policy.Result.map (P := fun _ => True) ?_ (fun n _ => obeys_toNode n)
  split
  · exact foldFrom_result hf _ _
  · exact foldFrom_result hf _ _

lemma divide_result (ns : List Number) : p.Result (Node.Obeys p) (divide ns) := by
  unfold divide
  split
  · exact p.place?_none
  · exact fold_result combine_result _ _

lemma remainder_result (a b : Number) : p.Result (Node.Obeys p) (remainder a b) := by
  unfold remainder
  split
  · exact p.place?_none
  · exact (combine_result _ _).map fun n _ => obeys_toNode n

lemma binary_result {f : Number → Number → Except EvalError Node}
    (hf : ∀ x y, p.Result (Node.Obeys p) (f x y)) (a b : Node) :
    p.Result (Node.Obeys p) (op.binary f a b) := by
  have ha := number_result (p := p) op a
  have hb := number_result (p := p) op b
  unfold binary
  split
  · rename_i e he
    rwa [he] at ha
  · rename_i e he
    rwa [he] at hb
  · exact hf _ _

lemma itemsOf_result {v : Node} (h : v.Obeys p) :
    p.Result (fun vs => ∀ n ∈ vs, n.Obeys p) (op.itemsOf v) := by
  unfold itemsOf
  split
  · exact (Node.obeys_call.1 h).1
  · exact fun n hn => absurd hn List.not_mem_nil
  · exact p.place?_none

/-- The value of an operation is made of its arguments. -/
lemma run_obeys (op : Operation) {vs : List Node} (h : ∀ v ∈ vs, v.Obeys p) :
    (op.run vs).Obeys p := by
  have compared (test : Ordering → Bool) (a b : Node) :
      (Answer.ofExcept (op.binary (fun x y => .ok (holds test x y)) a b)).Obeys p := by
    apply Policy.Result.answer
    apply binary_result
    intro x y
    exact Node.obeys_made _
  cases op with
  | add | sub | mul =>
    exact ((numbers_result vs).bind fun ns _ => fold_result combine_result _ ns).answer
  | div =>
    rcases vs with _ | ⟨v, vs⟩
    · exact trivial
    · exact ((numbers_result (v :: vs)).bind fun ns _ => divide_result ns).answer
  | mod =>
    rcases vs with _ | ⟨a, _ | ⟨b, _ | ⟨_, _⟩⟩⟩
    · exact trivial
    · exact trivial
    · exact (binary_result remainder_result a b).answer
    · exact trivial
  | less | greater | atMost | atLeast =>
    rcases vs with _ | ⟨a, _ | ⟨b, _ | ⟨_, _⟩⟩⟩
    · exact trivial
    · exact trivial
    · exact compared _ a b
    · exact trivial
  | equal =>
    rcases vs with _ | ⟨a, _ | ⟨b, _ | ⟨_, _⟩⟩⟩
    · exact trivial
    · exact trivial
    · have hab := Node.equals_result (h a (by simp)) (h b (by simp))
      exact (hab.map fun _ _ => Node.obeys_made _).answer
    · exact trivial
  | not =>
    rcases vs with _ | ⟨v, _ | ⟨_, _⟩⟩
    · exact trivial
    · exact Node.obeys_made _
    · exact trivial
  | list => exact Node.obeys_call.2 ⟨h, p.place?_none⟩
  | cons =>
    rcases vs with _ | ⟨v, _ | ⟨l, _ | ⟨_, _⟩⟩⟩
    · exact trivial
    · exact trivial
    · refine ((itemsOf_result (h l (by simp))).map fun items hitems => ?_).answer
      refine Node.obeys_call.2 ⟨?_, p.place?_none⟩
      exact List.forall_mem_cons.2 ⟨h v (by simp), hitems⟩
    · exact trivial
  | first =>
    rcases vs with _ | ⟨l, _ | ⟨_, _⟩⟩
    · exact trivial
    · refine ((itemsOf_result (h l (by simp))).map fun items hitems => ?_).answer
      cases items with
      | nil => exact Node.obeys_nil
      | cons v items => exact hitems v List.mem_cons_self
    · exact trivial
  | rest =>
    rcases vs with _ | ⟨l, _ | ⟨_, _⟩⟩
    · exact trivial
    · refine ((itemsOf_result (h l (by simp))).map fun items hitems => ?_).answer
      refine Node.obeys_call.2 ⟨fun n hn => hitems n (List.mem_of_mem_drop hn), p.place?_none⟩
    · exact trivial
  | isEmpty =>
    rcases vs with _ | ⟨l, _ | ⟨_, _⟩⟩
    · exact trivial
    · exact ((itemsOf_result (h l (by simp))).map fun _ _ => Node.obeys_made _).answer
    · exact trivial
  | kindOf =>
    rcases vs with _ | ⟨v, _ | ⟨_, _⟩⟩
    · exact trivial
    · exact Node.obeys_made _
    · exact trivial

end Operation

/-! ### Scopes and arguments -/

namespace Heap

variable {h : Heap} {x : String} {l : Option Location}

/-- The scopes around a scope that may occur, may occur. -/
lemma Obeys.chainFrom (hh : h.Obeys p) (fuel : Nat) (hs : p.scope s) :
    ∀ i ∈ h.chainFrom fuel s, p.scope i := by
  induction fuel generalizing s with
  | zero => simp [Heap.chainFrom]
  | succ fuel ih =>
    rw [Heap.chainFrom]
    split
    · simp
    · rename_i sc hsc
      have hparent := (hh s sc hs hsc).parent
      refine List.forall_mem_cons.2 ⟨hs, ?_⟩
      split
      · simp
      · rename_i q hq
        exact ih (hparent q hq)

lemma Obeys.resolve (hh : h.Obeys p) (hs : p.scope s) (hl : p.place? l) :
    p.Result (Node.Obeys p) (h.resolve s x l) := by
  unfold Heap.resolve
  split
  · rename_i v hv
    obtain ⟨i, hi, hget⟩ := List.exists_of_findSome?_eq_some hv
    obtain ⟨sc, hsc, hx⟩ := Option.bind_eq_some_iff.1 hget
    have hobeys := hh i sc (hh.chainFrom _ hs i hi) hsc
    exact hobeys.bindings _ (mem_of_get?_eq_some hx)
  · exact hl

lemma Obeys.target (hh : h.Obeys p) (hs : p.scope s) (hl : p.place? l) :
    p.Result p.scope (h.target s x l) := by
  unfold Heap.target
  split
  · rename_i i hi
    exact hh.chainFrom _ hs i (List.mem_of_find?_eq_some hi)
  · exact hl

end Heap

section Arguments

variable (taker : String) {v : Node} {vs : List Node}

lemma expectSymbol_result (h : v.Obeys p) : p.Result p.name (expectSymbol taker v) := by
  unfold expectSymbol
  split
  · exact (Node.obeys_symbol.1 h).1
  · exact h.loc?

lemma expectList_result (h : v.Obeys p) :
    p.Result (fun vs => ∀ n ∈ vs, n.Obeys p) (expectList taker v) := by
  unfold expectList
  split
  · exact (Node.obeys_call.1 h).1
  · exact h.loc?

lemma expectSymbols_result (h : ∀ v ∈ vs, v.Obeys p) :
    p.Result (fun xs => ∀ x ∈ xs, p.name x) (expectSymbols taker vs) := by
  induction vs with
  | nil => exact fun x hx => absurd hx List.not_mem_nil
  | cons v vs ih =>
    have hv := expectSymbol_result taker (h v List.mem_cons_self)
    have hvs := ih fun n hn => h n (List.mem_cons_of_mem _ hn)
    rw [expectSymbols]
    split
    · rename_i e he
      rwa [he] at hv
    · rename_i x hx
      rw [hx] at hv
      split
      · rename_i e he
        rwa [he] at hvs
      · rename_i xs hxs
        rw [hxs] at hvs
        exact List.forall_mem_cons.2 ⟨hv, hvs⟩

lemma makeClosure_result (hs : p.scope s) (h : v.Obeys p) (hb : ∀ n ∈ vs, n.Obeys p) :
    p.Result (Closure.Obeys p) (makeClosure taker s v vs) := by
  have hlist := expectList_result taker h
  unfold makeClosure
  split
  · rename_i e he
    rwa [he] at hlist
  · rename_i ps hps
    rw [hps] at hlist
    have hsyms := expectSymbols_result taker hlist
    split
    · rename_i e he
      rwa [he] at hsyms
    · rename_i xs hxs
      rw [hxs] at hsyms
      exact ⟨hs, hsyms, hb⟩

lemma expectBinding_result (h : v.Obeys p) :
    p.Result (fun b => p.name b.1 ∧ b.2.Obeys p) (expectBinding v) := by
  have hlist := expectList_result Form.bind.name h
  unfold expectBinding
  split
  · rename_i e he
    rwa [he] at hlist
  · rename_i x form he
    rw [he] at hlist
    have hx := expectSymbol_result Form.bind.name (hlist x (by simp))
    split
    · rename_i e he
      rwa [he] at hx
    · rename_i name hname
      rw [hname] at hx
      exact ⟨hx, hlist form (by simp)⟩
  · exact h.loc?

lemma bindAll_eq_foldl (xs : List String) (vs : List Node) :
    bindAll xs vs = (xs.zip vs).foldl (fun bs b => put b.1 b.2 bs) [] := rfl

lemma bindAll_obeys (xs : List String) (h : ∀ v ∈ vs, v.Obeys p) :
    ∀ b ∈ bindAll xs vs, b.2.Obeys p := by
  have fold : ∀ (ps bs : List (String × Node)), (∀ b ∈ ps, b.2.Obeys p) →
      (∀ b ∈ bs, b.2.Obeys p) →
      ∀ b ∈ ps.foldl (fun bs b => put b.1 b.2 bs) bs, b.2.Obeys p := by
    intro ps
    induction ps with
    | nil => exact fun bs _ hbs => hbs
    | cons q ps ih =>
      intro bs hps hbs
      obtain ⟨hq, hps⟩ := List.forall_mem_cons.1 hps
      refine ih _ hps fun b hb => ?_
      rcases mem_put hb with rfl | hb
      · exact hq
      · exact hbs b hb
  rw [bindAll_eq_foldl]
  refine fold _ [] (fun b hb => h b.2 ?_) (by simp)
  exact (List.of_mem_zip hb).2

lemma Closure.Obeys.frame {c : Closure Node} (hc : c.Obeys p) (kind : Kind)
    (h : ∀ v ∈ vs, v.Obeys p) {l : Option Location} (hl : p.place? l) :
    p.Result (Scope.Obeys p) (c.frame kind vs l) := by
  unfold Closure.frame
  split
  · refine ⟨fun i hi => ?_, bindAll_obeys _ h⟩
    cases hi
    exact hc.scope
  · exact hl

end Arguments

end ChannelLisp
