import ChannelLisp.Proofs.Containment
import Mathlib.Tactic

/-!
Evaluation touches only what it can reach. Reached are the scope of the evaluation, the scopes
inside the form, and, with a scope, its parent and the scopes inside the values that it binds.
Any other scope that was there keeps its bindings, and a value refers only to scopes that were
reached or that the evaluation created.
-/

namespace ChannelLisp

/-- The scope is inside the node: as a value, or as the scope that a closure was made in, at
any depth of lists and of bodies. -/
inductive Node.Mentions (i : ScopeId) : Node → Prop
  | scope {x : String} : Mentions i (.scope i x)
  | item {items : List Node} {l : Option Location} {n : Node} :
      n ∈ items → Mentions i n → Mentions i (.call items l)
  | function {c : Closure Node} : c.scope = i → Mentions i (.function c)
  | functionBody {c : Closure Node} {n : Node} :
      n ∈ c.body → Mentions i n → Mentions i (.function c)
  | transformer {c : Closure Node} : c.scope = i → Mentions i (.transformer c)
  | transformerBody {c : Closure Node} {n : Node} :
      n ∈ c.body → Mentions i n → Mentions i (.transformer c)

/-- What the evaluation of a form in a scope can reach. -/
inductive Reach (h : Heap) (e : ScopeId) (n : Node) : ScopeId → Prop
  | here : Reach h e n e
  | inside {i : ScopeId} : n.Mentions i → Reach h e n i
  | parent {i j : ScopeId} {s : Scope} :
      Reach h e n i → h.get? i = some s → s.parent? = some j → Reach h e n j
  | bound {i j : ScopeId} {s : Scope} {x : String} {v : Node} :
      Reach h e n i → h.get? i = some s → (x, v) ∈ s.bindings → v.Mentions j → Reach h e n j

namespace Node

variable {i : ScopeId}

@[simp] lemma not_mentions_literal {v : Literal} {l : Option Location} :
    ¬ (literal v l).Mentions i := nofun

@[simp] lemma not_mentions_symbol {x : String} {l : Option Location} :
    ¬ (symbol x l).Mentions i := nofun

@[simp] lemma not_mentions_primitive {p : Primitive} : ¬ (primitive p).Mentions i := nofun

@[simp] lemma mentions_call {items : List Node} {l : Option Location} :
    (call items l).Mentions i ↔ ∃ n ∈ items, n.Mentions i :=
  ⟨fun | .item hn h => ⟨_, hn, h⟩, fun ⟨_, hn, h⟩ => .item hn h⟩

@[simp] lemma mentions_function {c : Closure Node} :
    (function c).Mentions i ↔ c.scope = i ∨ ∃ n ∈ c.body, n.Mentions i :=
  ⟨fun | .function h => .inl h | .functionBody hn h => .inr ⟨_, hn, h⟩,
    fun | .inl h => .function h | .inr ⟨_, hn, h⟩ => .functionBody hn h⟩

end Node

/-- Only scopes of a set may occur, and anything else. -/
def Policy.within (S : ScopeId → Prop) : Policy := { any True with scope := S }

variable {S : ScopeId → Prop} {σ σ' : Store} {e : ScopeId} {n : Node} {a : Answer}

lemma Policy.place?_within (l : Option Location) : (within S).place? l := fun _ _ => trivial

lemma Node.obeys_within : n.Obeys (.within S) ↔ ∀ i, n.Mentions i → S i := by
  constructor
  · intro h i hm
    induction hm with
    | scope => exact obeys_scope.1 h
    | item hn _ ih => exact ih ((obeys_call.1 h).1 _ hn)
    | function hc => exact hc ▸ (obeys_function.1 h).scope
    | functionBody hn _ ih => exact ih ((obeys_function.1 h).body _ hn)
    | transformer hc => exact hc ▸ (obeys_transformer.1 h).scope
    | transformerBody hn _ ih => exact ih ((obeys_transformer.1 h).body _ hn)
  · intro h
    induction n using Node.induction with
    | literal v l => exact .literal (Policy.place?_within l)
    | symbol x l => exact .symbol trivial (Policy.place?_within l)
    | call items l ih =>
      exact .call (fun n hn => ih n hn fun i hm => h i (.item hn hm)) (Policy.place?_within l)
    | scope i x => exact .scope (h i .scope)
    | primitive p => exact .primitive trivial
    | function c ih =>
      refine .function (h _ (.function rfl)) (fun _ _ => trivial) fun n hn => ?_
      exact ih n hn fun i hm => h i (.functionBody hn hm)
    | transformer c ih =>
      refine .transformer (h _ (.transformer rfl)) (fun _ _ => trivial) fun n hn => ?_
      exact ih n hn fun i hm => h i (.transformerBody hn hm)
    | chan i => exact .chan trivial

lemma Heap.lt_size_of_get? {h : Heap} {i : ScopeId} {s : Scope} (hs : h.get? i = some s) :
    i < h.size := by
  obtain ⟨hlt, -⟩ := Array.getElem?_eq_some_iff.1 hs
  exact hlt

/-- Reached before an evaluation, or created by it. -/
def Reached (σ σ' : Store) (e : ScopeId) (n : Node) (i : ScopeId) : Prop :=
  Reach σ.heap e n i ∨ σ.heap.size ≤ i ∧ i < σ'.heap.size

lemma reach_of_reached {i : ScopeId} {s : Scope} (h : Reached σ σ' e n i)
    (hs : σ.heap.get? i = some s) : Reach σ.heap e n i := by
  have hlt := Heap.lt_size_of_get? hs
  rcases h with h | ⟨hle, -⟩
  · exact h
  · exact absurd hlt (Nat.not_lt.2 hle)

/-- What is reached holds only what is reached. -/
lemma heap_obeys_reached : σ.heap.Obeys (.within (Reached σ σ' e n)) := by
  intro i s hi hs
  have hreach := reach_of_reached hi hs
  refine ⟨fun j hj => .inl (hreach.parent hs hj), fun b hb => ?_⟩
  exact Node.obeys_within.2 fun j hm => .inl (hreach.bound hs hb hm)

lemma start_obeys_reached : (Thread.start e n).Obeys (.within (Reached σ σ' e n)) :=
  Thread.obeys_start (.inl .here) (Node.obeys_within.2 fun _ hm => .inl (.inside hm))

lemma admits_reached : (Policy.within (Reached σ σ' e n)).Admits σ σ' :=
  ⟨fun _ hle hlt => .inr ⟨hle, hlt⟩, fun _ _ _ => trivial⟩

/-- **Confinement**: a scope that an evaluation cannot reach is the same afterwards, and every
scope in its value was reached or created. -/
theorem completes_confined (h : Completes σ e n σ' a) :
    (∀ i s, σ.heap.get? i = some s → ¬ Reach σ.heap e n i → σ'.heap.get? i = some s)
      ∧ ∀ v, a = .value v → ∀ i, v.Mentions i →
        Reach σ.heap e n i ∨ σ.heap.size ≤ i ∧ i < σ'.heap.size := by
  obtain ⟨fuel, t, hrun, hanswer⟩ := completes_iff_solo.1 h
  obtain ⟨hchanges, -, ht⟩ :=
    solo_allowed hrun admits_reached heap_obeys_reached start_obeys_reached
  refine ⟨fun i s hs hi => ?_, ?_⟩
  · have hout : ¬ Reached σ σ' e n i := fun hr => hi (reach_of_reached hr hs)
    exact Store.Change.run_get?_eq hchanges hout hs
  · rintro v rfl
    exact Node.obeys_within.1 (ht.answer hanswer)

/-! ### A scope aside -/

/-- A procedure that keeps its argument in the scope of the call, and gives that scope. -/
def keeper : Node :=
  .function ⟨some "keep", ["x"],
    [.call [.primitive (.builtin (.form .define)), .symbol "y" none, .symbol "x" none] none,
      .call [.primitive (.builtin (.form .here))] none], 0⟩

/-- Two scopes; the second knows of the first, and the first has the procedure. -/
def twoScopes : Store :=
  ⟨⟨#[⟨"first", none, [("keep", keeper)]⟩, ⟨"second", none, [("there", .scope 0 "first")]⟩]⟩,
    0, .unlimited⟩

def keepForm : Node := .call [.symbol "keep" none, .int 7] none

lemma reach_keepForm {i : ScopeId} (h : Reach twoScopes.heap 0 keepForm i) : i = 0 := by
  induction h with
  | here => rfl
  | inside hm => simp [keepForm, Node.int] at hm
  | parent _ hs hp ih =>
    subst ih
    cases hs
    cases hp
  | bound _ hs hb hm ih =>
    subst ih
    cases hs
    cases List.mem_singleton.1 hb
    simpa [keeper, eq_comm] using hm

theorem completes_confined_keep :
    ∃ σ', Completes twoScopes 0 keepForm σ' (.value (.scope 2 "keep"))
      ∧ ¬ Reach twoScopes.heap 0 keepForm 1
      ∧ σ'.heap.get? 1 = some ⟨"second", none, [("there", .scope 0 "first")]⟩
      ∧ (Reach twoScopes.heap 0 keepForm 2 ∨ twoScopes.heap.size ≤ 2 ∧ 2 < σ'.heap.size) := by
  have hrun : Completes twoScopes 0 keepForm _ (.value (.scope 2 "keep")) :=
    ⟨20, _, rfl, rfl⟩
  obtain ⟨hsame, hvalue⟩ := completes_confined hrun
  have hout : ¬ Reach twoScopes.heap 0 keepForm 1 := fun h => absurd (reach_keepForm h) (by decide)
  exact ⟨_, hrun, hout, hsame 1 _ rfl hout, hvalue _ rfl 2 .scope⟩

end ChannelLisp
