import ChannelLisp.Node.Equality
import Mathlib.Tactic

/-!
Nodes without their locations. Two nodes are equal up to locations if they are equal once the
locations are erased, those in the bodies of closures included.
-/

namespace ChannelLisp

/-- Induction on nodes: for lists and closures, what is to be shown holds of the nodes inside. -/
@[elab_as_elim]
theorem Node.induction {P : Node → Prop} (literal : ∀ v l, P (.literal v l))
    (symbol : ∀ x l, P (.symbol x l))
    (call : ∀ items l, (∀ n ∈ items, P n) → P (.call items l))
    (scope : ∀ i x, P (.scope i x)) (primitive : ∀ p, P (.primitive p))
    (function : ∀ c : Closure Node, (∀ n ∈ c.body, P n) → P (.function c))
    (transformer : ∀ c : Closure Node, (∀ n ∈ c.body, P n) → P (.transformer c))
    (chan : ∀ i, P (.chan i)) (n : Node) : P n :=
  @Node.rec P (fun ns => ∀ n ∈ ns, P n) (fun c => ∀ n ∈ c.body, P n) literal symbol call scope
    primitive function transformer chan (by simp) (fun _ _ h hs => List.forall_mem_cons.2 ⟨h, hs⟩)
    (fun _ _ _ _ h => h) n

mutual

/-- The node without any location. -/
def Node.bare : Node → Node
  | .literal v _ => .literal v none
  | .symbol x _ => .symbol x none
  | .call items _ => .call (bareAll items) none
  | .scope id name => .scope id name
  | .primitive p => .primitive p
  | .function ⟨name, params, body, scope⟩ => .function ⟨name, params, bareAll body, scope⟩
  | .transformer ⟨name, params, body, scope⟩ => .transformer ⟨name, params, bareAll body, scope⟩
  | .chan id => .chan id

def bareAll : List Node → List Node
  | [] => []
  | n :: ns => n.bare :: bareAll ns

end

lemma displayAll_eq_intercalate : ∀ ns, displayAll ns = " ".intercalate (ns.map Node.display)
  | [] => by simp [displayAll]
  | [n] => by simp [displayAll]
  | n :: n' :: ns => by
    have ih := displayAll_eq_intercalate (n' :: ns)
    rw [displayAll, ih]
    simp [String.append_assoc]

def Closure.bare (c : Closure Node) : Closure Node := { c with body := c.body.map Node.bare }

lemma bareAll_eq_map (ns : List Node) : bareAll ns = ns.map Node.bare := by
  induction ns with
  | nil => rfl
  | cons n ns ih => simp [bareAll, ih]

namespace Node

@[simp] lemma bare_literal (v : Literal) (l : Option Location) :
    (literal v l).bare = .literal v none := rfl

@[simp] lemma bare_symbol (x : String) (l : Option Location) :
    (symbol x l).bare = .symbol x none := rfl

@[simp] lemma bare_call (items : List Node) (l : Option Location) :
    (call items l).bare = .call (items.map bare) none := by
  simp [bare, bareAll_eq_map]

@[simp] lemma bare_scope (i : ScopeId) (x : String) : (scope i x).bare = .scope i x := rfl

@[simp] lemma bare_primitive (p : Primitive) : (primitive p).bare = .primitive p := rfl

@[simp] lemma bare_function (c : Closure Node) : (function c).bare = .function c.bare := by
  simp [bare, bareAll_eq_map, Closure.bare]

@[simp] lemma bare_transformer (c : Closure Node) :
    (transformer c).bare = .transformer c.bare := by
  simp [bare, bareAll_eq_map, Closure.bare]

@[simp] lemma bare_chan (i : ChannelId) : (chan i).bare = .chan i := rfl

end Node

end ChannelLisp
