import ChannelLisp.Proofs.Composition
import ChannelLisp.Proofs.Lifetime
import ChannelLisp.Proofs.Nearest
import Mathlib.Tactic

/-!
One scope more. A scope that nothing refers to takes no part in a run: with it and without it the
steps are the same, but that every scope made later has the next identifier instead of its own.
-/

namespace ChannelLisp

/-- Makes room for one identifier: those from it on are moved up. -/
def skip (n i : ScopeId) : ScopeId := if i < n then i else Nat.succ i

/-- Scopes under the identifiers that they have beside one more; places as they are. -/
def View.skip (n : ScopeId) : View := { View.plain with scope := ChannelLisp.skip n }

/-- The second store has one scope more than the first, under the given identifier. -/
structure Store.Inserted (n : ScopeId) (σ τ : Store) : Prop where
  ordered : σ.heap.Ordered
  size : τ.heap.size = σ.heap.size + 1
  room : n ≤ σ.heap.size
  get? : ∀ i, τ.heap.get? (skip n i) = (σ.heap.get? i).map (Scope.view (.skip n))
  nextChannel : τ.nextChannel = σ.nextChannel
  sink : τ.sink = σ.sink

variable {n i j : ScopeId} {σ τ : Store} {x : String}

lemma skip_of_lt (hi : i < n) : skip n i = i := if_pos hi

lemma skip_of_le (hi : n ≤ i) : skip n i = Nat.succ i := if_neg (Nat.not_lt.2 hi)

lemma lt_skip_succ (n i : ScopeId) : i < skip n i + 1 := by
  unfold skip
  split
  · exact Nat.lt_succ_self i
  · exact Nat.lt_succ_of_lt (Nat.lt_succ_self i)

lemma skip_inj : skip n i = skip n j ↔ i = j := by
  constructor
  · unfold skip
    intro h
    split at h <;> split at h
    · exact h
    · rename_i hi hj
      exact absurd (lt_of_lt_of_le (Nat.lt_succ_self j) (h ▸ hi.le)) hj
    · rename_i hi hj
      exact absurd (lt_of_lt_of_le (Nat.lt_succ_self i) (h ▸ hj.le)) hi
    · exact Nat.succ.inj h
  · exact congrArg _

namespace Store.Inserted

variable (h : σ.Inserted n τ)

include h

lemma chainFrom (fuel : Nat) (i : ScopeId) :
    τ.heap.chainFrom fuel (skip n i) = (σ.heap.chainFrom fuel i).map (skip n) := by
  induction fuel generalizing i with
  | zero => rfl
  | succ fuel ih =>
    rw [Heap.chainFrom, Heap.chainFrom, h.get?]
    cases σ.heap.get? i with
    | none => rfl
    | some s =>
      obtain ⟨name, _ | q, bindings⟩ := s
      · rfl
      · exact congrArg (skip n i :: ·) (ih q)

/-- The ways outward correspond: parents are older, so the greater fuel does not matter. -/
lemma chain (i : ScopeId) : τ.heap.chain (skip n i) = (σ.heap.chain i).map (skip n) := by
  rw [Heap.chain, h.chainFrom, Heap.chain,
    h.ordered.chainFrom_eq (lt_skip_succ n i) (Nat.lt_succ_self i)]

lemma bound (i : ScopeId) (x : String) : (τ.heap.get? (skip n i)).bind (·.get? x)
    = ((σ.heap.get? i).bind (·.get? x)).map (Node.view (.skip n)) := by
  rw [h.get?]
  cases σ.heap.get? i with
  | none => rfl
  | some s => exact get?_view x s.bindings

lemma lookup? (i : ScopeId) (x : String) :
    τ.heap.lookup? (skip n i) x = (σ.heap.lookup? i x).map (Node.view (.skip n)) := by
  rw [Heap.lookup?, h.chain, List.findSome?_map, Heap.lookup?, List.map_findSome?]
  exact congrArg (List.findSome? · _) (funext fun j => h.bound j x)

lemma holder? (i : ScopeId) (x : String) :
    τ.heap.holder? (skip n i) x = (σ.heap.holder? i x).map (skip n) := by
  have hbinds : τ.heap.binds x ∘ skip n = σ.heap.binds x := by
    funext j
    rw [Function.comp_apply, Heap.binds, Heap.binds, h.bound, Option.isSome_map]
  rw [Heap.holder?, h.chain, List.find?_map, hbinds, Heap.holder?]

lemma nameOf (i : ScopeId) : τ.heap.nameOf (skip n i) = σ.heap.nameOf i := by
  rw [Heap.nameOf, Heap.nameOf, h.get?]
  cases σ.heap.get? i <;> rfl

lemma fresh : τ.heap.fresh = skip n σ.heap.fresh := by
  have hfresh : skip n σ.heap.fresh = Nat.succ σ.heap.fresh := skip_of_le h.room
  rw [hfresh]
  exact h.size

lemma push {s : Scope} (hs : ∀ q ∈ s.parent?, q < σ.heap.size) :
    (σ.pushScope s).Inserted n (τ.pushScope (s.view (.skip n))) where
  ordered := h.ordered.push hs
  size := by
    rw [pushScope, pushScope, Heap.size_push, Heap.size_push, h.size]
  room := by
    rw [pushScope, Heap.size_push]
    exact Nat.le_succ_of_le h.room
  get? i := by
    simp only [pushScope, Heap.get?_push, h.fresh, skip_inj]
    split
    · rfl
    · exact h.get? i
  nextChannel := h.nextChannel
  sink := h.sink

lemma define (i : ScopeId) (x : String) (v : Node) :
    (σ.define i x v).Inserted n (τ.define (skip n i) x (v.view (.skip n))) where
  ordered := h.ordered.define
  size := by
    rw [Store.define, Store.define, Heap.size_define, Heap.size_define, h.size]
  room := by
    rw [Store.define, Heap.size_define]
    exact h.room
  get? j := by
    simp only [Store.define, Heap.get?_define, skip_inj, h.get?]
    split
    · cases σ.heap.get? j with
      | none => rfl
      | some s =>
        have hput : (s.view (.skip n)).put x (v.view (.skip n)) = (s.put x v).view (.skip n) := by
          unfold Scope.put Scope.view
          rw [put_view]
        exact congrArg some hput
    · rfl
  nextChannel := h.nextChannel
  sink := h.sink

/-- What decides a step is the same with one scope more. -/
lemma tied : Tied (.skip n) σ.present (Store.Inserted n) σ τ where
  same := h
  lookup i x _ _ := h.lookup? i x
  holder i x _ _ := h.holder? i x
  nameOf i _ := h.nameOf i
  fresh := h.fresh
  push s hs := h.push hs.parent
  define i x v _ _ _ := h.define i x v
  nextChannel := h.nextChannel
  channel := ⟨h.ordered, h.size, h.room, h.get?, congrArg (· + 1) h.nextChannel, h.sink⟩
  refusal o text := by rw [h.sink]
  print o text := ⟨h.ordered, h.size, h.room, h.get?, h.nextChannel, by rw [h.sink]⟩
  report _ e := ⟨h.ordered, h.size, h.room, h.get?, h.nextChannel, by
    have htext : (e.view (.skip n)).text = e.text := by
      unfold EvalError.text
      rw [EvalError.message_view]
      rfl
    rw [h.sink, htext]⟩

end Store.Inserted

/-! ### Runs -/

/-- A run with one scope more is the run without it. -/
lemma solo_inserted (fuel : Nat) {t : Thread} (h : σ.Inserted n τ)
    (hσ : σ.heap.Obeys σ.present) (ht : t.Obeys σ.present) :
    Option.Rel (fun r r' => r.1.Inserted n r'.1 ∧ r'.2 = r.2.view (.skip n))
      (solo fuel σ t) (solo fuel τ (t.view (.skip n))) :=
  solo_lockstep (I := fun σ t => σ.heap.Obeys σ.present ∧ t.Obeys σ.present)
    (fun _ _ _ h ht => step_matches h.tied ht.1 ht.2) (fun _ _ ht => step_present ht.1 ht.2)
    fuel h ⟨hσ, ht⟩

section

variable {t : Thread} (h : σ.Inserted n τ) (hσ : σ.heap.Obeys σ.present)
  (ht : t.Obeys σ.present)

include h hσ ht

lemma quiet_inserted : Quiet τ (t.view (.skip n)) ↔ Quiet σ t := by
  refine forall_congr' fun fuel => ?_
  have hrel := solo_inserted fuel h hσ ht
  generalize solo fuel σ t = r at hrel
  generalize solo fuel τ (t.view (.skip n)) = r' at hrel
  cases hrel <;> rfl

lemma Ends.inserted {σ' : Store} {a : Answer} (ha : Ends σ t σ' a) :
    ∃ τ', Ends τ (t.view (.skip n)) τ' (a.view (.skip n)) ∧ σ'.Inserted n τ' := by
  obtain ⟨t', ⟨fuel, hrun⟩, ht'⟩ := ha
  have hrel := solo_inserted fuel h hσ ht
  rw [hrun] at hrel
  generalize hr : solo fuel τ (t.view (.skip n)) = r' at hrel
  cases hrel with
  | @some _ r' hrel =>
    refine ⟨r'.1, ⟨r'.2, ⟨fuel, hr⟩, ?_⟩, hrel.1⟩
    rw [hrel.2, Thread.answer?_view, ht']
    rfl

/-- With one scope more, a run ends only if it does without it. -/
lemma Ends.of_inserted {τ' : Store} {b : Answer} (hb : Ends τ (t.view (.skip n)) τ' b) :
    ∃ σ' a, Ends σ t σ' a := by
  obtain ⟨u, ⟨fuel, hrun⟩, hu⟩ := hb
  have hrel := solo_inserted fuel h hσ ht
  rw [hrun] at hrel
  generalize hr : solo fuel σ t = r at hrel
  cases hrel with
  | @some r _ hrel =>
    have hview : u = r.2.view (.skip n) := hrel.2
    rw [hview, Thread.answer?_view] at hu
    obtain ⟨a, ha, -⟩ := Option.map_eq_some_iff.1 hu
    exact ⟨r.1, a, r.2, ⟨fuel, hr⟩, ha⟩

end

/-! ### A scope that is new -/

section

variable {p : Policy} (hp : ∀ i, p.scope i → i < n)

include hp

/-- What refers to earlier scopes only looks the same. -/
lemma Node.Obeys.view_skip {v : Node} (h : v.Obeys p) : v.view (.skip n) = v := by
  have all {ns : List Node} (h : ∀ m ∈ ns, m.view (.skip n) = m) :
      ns.map (Node.view (.skip n)) = ns :=
    (List.map_congr_left h).trans (List.map_id ns)
  induction h with
  | literal | symbol | primitive | chan => rfl
  | call _ _ ih =>
    rw [Node.view_call, all ih]
    rfl
  | scope hi =>
    rw [Node.view_scope]
    exact congrArg (Node.scope · _) (skip_of_lt (hp _ hi))
  | function hs _ _ ih =>
    rw [Node.view_function, Closure.view, all ih]
    exact congrArg (fun i => Node.function ⟨_, _, _, i⟩) (skip_of_lt (hp _ hs))
  | transformer hs _ _ ih =>
    rw [Node.view_transformer, Closure.view, all ih]
    exact congrArg (fun i => Node.transformer ⟨_, _, _, i⟩) (skip_of_lt (hp _ hs))

lemma Scope.Obeys.view_skip {s : Scope} (h : s.Obeys p) : s.view (.skip n) = s := by
  obtain ⟨name, parent, bindings⟩ := s
  have hparent : parent.map (skip n) = parent := by
    cases parent with
    | none => rfl
    | some q => exact congrArg some (skip_of_lt (hp q (h.parent q rfl)))
  have hbindings : bindings.map (Prod.map id (Node.view (.skip n))) = bindings := by
    refine (List.map_congr_left fun b hb => ?_).trans (List.map_id bindings)
    exact Prod.ext rfl ((h.bindings b hb).view_skip hp)
  unfold Scope.view
  rw [hbindings]
  exact congrArg (Scope.mk _ · _) hparent

end

/-- A new scope is one more. -/
lemma inserted_pushScope (hσ : σ.heap.Obeys σ.present) (ho : σ.heap.Ordered) (s : Scope) :
    σ.Inserted σ.heap.fresh (σ.pushScope s) where
  ordered := ho
  size := σ.heap.size_push s
  room := le_rfl
  get? i := by
    rw [Store.pushScope, Heap.get?_push]
    rcases Nat.lt_or_ge i σ.heap.fresh with hi | hi
    · obtain ⟨sc, hsc⟩ := Heap.exists_of_lt_size hi
      have hview : sc.view (.skip σ.heap.fresh) = sc := (hσ i sc hi hsc).view_skip fun _ h => h
      rw [skip_of_lt hi, if_neg hi.ne, hsc, Option.map_some, hview]
    · have hnone (j : ScopeId) (hj : σ.heap.fresh ≤ j) : σ.heap.get? j = none :=
        Array.getElem?_eq_none hj
      have hne : Nat.succ i ≠ σ.heap.fresh := (Nat.lt_succ_of_le hi).ne'
      rw [skip_of_le hi, if_neg hne, hnone i hi, hnone _ (Nat.le_succ_of_le hi)]
      rfl
  nextChannel := rfl
  sink := rfl

end ChannelLisp
