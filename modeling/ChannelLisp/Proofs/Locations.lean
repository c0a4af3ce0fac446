import ChannelLisp.Proofs.Simulation
import Mathlib.Tactic

/-!
Locations do not influence evaluation. The store without locations is tied to the store, so
every run, as long as no thread is started, is in step with the run without locations; two
runs that start from the same up to locations are both in step with one and the same. Only the
report of an error in a thread that nobody waits for would show a location.
-/

namespace ChannelLisp

def Scope.bare (s : Scope) : Scope :=
  { s with bindings := s.bindings.map fun b => (b.1, b.2.bare) }

def Heap.bare (h : Heap) : Heap := ⟨h.scopes.map Scope.bare⟩

/-- The store without any location. -/
def Store.bare (σ : Store) : Store := { σ with heap := σ.heap.bare }

/-- The same up to locations. Of errors, the messages are compared. -/
def Answer.Alike : Answer → Answer → Prop
  | .value v, .value v' => v.bare = v'.bare
  | .error e, .error e' => e.message = e'.message
  | .crash detail, .crash detail' => detail = detail'
  | _, _ => False

/-! ### The heap without locations -/

lemma Scope.view_erase (s : Scope) : s.view .erase = s.bare := by
  have hbindings : Prod.map id (Node.view .erase) = fun b : String × Node => (b.1, b.2.bare) := by
    funext b
    exact Prod.ext rfl (Node.view_erase b.2)
  rw [Scope.view, Scope.bare, View.scope_erase, Option.map_id, hbindings]
  rfl

namespace Heap

variable (h : Heap)

lemma get?_bare (i : ScopeId) : h.bare.get? i = (h.get? i).map Scope.bare := by
  simp [Heap.get?, Heap.bare]

lemma fresh_bare : h.bare.fresh = h.fresh := by
  simp [Heap.fresh, Heap.bare]

lemma nameOf_bare (i : ScopeId) : h.bare.nameOf i = h.nameOf i := by
  rw [Heap.nameOf, Heap.nameOf, get?_bare]
  cases h.get? i <;> rfl

lemma chainFrom_bare (fuel : Nat) (i : ScopeId) :
    h.bare.chainFrom fuel i = h.chainFrom fuel i := by
  apply chainFrom_congr
  intro j
  rw [get?_bare, Option.map_map]
  rfl

/-- What a name is bound to in one scope. -/
lemma bound_bare (i : ScopeId) (x : String) : (h.bare.get? i).bind (·.get? x)
    = ((h.get? i).bind (·.get? x)).map (Node.view .erase) := by
  rw [get?_bare]
  cases h.get? i with
  | none => rfl
  | some s =>
    rw [Option.map_some, Option.bind_some, Option.bind_some, ← Scope.view_erase]
    exact get?_view x s.bindings

lemma lookup?_bare (i : ScopeId) (x : String) :
    h.bare.lookup? i x = (h.lookup? i x).map (Node.view .erase) := by
  unfold Heap.lookup? Heap.chain
  rw [chainFrom_bare, List.map_findSome?]
  exact congrArg (List.findSome? · _) (funext fun j => bound_bare h j x)

lemma holder?_bare (i : ScopeId) (x : String) : h.bare.holder? i x = h.holder? i x := by
  have hbinds : h.bare.binds x = h.binds x := by
    funext j
    rw [Heap.binds, Heap.binds, bound_bare, Option.isSome_map]
  rw [Heap.holder?, Heap.holder?, hbinds, Heap.chain, Heap.chain, chainFrom_bare]

lemma push_bare (s : Scope) : h.bare.push (s.view .erase) = (h.push s).bare := by
  rw [Scope.view_erase]
  simp [Heap.bare, Heap.push]

lemma define_bare (i : ScopeId) (x : String) (v : Node) :
    h.bare.define i x (v.view .erase) = (h.define i x v).bare := by
  have hput (s : Scope) : s.bare.put x (v.view .erase) = (s.put x v).bare := by
    rw [← Scope.view_erase, ← Scope.view_erase]
    unfold Scope.put Scope.view
    rw [put_view]
  apply Heap.ext_get?
  intro j
  rw [get?_define, get?_bare, get?_bare, get?_define]
  split
  · cases h.get? j with
    | none => rfl
    | some s => exact congrArg some (hput s)
  · rfl

end Heap

/-- The store and the store without locations. Threads that nobody waits for are left out. -/
lemma tied_bare (σ : Store) :
    Tied .erase (.any False) (fun σ τ => τ = σ.bare) σ σ.bare where
  same := rfl
  lookup i x _ _ := σ.heap.lookup?_bare i x
  holder i x _ _ := by
    rw [View.scope_erase, Option.map_id]
    exact σ.heap.holder?_bare i x
  nameOf i _ := σ.heap.nameOf_bare i
  fresh := σ.heap.fresh_bare
  push s _ := congrArg (Store.mk · σ.nextChannel σ.sink) (σ.heap.push_bare s)
  define i x v _ _ _ := congrArg (Store.mk · σ.nextChannel σ.sink) (σ.heap.define_bare i x v)
  nextChannel := rfl
  channel := rfl
  refusal _ _ := rfl
  print _ _ := rfl
  report h := h.elim

/-! ### Runs -/

variable {σ σ₁ σ₂ : Store} {e : ScopeId} {n n₁ n₂ : Node}

lemma Answer.alike_of_view {a₁ a₂ : Answer} (h : a₁.view .erase = a₂.view .erase) :
    a₁.Alike a₂ := by
  cases a₁ <;> cases a₂ <;> simp only [Answer.view, reduceCtorEq, Answer.value.injEq,
    Answer.error.injEq, Answer.crash.injEq] at h
  · rw [Node.view_erase, Node.view_erase] at h
    exact h
  · rename_i e₁ e₂
    have hmessage : (e₁.view .erase).message = (e₂.view .erase).message := congrArg _ h
    rwa [EvalError.message_view, EvalError.message_view] at hmessage
  · exact h

/-- A run is in step with the run without locations. -/
lemma solo_bare (fuel : Nat) (σ : Store) (e : ScopeId) (n : Node) :
    solo fuel σ.bare (.start e n.bare)
      = (solo fuel σ (.start e n)).map fun r => (r.1.bare, r.2.view .erase) := by
  have hstart : (Thread.start e n).Obeys (.any False) :=
    Thread.obeys_start trivial (n.obeys_any False)
  have hview : Thread.start e n.bare = (Thread.start e n).view .erase := by
    rw [← Node.view_erase]
    rfl
  have htied : ∀ σ τ : Store, τ = σ.bare →
      Tied .erase (.any False) (fun σ τ => τ = σ.bare) σ τ := by
    rintro σ _ rfl
    exact tied_bare σ
  have hrel := solo_matches htied
    (fun _ _ => ⟨fun _ _ _ => trivial, fun _ _ _ => trivial⟩) fuel rfl
    (σ.heap.obeys_any False) hstart
  rw [hview]
  generalize solo fuel σ (.start e n) = r at hrel
  generalize solo fuel σ.bare ((Thread.start e n).view .erase) = r' at hrel
  cases hrel with
  | none => rfl
  | some h => exact congrArg some (Prod.ext h.1 h.2)

lemma alone_bare : Alone σ.bare e n.bare ↔ Alone σ e n := by
  rw [alone_iff_solo, alone_iff_solo]
  refine forall_congr' fun fuel => ?_
  rw [solo_bare]
  rcases solo fuel σ (.start e n) with _ | ⟨σ', t⟩ <;> simp

/-- Evaluation ends if it does without locations, and then with the same up to locations. -/
lemma completes_bare {τ : Store} {b : Answer} : Completes σ.bare e n.bare τ b
    ↔ ∃ σ' a, Completes σ e n σ' a ∧ σ'.bare = τ ∧ a.view .erase = b := by
  simp only [completes_iff_solo, solo_bare, Option.map_eq_some_iff]
  constructor
  · rintro ⟨fuel, u, ⟨⟨σ', t⟩, hrun, hr⟩, hanswer⟩
    cases hr
    rw [Thread.answer?_view] at hanswer
    obtain ⟨a, ha, rfl⟩ := Option.map_eq_some_iff.1 hanswer
    exact ⟨σ', a, ⟨fuel, t, hrun, ha⟩, rfl, rfl⟩
  · rintro ⟨σ', a, ⟨fuel, t, hrun, ha⟩, rfl, rfl⟩
    exact ⟨fuel, _, ⟨(σ', t), hrun, rfl⟩, by rw [Thread.answer?_view, ha]; rfl⟩

/-- **Locations do not influence evaluation**: from stores and forms that are equal up to
locations, and without a thread being started, either both evaluations end or none, and what
they end with, the output included, is again the same up to locations. -/
theorem evaluation_ignores_locations (hσ : σ₁.bare = σ₂.bare) (hn : n₁.bare = n₂.bare) :
    (Alone σ₁ e n₁ ↔ Alone σ₂ e n₂)
      ∧ ((∃ σ' a, Completes σ₁ e n₁ σ' a) ↔ ∃ σ' a, Completes σ₂ e n₂ σ' a)
      ∧ ∀ σ₁' a₁ σ₂' a₂, Completes σ₁ e n₁ σ₁' a₁ → Completes σ₂ e n₂ σ₂' a₂ →
        a₁.Alike a₂ ∧ σ₁'.bare = σ₂'.bare ∧ σ₁'.sink = σ₂'.sink := by
  have ends (σ : Store) (n : Node) : (∃ σ' a, Completes σ e n σ' a)
      ↔ ∃ τ b, Completes σ.bare e n.bare τ b := by
    constructor
    · rintro ⟨σ', a, h⟩
      exact ⟨_, _, completes_bare.2 ⟨σ', a, h, rfl, rfl⟩⟩
    · rintro ⟨τ, b, h⟩
      obtain ⟨σ', a, h, -, -⟩ := completes_bare.1 h
      exact ⟨σ', a, h⟩
  refine ⟨?_, ?_, fun σ₁' a₁ σ₂' a₂ h₁ h₂ => ?_⟩
  · rw [← alone_bare, hσ, hn, alone_bare]
  · rw [ends σ₁ n₁, ends σ₂ n₂, hσ, hn]
  · -- both are in step with one run, and that has one result
    have hbare₁ := completes_bare.2 ⟨σ₁', a₁, h₁, rfl, rfl⟩
    have hbare₂ := completes_bare.2 ⟨σ₂', a₂, h₂, rfl, rfl⟩
    rw [hσ, hn] at hbare₁
    obtain ⟨hstore, hanswer⟩ := hbare₁.unique hbare₂
    have hsink : σ₁'.bare.sink = σ₂'.bare.sink := congrArg Store.sink hstore
    exact ⟨Answer.alike_of_view hanswer, hstore, hsink⟩

/-! ### An error and its place -/

/-- A procedure that prints a text and then divides by zero, read at a place. -/
def dividing (l : Location) : Node :=
  .function ⟨some "divide", [],
    [.call [.primitive (.builtin (.output .printLine)), .literal (.str "now") (some l)] (some l),
      .call [.primitive (.builtin (.operation .div)), .literal (.int 1) (some l),
        .literal (.int 0) (some l)] (some l)], 0⟩

/-- A store with the procedure. -/
def dividerAt (l : Location) : Store :=
  ⟨⟨#[⟨"first", none, [("divide", dividing l)]⟩]⟩, 0, .unlimited⟩

/-- A call of the procedure, read at a place. -/
def divisionAt (l : Location) : Node := .call [.symbol "divide" (some l)] (some l)

lemma bare_dividerAt (l l' : Location) : (dividerAt l).bare = (dividerAt l').bare := by
  simp [dividerAt, dividing, Store.bare, Heap.bare, Scope.bare, Closure.bare]

lemma bare_divisionAt (l l' : Location) : (divisionAt l).bare = (divisionAt l').bare := by
  simp [divisionAt]

theorem evaluation_ignores_locations_divider :
    ∃ σ₁ σ₂, Completes (dividerAt ⟨"a", 1⟩) 0 (divisionAt ⟨"b", 2⟩) σ₁
          (.error ⟨.divisionByZero, some ⟨"a", 1⟩⟩)
      ∧ Completes (dividerAt ⟨"c", 3⟩) 0 (divisionAt ⟨"d", 4⟩) σ₂
          (.error ⟨.divisionByZero, some ⟨"c", 3⟩⟩)
      ∧ σ₁.bare = σ₂.bare ∧ σ₁.sink = σ₂.sink := by
  have h₁ : Completes (dividerAt ⟨"a", 1⟩) 0 (divisionAt ⟨"b", 2⟩) _
      (.error ⟨.divisionByZero, some ⟨"a", 1⟩⟩) := ⟨30, _, rfl, rfl⟩
  have h₂ : Completes (dividerAt ⟨"c", 3⟩) 0 (divisionAt ⟨"d", 4⟩) _
      (.error ⟨.divisionByZero, some ⟨"c", 3⟩⟩) := ⟨30, _, rfl, rfl⟩
  obtain ⟨-, -, hsame⟩ := evaluation_ignores_locations (e := 0)
    (bare_dividerAt ⟨"a", 1⟩ ⟨"c", 3⟩) (bare_divisionAt ⟨"b", 2⟩ ⟨"d", 4⟩)
  exact ⟨_, _, h₁, h₂, (hsame _ _ _ _ h₁ h₂).2⟩

end ChannelLisp
