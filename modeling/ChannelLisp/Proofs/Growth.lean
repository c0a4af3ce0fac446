import ChannelLisp.Proofs.Containment
import ChannelLisp.Proofs.Sessions
import Mathlib.Tactic

/-!
Scopes only grow. A scope that is there stays, with its name and its parent, and the names that
it binds keep their order: new ones come after them. So what is found from a scope is found
from it ever after. Every step does so, whatever comes of it, and so does every run.
-/

namespace ChannelLisp

/-- What a scope has become at a later time. -/
structure Scope.KeptIn (s s' : Scope) : Prop where
  name : s'.name = s.name
  parent : s'.parent? = s.parent?
  symbols : s.symbols <+: s'.symbols

/-- All scopes are still there. -/
def Heap.KeptIn (h h' : Heap) : Prop :=
  ∀ i s, h.get? i = some s → ∃ s', h'.get? i = some s' ∧ s.KeptIn s'

/-- No scope binds a name twice. -/
def Heap.Distinct (h : Heap) : Prop := ∀ i s, h.get? i = some s → s.symbols.Nodup

variable {p : Policy} {σ σ' : Store} {t t' : Thread} {fuel : Nat}

/-! ### One scope -/

lemma Scope.KeptIn.refl (s : Scope) : s.KeptIn s := ⟨rfl, rfl, List.prefix_rfl⟩

lemma Scope.KeptIn.trans {s₁ s₂ s₃ : Scope} (h : s₁.KeptIn s₂) (h' : s₂.KeptIn s₃) :
    s₁.KeptIn s₃ :=
  ⟨h'.name.trans h.name, h'.parent.trans h.parent, h.symbols.trans h'.symbols⟩

/-- A definition leaves the names where they are. -/
lemma Scope.keptIn_put (s : Scope) (x : String) (v : Node) : s.KeptIn (s.put x v) := by
  refine ⟨rfl, rfl, ?_⟩
  have hsymbols : (s.put x v).symbols
      = if x ∈ s.symbols then s.symbols else s.symbols ++ [x] := map_fst_put x v s.bindings
  rw [hsymbols]
  split
  · exact List.prefix_rfl
  · exact List.prefix_append _ _

lemma get?_isSome_iff {x : String} {bs : List (String × Node)} :
    (get? x bs).isSome ↔ x ∈ bs.map (·.1) := by
  induction bs with
  | nil => simp [get?]
  | cons b bs ih =>
    obtain ⟨y, v⟩ := b
    by_cases hy : y = x
    · simp [get?, hy]
    · have hx : x ≠ y := fun h => hy h.symm
      simp [get?, hy, hx, ih]

/-- A scope binds the names that it lists. -/
lemma Scope.get?_isSome_iff {s : Scope} {x : String} : (s.get? x).isSome ↔ x ∈ s.symbols :=
  ChannelLisp.get?_isSome_iff

lemma Scope.KeptIn.get? {s s' : Scope} {x : String} (h : s.KeptIn s') (hx : (s.get? x).isSome) :
    (s'.get? x).isSome := by
  rw [Scope.get?_isSome_iff] at hx ⊢
  exact h.symbols.subset hx

/-! ### All scopes -/

namespace Heap.KeptIn

variable {h₁ h₂ h₃ : Heap}

lemma refl (h : Heap) : h.KeptIn h := fun _ s hs => ⟨s, hs, .refl s⟩

lemma trans (h : h₁.KeptIn h₂) (h' : h₂.KeptIn h₃) : h₁.KeptIn h₃ := by
  intro i s hs
  obtain ⟨s₂, hs₂, hkept⟩ := h i s hs
  obtain ⟨s₃, hs₃, hkept'⟩ := h' i s₂ hs₂
  exact ⟨s₃, hs₃, hkept.trans hkept'⟩

/-- The scopes around a scope stay around it. A parent that is missing may come later. -/
lemma chainFrom (h : h₁.KeptIn h₂) (fuel : Nat) (i : ScopeId) :
    h₁.chainFrom fuel i <+: h₂.chainFrom fuel i := by
  induction fuel generalizing i with
  | zero => exact List.prefix_rfl
  | succ fuel ih =>
    rw [Heap.chainFrom]
    cases hs : h₁.get? i with
    | none => exact List.nil_prefix
    | some s =>
      obtain ⟨s', hs', hkept⟩ := h i s hs
      rw [Heap.chainFrom, hs']
      dsimp only
      rw [hkept.parent, List.cons_prefix_cons]
      refine ⟨rfl, ?_⟩
      cases s.parent? with
      | none => exact List.prefix_rfl
      | some q => exact ih q

/-- What is found from a scope is found from it later. -/
lemma lookup? (h : h₁.KeptIn h₂) {i : ScopeId} {x : String} (hx : (h₁.lookup? i x).isSome) :
    (h₂.lookup? i x).isSome := by
  rw [Heap.lookup?, List.findSome?_isSome_iff] at hx ⊢
  obtain ⟨j, hj, hbound⟩ := hx
  refine ⟨j, (h.chainFrom (i + 1) i).subset hj, ?_⟩
  cases hs : h₁.get? j with
  | none => simp [hs] at hbound
  | some s =>
    obtain ⟨s', hs', hkept⟩ := h j s hs
    rw [hs] at hbound
    rw [hs']
    exact hkept.get? hbound

end Heap.KeptIn

/-! ### Steps and runs -/

namespace Store.Change

lemma keptIn (h : σ.Change p σ') : σ.heap.KeptIn σ'.heap := by
  cases h with
  | same => exact .refl _
  | scope => exact fun i s hs => ⟨s, get?_pushScope hs, .refl s⟩
  | @define j x v =>
    intro i s hs
    have hget := σ.heap.get?_define j x v i
    by_cases hi : i = j
    · rw [if_pos hi, hs] at hget
      exact ⟨s.put x v, hget, s.keptIn_put x v⟩
    · rw [if_neg hi, hs] at hget
      exact ⟨s, hget, .refl s⟩
  | channel => exact .refl _
  | sink => exact .refl _

lemma distinct (h : σ.Change p σ') (hσ : σ.heap.Distinct) : σ'.heap.Distinct := by
  intro i s hs
  cases h with
  | scope hsc =>
    rw [Store.pushScope, Heap.get?_push] at hs
    split at hs
    · cases hs
      exact hsc.distinct
    · exact hσ i s hs
  | define =>
    rw [Store.define, Heap.get?_define] at hs
    split at hs
    · obtain ⟨s₀, hs₀, rfl⟩ := Option.map_eq_some_iff.1 hs
      exact distinct_put (hσ i s₀ hs₀)
    · exact hσ i s hs
  | _ => exact hσ i s hs

end Store.Change

/-- What is so at any time after the heap was `h`. -/
structure Heap.Later (h h' : Heap) : Prop where
  kept : h.KeptIn h'
  distinct : h'.Distinct
  found : ∀ i x, (h.lookup? i x).isSome → (h'.lookup? i x).isSome

lemma Heap.later_refl {h : Heap} (hd : h.Distinct) : h.Later h := ⟨.refl h, hd, fun _ _ hx => hx⟩

lemma Heap.Later.change {h : Heap} (hl : h.Later σ.heap) (hc : σ.Change p σ') :
    h.Later σ'.heap :=
  ⟨hl.kept.trans hc.keptIn, hc.distinct hl.distinct,
    fun i x hx => hc.keptIn.lookup? (hl.found i x hx)⟩

/-- A run, ended or not. -/
lemma solo_later {h : Heap} (hl : h.Later σ.heap) (hrun : solo fuel σ t = some (σ', t')) :
    h.Later σ'.heap :=
  solo_invariant (P := fun σ _ => h.Later σ.heap)
    (fun σ t hσ _ => hσ.change (step_change σ t)) hrun hl

/-- The evaluation of a source, whatever comes of it. -/
lemma Session.evalSource_later {s : Session} {source label : String} (hw : s.workers = [])
    (hq : s.QuietSource source label) (hd : s.store.heap.Distinct) :
    s.store.heap.Later (s.evalSource source label).1.store.heap := by
  have hkeeps : Session.Keeps (fun σ => s.store.heap.Later σ.heap) (fun _ => True) s.fuel none
      (s.evalSource source label) :=
    Session.evalSource_keeps
      (fun _ _ _ _ _ _ hσ hsolo => ⟨solo_later hσ hsolo, fun _ _ => trivial⟩)
      (fun _ _ hσ => hσ) hw (Heap.later_refl hd) hq
  exact hkeeps.store

end ChannelLisp
