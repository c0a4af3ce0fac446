import ChannelLisp.Machine
import Mathlib.Tactic

/-!
Scopes are nested maps. From a scope outward, the nearest scope that binds a name holds it: a
name is looked up there, and updated there. A definition may come to lie between a scope and
what was nearest to it, so it shows from the scopes to which it is the nearest now; an update
adds no name, so it shows from the scopes that had the name from the scope it writes to.
-/

namespace ChannelLisp

lemma Scope.get?_put (s : Scope) (x y : String) (v : Node) :
    (s.put x v).get? y = if x = y then some v else s.get? y :=
  ChannelLisp.get?_put x y v s.bindings

/-- What a scope is after a name in it was given another value. -/
structure Scope.Rebound (s s' : Scope) (x : String) (v : Node) : Prop where
  name : s'.name = s.name
  parent : s'.parent? = s.parent?
  symbols : s'.symbols = s.symbols
  values : ∀ y, s'.get? y = if x = y then some v else s.get? y

lemma Scope.rebound_put {s : Scope} {x : String} {w : Node} (hx : s.get? x = some w) (v : Node) :
    s.Rebound (s.put x v) x v := by
  refine ⟨rfl, rfl, ?_, fun y => s.get?_put x y v⟩
  have hmem : x ∈ s.bindings.map (·.1) := List.mem_map_of_mem (mem_of_get?_eq_some hx)
  have hsymbols := map_fst_put x v s.bindings
  rwa [if_pos hmem] at hsymbols

namespace Heap

/-- Parents are older, so the way outward ends. -/
def Ordered (h : Heap) : Prop := ∀ i s q, h.get? i = some s → s.parent? = some q → q < i

/-- From the first scope outward, the second is the nearest that binds the name. -/
inductive Nearest (h : Heap) (x : String) : ScopeId → ScopeId → Prop
  | here {i : ScopeId} {s : Scope} {v : Node} :
      h.get? i = some s → s.get? x = some v → Nearest h x i i
  | outward {i j q : ScopeId} {s : Scope} : h.get? i = some s → s.get? x = none →
      s.parent? = some q → Nearest h x q j → Nearest h x i j

variable {h h' : Heap} {e i j : ScopeId} {x y : String} {v : Node} {s : Scope}

/-! ### The chain -/

/-- Any fuel that is enough gives the same chain. -/
lemma Ordered.chainFrom_eq (hh : h.Ordered) {fuel fuel' : Nat} (hi : i < fuel) (hi' : i < fuel') :
    h.chainFrom fuel i = h.chainFrom fuel' i := by
  induction fuel generalizing i fuel' with
  | zero => exact absurd hi (Nat.not_lt_zero i)
  | succ fuel ih =>
    obtain ⟨fuel', rfl⟩ := Nat.exists_eq_add_one_of_ne_zero (Nat.ne_zero_of_lt hi')
    rw [chainFrom, chainFrom]
    cases hs : h.get? i with
    | none => rfl
    | some s =>
      cases hq : s.parent? with
      | none => simp only [hq]
      | some q =>
        have hlt := hh i s q hs hq
        have hrest : h.chainFrom fuel q = h.chainFrom fuel' q :=
          ih (hlt.trans_le (Nat.le_of_lt_succ hi)) (hlt.trans_le (Nat.le_of_lt_succ hi'))
        simp only [hq, hrest]

lemma Ordered.chain_eq (hh : h.Ordered) (hs : h.get? i = some s) :
    h.chain i = i :: (s.parent?.map h.chain).getD [] := by
  rw [chain, chainFrom, hs]
  cases hq : s.parent? with
  | none => simp only [hq, Option.map_none, Option.getD_none]
  | some q =>
    have hlt := hh i s q hs hq
    simp only [hq, Option.map_some, Option.getD_some]
    rw [chain, hh.chainFrom_eq hlt (Nat.lt_succ_self q)]

lemma chain_of_none (hi : h.get? i = none) : h.chain i = [] := by
  rw [chain, chainFrom, hi]

/-- A name is looked up in the scope that holds it. -/
lemma lookup?_eq_bind (h : Heap) (i : ScopeId) (x : String) :
    h.lookup? i x = (h.holder? i x).bind fun j => (h.get? j).bind (·.get? x) := by
  rw [lookup?, holder?]
  induction h.chain i with
  | nil => rfl
  | cons j js ih =>
    rw [List.findSome?_cons, List.find?_cons, binds]
    cases hv : (h.get? j).bind (·.get? x) with
    | none => exact ih
    | some v => exact hv.symm

lemma Ordered.lookup?_eq (hh : h.Ordered) (hs : h.get? i = some s) (x : String) :
    h.lookup? i x = (s.get? x).or (s.parent?.bind (h.lookup? · x)) := by
  rw [lookup?, hh.chain_eq hs, List.findSome?_cons, hs, Option.bind_some]
  cases s.get? x with
  | some v => rfl
  | none => cases s.parent? <;> rfl

/-! ### A new scope -/

lemma Ordered.push (hh : h.Ordered) (hs : ∀ q ∈ s.parent?, q < h.size) : (h.push s).Ordered := by
  intro i s' q hs' hq
  rw [get?_push] at hs'
  split at hs'
  · rename_i hi
    cases hs'
    rw [hi]
    exact hs q hq
  · exact hh i s' q hs' hq

/-- A new scope does not show from the others. -/
lemma Ordered.lookup?_push_of_lt (hh : (h.push s).Ordered) (hh' : h.Ordered) (hi : i < h.size)
    (x : String) : (h.push s).lookup? i x = h.lookup? i x := by
  induction i using Nat.strongRecOn with
  | ind i ih =>
    obtain ⟨sc, hget⟩ : ∃ sc, h.get? i = some sc := ⟨_, Array.getElem?_eq_getElem hi⟩
    have hne : i ≠ h.fresh := Nat.ne_of_lt hi
    have hget' : (h.push s).get? i = some sc := by rw [get?_push, if_neg hne, hget]
    rw [hh.lookup?_eq hget', hh'.lookup?_eq hget]
    cases hq : sc.parent? with
    | none => rfl
    | some q =>
      have hlt : q < i := hh' i sc q hget hq
      rw [Option.bind_some, Option.bind_some, ih q hlt (hlt.trans hi)]

/-- From a new scope, its own names are found, and those that are found from its parent. -/
lemma Ordered.lookup?_push_fresh {q : ScopeId} (hh : h.Ordered) (hs : s.parent? = some q)
    (hq : q < h.size) (x : String) :
    (h.push s).lookup? h.fresh x = (s.get? x).or (h.lookup? q x) := by
  have hparent : ∀ r ∈ s.parent?, r < h.size := fun r hr => by
    obtain rfl : q = r := Option.some.inj (hs.symm.trans hr)
    exact hq
  have hpush := hh.push hparent
  have hget : (h.push s).get? h.fresh = some s := by rw [get?_push, if_pos rfl]
  rw [hpush.lookup?_eq hget, hs, Option.bind_some, hpush.lookup?_push_of_lt hh hq]

/-! ### The nearest scope -/

/-- What holds a name is the nearest scope that binds it. -/
lemma Ordered.holder?_eq_some_iff (hh : h.Ordered) : h.holder? i x = some j ↔ h.Nearest x i j := by
  constructor
  · intro hj
    induction i using Nat.strongRecOn with
    | ind i ih =>
      cases hs : h.get? i with
      | none => simp [holder?, chain_of_none hs] at hj
      | some s =>
        rw [holder?, hh.chain_eq hs, List.find?_cons, binds, hs, Option.bind_some] at hj
        cases hx : s.get? x with
        | some v =>
          rw [hx] at hj
          cases hj
          exact .here hs hx
        | none =>
          cases hq : s.parent? with
          | none => simp [hx, hq] at hj
          | some q =>
            rw [hx, hq] at hj
            exact .outward hs hx hq (ih q (hh i s q hs hq) hj)
  · intro hn
    induction hn with
    | here hs hx => simp [holder?, hh.chain_eq hs, binds, hs, hx]
    | outward hs hx hq _ ih =>
      rw [holder?, hh.chain_eq hs, List.find?_cons, binds, hs, Option.bind_some, hx, hq]
      exact ih

lemma Nearest.unique (hi : h.Nearest x i j) {j' : ScopeId} (hj : h.Nearest x i j') : j = j' := by
  induction hi with
  | here hs hx =>
    cases hj with
    | here => rfl
    | outward hs' hx' =>
      obtain rfl := Option.some.inj (hs.symm.trans hs')
      cases hx.symm.trans hx'
  | outward hs hx hq _ ih =>
    cases hj with
    | here hs' hx' =>
      obtain rfl := Option.some.inj (hs.symm.trans hs')
      cases hx.symm.trans hx'
    | outward hs' _ hq' hrest =>
      obtain rfl := Option.some.inj (hs.symm.trans hs')
      obtain rfl := Option.some.inj (hq.symm.trans hq')
      exact ih hrest

/-- The nearest scope that binds a name does bind it. -/
lemma Nearest.bound (hn : h.Nearest x i j) : ∃ s v, h.get? j = some s ∧ s.get? x = some v := by
  induction hn with
  | here hs hx => exact ⟨_, _, hs, hx⟩
  | outward _ _ _ _ ih => exact ih

/-- Looking a name up reads it in the nearest scope that binds it. -/
lemma Ordered.lookup?_of_nearest (hh : h.Ordered) (hn : h.Nearest x i j) :
    h.lookup? i x = (h.get? j).bind (·.get? x) := by
  rw [lookup?_eq_bind, hh.holder?_eq_some_iff.2 hn, Option.bind_some]

lemma Ordered.lookup?_isSome_iff (hh : h.Ordered) :
    (h.lookup? i x).isSome ↔ ∃ j, h.Nearest x i j := by
  constructor
  · intro hx
    rw [lookup?_eq_bind] at hx
    cases hj : h.holder? i x with
    | none => simp [hj] at hx
    | some j => exact ⟨j, hh.holder?_eq_some_iff.1 hj⟩
  · rintro ⟨j, hn⟩
    obtain ⟨s, v, hs, hv⟩ := hn.bound
    rw [hh.lookup?_of_nearest hn, hs, Option.bind_some, hv]
    rfl

/-! ### A definition -/

lemma Ordered.define (hh : h.Ordered) : (h.define e x v).Ordered := by
  intro i s q hs hq
  rw [get?_define] at hs
  split at hs
  · obtain ⟨s', hs', rfl⟩ := Option.map_eq_some_iff.1 hs
    exact hh i s' q hs' hq
  · exact hh i s q hs hq

lemma get?_define_self (hs : h.get? e = some s) : (h.define e x v).get? e = some (s.put x v) := by
  rw [get?_define, if_pos rfl, hs, Option.map_some]

lemma get?_define_of_ne (hi : i ≠ e) : (h.define e x v).get? i = h.get? i := by
  rw [get?_define, if_neg hi]

/-- A scope that defines a name is the nearest to itself that binds it. -/
lemma nearest_define_self (hs : h.get? e = some s) : (h.define e x v).Nearest x e e := by
  refine .here (v := v) (get?_define_self hs) ?_
  rw [Scope.get?_put, if_pos rfl]

/-- Once a name is defined in a scope, that scope is the nearest, or what was the nearest is so
still. -/
lemma Nearest.define (hn : h.Nearest x i j) :
    (h.define e x v).Nearest x i e ∨ j ≠ e ∧ (h.define e x v).Nearest x i j := by
  induction hn with
  | @here i s w hs hx =>
    by_cases hi : i = e
    · subst hi
      exact .inl (nearest_define_self hs)
    · exact .inr ⟨hi, .here ((get?_define_of_ne hi).trans hs) hx⟩
  | @outward i j q s hs hx hq _ ih =>
    by_cases hi : i = e
    · subst hi
      exact .inl (nearest_define_self hs)
    · have hs' := (get?_define_of_ne (x := x) (v := v) hi).trans hs
      exact ih.imp (.outward hs' hx hq) fun ⟨hj, hrest⟩ => ⟨hj, .outward hs' hx hq hrest⟩

/-- The nearest scope after a definition was so before, unless the definition made it one. -/
lemma Nearest.of_define (hn : (h.define e x v).Nearest x i j)
    (hj : j = e → ∃ s w, h.get? e = some s ∧ s.get? x = some w) : h.Nearest x i j := by
  induction hn with
  | @here i s w hs hx =>
    by_cases hi : i = e
    · obtain ⟨s', w', hs', hx'⟩ := hj hi
      subst hi
      exact .here hs' hx'
    · exact .here ((get?_define_of_ne hi).symm.trans hs) hx
  | @outward i j q s hs hx hq _ ih =>
    by_cases hi : i = e
    · -- the scope of the definition binds the name
      subst hi
      rw [get?_define, if_pos rfl] at hs
      obtain ⟨s', -, rfl⟩ := Option.map_eq_some_iff.1 hs
      rw [Scope.get?_put, if_pos rfl] at hx
      cases hx
    · exact .outward ((get?_define_of_ne hi).symm.trans hs) hx hq (ih hj)

/-- From the scopes to which a scope is the nearest that binds the name, the name is the value;
everything else is found as before. -/
def Shows (h h' : Heap) (e : ScopeId) (x : String) (v : Node) : Prop :=
  ∀ i y, (y = x ∧ h'.Nearest x i e → h'.lookup? i y = some v) ∧
    (¬ (y = x ∧ h'.Nearest x i e) → h'.lookup? i y = h.lookup? i y)

/-- A definition shows from the scopes to which it is the nearest now. -/
lemma Ordered.lookup?_define_of_nearest (hh : h.Ordered) (hn : (h.define e x v).Nearest x i e) :
    (h.define e x v).lookup? i x = some v := by
  obtain ⟨s, w, hs, -⟩ := hn.bound
  rw [hh.define.lookup?_of_nearest hn]
  rw [get?_define, if_pos rfl] at hs
  obtain ⟨s', hs', rfl⟩ := Option.map_eq_some_iff.1 hs
  rw [get?_define_self hs', Option.bind_some, Scope.get?_put, if_pos rfl]

/-- From other scopes, it does not show. -/
lemma Ordered.lookup?_define_of_not_nearest (hh : h.Ordered)
    (hn : ¬ (h.define e x v).Nearest x i e) :
    (h.define e x v).lookup? i x = h.lookup? i x := by
  cases hj : h.lookup? i x with
  | some w =>
    obtain ⟨j, hnear⟩ := hh.lookup?_isSome_iff.1 (Option.isSome_of_eq_some hj)
    obtain ⟨hne, hnear'⟩ := hnear.define.resolve_left hn
    rw [hh.define.lookup?_of_nearest hnear', get?_define_of_ne hne, ← hh.lookup?_of_nearest hnear,
      hj]
  | none =>
    rw [← Option.not_isSome_iff_eq_none, hh.define.lookup?_isSome_iff]
    rintro ⟨j, hnear⟩
    have hne : j ≠ e := by
      rintro rfl
      exact hn hnear
    have hbound := hh.lookup?_isSome_iff.2 ⟨j, hnear.of_define fun heq => absurd heq hne⟩
    simp [hj] at hbound

lemma Ordered.shows_define (hh : h.Ordered) (e : ScopeId) (x : String) (v : Node) :
    h.Shows (h.define e x v) e x v := by
  refine fun i y => ⟨?_, fun hn => ?_⟩
  · rintro ⟨rfl, hn⟩
    exact hh.lookup?_define_of_nearest hn
  · by_cases hy : y = x
    · subst hy
      exact hh.lookup?_define_of_not_nearest fun hnear => hn ⟨rfl, hnear⟩
    · exact lookup?_define_of_ne fun heq => hy heq.symm

/-! ### An update -/

lemma update_eq_ok_iff {l : Option Location} :
    h.update e x v l = .ok h' ↔ ∃ i, h.holder? e x = some i ∧ h' = h.define i x v := by
  rw [update, target]
  cases h.holder? e x with
  | none => simp
  | some i => simp [eq_comm]

/-- A definition of a name that the scope binds already makes no scope nearer. -/
lemma nearest_define_iff (hs : h.get? e = some s) {w : Node} (hx : s.get? x = some w) :
    (h.define e x v).Nearest x i j ↔ h.Nearest x i j := by
  constructor
  · exact fun hn => hn.of_define fun _ => ⟨s, w, hs, hx⟩
  · intro hn
    rcases hn.define (e := e) (v := v) with hn' | ⟨-, hn'⟩
    · obtain rfl := hn.unique (hn'.of_define fun _ => ⟨s, w, hs, hx⟩)
      exact hn'
    · exact hn'

/-- What the heap is after an update, seen from a scope, that was written to the other scope. -/
structure Updated (h h' : Heap) (e : ScopeId) (x : String) (v : Node) (i : ScopeId) : Prop where
  nearest : h.Nearest x e i
  /-- The binding that is replaced is the one that was found. -/
  read : h.lookup? e x = (h.get? i).bind (·.get? x)
  scope : ∃ s s', h.get? i = some s ∧ h'.get? i = some s' ∧ s.Rebound s' x v
  others : ∀ j, j ≠ i → h'.get? j = h.get? j
  sight : ∀ a j, h'.Nearest x a j ↔ h.Nearest x a j
  shows : h.Shows h' i x v

lemma Ordered.updated (hh : h.Ordered) (hn : h.Nearest x e i) (v : Node) :
    h.Updated (h.define i x v) e x v i := by
  obtain ⟨s, w, hs, hx⟩ := hn.bound
  exact {
    nearest := hn
    read := hh.lookup?_of_nearest hn
    scope := ⟨s, s.put x v, hs, get?_define_self hs, Scope.rebound_put hx v⟩
    others := fun j hj => get?_define_of_ne hj
    sight := fun a j => nearest_define_iff hs hx
    shows := hh.shows_define i x v }

end Heap

open Heap

/-- **Scopes are nested maps.** After a definition, the name is the new value from the scopes to
which the scope of the definition is the nearest now, and from other scopes, and for other
names, everything is found as before. An update succeeds if the name is found, and then it
gives the new value to the name in the scope where it was found, leaves the other scopes and
the order of names as they are, and shows from the scopes that found the name there. A
thread whose update fails goes on with the error, and the store stays as it is. -/
theorem scopes_nest {h : Heap} (hh : h.Ordered) (e : ScopeId) (x : String) (v : Node)
    (l : Option Location) :
    ((e < h.size → (h.define e x v).Nearest x e e) ∧ h.Shows (h.define e x v) e x v) ∧
    ((∃ h', h.update e x v l = .ok h') ↔ (h.lookup? e x).isSome) ∧
    (∀ h', h.update e x v l = .ok h' → ∃ i, h.Updated h' e x v i) ∧
    ∀ (σ : Store) (k : List Frame), σ.heap = h →
      (∀ h', h.update e x v l = .ok h' →
        step σ ⟨.value v, .assign e x l :: k⟩ = ⟨{ σ with heap := h' }, ⟨.value v, k⟩, none⟩) ∧
      ∀ error, h.update e x v l = .error error →
        step σ ⟨.value v, .assign e x l :: k⟩ = ⟨σ, .raise error k, none⟩ := by
  refine ⟨⟨fun he => ?_, hh.shows_define e x v⟩, ?_, fun h' hup => ?_, fun σ k hσ => ?_⟩
  · exact nearest_define_self (Array.getElem?_eq_getElem he)
  · rw [hh.lookup?_isSome_iff]
    simp only [update_eq_ok_iff, ← hh.holder?_eq_some_iff]
    constructor
    · rintro ⟨-, i, hi, -⟩
      exact ⟨i, hi⟩
    · rintro ⟨i, hi⟩
      exact ⟨_, i, hi, rfl⟩
  · obtain ⟨i, hi, rfl⟩ := update_eq_ok_iff.1 hup
    exact ⟨i, hh.updated (hh.holder?_eq_some_iff.1 hi) v⟩
  · subst hσ
    have hstep : step σ ⟨.value v, .assign e x l :: k⟩ = resume σ (.assign e x l) v k := rfl
    rw [hstep, resume, update]
    cases σ.heap.target e x l with
    | ok i => simp [Store.define]
    | error error => simp

/-! ### Two branches -/

/-- A scope with two scopes inside, and a third one inside the first of these; `y` is bound
twice. -/
def twoBranches : Heap :=
  ⟨#[⟨"outer", none, [("x", .int 1), ("y", .int 2)]⟩, ⟨"left", some 0, [("y", .int 3)]⟩,
    ⟨"inner", some 1, []⟩, ⟨"right", some 0, []⟩]⟩

lemma ordered_twoBranches : twoBranches.Ordered := by
  intro i s q hs hq
  match i with
  | 0 =>
    cases hs
    cases hq
  | 1 | 2 | 3 =>
    cases hs
    cases hq
    decide
  | i + 4 => cases hs

theorem scopes_nest_twoBranches :
    twoBranches.Ordered ∧
      (twoBranches.define 2 "x" (.int 5)).lookup? 2 "x" = some (.int 5) ∧
      (twoBranches.define 2 "x" (.int 5)).lookup? 1 "x" = some (.int 1) ∧
      ∃ h', twoBranches.update 2 "y" (.int 4) none = .ok h' ∧
        twoBranches.Updated h' 2 "y" (.int 4) 1 ∧
        h'.lookup? 2 "y" = some (.int 4) ∧ h'.lookup? 3 "y" = some (.int 2) := by
  have hh := ordered_twoBranches
  obtain ⟨⟨hself, hshows⟩, -⟩ := scopes_nest hh 2 "x" (.int 5) none
  obtain ⟨-, hok, hupdated, -⟩ := scopes_nest hh 2 "y" (.int 4) none
  have hfar : ¬ (twoBranches.define 2 "x" (.int 5)).Nearest "x" 1 2 := by
    rw [← hh.define.holder?_eq_some_iff]
    decide
  have hinner : (twoBranches.define 2 "x" (.int 5)).lookup? 2 "x" = some (.int 5) :=
    (hshows 2 "x").1 ⟨rfl, hself (by decide)⟩
  have hleft : (twoBranches.define 2 "x" (.int 5)).lookup? 1 "x" = some (.int 1) :=
    (hshows 1 "x").2 fun hn => hfar hn.2
  obtain ⟨h', hup⟩ := hok.2 rfl
  obtain ⟨i, hi⟩ := hupdated h' hup
  obtain rfl : 1 = i := Option.some.inj (hh.holder?_eq_some_iff.2 hi.nearest)
  have hright : ¬ h'.Nearest "y" 3 1 := by
    rw [hi.sight, ← hh.holder?_eq_some_iff]
    decide
  have hfound : h'.lookup? 2 "y" = some (.int 4) :=
    (hi.shows 2 "y").1 ⟨rfl, (hi.sight 2 1).2 hi.nearest⟩
  have hother : h'.lookup? 3 "y" = some (.int 2) := (hi.shows 3 "y").2 fun hn => hright hn.2
  exact ⟨hh, hinner, hleft, h', hup, hi, hfound, hother⟩

end ChannelLisp
