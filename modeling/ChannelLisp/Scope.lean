import ChannelLisp.Error

/-!
Scopes and the heap that holds them. A scope binds names in the order of their definition and
has the scope around it as parent; a parent is older than its children, so the chain of
parents ends. Looking up and updating act on the nearest scope of the chain that binds a name.
-/

namespace ChannelLisp

structure Scope where
  name : String
  parent? : Option ScopeId
  /-- In the order in which the names were first defined. -/
  bindings : List (String × Node)

/-- Binds a name: in its place if it is bound, else at the end. -/
def put (x : String) (v : Node) : List (String × Node) → List (String × Node)
  | [] => [(x, v)]
  | (y, w) :: bs => if y = x then (y, v) :: bs else (y, w) :: put x v bs

def get? (x : String) : List (String × Node) → Option Node
  | [] => none
  | (y, w) :: bs => if y = x then some w else get? x bs

namespace Scope

def get? (s : Scope) (x : String) : Option Node := ChannelLisp.get? x s.bindings

def put (s : Scope) (x : String) (v : Node) : Scope :=
  { s with bindings := ChannelLisp.put x v s.bindings }

def symbols (s : Scope) : List String := s.bindings.map (·.1)

end Scope

/-- All scopes there are; a scope's identifier is its index. -/
structure Heap where
  scopes : Array Scope

namespace Heap

def empty : Heap := ⟨#[]⟩

def size (h : Heap) : Nat := h.scopes.size

def get? (h : Heap) (id : ScopeId) : Option Scope := h.scopes[id]?

/-- The identifier that the next scope gets. -/
def fresh (h : Heap) : ScopeId := h.scopes.size

def push (h : Heap) (s : Scope) : Heap := ⟨h.scopes.push s⟩

def nameOf (h : Heap) (id : ScopeId) : String := ((h.get? id).map (·.name)).getD ""

/-- A scope and the scopes around it, at most `fuel` of them. -/
def chainFrom (h : Heap) : Nat → ScopeId → List ScopeId
  | 0, _ => []
  | fuel + 1, id =>
    match h.get? id with
    | none => []
    | some s =>
      id :: match s.parent? with
        | none => []
        | some p => chainFrom h fuel p

/-- A scope and the scopes around it, from the inside out. Parents are older, so there are no
more of them than the identifier tells. -/
def chain (h : Heap) (id : ScopeId) : List ScopeId := h.chainFrom (id + 1) id

def binds (h : Heap) (x : String) (id : ScopeId) : Bool :=
  ((h.get? id).bind (·.get? x)).isSome

def holder? (h : Heap) (id : ScopeId) (x : String) : Option ScopeId :=
  (h.chain id).find? (h.binds x)

/-- The value of a name in the nearest scope that binds it. -/
def lookup? (h : Heap) (id : ScopeId) (x : String) : Option Node :=
  (h.chain id).findSome? fun i => (h.get? i).bind (·.get? x)

def define (h : Heap) (id : ScopeId) (x : String) (v : Node) : Heap :=
  ⟨h.scopes.modify id (·.put x v)⟩

def resolve (h : Heap) (id : ScopeId) (x : String) (loc? : Option Location) :
    Except EvalError Node :=
  match h.lookup? id x with
  | some v => .ok v
  | none => .error ⟨.unbound x (h.nameOf id), loc?⟩

/-- The scope in which an update of a name takes place, or the error that there is none. -/
def target (h : Heap) (id : ScopeId) (x : String) (loc? : Option Location) :
    Except EvalError ScopeId :=
  match h.holder? id x with
  | some i => .ok i
  | none => .error ⟨.updateUnbound x (h.nameOf id), loc?⟩

/-- Binds a name anew in the nearest scope that binds it. -/
def update (h : Heap) (id : ScopeId) (x : String) (v : Node) (loc? : Option Location) :
    Except EvalError Heap :=
  match h.target id x loc? with
  | .ok i => .ok (h.define i x v)
  | .error e => .error e

/-- A scope as it is shown: its name, its symbols, and the name of its parent. -/
def text (h : Heap) (id : ScopeId) : String :=
  match h.get? id with
  | none => ""
  | some s =>
    s.name ++ "\x7b" ++ " ".intercalate s.symbols ++ "\x7d"
      ++ match s.parent? with
        | none => ""
        | some p => " -> " ++ h.nameOf p

end Heap

/-! ### Small facts -/

theorem get?_put (x y : String) (v : Node) (bs : List (String × Node)) :
    get? y (put x v bs) = if x = y then some v else get? y bs := by
  induction bs with
  | nil => simp [put, get?]
  | cons b bs ih =>
    obtain ⟨z, w⟩ := b
    by_cases hz : z = x <;> grind [put, get?]

/-- A definition keeps the names that are there, and adds its own at the end if it is new. -/
theorem map_fst_put (x : String) (v : Node) (bs : List (String × Node)) :
    (put x v bs).map (·.1)
      = if x ∈ bs.map (·.1) then bs.map (·.1) else bs.map (·.1) ++ [x] := by
  induction bs with
  | nil => simp [put]
  | cons b bs ih =>
    obtain ⟨z, w⟩ := b
    by_cases hz : z = x
    · simp [put, hz]
    · have hx : ¬ x = z := fun h => hz h.symm
      simp only [put, hz, if_false, List.map_cons, ih, List.mem_cons, hx, false_or]
      split <;> simp

@[simp] theorem Heap.size_define (h : Heap) (id : ScopeId) (x : String) (v : Node) :
    (h.define id x v).size = h.size := by
  simp [Heap.define, Heap.size]

@[simp] theorem Heap.size_push (h : Heap) (s : Scope) : (h.push s).size = h.size + 1 := by
  simp [Heap.push, Heap.size]

/-- A heap is what its scopes are. -/
theorem Heap.ext_get? {h h' : Heap} (hget : ∀ i, h.get? i = h'.get? i) : h = h' := by
  obtain ⟨scopes⟩ := h
  obtain ⟨scopes'⟩ := h'
  exact congrArg Heap.mk (Array.ext_getElem? hget)

theorem Heap.get?_push (h : Heap) (s : Scope) (i : ScopeId) :
    (h.push s).get? i = if i = h.fresh then some s else h.get? i := by
  unfold Heap.push Heap.get? Heap.fresh
  exact Array.getElem?_push

theorem Heap.get?_define (h : Heap) (id : ScopeId) (x : String) (v : Node) (i : ScopeId) :
    (h.define id x v).get? i
      = if i = id then (h.get? i).map (·.put x v) else h.get? i := by
  by_cases hi : i = id
  · simp [Heap.define, Heap.get?, Array.getElem?_modify, hi]
  · have hid : ¬ id = i := fun h => hi h.symm
    simp [Heap.define, Heap.get?, Array.getElem?_modify, hi, hid]

/-- The chain of a scope depends on parents only. -/
theorem Heap.chainFrom_congr {h h' : Heap}
    (hparent : ∀ i, (h'.get? i).map (·.parent?) = (h.get? i).map (·.parent?)) (fuel : Nat)
    (i : ScopeId) : h'.chainFrom fuel i = h.chainFrom fuel i := by
  induction fuel generalizing i with
  | zero => rfl
  | succ fuel ih =>
    have hi := hparent i
    rw [Heap.chainFrom, Heap.chainFrom]
    rcases hs : h.get? i with _ | ⟨x, _ | q, bs⟩ <;>
      rcases hs' : h'.get? i with _ | ⟨x', _ | q', bs'⟩ <;> simp [hs, hs'] at hi
    · rfl
    · rfl
    · rw [hi]
      exact congrArg (i :: ·) (ih q)

section Congr

variable {h h' : Heap} {x : String}
  (hparent : ∀ i, (h'.get? i).map (·.parent?) = (h.get? i).map (·.parent?))
  (hbound : ∀ i, (h'.get? i).bind (·.get? x) = (h.get? i).bind (·.get? x))

include hparent hbound

/-- Looking up a name depends on parents and on the values of that name. -/
theorem Heap.lookup?_congr (i : ScopeId) : h'.lookup? i x = h.lookup? i x := by
  rw [Heap.lookup?, Heap.lookup?, Heap.chain, Heap.chain, chainFrom_congr hparent]
  exact congrArg (List.findSome? · _) (funext hbound)

theorem Heap.holder?_congr (i : ScopeId) : h'.holder? i x = h.holder? i x := by
  have hbinds : h'.binds x = h.binds x := by
    funext j
    rw [Heap.binds, Heap.binds, hbound]
  rw [Heap.holder?, Heap.holder?, hbinds, Heap.chain, Heap.chain, chainFrom_congr hparent]

end Congr

/-- A definition is no change for other names. -/
theorem Heap.lookup?_define_of_ne {h : Heap} {x y : String} {v : Node} {i j : ScopeId}
    (hne : y ≠ x) : (h.define i y v).lookup? j x = h.lookup? j x := by
  refine Heap.lookup?_congr (fun k => ?_) (fun k => ?_) j
  · rw [Heap.get?_define]
    split
    · cases h.get? k <;> rfl
    · rfl
  · rw [Heap.get?_define]
    split
    · cases h.get? k with
      | none => rfl
      | some s =>
        have hput := get?_put y x v s.bindings
        rw [if_neg hne] at hput
        exact hput
    · rfl

theorem mem_of_get?_eq_some {x : String} {v : Node} {bs : List (String × Node)}
    (h : get? x bs = some v) : (x, v) ∈ bs := by
  induction bs with
  | nil => cases h
  | cons b bs ih =>
    obtain ⟨y, w⟩ := b
    by_cases hy : y = x
    · simp_all [get?]
    · simp only [get?, hy, if_false] at h
      exact List.mem_cons_of_mem _ (ih h)

theorem mem_put {x : String} {v : Node} {bs : List (String × Node)} {b : String × Node}
    (h : b ∈ put x v bs) : b = (x, v) ∨ b ∈ bs := by
  induction bs with
  | nil => exact .inl (by simpa [put] using h)
  | cons b' bs ih =>
    obtain ⟨y, w⟩ := b'
    by_cases hy : y = x
    · simp only [put, hy, if_true, List.mem_cons] at h
      rcases h with h | h
      · exact .inl h
      · exact .inr (List.mem_cons_of_mem _ h)
    · simp only [put, hy, if_false, List.mem_cons] at h
      rcases h with h | h
      · exact .inr (h ▸ List.mem_cons_self)
      · exact (ih h).imp_right (List.mem_cons_of_mem _)

end ChannelLisp
