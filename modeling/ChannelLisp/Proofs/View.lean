import ChannelLisp.Node.Host
import ChannelLisp.Operation
import ChannelLisp.Proofs.Erasure
import Mathlib.Tactic

/-!
Nodes seen otherwise: scopes under other identifiers, and places as they are or none at all.
Nothing that a node shows of itself depends on the view: its kind, its truth, and its texts,
so the messages of errors do not either. Equality and the operations give the same in every
view, up to the view.
-/

namespace ChannelLisp

/-- How scopes and places are seen. The first of several places is still the first. -/
structure View where
  scope : ScopeId → ScopeId
  place : Option Location → Option Location
  place_none : place none = none
  place_or : ∀ l l', place (l.or l') = (place l).or (place l')

/-- The view that only drops the places. -/
def View.erase : View := ⟨id, fun _ => none, rfl, fun _ _ => rfl⟩

/-- The view that shows everything as it is. -/
def View.plain : View := ⟨id, id, rfl, fun _ _ => rfl⟩

attribute [simp] View.place_none

lemma View.scope_erase : erase.scope = id := rfl

@[simp] lemma View.scope_plain (i : ScopeId) : plain.scope i = i := rfl

@[simp] lemma View.place_plain (l : Option Location) : plain.place l = l := rfl

mutual

def Node.view (w : View) : Node → Node
  | .literal v l => .literal v (w.place l)
  | .symbol x l => .symbol x (w.place l)
  | .call items l => .call (viewAll w items) (w.place l)
  | .scope i x => .scope (w.scope i) x
  | .primitive p => .primitive p
  | .function ⟨name, params, body, s⟩ => .function ⟨name, params, viewAll w body, w.scope s⟩
  | .transformer ⟨name, params, body, s⟩ => .transformer ⟨name, params, viewAll w body, w.scope s⟩
  | .chan i => .chan i

def viewAll (w : View) : List Node → List Node
  | [] => []
  | n :: ns => n.view w :: viewAll w ns

end

def Closure.view (w : View) (c : Closure Node) : Closure Node :=
  { c with body := c.body.map (Node.view w), scope := w.scope c.scope }

def Cause.view (w : View) : Cause → Cause
  | .notCallable v => .notCallable (v.view w)
  | .expected taker what v => .expected taker what (v.view w)
  | .malformedBinding b => .malformedBinding (b.view w)
  | .incomparable kind a b => .incomparable kind (a.view w) (b.view w)
  | cause => cause

def EvalError.view (w : View) (e : EvalError) : EvalError := ⟨e.cause.view w, w.place e.loc?⟩

def Answer.view (w : View) : Answer → Answer
  | .value v => .value (v.view w)
  | .error e => .error (e.view w)
  | .crash detail => .crash detail

/-- A result, where `f` tells how a good one is seen. -/
def View.result {α β : Type} (w : View) (f : α → β) : Except EvalError α → Except EvalError β
  | .ok a => .ok (f a)
  | .error e => .error (e.view w)

variable {w : View}

lemma viewAll_eq_map (ns : List Node) : viewAll w ns = ns.map (Node.view w) := by
  induction ns with
  | nil => rfl
  | cons n ns ih => simp [viewAll, ih]

namespace Node

@[simp] lemma view_literal (v : Literal) (l : Option Location) :
    (literal v l).view w = .literal v (w.place l) := rfl

@[simp] lemma view_symbol (x : String) (l : Option Location) :
    (symbol x l).view w = .symbol x (w.place l) := rfl

@[simp] lemma view_call (items : List Node) (l : Option Location) :
    (call items l).view w = .call (items.map (view w)) (w.place l) := by
  simp [view, viewAll_eq_map]

@[simp] lemma view_scope (i : ScopeId) (x : String) :
    (scope i x).view w = .scope (w.scope i) x := rfl

@[simp] lemma view_primitive (p : Primitive) : (primitive p).view w = .primitive p := rfl

@[simp] lemma view_function (c : Closure Node) :
    (function c).view w = .function (c.view w) := by
  simp [view, viewAll_eq_map, Closure.view]

@[simp] lemma view_transformer (c : Closure Node) :
    (transformer c).view w = .transformer (c.view w) := by
  simp [view, viewAll_eq_map, Closure.view]

@[simp] lemma view_chan (i : ChannelId) : (chan i).view w = .chan i := rfl

/-- What is made at run time has no place, so it looks the same. -/
lemma view_made (v : Literal) : (literal v none).view w = .literal v none := by
  simp

@[simp] lemma view_nil : nil.view w = nil := view_made .nil

lemma view_erase (n : Node) : n.view .erase = n.bare := by
  induction n using Node.induction with
  | call items l ih => simpa [View.erase] using ih
  | function c ih => simpa [Closure.view, Closure.bare, View.erase] using ih
  | transformer c ih => simpa [Closure.view, Closure.bare, View.erase] using ih
  | _ => simp [View.erase]

@[simp] lemma kind_view (n : Node) : (n.view w).kind = n.kind := by
  cases n <;> simp [kind]

@[simp] lemma loc?_view (n : Node) : (n.view w).loc? = w.place n.loc? := by
  cases n <;> simp [loc?]

@[simp] lemma isLive_view (n : Node) : (n.view w).isLive = n.isLive := by
  cases n <;> simp [isLive]

@[simp] lemma isTruthy_view (n : Node) : (n.view w).isTruthy = n.isTruthy := by
  cases n with
  | literal v l => rcases v with _ | b | _ | _ | _ <;> [rfl; cases b <;> rfl; rfl; rfl; rfl]
  | _ => simp [isTruthy]

@[simp] lemma display_view (n : Node) : (n.view w).display = n.display := by
  induction n using Node.induction with
  | call items l ih =>
    have h : items.map (display ∘ view w) = items.map display := List.map_congr_left ih
    simp only [view_call, display, displayAll_eq_intercalate, List.map_map, h]
  | function c => simp [display, Closure.title, Closure.view]
  | transformer c => simp [display, Closure.title, Closure.view]
  | _ => simp [display]

@[simp] lemma raw_view (n : Node) : (n.view w).raw = n.raw := by
  cases n with
  | literal v l => cases v <;> simp [raw, display]
  | call items l => simpa [raw] using display_view (.call items l)
  | function c => simpa [raw] using display_view (.function c)
  | transformer c => simpa [raw] using display_view (.transformer c)
  | _ => simp [raw, display]

lemma view_named (n : Node) (x : String) : (n.named x).view w = (n.view w).named x := by
  cases n with
  | function c =>
    obtain ⟨name, params, body, s⟩ := c
    cases name <;> simp [named, Closure.view]
  | transformer c =>
    obtain ⟨name, params, body, s⟩ := c
    cases name <;> simp [named, Closure.view]
  | _ => simp [named]

end Node

/-! ### What a host sees and makes -/

lemma shownAll_eq_map (ns : List Node) : shownAll ns = ns.map Node.shown := by
  induction ns with
  | nil => rfl
  | cons n ns ih => simp [shownAll, ih]

/-- A host is shown the same in every view. -/
@[simp] lemma Node.shown_view (n : Node) : (n.view w).shown = n.shown := by
  induction n using Node.induction with
  | call items l ih =>
    have h : items.map (shown ∘ view w) = items.map shown := List.map_congr_left ih
    simp only [view_call, shown, shownAll_eq_map, List.map_map, h]
  | function c => rw [view_function, shown, shown, ← view_function, display_view]
  | transformer c => rw [view_transformer, shown, shown, ← view_transformer, display_view]
  | _ => simp [shown, display]

lemma Node.part_view (n : Node) (path : List Nat) :
    (n.view w).part path = (n.part path).view w := by
  induction path generalizing n with
  | nil => rfl
  | cons i path ih =>
    cases n with
    | call items l =>
      have hitem : ((items.map (view w))[i]?).getD nil = ((items[i]?).getD nil).view w := by
        cases h : items[i]? <;> simp [h]
      rw [view_call, part, part, hitem, ih]
    | _ => simp [part]

mutual

lemma HostValue.node_view (n : Node) : ∀ v : HostValue, v.node (n.view w) = (v.node n).view w
  | .literal v => (Node.view_made v).symm
  | .part path => n.part_view path
  | .list vs => by simp [node, Node.list, HostValue.nodes_view n vs]

lemma HostValue.nodes_view (n : Node) :
    ∀ vs : List HostValue, nodes (n.view w) vs = (nodes n vs).map (Node.view w)
  | [] => rfl
  | v :: vs => by simp [nodes, HostValue.node_view n v, HostValue.nodes_view n vs]

end

@[simp] lemma Cause.message_view (c : Cause) : (c.view w).message = c.message := by
  cases c with
  | notCallable v =>
    change code (v.view w).display ++ _ ++ (v.view w).kind.name = _
    rw [Node.display_view, Node.kind_view]
    rfl
  | expected taker what v =>
    change _ ++ (v.view w).kind.name ++ _ ++ code (v.view w).display = _
    rw [Node.display_view, Node.kind_view]
    rfl
  | malformedBinding v =>
    change _ ++ _ ++ code (v.view w).display = _
    rw [Node.display_view]
    rfl
  | incomparable kind a b =>
    change _ ++ _ ++ _ ++ (a.view w).display ++ _ ++ (b.view w).display = _
    rw [Node.display_view, Node.display_view]
    rfl
  | _ => rfl

@[simp] lemma EvalError.message_view (e : EvalError) : (e.view w).message = e.message := by
  simp [EvalError.view, EvalError.message]

lemma EvalError.view_withLocation (e : EvalError) (l : Option Location) :
    (e.withLocation l).view w = (e.view w).withLocation (w.place l) := by
  simp [EvalError.view, EvalError.withLocation, w.place_or]

namespace View

variable {α β γ δ : Type}

@[simp] lemma result_ok (f : α → β) (a : α) : w.result f (.ok a) = .ok (f a) := rfl

@[simp] lemma result_error (f : α → β) (e : EvalError) :
    w.result f (.error e) = .error (e.view w) := rfl

lemma result_map {f : α → β} {g : γ → δ} {u : α → γ} {v : β → δ} (h : ∀ a, v (f a) = g (u a))
    (r : Except EvalError α) : (w.result f r).map v = w.result g (r.map u) := by
  cases r with
  | ok a => exact congrArg Except.ok (h a)
  | error e => rfl

lemma result_bind {f : α → β} {g : γ → δ} {u : α → Except EvalError γ}
    {v : β → Except EvalError δ} (h : ∀ a, v (f a) = w.result g (u a)) (r : Except EvalError α) :
    w.result f r >>= v = w.result g (r >>= u) := by
  cases r with
  | ok a => exact h a
  | error e => rfl

lemma ofExcept_result (r : Except EvalError Node) :
    Answer.ofExcept (w.result (Node.view w) r) = (Answer.ofExcept r).view w := by
  cases r <;> rfl

end View

/-! ### Equality -/

lemma Node.refuse?_view (a b : Node) :
    (a.view w).refuse? (b.view w) = (a.refuse? b).map (EvalError.view w) := by
  unfold Node.refuse?
  simp only [isLive_view, kind_view, loc?_view]
  split_ifs <;> simp [EvalError.view, Cause.view, w.place_or]

lemma equalsAll_view {as bs : List Node}
    (h : ∀ a ∈ as, ∀ b ∈ bs, (a.view w).equals (b.view w) = w.result id (a.equals b)) :
    equalsAll (as.map (Node.view w)) (bs.map (Node.view w))
      = w.result id (equalsAll as bs) := by
  induction as generalizing bs with
  | nil => rw [equalsAll.eq_def, equalsAll.eq_def]; rfl
  | cons a as ih =>
    cases bs with
    | nil => rw [equalsAll.eq_def, equalsAll.eq_def]; rfl
    | cons b bs =>
      have hab := h a List.mem_cons_self b List.mem_cons_self
      have hrest : equalsAll (as.map (Node.view w)) (bs.map (Node.view w))
          = w.result id (equalsAll as bs) := ih fun x hx y hy =>
        h x (List.mem_cons_of_mem _ hx) y (List.mem_cons_of_mem _ hy)
      rw [List.map_cons, List.map_cons, equalsAll, equalsAll, hab]
      rcases a.equals b with e | b'
      · rfl
      · cases b' with
        | true => exact hrest
        | false => rfl

lemma Node.equals_view (a b : Node) :
    (a.view w).equals (b.view w) = w.result id (a.equals b) := by
  induction a using Node.induction generalizing b with
  | call items l ih =>
    rw [Node.equals.eq_def, Node.equals.eq_def (call items l), refuse?_view]
    cases (call items l).refuse? b with
    | some e => rfl
    | none =>
      cases b with
      | call items' l' =>
        simp only [Option.map_none, view_call, List.length_map]
        split
        · exact equalsAll_view fun x hx y _ => ih x hx y
        · rfl
      | _ => simp
  | _ =>
    rw [Node.equals.eq_def, Node.equals.eq_def _ b, refuse?_view]
    cases Node.refuse? _ b with
    | some e => rfl
    | none => cases b <;> simp

/-! ### Operations -/

namespace Operation

variable {op : Operation}

lemma number_view (v : Node) : op.number (v.view w) = w.result id (op.number v) := by
  cases v with
  | literal v l => cases v <;> simp [number, EvalError.view, Cause.view]
  | _ => simp [number, EvalError.view, Cause.view]

lemma numbers_view (vs : List Node) :
    op.numbers (vs.map (Node.view w)) = w.result id (op.numbers vs) := by
  induction vs with
  | nil => rfl
  | cons v vs ih =>
    rw [List.map_cons, numbers, numbers, number_view, ih]
    cases op.number v <;> cases op.numbers vs <;> rfl

/-! The numbers that come out, and the errors of arithmetic, show no node and no place. -/

lemma view_combine {word : Int64 → Int64 → Option Int64} {double : Float → Float → Float}
    (a b : Number) : w.result id (op.combine word double a b) = op.combine word double a b := by
  unfold combine
  split
  · split <;> simp [EvalError.view, Cause.view]
  · rfl

lemma view_toNode (n : Number) : n.toNode.view w = n.toNode := by
  cases n <;> exact Node.view_made _

lemma view_foldFrom {f : Number → Number → Except EvalError Number}
    (hf : ∀ a b, w.result id (f a b) = f a b) (acc : Number) (ns : List Number) :
    w.result id (foldFrom f acc ns) = foldFrom f acc ns := by
  induction ns generalizing acc with
  | nil => rfl
  | cons n ns ih =>
    have h := hf acc n
    rw [foldFrom]
    split
    · exact ih _
    · rename_i e he
      rwa [he] at h

lemma view_fold {f : Number → Number → Except EvalError Number}
    (hf : ∀ a b, w.result id (f a b) = f a b) (unit : Int64) (ns : List Number) :
    w.result (Node.view w) (fold f unit ns) = fold f unit ns := by
  unfold fold
  have hmap (r : Except EvalError Number) (hr : w.result id r = r) :
      w.result (Node.view w) (r.map Number.toNode) = r.map Number.toNode := by
    rw [← View.result_map (f := id) (fun n => (view_toNode n).symm), hr]
  split
  · exact hmap _ (view_foldFrom hf _ _)
  · exact hmap _ (view_foldFrom hf _ _)

lemma view_divide (ns : List Number) : w.result (Node.view w) (divide ns) = divide ns := by
  unfold divide
  split
  · simp [EvalError.view, Cause.view]
  · exact view_fold view_combine _ _

lemma view_remainder (a b : Number) :
    w.result (Node.view w) (remainder a b) = remainder a b := by
  unfold remainder
  split
  · simp [EvalError.view, Cause.view]
  · rw [← View.result_map (f := id) (fun n => (view_toNode n).symm), view_combine]

lemma view_holds (test : Ordering → Bool) (a b : Number) :
    w.result (Node.view w) (.ok (holds test a b)) = .ok (holds test a b) :=
  congrArg Except.ok (Node.view_made _)

lemma binary_view {f : Number → Number → Except EvalError Node}
    (hf : ∀ x y, w.result (Node.view w) (f x y) = f x y) (a b : Node) :
    op.binary f (a.view w) (b.view w) = w.result (Node.view w) (op.binary f a b) := by
  unfold binary
  rw [number_view, number_view]
  cases op.number a with
  | error e => rfl
  | ok x =>
    cases op.number b with
    | error e => rfl
    | ok y => exact (hf x y).symm

lemma itemsOf_view (v : Node) :
    op.itemsOf (v.view w) = w.result (List.map (Node.view w)) (op.itemsOf v) := by
  cases v with
  | literal v l => cases v <;> simp [itemsOf, EvalError.view, Cause.view]
  | _ => simp [itemsOf, EvalError.view, Cause.view]

/-- Operations give the same in every view. -/
lemma run_view (op : Operation) (vs : List Node) :
    op.run (vs.map (Node.view w)) = (op.run vs).view w := by
  have folded {f : List Number → Except EvalError Node}
      (hf : ∀ ns, w.result (Node.view w) (f ns) = f ns) :
      Answer.ofExcept (op.numbers (vs.map (Node.view w)) >>= f)
        = (Answer.ofExcept (op.numbers vs >>= f)).view w := by
    rw [numbers_view, View.result_bind (f := id) fun ns => (hf ns).symm, View.ofExcept_result]
  have paired {f : Number → Number → Except EvalError Node}
      (hf : ∀ x y, w.result (Node.view w) (f x y) = f x y) (a b : Node) :
      Answer.ofExcept (op.binary f (a.view w) (b.view w))
        = (Answer.ofExcept (op.binary f a b)).view w := by
    rw [binary_view hf, View.ofExcept_result]
  have itemized {f g : List Node → Node}
      (hfg : ∀ items, f (items.map (Node.view w)) = (g items).view w) (l : Node) :
      Answer.ofExcept ((op.itemsOf (l.view w)).map f)
        = (Answer.ofExcept ((op.itemsOf l).map g)).view w := by
    rw [itemsOf_view, View.result_map hfg, View.ofExcept_result]
  cases op with
  | add | sub | mul => exact folded (view_fold view_combine _)
  | div =>
    cases vs with
    | nil => rfl
    | cons v vs => exact folded view_divide
  | list => simp [run, Answer.view, Node.list]
  | mod =>
    match vs with
    | [a, b] => exact paired view_remainder a b
    | [] | [_] | _ :: _ :: _ :: _ => rfl
  | less | greater | atMost | atLeast =>
    match vs with
    | [a, b] => exact paired (view_holds _) a b
    | [] | [_] | _ :: _ :: _ :: _ => rfl
  | equal =>
    match vs with
    | [a, b] =>
      change Answer.ofExcept (((a.view w).equals (b.view w)).map Node.bool) = _
      rw [Node.equals_view, View.result_map (fun b => (Node.view_made (.bool b)).symm),
        View.ofExcept_result]
      rfl
    | [] | [_] | _ :: _ :: _ :: _ => rfl
  | cons =>
    match vs with
    | [v, l] => exact itemized (fun items => by simp [Node.list]) l
    | [] | [_] | _ :: _ :: _ :: _ => rfl
  | not =>
    match vs with
    | [v] => simp [run, Answer.view, Node.bool]
    | [] | _ :: _ :: _ => rfl
  | first =>
    match vs with
    | [l] => exact itemized (fun items => by cases items <;> simp) l
    | [] | _ :: _ :: _ => rfl
  | rest =>
    match vs with
    | [l] => exact itemized (fun items => by simp [Node.list]) l
    | [] | _ :: _ :: _ => rfl
  | isEmpty =>
    match vs with
    | [l] => exact itemized (fun items => by simp [Node.bool]) l
    | [] | _ :: _ :: _ => rfl
  | kindOf =>
    match vs with
    | [v] => simp [run, Answer.view, Node.str]
    | [] | _ :: _ :: _ => rfl

end Operation

end ChannelLisp
