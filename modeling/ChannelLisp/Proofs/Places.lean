import ChannelLisp.Proofs.Prelude
import ChannelLisp.Proofs.Scoping
import Mathlib.Tactic

/-!
Every error has a place, and every place is that of a token. What is read has places, the heads
of its calls included, so an error either has a place when it arises, or arises inside a call
that has one and gives it to the error on its way out. Places are never made up: those in
bindings, values and errors come from the sources that the session was given.
-/

namespace ChannelLisp

/-- The location is inside the node, at any depth of lists and of bodies. -/
inductive Node.Shows (l : Location) : Node → Prop
  | literal {v : Literal} : Shows l (.literal v (some l))
  | symbol {x : String} : Shows l (.symbol x (some l))
  | call {items : List Node} : Shows l (.call items (some l))
  | item {items : List Node} {l' : Option Location} {n : Node} :
      n ∈ items → Shows l n → Shows l (.call items l')
  | functionBody {c : Closure Node} {n : Node} : n ∈ c.body → Shows l n → Shows l (.function c)
  | transformerBody {c : Closure Node} {n : Node} :
      n ∈ c.body → Shows l n → Shows l (.transformer c)

/-- Only places of a set may occur, and anything else. -/
def Policy.places (S : Location → Prop) : Policy := { any True with place := S }

variable {S S' : Location → Prop} {σ σ' : Store} {s : ScopeId} {k : List Frame} {t t' : Thread}

lemma Node.obeys_places {n : Node} : n.Obeys (.places S) ↔ ∀ l, n.Shows l → S l := by
  constructor
  · intro h l hl
    induction hl with
    | literal => exact obeys_literal.1 h l rfl
    | symbol => exact (obeys_symbol.1 h).2 l rfl
    | call => exact (obeys_call.1 h).2 l rfl
    | item hn _ ih => exact ih ((obeys_call.1 h).1 _ hn)
    | functionBody hn _ ih => exact ih ((obeys_function.1 h).body _ hn)
    | transformerBody hn _ ih => exact ih ((obeys_transformer.1 h).body _ hn)
  · intro h
    have hplace {l : Option Location} (hl : ∀ x, l = some x → S x) : (Policy.places S).place? l :=
      hl
    induction n using Node.induction with
    | literal v l => exact .literal (hplace fun x hx => h x (hx ▸ .literal))
    | symbol x l => exact .symbol trivial (hplace fun y hy => h y (hy ▸ .symbol))
    | call items l ih =>
      refine .call (fun n hn => ih n hn fun l hl => h l (.item hn hl)) ?_
      exact hplace fun x hx => h x (hx ▸ .call)
    | scope i x => exact .scope trivial
    | primitive p => exact .primitive trivial
    | function c ih =>
      refine .function trivial (fun _ _ => trivial) fun n hn => ?_
      exact ih n hn fun l hl => h l (.functionBody hn hl)
    | transformer c ih =>
      refine .transformer trivial (fun _ _ => trivial) fun n hn => ?_
      exact ih n hn fun l hl => h l (.transformerBody hn hl)
    | chan i => exact .chan trivial

lemma Heap.obeys_places {h : Heap} : h.Obeys (.places S) ↔
    ∀ i sc x v l, h.get? i = some sc → (x, v) ∈ sc.bindings → v.Shows l → S l := by
  constructor
  · intro hh i sc x v l hsc hv
    exact Node.obeys_places.1 ((hh i sc trivial hsc).bindings (x, v) hv) l
  · intro hh i sc _ hsc
    refine ⟨fun _ _ => trivial, fun b hb => Node.obeys_places.2 fun l hl => ?_⟩
    exact hh i sc b.1 b.2 l hsc hb hl

lemma Heap.Obeys.places_mono {h : Heap} (hh : h.Obeys (.places S)) (hS : ∀ l, S l → S' l) :
    h.Obeys (.places S') := by
  rw [Heap.obeys_places] at hh ⊢
  exact fun i sc x v l hsc hv hl => hS l (hh i sc x v l hsc hv hl)

/-! ### An error finds a place -/

/-- A form has a place, and so has the head of a call, and the head of that. -/
inductive Node.Located : Node → Prop
  | literal {v : Literal} {l : Option Location} : Located (.literal v l)
  | symbol {x : String} {l : Location} : Located (.symbol x (some l))
  | empty {l : Location} : Located (.call [] (some l))
  | call {head : Node} {args : List Node} {l : Location} :
      Located head → Located (.call (head :: args) (some l))

/-- A call below has a place, which an error takes if it has none. -/
def Caught (k : List Frame) : Prop := ∃ l, .locate (some l) ∈ k

/-- The frame is that of a call that has a place. -/
def Frame.IsPlaced : Frame → Prop
  | .operator _ _ l | .locate l => l ≠ none
  | _ => False

/-- Every frame is that of a call that has a place, or inside of one. -/
def Guarded : List Frame → Prop
  | [] => True
  | f :: k => (f.IsPlaced ∨ Caught k) ∧ Guarded k

/-- An error that arises here has a place by itself. -/
def Control.IsPlaced : Control → Prop
  | .eval _ n => n.Located
  | .raise e => ∃ l, e.loc? = some l
  | _ => True

/-- Whatever fails in the thread, the error has a place in the end. -/
structure Thread.Placed (t : Thread) : Prop where
  stack : Guarded t.stack
  control : Caught t.stack ∨ t.control.IsPlaced

lemma Caught.append (h : Caught k) (new : List Frame) : Caught (new ++ k) := by
  obtain ⟨l, hl⟩ := h
  exact ⟨l, List.mem_append_right _ hl⟩

lemma caught_cons {f : Frame} (h : Caught (f :: k)) : (∃ l, f = .locate (some l)) ∨ Caught k := by
  obtain ⟨l, hl⟩ := h
  rcases List.mem_cons.1 hl with hl | hl
  · exact .inl ⟨l, hl.symm⟩
  · exact .inr ⟨l, hl⟩

lemma Guarded.append (h : Guarded k) (hc : Caught k) (new : List Frame) : Guarded (new ++ k) := by
  induction new with
  | nil => exact h
  | cons f new ih => exact ⟨.inr (hc.append new), ih⟩

/-- Inside a call that has a place, anything may be done. -/
lemma Thread.Placed.above (h : Guarded k) (hc : Caught k) (hstack : ∃ new, t.stack = new ++ k) :
    t.Placed := by
  obtain ⟨new, hnew⟩ := hstack
  constructor
  · rw [hnew]
    exact h.append hc new
  · rw [hnew]
    exact .inl (hc.append new)

section Below

/-! A step leaves the frames below the topmost one alone, wherever it acts. -/

lemma Turn.ActsIn.below_kept {P : ScopeId → Prop} {r : Turn} (h : r.ActsIn P σ k) :
    ∃ new, r.thread.stack = new ++ k := by
  obtain ⟨new, hnew, -⟩ := h.stack
  exact ⟨new, hnew⟩

lemma Frame.actsIn_anywhere (f : Frame) : f.ActsIn fun _ => True := by
  cases f with
  | evaluate s there? => cases there? <;> simp [Frame.ActsIn]
  | _ => simp [Frame.ActsIn]

lemma evaluate_below (σ : Store) (s : ScopeId) (n : Node) (k : List Frame) :
    ∃ new, (evaluate σ s n k).stack = new ++ k :=
  (evaluate_actsIn (P := fun _ => True) trivial).below_kept

lemma apply_below (σ : Store) (s : ScopeId) (callee : Node) (args : List Node)
    (l : Option Location) (k : List Frame) :
    ∃ new, (apply σ s callee args l k).thread.stack = new ++ k :=
  (apply_actsIn (P := fun _ => True) trivial trivial fun _ _ _ _ _ => trivial).below_kept

lemma resume_below (σ : Store) (f : Frame) (v : Node) (k : List Frame) :
    ∃ new, (resume σ f v k).thread.stack = new ++ k :=
  (resume_actsIn f.actsIn_anywhere trivial fun _ _ => trivial).below_kept

end Below

lemma Heap.loc?_of_resolve {h : Heap} {x : String} {l : Option Location} {e : EvalError}
    (he : h.resolve s x l = .error e) : e.loc? = l := by
  unfold Heap.resolve at he
  split at he
  · cases he
  · cases he
    rfl

lemma evaluate_placed {n : Node} (hk : Guarded k) (hn : Caught k ∨ n.Located) :
    (evaluate σ s n k).Placed := by
  rcases hn with hc | hn
  · exact .above hk hc (evaluate_below σ s n k)
  · cases hn with
    | literal => exact ⟨hk, .inr trivial⟩
    | symbol =>
      simp only [evaluate]
      split
      · exact ⟨hk, .inr trivial⟩
      · rename_i e he
        exact ⟨hk, .inr ⟨_, Heap.loc?_of_resolve he⟩⟩
    | empty => exact ⟨hk, .inr ⟨_, rfl⟩⟩
    | call hhead => exact ⟨⟨.inl (Option.some_ne_none _), hk⟩, .inr hhead⟩

lemma resume_placed {f : Frame} {v : Node} (hf : f.IsPlaced ∨ Caught k) (hk : Guarded k) :
    (resume σ f v k).thread.Placed := by
  rcases hf with hf | hc
  · cases f with
    | operator s args l =>
      obtain ⟨l, rfl⟩ := Option.ne_none_iff_exists'.1 hf
      have hcall : Caught (.locate (some l) :: k) := ⟨l, List.mem_cons_self⟩
      have hguarded : Guarded (.locate (some l) :: k) := ⟨.inl (Option.some_ne_none _), hk⟩
      exact .above hguarded hcall (apply_below σ s v args (some l) _)
    | locate l => exact ⟨hk, .inr trivial⟩
    | _ => exact hf.elim
  · exact .above hk hc (resume_below σ f v k)

lemma EvalError.placed_withLocation {e : EvalError} {l : Option Location}
    (h : (∃ x, e.loc? = some x) ∨ ∃ x, l = some x) : ∃ x, (e.withLocation l).loc? = some x := by
  obtain ⟨cause, _ | x⟩ := e
  · simpa [EvalError.withLocation] using h
  · exact ⟨x, rfl⟩

lemma unwind_placed {f : Frame} {e : EvalError} (hk : Guarded k)
    (he : Caught (f :: k) ∨ ∃ l, e.loc? = some l) : (unwind σ f e k).thread.Placed := by
  have hout : Caught k ∨ (∃ l, e.loc? = some l) ∨ ∃ l, f = .locate (some l) := by
    rcases he with hc | he
    · rcases caught_cons hc with hf | hc
      · exact .inr (.inr hf)
      · exact .inl hc
    · exact .inr (.inl he)
  unfold unwind
  split
  · rename_i l
    refine ⟨hk, hout.imp_right fun h => EvalError.placed_withLocation (h.imp_right ?_)⟩
    rintro ⟨x, hx⟩
    cases hx
    exact ⟨x, rfl⟩
  · exact ⟨hk, .inr trivial⟩
  · rename_i hf _
    refine ⟨hk, hout.imp_right fun h => h.resolve_right ?_⟩
    rintro ⟨x, rfl⟩
    exact hf _ rfl

/-- In a step, whatever fails keeps having a place in the end. -/
lemma step_placed (h : t.Placed) : (step σ t).thread.Placed := by
  obtain ⟨control, stack⟩ := t
  obtain ⟨hstack, hcontrol⟩ := h
  cases control with
  | eval s n => exact evaluate_placed hstack hcontrol
  | value v =>
    cases stack with
    | nil => exact ⟨hstack, hcontrol⟩
    | cons f k => exact resume_placed hstack.1 hstack.2
  | raise e =>
    cases stack with
    | nil => exact ⟨hstack, hcontrol⟩
    | cons f k => exact unwind_placed hstack.2 hcontrol
  | send c v => exact ⟨hstack, hcontrol⟩
  | receive c => exact ⟨hstack, hcontrol⟩
  | crash detail => exact ⟨hstack, hcontrol⟩

/-- A run of a form that has places ends with no error, or with one that has a place. -/
lemma solo_error_placed {n : Node} {fuel : Nat} {e : EvalError} (hn : n.Located)
    (h : solo fuel σ (.start s n) = some (σ', t')) (he : t'.answer? = some (.error e)) :
    ∃ l, e.loc? = some l := by
  have hstart : (Thread.start s n).Placed := ⟨trivial, .inr hn⟩
  obtain ⟨-, hend⟩ := solo_invariant (P := fun _ t => t.Placed)
    (fun _ _ ht _ => step_placed ht) h hstart
  obtain ⟨control, stack⟩ := t'
  cases control <;> cases stack <;> simp only [Thread.answer?, reduceCtorEq] at he <;> cases he
  rcases hend with ⟨l, hl⟩ | hend
  · exact absurd hl List.not_mem_nil
  · exact hend

/-! ### What is read -/

mutual

/-- The tree of a form has places, the head of every call included. -/
lemma Grammar.Derives.located {file : String} {d : Nat} {ts : List Token} {n : Node}
    (h : Derives file d ts n) : n.Located := by
  cases h with
  | list _ h _ => exact h.located_call _
  | quote _ _ => exact .call .symbol
  | string _ => exact .literal
  | atom _ h => cases h <;> constructor

lemma Grammar.DerivesAll.located_call {file : String} {d : Nat} {ts : List Token}
    {ns : List Node} (h : DerivesAll file d ts ns) (l : Location) :
    (Node.call ns (some l)).Located := by
  cases h with
  | nil => exact .empty
  | cons h _ => exact .call h.located

end

lemma located_of_mem_read {source label : String} {n : Node} (h : n ∈ (read source label).1) :
    n.Located := by
  obtain ⟨_, _, _, -, hder⟩ := Reader.derives_of_mem_program h
  exact hder.located

/-- The place of a token of one of the sources, which come with their labels. The end of a source
is no such token. -/
def IsPlace (sources : List (String × String)) (l : Location) : Prop :=
  ∃ source, (source, l.file) ∈ sources ∧
    ∃ t ∈ tokenize source, t.shape ≠ .eof ∧ t.line = l.line

lemma IsPlace.cons {sources : List (String × String)} {l : Location} (h : IsPlace sources l)
    (q : String × String) : IsPlace (q :: sources) l := by
  obtain ⟨source, hmem, htoken⟩ := h
  exact ⟨source, List.mem_cons_of_mem _ hmem, htoken⟩

/-! ### Sessions -/

namespace Session

/-- The sessions there are, with the sources that were evaluated in them, latest first. The
prelude may be one of them; primitives of the host may be added, and the fuel be changed,
between sources; and no source starts a thread. -/
inductive History : List (String × String) → Session → Prop
  | bare (sink : Sink) : History [] (new sink false)
  | prelude (sink : Sink) : History [(ChannelLisp.prelude, "prelude")] (new sink true)
  | addPrimitive {sources : List (String × String)} {s : Session} (h : HostPrimitive) :
      History sources s → History sources (s.addPrimitive h)
  | refuel {sources : List (String × String)} {s : Session} (fuel : Nat) :
      History sources s → History sources { s with fuel := fuel }
  | evalSource {sources : List (String × String)} {s : Session} {source label : String} :
      History sources s → s.QuietSource source label →
        History ((source, label) :: sources) (s.evalSource source label).1

variable {s : Session} {source label : String} {sources : List (String × String)}

/-- An answer shows only places of the set, and an error has one. -/
def PlacedAnswer (S : Location → Prop) (a : Answer) : Prop :=
  a.Obeys (.places S) ∧ ∀ e, a = .error e → ∃ l, e.loc? = some l

/-- A source whose tokens are at places of a set brings no other places in, and what it fails
with has one. -/
lemma evalSource_placed (hw : s.workers = []) (hheap : s.store.heap.Obeys (.places S))
    (hq : s.QuietSource source label)
    (hplace : ∀ t ∈ tokenize source, t.shape ≠ .eof → S ⟨label, t.line⟩) :
    Keeps (fun σ => σ.heap.Obeys (.places S)) (PlacedAnswer S) s.fuel none
      (s.evalSource source label) := by
  refine evalSource_keeps (fun n hn fuel σ σ' t hσ hsolo => ?_) (fun _ _ h => h) hw hheap hq
  have hobeys : n.Obeys (.places S) :=
    obeys_of_mem_read hn hplace (fun _ _ _ _ => trivial) trivial
  have hstart : (Thread.start top n).Obeys (.places S) := Thread.obeys_start trivial hobeys
  obtain ⟨-, hheap', ht⟩ :=
    solo_allowed hsolo ⟨fun _ _ _ => trivial, fun _ _ _ => trivial⟩ hσ hstart
  refine ⟨hheap', fun a ha => ⟨ht.answer ha, ?_⟩⟩
  rintro e rfl
  exact solo_error_placed (located_of_mem_read hn) hsolo ha

/-- The sources so far, and one more. -/
lemma evalSource_placed_cons (hw : s.workers = [])
    (hheap : s.store.heap.Obeys (.places (IsPlace sources))) (hq : s.QuietSource source label) :
    Keeps (fun σ => σ.heap.Obeys (.places (IsPlace ((source, label) :: sources))))
      (PlacedAnswer (IsPlace ((source, label) :: sources))) s.fuel none
      (s.evalSource source label) :=
  evalSource_placed hw (hheap.places_mono fun _ hl => hl.cons _) hq fun t ht heof =>
    ⟨source, List.mem_cons_self, t, ht, heof, rfl⟩

/-- In a session, no thread is left, and every place that is bound is that of a token. -/
lemma History.placed (h : History sources s) :
    s.workers = [] ∧ s.store.heap.Obeys (.places (IsPlace sources)) := by
  induction h with
  | bare sink => exact ⟨rfl, heap_bare_obeys (fun _ => trivial) sink⟩
  | prelude sink =>
    rw [new_true]
    have hheap : (Session.bare sink).store.heap.Obeys (.places (IsPlace [])) :=
      heap_bare_obeys (fun _ => trivial) sink
    have hkeeps := evalSource_placed_cons rfl hheap (new_prelude sink).1
    exact ⟨hkeeps.idle, hkeeps.store⟩
  | addPrimitive h _ ih =>
    refine ⟨ih.1, ?_⟩
    have hvalue {S : Location → Prop} : (Node.primitive (.host h)).Obeys (.places S) :=
      .primitive trivial
    exact (Store.Change.define (x := h.name) (i := top) trivial hvalue).obeys ih.2
  | refuel fuel _ ih => exact ih
  | evalSource _ hq ih =>
    have hkeeps := evalSource_placed_cons ih.1 ih.2 hq
    exact ⟨hkeeps.idle, hkeeps.store⟩

end Session

open Session

/-- **Every error has a place, and places are true.** In every session that was given sources, and
perhaps primitives of the host, a place inside a binding is that of a token of one of the
sources. If one more source is evaluated, an error has a place, and its place, or any inside
the value, is that of a token of that source or of an earlier one. -/
theorem evalSource_places {sources : List (String × String)} {s : Session}
    (h : History sources s) :
    (∀ i sc x v l, s.store.heap.get? i = some sc → (x, v) ∈ sc.bindings → v.Shows l →
      IsPlace sources l) ∧
    ∀ source label, s.QuietSource source label →
      (∀ e, (s.evalSource source label).2 = .error e →
        ∃ l, e.loc? = some l ∧ IsPlace ((source, label) :: sources) l) ∧
      ∀ v l, (s.evalSource source label).2 = .ok (some v) → v.Shows l →
        IsPlace ((source, label) :: sources) l := by
  obtain ⟨hw, hheap⟩ := h.placed
  refine ⟨Heap.obeys_places.1 hheap, fun source label hq => ?_⟩
  have hkeeps := evalSource_placed_cons hw hheap hq
  constructor
  · intro e he
    obtain ⟨hobeys, hplaced⟩ := hkeeps.error e he
    obtain ⟨l, hl⟩ := hplaced e rfl
    exact ⟨l, hl, hobeys l hl⟩
  · intro v l hv hl
    rcases hkeeps.value v hv with hnone | ⟨hobeys, -⟩
    · cases hnone
    · exact Node.obeys_places.1 hobeys l hl

/-! ### A failure of the host -/

/-- A primitive of the host that fails, and does not tell where. -/
def boom : HostPrimitive := ⟨"boom", .exactly 0, .fail "no luck"⟩

/-- A function that calls the primitive. -/
def library : String := "; calls the host\n(def f (lambda () (boom)))"

/-- A session in which the primitive was added and the library evaluated. -/
def libraryLoaded : Session :=
  let s := { Session.new .unlimited false with fuel := 60 }
  ((s.addPrimitive boom).evalSource library "library").1

/-- The place of the error is the call of the primitive in the library. -/
theorem evalSource_places_boom :
    History [(library, "library")] libraryLoaded ∧ libraryLoaded.QuietSource "(f)" "main" ∧
      ∃ e l, (libraryLoaded.evalSource "(f)" "main").2 = .error e ∧
        e.text = "library:2: no luck" ∧ e.loc? = some l ∧
        IsPlace [("(f)", "main"), (library, "library")] l := by
  have hhistory : History [(library, "library")] libraryLoaded :=
    .evalSource (.addPrimitive boom (.refuel 60 (.bare .unlimited))) (by decide +kernel)
  have hquiet : libraryLoaded.QuietSource "(f)" "main" := by decide +kernel
  have htext : (libraryLoaded.evalSource "(f)" "main").2.error?.map EvalError.text
      = some "library:2: no luck" := by decide +kernel
  obtain ⟨e, he, htext⟩ := Option.map_eq_some_iff.1 htext
  have herror := Outcome.eq_error_of_error? he
  obtain ⟨l, hl, hplace⟩ := ((evalSource_places hhistory).2 "(f)" "main" hquiet).1 e herror
  exact ⟨hhistory, hquiet, e, l, herror, htext, hl, hplace⟩

end ChannelLisp
