import ChannelLisp.Proofs.Prelude
import Mathlib.Tactic

/-!
The prelude is conservative. A program has no symbols but its atoms and the one that a quote mark
stands for, so bindings at top level of other names are neither looked up nor changed: a run in
the store without them is in step with the run in the store. A session with the prelude differs
from one without it by four such bindings.
-/

namespace ChannelLisp

/-! ### Some names left out -/

def Scope.without (names : List String) (s : Scope) : Scope :=
  { s with bindings := s.bindings.filter fun b => !decide (b.1 ∈ names) }

/-- The heap without the bindings of some names at top level. -/
def Heap.without (names : List String) (h : Heap) : Heap :=
  ⟨h.scopes.modify Session.top (Scope.without names)⟩

def Store.without (names : List String) (σ : Store) : Store :=
  { σ with heap := σ.heap.without names }

/-- The names may not occur as symbols or parameters. Threads that nobody waits for are left
out. -/
def Policy.avoiding (names : List String) : Policy := { any False with name := fun x => x ∉ names }

variable {names : List String} {x : String} {v : Node}

section Bindings

variable (bs : List (String × Node))

lemma get?_filter (hx : x ∉ names) :
    get? x (bs.filter fun b => !decide (b.1 ∈ names)) = get? x bs := by
  induction bs with
  | nil => rfl
  | cons b bs ih =>
    obtain ⟨y, w⟩ := b
    by_cases hy : y ∈ names
    · have hne : y ≠ x := fun h => hx (h ▸ hy)
      simp [hy, hne, get?, ih]
    · simp [hy, get?, ih]

/-- Binding another name may come before or after. -/
lemma filter_put (hx : x ∉ names) : (put x v bs).filter (fun b => !decide (b.1 ∈ names))
    = put x v (bs.filter fun b => !decide (b.1 ∈ names)) := by
  induction bs with
  | nil => simp [put, hx]
  | cons b bs ih =>
    obtain ⟨y, w⟩ := b
    by_cases hy : y = x
    · subst hy
      simp [put, hx]
    · by_cases hmem : y ∈ names
      · simp [put, hy, hmem, ih]
      · simp [put, hy, hmem, ih]

lemma filter_put_of_mem (hx : x ∈ names) : (put x v bs).filter (fun b => !decide (b.1 ∈ names))
    = bs.filter fun b => !decide (b.1 ∈ names) := by
  induction bs with
  | nil => simp [put, hx]
  | cons b bs ih =>
    obtain ⟨y, w⟩ := b
    by_cases hy : y = x
    · subst hy
      simp [put, hx]
    · simp [put, hy, List.filter_cons, ih]

end Bindings

namespace Heap

variable (h : Heap) (i : ScopeId)

lemma get?_without : (h.without names).get? i
    = if i = Session.top then (h.get? i).map (Scope.without names) else h.get? i := by
  by_cases hi : i = Session.top
  · simp [without, get?, Array.getElem?_modify, hi]
  · have htop : ¬ Session.top = i := fun h => hi h.symm
    simp [without, get?, Array.getElem?_modify, hi, htop]

lemma size_without : (h.without names).size = h.size := by
  simp [without, size]

lemma parent?_without :
    ((h.without names).get? i).map (·.parent?) = (h.get? i).map (·.parent?) := by
  rw [get?_without]
  split
  · cases h.get? i <;> rfl
  · rfl

/-- What another name is bound to in one scope. -/
lemma bound_without (hx : x ∉ names) :
    ((h.without names).get? i).bind (·.get? x) = (h.get? i).bind (·.get? x) := by
  rw [get?_without]
  split
  · cases h.get? i with
    | none => rfl
    | some s => exact get?_filter s.bindings hx
  · rfl

lemma lookup?_without (hx : x ∉ names) : (h.without names).lookup? i x = h.lookup? i x :=
  lookup?_congr h.parent?_without (fun j => h.bound_without j hx) i

lemma holder?_without (hx : x ∉ names) : (h.without names).holder? i x = h.holder? i x :=
  holder?_congr h.parent?_without (fun j => h.bound_without j hx) i

lemma nameOf_without : (h.without names).nameOf i = h.nameOf i := by
  rw [nameOf, nameOf, get?_without]
  split
  · cases h.get? i <;> rfl
  · rfl

lemma push_without {h : Heap} (hsize : 0 < h.size) (s : Scope) :
    (h.push s).without names = (h.without names).push s := by
  have hfresh : (h.without names).fresh = h.fresh := h.size_without
  have htop : Session.top ≠ h.fresh := Nat.ne_of_lt hsize
  apply ext_get?
  intro i
  rw [get?_without, get?_push, get?_push, get?_without, hfresh]
  by_cases hi : i = Session.top
  · subst hi
    rw [if_pos rfl, if_neg htop, if_neg htop, if_pos rfl]
  · rw [if_neg hi, if_neg hi]

lemma define_without (hx : x ∉ names) :
    (h.define i x v).without names = (h.without names).define i x v := by
  apply ext_get?
  intro j
  rw [get?_without, get?_define, get?_define, get?_without]
  by_cases hj : j = Session.top
  · rw [if_pos hj, if_pos hj]
    split
    · cases h.get? j with
      | none => rfl
      | some s =>
        exact congrArg (fun bs => some (Scope.mk s.name s.parent? bs)) (filter_put s.bindings hx)
    · rfl
  · rw [if_neg hj, if_neg hj]

/-- A name that is left out may as well be defined. -/
lemma define_without_of_mem (hx : x ∈ names) :
    (h.define Session.top x v).without names = h.without names := by
  apply ext_get?
  intro j
  rw [get?_without, get?_define, get?_without]
  by_cases hj : j = Session.top
  · simp only [if_pos hj]
    cases h.get? j with
    | none => rfl
    | some s =>
      exact congrArg (fun bs => some (Scope.mk s.name s.parent? bs))
        (filter_put_of_mem s.bindings hx)
  · simp only [if_neg hj]

end Heap

/-! ### Seen as it is -/

lemma Node.view_plain : Node.view .plain = id := by
  funext n
  induction n using Node.induction with
  | call items l ih =>
    have hitems : items.map (Node.view .plain) = items :=
      (List.map_congr_left ih).trans items.map_id
    rw [view_call, hitems]
    rfl
  | function c ih =>
    have hbody : c.body.map (Node.view .plain) = c.body :=
      (List.map_congr_left ih).trans c.body.map_id
    rw [view_function, Closure.view, hbody]
    rfl
  | transformer c ih =>
    have hbody : c.body.map (Node.view .plain) = c.body :=
      (List.map_congr_left ih).trans c.body.map_id
    rw [view_transformer, Closure.view, hbody]
    rfl
  | _ => rfl

lemma Scope.view_plain (s : Scope) : s.view .plain = s := by
  have hmap : Prod.map id (Node.view .plain) = (id : String × Node → String × Node) := by
    rw [Node.view_plain]
    rfl
  obtain ⟨name, parent?, bindings⟩ := s
  have hparent : parent?.map View.plain.scope = parent? := by cases parent? <;> rfl
  rw [Scope.view, hmap, List.map_id, hparent]

lemma EvalError.view_plain (e : EvalError) : e.view .plain = e := by
  obtain ⟨cause, l⟩ := e
  cases cause <;> simp [EvalError.view, Cause.view, Node.view_plain]

lemma Outcome.view_plain {α : Type} (o : Outcome α) : o.view .plain id = o := by
  cases o with
  | error e => exact congrArg Outcome.error e.view_plain
  | _ => rfl

/-! ### In step -/

/-- The first store is the second without the names. -/
def Without (names : List String) (σ τ : Store) : Prop :=
  0 < τ.heap.size ∧ σ = τ.without names

variable {σ τ : Store}

/-- Of a program that does not have the names, no step depends on them. -/
lemma tied_without (h : Without names σ τ) :
    Tied .plain (.avoiding names) (Without names) σ τ := by
  obtain ⟨hsize, rfl⟩ := h
  have hview (i : ScopeId) (x : String) : ((τ.without names).heap.lookup? i x).map
      (Node.view .plain) = (τ.without names).heap.lookup? i x := by
    rw [Node.view_plain, Option.map_id]
    rfl
  have hholder (i : ScopeId) (x : String) : ((τ.without names).heap.holder? i x).map
      View.plain.scope = (τ.without names).heap.holder? i x := by
    cases (τ.without names).heap.holder? i x <;> rfl
  constructor
  case same => exact ⟨hsize, rfl⟩
  case lookup =>
    intro i x _ hx
    rw [hview]
    exact (τ.heap.lookup?_without i hx).symm
  case holder =>
    intro i x _ hx
    rw [hholder]
    exact (τ.heap.holder?_without i hx).symm
  case nameOf => exact fun i _ => (τ.heap.nameOf_without i).symm
  case fresh => exact τ.heap.size_without.symm
  case push =>
    intro s _
    rw [Scope.view_plain]
    refine ⟨?_, congrArg (Store.mk · τ.nextChannel τ.sink) (Heap.push_without hsize s).symm⟩
    exact (τ.heap.size_push s).symm ▸ Nat.succ_pos _
  case define =>
    intro i x v _ hx _
    have hsize' : 0 < (τ.heap.define i x v).size := by rwa [Heap.size_define]
    rw [Node.view_plain]
    exact ⟨hsize', congrArg (Store.mk · τ.nextChannel τ.sink) (τ.heap.define_without i hx).symm⟩
  case nextChannel => rfl
  case channel => exact ⟨hsize, rfl⟩
  case refusal => exact fun _ _ => rfl
  case print => exact fun _ _ => ⟨hsize, rfl⟩
  case report => exact fun h => h.elim

lemma linked_without : Linked .plain (.avoiding names) (Without names) where
  tied _ _ := tied_without
  admits _ _ := ⟨fun _ _ _ => trivial, fun _ _ _ => trivial⟩
  top := trivial
  sight := rfl

/-! ### Sessions in step -/

namespace Session

/-- What becomes of sources, one after another: the sink after each, and its outcome. -/
def transcript (s : Session) : List (String × String) → List (Sink × Outcome (Option Node))
  | [] => []
  | (source, label) :: sources =>
    let r := s.evalSource source label
    (r.1.store.sink, r.2) :: transcript r.1 sources

/-- No source starts a thread. -/
def QuietSources (s : Session) : List (String × String) → Prop
  | [] => True
  | (source, label) :: sources =>
    s.QuietSource source label ∧ QuietSources (s.evalSource source label).1 sources

instance decidableQuietSources :
    ∀ (s : Session) (sources : List (String × String)), Decidable (s.QuietSources sources)
  | _, [] => .isTrue trivial
  | s, (source, label) :: sources =>
    haveI := decidableQuietSources (s.evalSource source label).1 sources
    inferInstanceAs (Decidable (s.QuietSource source label ∧ _))

/-- A session that was just opened, with so much fuel. -/
def opening (sink : Sink) (withPrelude : Bool) (fuel : Nat) : Session :=
  { new sink withPrelude with fuel := fuel }

/-- The source does not have the names as atoms. -/
def Avoids (names : List String) (source : String) : Prop :=
  ∀ t ∈ tokenize source, ∀ x ∈ names, t.shape ≠ .atom x

/-- The first session is the second without the names. -/
abbrev PairedWithout (names : List String) (s s' : Session) : Prop :=
  Paired (.avoiding names) (Without names) s s'

variable {s s' : Session} {source label : String} {sources : List (String × String)}

lemma PairedWithout.report (h : PairedWithout names s s') (line : String) :
    PairedWithout names (s.report line) (s'.report line) := by
  obtain ⟨hidle, hidle', hfuel, ⟨hsize, hstore⟩, hheap⟩ := h
  refine ⟨hidle, hidle', hfuel, ⟨hsize, ?_⟩, hheap⟩
  rw [Session.report, Session.report, hstore]
  rfl

lemma PairedWithout.reportFaults (h : PairedWithout names s s') (errors : List ReadError) :
    PairedWithout names (s.reportFaults errors) (s'.reportFaults errors) := by
  unfold Session.reportFaults
  split
  · exact h
  · exact h.report _

lemma PairedWithout.sink (h : PairedWithout names s s') : s'.store.sink = s.store.sink := by
  rw [h.store.2]
  rfl

lemma PairedWithout.conclude {r r' : Session × Outcome (Option Node)}
    (h : PairedWithout names r.1 r'.1) (ho : r'.2 = r.2) :
    PairedWithout names (conclude r).1 (conclude r').1 := by
  obtain ⟨s, o⟩ := r
  obtain ⟨s', o'⟩ := r'
  obtain rfl : o' = o := ho
  cases o' with
  | crash detail => exact PairedWithout.report h _
  | _ => exact h

/-- A source that does not have the names is quiet in both sessions or in none, and has the same
outcome. -/
lemma PairedWithout.evalSource (h : PairedWithout names s s') (hsource : Avoids names source)
    (hquote : "quote" ∉ names) :
    (s'.QuietSource source label ↔ s.QuietSource source label) ∧
      (s.QuietSource source label →
        PairedWithout names (s.evalSource source label).1 (s'.evalSource source label).1 ∧
          (s'.evalSource source label).2 = (s.evalSource source label).2) := by
  have hreported := h.reportFaults (read source label).2
  have hatoms : ∀ t ∈ tokenize source, ∀ x, t.shape = .atom x → x ∉ names :=
    fun t ht x hx hmem => hsource t ht x hmem hx
  have hforms : ∀ n ∈ (read source label).1, n.Obeys (.avoiding names) := fun n hn =>
    obeys_of_mem_read hn (fun _ _ _ => trivial) hatoms hquote
  have hiff := hreported.quietForms_iff linked_without hforms
  rw [Node.view_plain, List.map_id] at hiff
  refine ⟨⟨fun hq => ⟨hiff.1 hq.forms⟩, fun hq => ⟨hiff.2 hq.forms⟩⟩, fun hq => ?_⟩
  have hrun := hreported.evalForms linked_without hforms hq.forms none
  simp only [Node.view_plain, List.map_id, Option.map_id, Option.map_none, Outcome.view_plain]
    at hrun
  obtain ⟨hpaired, houtcome⟩ := hrun
  rw [evalSource_eq, evalSource_eq, snd_conclude, snd_conclude]
  exact ⟨PairedWithout.conclude hpaired houtcome, houtcome⟩

/-- So do sources, one after another. -/
lemma PairedWithout.evalSources (h : PairedWithout names s s')
    (hsources : ∀ q ∈ sources, Avoids names q.1) (hquote : "quote" ∉ names) :
    (s'.QuietSources sources ↔ s.QuietSources sources) ∧
      (s.QuietSources sources → s'.transcript sources = s.transcript sources ∧
        PairedWithout names (s.after sources) (s'.after sources)) := by
  induction sources generalizing s s' with
  | nil => exact ⟨Iff.rfl, fun _ => ⟨rfl, h⟩⟩
  | cons q sources ih =>
    obtain ⟨source, label⟩ := q
    obtain ⟨hsource, hsources⟩ := List.forall_mem_cons.1 hsources
    have hsource : Avoids names source := hsource
    obtain ⟨hiff, hstep⟩ := PairedWithout.evalSource h hsource hquote
    constructor
    · rw [QuietSources, QuietSources, hiff]
      exact and_congr_right fun hq => (ih (hstep hq).1 hsources).1
    · rintro ⟨hq, hrest⟩
      obtain ⟨hpaired, houtcome⟩ := hstep hq
      obtain ⟨htranscript, hafter⟩ := (ih hpaired hsources).2 hrest
      refine ⟨?_, hafter⟩
      rw [transcript, transcript, houtcome, htranscript, PairedWithout.sink hpaired]

/-! ### With and without the prelude -/

lemma without_defineAll {σ : Store} {ds : List (String × Closure Node)}
    (hds : ∀ d ∈ ds, d.1 ∈ names) : (σ.defineAll ds).without names = σ.without names := by
  induction ds generalizing σ with
  | nil => rfl
  | cons d ds ih =>
    obtain ⟨hd, hds⟩ := List.forall_mem_cons.1 hds
    have hfirst : (σ.define top d.1 ((Node.transformer d.2).named d.1)).without names
        = σ.without names :=
      congrArg (Store.mk · σ.nextChannel σ.sink) (σ.heap.define_without_of_mem hd)
    exact (ih hds).trans hfirst

lemma size_defineAll {σ : Store} {ds : List (String × Closure Node)} :
    (σ.defineAll ds).heap.size = σ.heap.size := by
  induction ds generalizing σ with
  | nil => rfl
  | cons d ds ih => exact ih.trans (σ.heap.size_define top d.1 _)

/-- A session without the prelude has none of its names. -/
lemma without_bare (sink : Sink) :
    (bare sink).store.without preludeNames = (bare sink).store := by
  have hnames : ∀ b ∈ Builtin.all, b.name ∉ preludeNames := by decide +kernel
  have htop : topLevel.without preludeNames = topLevel := by
    have hfilter : topLevel.bindings.filter (fun b => !decide (b.1 ∈ preludeNames))
        = topLevel.bindings := by
      refine List.filter_eq_self.2 fun b hb => ?_
      obtain ⟨c, hc, rfl⟩ := List.mem_map.1 hb
      simpa using hnames c hc
    exact congrArg (Scope.mk "top-level" none) hfilter
  exact congrArg (fun s => Store.mk ⟨#[s]⟩ 0 sink) htop

/-- A session with the prelude is one without it, but for the names that the prelude defines. -/
lemma pairedWithout_opening (sink : Sink) (fuel : Nat) :
    PairedWithout preludeNames (opening sink false fuel) (opening sink true fuel) := by
  have hmem : ∀ d ∈ preludeDefinitions, d.1 ∈ preludeNames := by
    intro d hd
    rw [← read_prelude.2.2]
    exact List.mem_map_of_mem hd
  have hstore : (bare sink).store
      = ((bare sink).store.defineAll preludeDefinitions).without preludeNames := by
    rw [without_defineAll hmem, without_bare]
  have hsize : 0 < ((bare sink).store.defineAll preludeDefinitions).heap.size := by
    rw [size_defineAll]
    exact Nat.one_pos
  rw [opening, opening, (new_prelude sink).2]
  exact ⟨rfl, rfl, rfl, ⟨hsize, hstore⟩, heap_bare_obeys (fun _ => trivial) sink⟩

end Session

open Session

/-- **The prelude is conservative.** Let no source have its names as atoms. If the sources start no
thread in a session without it, they start none in a session with it, and conversely; and then
they write the same and have the same outcomes in both, source by source, and in the end the
sessions differ only in the bindings of those names at top level. -/
theorem prelude_conservative (sink : Sink) (fuel : Nat) {sources : List (String × String)}
    (hsources : ∀ q ∈ sources, Avoids preludeNames q.1) :
    ((opening sink true fuel).QuietSources sources
        ↔ (opening sink false fuel).QuietSources sources) ∧
      ((opening sink false fuel).QuietSources sources →
        (opening sink true fuel).transcript sources = (opening sink false fuel).transcript sources ∧
          ((opening sink false fuel).after sources).store
            = ((opening sink true fuel).after sources).store.without preludeNames) := by
  have hpaired := pairedWithout_opening sink fuel
  obtain ⟨hiff, hquiet⟩ := PairedWithout.evalSources hpaired hsources (by decide)
  refine ⟨hiff, fun hq => ?_⟩
  obtain ⟨htranscript, hafter⟩ := hquiet hq
  exact ⟨htranscript, hafter.store.2⟩

/-- The first source takes a name away that the prelude's transformers use; the second fails. -/
def rebinding : List (String × String) :=
  [("(def list 5)\n(update! list 6)\n(print list)", "one"), ("(list)", "two")]

theorem prelude_conservative_rebinding :
    (∀ q ∈ rebinding, Avoids preludeNames q.1) ∧
      (opening .unlimited false 60).QuietSources rebinding ∧
      ((opening .unlimited true 60).transcript rebinding).map
          (fun r => (r.1.textSince 0, r.2.error?.map EvalError.text))
        = [("6", none), ("6", some ("two:1: `6` is not callable: expected a primitive, function " ++
          "or macro but found int"))] := by
  have hatoms : ∀ q ∈ rebinding, ∀ t ∈ tokenize q.1, ∀ x ∈ preludeNames, t.shape ≠ .atom x := by
    decide +kernel
  have hquiet : (opening .unlimited false 60).QuietSources rebinding := by decide +kernel
  obtain ⟨htranscript, -⟩ := (prelude_conservative .unlimited 60 hatoms).2 hquiet
  refine ⟨hatoms, hquiet, ?_⟩
  rw [htranscript]
  decide +kernel

end ChannelLisp
