import ChannelLisp.Proofs.Insertion
import ChannelLisp.Proofs.Locations
import ChannelLisp.Proofs.Prelude
import Mathlib.Tactic

/-!
The transformers of the prelude mean what they abbreviate. Each of them puts its argument forms
into a longer form, which is then evaluated where the call was. The scope in which the longer form
is made stays behind, but nothing refers to it; so evaluating the call and evaluating the longer
form come to the same, up to the places of forms and to the identifiers of scopes made on the way.
-/

namespace ChannelLisp

/-- A call of a transformer of the prelude, with its argument forms. -/
inductive Shorthand where
  | whenTrue (test body : Node)
  | whenFalse (test body : Node)
  | define (name params body : Node)
  | defineTransformer (name params body : Node)

namespace Shorthand

def name : Shorthand → String
  | whenTrue _ _ => "when"
  | whenFalse _ _ => "unless"
  | define _ _ _ => "defn"
  | defineTransformer _ _ _ => "defmacro"

def args : Shorthand → List Node
  | whenTrue test body | whenFalse test body => [test, body]
  | define x params body | defineTransformer x params body => [x, params, body]

/-- The call as a form. -/
def short (s : Shorthand) : Node := .call (.symbol s.name none :: s.args) none

/-- The form that it stands for. -/
def long : Shorthand → Node
  | whenTrue test body => .call [.symbol "if" none, test, body, .nil] none
  | whenFalse test body => .call [.symbol "if" none, test, .nil, body] none
  | define x params body =>
    .call [.symbol "def" none, x, .call [.symbol "lambda" none, params, body] none] none
  | defineTransformer x params body =>
    .call [.symbol "def" none, x, .call [.symbol "macro" none, params, body] none] none

def params : Shorthand → List String
  | whenTrue _ _ | whenFalse _ _ => ["test", "body"]
  | define _ _ _ | defineTransformer _ _ _ => ["name", "params", "body"]

/-- A form whose value is a list of the values of forms. -/
def listed (ns : List Node) : Node := .call (.symbol "list" none :: ns) none

/-- A form whose value is a symbol. -/
def quoted (x : String) : Node := .call [.symbol "quote" none, .symbol x none] none

/-- The body of the transformer. -/
def template : Shorthand → Node
  | whenTrue _ _ => listed [quoted "if", .symbol "test" none, .symbol "body" none, .nil]
  | whenFalse _ _ => listed [quoted "if", .symbol "test" none, .nil, .symbol "body" none]
  | define _ _ _ => listed [quoted "def", .symbol "name" none,
      listed [quoted "lambda", .symbol "params" none, .symbol "body" none]]
  | defineTransformer _ _ _ => listed [quoted "def", .symbol "name" none,
      listed [quoted "macro", .symbol "params" none, .symbol "body" none]]

/-- The transformer itself, without places. -/
def transformer (s : Shorthand) : Closure Node := ⟨some s.name, s.params, [s.template], Session.top⟩

/-- The scope in which the longer form is made. -/
def frame (s : Shorthand) : Scope := ⟨s.name, some Session.top, bindAll s.params s.args⟩

def bare : Shorthand → Shorthand
  | whenTrue test body => whenTrue test.bare body.bare
  | whenFalse test body => whenFalse test.bare body.bare
  | define x params body => define x.bare params.bare body.bare
  | defineTransformer x params body => defineTransformer x.bare params.bare body.bare

lemma bare_short (s : Shorthand) : s.short.bare = s.bare.short := by
  cases s <;> simp [short, name, args, bare]

lemma bare_long (s : Shorthand) : s.long.bare = s.bare.long := by
  cases s <;> simp [long, bare, Node.nil]

lemma args_bare (s : Shorthand) : s.bare.args = s.args.map Node.bare := by
  cases s <;> rfl

lemma transformer_bare (s : Shorthand) : s.bare.transformer = s.transformer := by
  cases s <;> rfl

lemma name_bare (s : Shorthand) : s.bare.name = s.name := by
  cases s <;> rfl

/-! ### The prelude -/

set_option maxRecDepth 3000 in
lemma bare_preludeDefinitions : Session.preludeDefinitions.map (Prod.map id Closure.bare)
    = [whenTrue .nil .nil, whenFalse .nil .nil, define .nil .nil .nil,
        defineTransformer .nil .nil .nil].map
      fun s => (s.name, ⟨none, s.params, [s.template], Session.top⟩) := by
  have htext : read prelude "prelude" = _ := Session.read_ofList _ _
  unfold Session.preludeDefinitions
  rw [htext]
  rfl

lemma mem_preludeDefinitions (s : Shorthand) : ∃ c, (s.name, c) ∈ Session.preludeDefinitions ∧
    c.bare = ⟨none, s.params, [s.template], Session.top⟩ := by
  have hmem : (s.name, ⟨none, s.params, [s.template], Session.top⟩)
      ∈ Session.preludeDefinitions.map (Prod.map id Closure.bare) := by
    rw [bare_preludeDefinitions]
    cases s <;> simp [name, params, template]
  obtain ⟨⟨x, c⟩, hc, heq⟩ := List.mem_map.1 hmem
  obtain ⟨rfl, hbare⟩ := Prod.mk.inj heq
  exact ⟨c, hc, hbare⟩

/-- What a session with the prelude binds the name to. -/
lemma lookup?_prelude (sink : Sink) (s : Shorthand) :
    ((Session.new sink true).store.heap.lookup? Session.top s.name).map Node.bare
      = some (.transformer s.transformer) := by
  obtain ⟨c, hmem, hc⟩ := s.mem_preludeDefinitions
  have hnames : (Session.preludeDefinitions.map (·.1)).Nodup := by
    rw [Session.read_prelude.2.2]
    decide
  have hlookup := Store.lookup?_defineAll (σ := (Session.bare sink).store) rfl hnames hmem
  rw [(Session.new_prelude sink).2]
  refine (congrArg (Option.map Node.bare) hlookup).trans ?_
  obtain ⟨name, params, body, scope⟩ := c
  obtain ⟨rfl, rfl, hbody, rfl⟩ := Closure.mk.inj hc
  rw [Option.map_some, Node.named, Node.bare_transformer, Closure.bare, hbody]
  rfl

/-! ### The longer form is made -/

variable {σ : Store} {i : ScopeId} {x : String} {l l' : Option Location}

lemma completes_symbol {v : Node} (hx : σ.heap.lookup? i x = some v) :
    Completes σ i (.symbol x l) σ (.value v) := by
  have heval : evaluate σ i (.symbol x l) [] = ⟨.value v, []⟩ := by
    rw [evaluate, Heap.resolve, hx]
  have hstep : step σ (.start i (.symbol x l)) = ⟨σ, ⟨.value v, []⟩, none⟩ :=
    congrArg (Turn.mk σ · none) heval
  exact completes_iff_ends.2 ⟨_, leads_of_step hstep, rfl⟩

lemma completes_quoted
    (hquote : σ.heap.lookup? i "quote" = some (.primitive (.builtin (.form .quote)))) (x : String) :
    Completes σ i (quoted x) σ (.value (.symbol x none)) :=
  completes_iff_solo.2 ⟨4, _, (solo_call hquote rfl rfl 1).trans rfl, rfl⟩

lemma completes_listed
    (hlist : σ.heap.lookup? i "list" = some (.primitive (.builtin (.operation .list))))
    {ns vs : List Node} (hargs : CompletesAll i σ ns σ vs) :
    Completes σ i (listed ns) σ (.value (.list vs)) :=
  completes_operation (completes_symbol hlist)
    (by simp [Operation.arity, Arity.atLeast, Arity.accepts]) hargs

/-- In the scope of the call, the body of the transformer gives the longer form. -/
lemma completes_template (s : Shorthand)
    (hlist : σ.heap.lookup? i "list" = some (.primitive (.builtin (.operation .list))))
    (hquote : σ.heap.lookup? i "quote" = some (.primitive (.builtin (.form .quote))))
    (hframe : ∀ x v, s.frame.get? x = some v → σ.heap.lookup? i x = some v) :
    Completes σ i s.template σ (.value s.long) := by
  have hquoted (x : String) : Completes σ i (quoted x) σ (.value (.symbol x none)) :=
    completes_quoted hquote x
  have hparam (x : String) (v : Node) (hx : s.frame.get? x = some v) :
      Completes σ i (.symbol x none) σ (.value v) := completes_symbol (hframe x v hx)
  have hnil : Completes σ i .nil σ (.value .nil) := ⟨1, _, rfl, rfl⟩
  -- the inner form of a definition, which makes the closure
  have hclosure (maker : String) (params body : Node)
      (hparams : s.frame.get? "params" = some params) (hbody : s.frame.get? "body" = some body) :
      Completes σ i (listed [quoted maker, .symbol "params" none, .symbol "body" none]) σ
        (.value (.list [.symbol maker none, params, body])) :=
    completes_listed hlist
      (.cons (hquoted maker) (.cons (hparam _ _ hparams) (.cons (hparam _ _ hbody) .nil)))
  cases s with
  | whenTrue test body =>
    exact completes_listed hlist (.cons (hquoted "if")
      (.cons (hparam "test" test rfl) (.cons (hparam "body" body rfl) (.cons hnil .nil))))
  | whenFalse test body =>
    exact completes_listed hlist (.cons (hquoted "if")
      (.cons (hparam "test" test rfl) (.cons hnil (.cons (hparam "body" body rfl) .nil))))
  | define x params body =>
    exact completes_listed hlist (.cons (hquoted "def")
      (.cons (hparam "name" x rfl) (.cons (hclosure "lambda" params body rfl rfl) .nil)))
  | defineTransformer x params body =>
    exact completes_listed hlist (.cons (hquoted "def")
      (.cons (hparam "name" x rfl) (.cons (hclosure "macro" params body rfl rfl) .nil)))

/-- The call leads to the longer form, in its place, with the scope of the call beside the
others. -/
lemma leads_long (s : Shorthand) {e : ScopeId} (ho : σ.heap.Ordered)
    (htop : Session.top < σ.heap.size)
    (hname : σ.heap.lookup? e s.name = some (.transformer s.transformer))
    (hlist : σ.heap.lookup? Session.top "list" = some (.primitive (.builtin (.operation .list))))
    (hquote : σ.heap.lookup? Session.top "quote" = some (.primitive (.builtin (.form .quote)))) :
    Leads σ (.start e s.short) (σ.pushScope s.frame)
      ((Thread.start e s.long).onto [.locate none]) := by
  have hlookup (x : String) : (σ.pushScope s.frame).heap.lookup? σ.heap.fresh x
      = (s.frame.get? x).or (σ.heap.lookup? Session.top x) :=
    ho.lookup?_push_fresh rfl htop x
  have htemplate : Completes (σ.pushScope s.frame) σ.heap.fresh s.template (σ.pushScope s.frame)
      (.value s.long) := by
    refine s.completes_template ?_ ?_ fun x v hx => ?_
    · rw [hlookup, hlist]
      cases s <;> rfl
    · rw [hlookup, hquote]
      cases s <;> rfl
    · rw [hlookup, hx, Option.some_or]
  have henter : step σ ⟨.value (.transformer s.transformer), [.operator e s.args none]⟩
      = ⟨σ.pushScope s.frame, ⟨.eval σ.heap.fresh s.template,
        [.sequence σ.heap.fresh [], .expansion e, .locate none]⟩, none⟩ := by
    cases s <;> rfl
  have hcall : Leads σ (.start e s.short) σ
      ⟨.eval e (.symbol s.name none), [.operator e s.args none]⟩ := leads_of_step rfl
  have hexpand : Leads (σ.pushScope s.frame)
      ⟨.value s.long, [.sequence σ.heap.fresh [], .expansion e, .locate none]⟩ (σ.pushScope s.frame)
      ((Thread.start e s.long).onto [.locate none]) := (leads_of_step rfl).trans (leads_of_step rfl)
  exact hcall.trans (((completes_symbol hname).leads _).trans
    ((leads_of_step henter).trans ((htemplate.leads _).trans hexpand)))

end Shorthand

/-! ### Without places -/

lemma Node.Obeys.bare {p : Policy} {v : Node} (h : v.Obeys p) : v.bare.Obeys p := by
  have all {ns : List Node} (h : ∀ m ∈ ns, m.bare.Obeys p) : ∀ m ∈ ns.map Node.bare, m.Obeys p :=
    List.forall_mem_map.2 h
  induction h with
  | literal => exact .literal p.place?_none
  | symbol hx => exact .symbol hx p.place?_none
  | call _ _ ih =>
    rw [Node.bare_call]
    exact .call (all ih) p.place?_none
  | scope hi => exact .scope hi
  | primitive hr => exact .primitive hr
  | function hs hx _ ih =>
    rw [Node.bare_function]
    exact .function hs hx (all ih)
  | transformer hs hx _ ih =>
    rw [Node.bare_transformer]
    exact .transformer hs hx (all ih)
  | chan hi => exact .chan hi

lemma Heap.Obeys.bare {p : Policy} {h : Heap} (hh : h.Obeys p) : h.bare.Obeys p := by
  intro i s hi hs
  rw [Heap.get?_bare] at hs
  obtain ⟨sc, hsc, rfl⟩ := Option.map_eq_some_iff.1 hs
  have hobeys := hh i sc hi hsc
  refine ⟨hobeys.parent, fun b hb => ?_⟩
  obtain ⟨b', hb', rfl⟩ := List.mem_map.1 hb
  exact (hobeys.bindings b' hb').bare

lemma Heap.Ordered.bare {h : Heap} (hh : h.Ordered) : h.bare.Ordered := by
  intro i s q hs hq
  rw [Heap.get?_bare] at hs
  obtain ⟨sc, hsc, rfl⟩ := Option.map_eq_some_iff.1 hs
  exact hh i sc q hsc hq

lemma Heap.lookup?_bare_of_eq {h : Heap} {i : ScopeId} {x : String} {r : Option Node}
    (hx : (h.lookup? i x).map Node.bare = r) : h.bare.lookup? i x = r := by
  rw [Heap.lookup?_bare, ← hx]
  exact congrArg (Option.map · _) (funext Node.view_erase)

lemma Store.present_bare (σ : Store) : σ.bare.present = σ.present := by
  have hsize : σ.heap.bare.size = σ.heap.size := σ.heap.fresh_bare
  unfold Store.present Store.bare
  rw [hsize]

lemma Node.bare_view_skip (n : ScopeId) (v : Node) :
    (v.view (.skip n)).bare = v.bare.view (.skip n) := by
  have all {ns : List Node} (h : ∀ m ∈ ns, (m.view (.skip n)).bare = m.bare.view (.skip n)) :
      (ns.map (Node.view (.skip n))).map Node.bare =
        (ns.map Node.bare).map (Node.view (.skip n)) := by
    rw [List.map_map, List.map_map]
    exact List.map_congr_left h
  induction v using Node.induction with
  | call items l ih => simp [all ih]
  | function c ih => simp [Closure.view, Closure.bare, all ih]
  | transformer c ih => simp [Closure.view, Closure.bare, all ih]
  | _ => rfl

lemma Answer.alike_of_skip {n : ScopeId} {a b : Answer}
    (h : a.view .erase = (b.view .erase).view (.skip n)) : a.Alike (b.view (.skip n)) := by
  cases a <;> cases b <;> simp only [Answer.view, reduceCtorEq, Answer.value.injEq,
    Answer.error.injEq, Answer.crash.injEq] at h
  · rw [Node.view_erase, Node.view_erase, ← Node.bare_view_skip] at h
    exact h
  · rename_i e e'
    have hmessage : (e.view .erase).message = ((e'.view .erase).view (.skip n)).message :=
      congrArg _ h
    rw [EvalError.message_view, EvalError.message_view, EvalError.message_view] at hmessage
    exact hmessage.trans (EvalError.message_view e').symm
  · exact h

/-! ### The call and the longer form -/

namespace Shorthand

lemma long_present {s : Shorthand} {σ : Store} (hargs : ∀ n ∈ s.args, n.Obeys σ.present) :
    s.long.Obeys σ.present := by
  have hname (x : String) : σ.present.name x := trivial
  cases s <;> simp_all [long, args]

/-- The call means what the prelude says: its name leads to the transformer, and at top level the
names in the body of that lead to the primitives. What the call refers to is there. -/
structure Ready (s : Shorthand) (σ : Store) (e : ScopeId) : Prop where
  transformer : σ.heap.lookup? e s.name = some (.transformer s.transformer)
  list : σ.heap.lookup? Session.top "list" = some (.primitive (.builtin (.operation .list)))
  quote : σ.heap.lookup? Session.top "quote" = some (.primitive (.builtin (.form .quote)))
  heap : σ.heap.Obeys σ.present
  ordered : σ.heap.Ordered
  scope : e < σ.heap.size
  args : ∀ n ∈ s.args, n.Obeys σ.present

namespace Ready

variable {s : Shorthand} {σ : Store} {e : ScopeId} (h : s.Ready σ e)

include h

lemma start_obeys : (Thread.start e s.long).Obeys σ.present :=
  Thread.obeys_start h.scope (long_present h.args)

lemma start_view : (Thread.start e s.long).view (.skip σ.heap.fresh) = .start e s.long := by
  have hlong : s.long.view (.skip σ.heap.fresh) = s.long :=
    (long_present h.args).view_skip fun _ hi => hi
  have he : skip σ.heap.fresh e = e := skip_of_lt h.scope
  change Thread.start (skip σ.heap.fresh e) (s.long.view (.skip σ.heap.fresh)) = _
  rw [hlong, he]

lemma leads : Leads σ (.start e s.short) (σ.pushScope s.frame)
    ((Thread.start e s.long).onto [.locate none]) :=
  s.leads_long h.ordered (lt_of_le_of_lt (Nat.zero_le e) h.scope) h.transformer h.list h.quote

lemma inserted : σ.Inserted σ.heap.fresh (σ.pushScope s.frame) :=
  inserted_pushScope h.heap h.ordered s.frame

lemma quiet_iff : Quiet σ (.start e s.short) ↔ Quiet σ (.start e s.long) := by
  rw [h.leads.quiet_iff, quiet_locate_iff, ← quiet_inserted h.inserted h.heap h.start_obeys,
    h.start_view]

lemma ends_short_iff {τ : Store} {b : Answer} : Ends σ (.start e s.short) τ b
    ↔ Ends (σ.pushScope s.frame) (.start e s.long) τ b := by
  rw [h.leads.ends_iff, ends_locate_iff]
  simp only [Answer.withLocation_none, exists_eq_right']

/-- Where the longer form ends, the call ends with the same, beside the scope of the call. -/
lemma ends_short {σ' : Store} {a : Answer} (ha : Ends σ (.start e s.long) σ' a) :
    ∃ τ, Ends σ (.start e s.short) τ (a.view (.skip σ.heap.fresh))
      ∧ σ'.Inserted σ.heap.fresh τ := by
  obtain ⟨τ, hτ, hinserted⟩ := ha.inserted h.inserted h.heap h.start_obeys
  rw [h.start_view] at hτ
  exact ⟨τ, h.ends_short_iff.2 hτ, hinserted⟩

lemma ends_long {τ : Store} {b : Answer} (hb : Ends σ (.start e s.short) τ b) :
    ∃ σ' a, Ends σ (.start e s.long) σ' a := by
  have hpushed := h.ends_short_iff.1 hb
  rw [← h.start_view] at hpushed
  exact hpushed.of_inserted h.inserted h.heap h.start_obeys

end Ready

end Shorthand

/-- **The transformers of the prelude mean what they abbreviate**. In every state that a session
can reach, evaluating a call of one of them and evaluating the longer form start other threads
alike, end alike, and end with the same answer and the same output; and they leave the same
scopes behind, but for the one in which the longer form was made. Places are left aside, and every
scope made on the way has the next identifier after the call. -/
theorem shorthand_means_longhand {sink : Sink} {m : Moment} (hr : (Moment.first sink).Reaches m)
    {e : ScopeId} (he : e < m.store.heap.size) {s : Shorthand}
    (hargs : ∀ n ∈ s.args, n.Obeys m.store.present)
    (hname : m.store.heap.lookup? e s.name
      = (Session.new .unlimited true).store.heap.lookup? Session.top s.name)
    (hlist : m.store.heap.lookup? Session.top "list"
      = some (.primitive (.builtin (.operation .list))))
    (hquote : m.store.heap.lookup? Session.top "quote"
      = some (.primitive (.builtin (.form .quote))))
    {short long : Node} (hshort : short.bare = s.short.bare) (hlong : long.bare = s.long.bare) :
    (Alone m.store e short ↔ Alone m.store e long) ∧
    ((∃ σ a, Completes m.store e short σ a) ↔ ∃ σ a, Completes m.store e long σ a) ∧
    ∀ σ₁ a₁ σ₂ a₂, Completes m.store e short σ₁ a₁ → Completes m.store e long σ₂ a₂ →
      a₁.Alike (a₂.view (.skip m.store.heap.fresh)) ∧ σ₁.sink = σ₂.sink ∧
      σ₂.bare.Inserted m.store.heap.fresh σ₁.bare := by
  have hm := hr.wellFormed (Moment.wellFormed_first sink)
  have hready : s.bare.Ready m.store.bare e := by
    refine ⟨?_, Heap.lookup?_bare_of_eq (congrArg _ hlist),
      Heap.lookup?_bare_of_eq (congrArg _ hquote), ?_, ?_, ?_, ?_⟩
    · rw [Shorthand.name_bare, Shorthand.transformer_bare]
      have hprelude := s.lookup?_prelude .unlimited
      rw [← hname] at hprelude
      exact Heap.lookup?_bare_of_eq hprelude
    · rw [Store.present_bare]
      exact hm.heap.bare
    · exact Heap.Ordered.bare hm.rooted.older
    · exact lt_of_lt_of_eq he m.store.heap.fresh_bare.symm
    · rw [Store.present_bare, Shorthand.args_bare]
      exact List.forall_mem_map.2 fun n hn => (hargs n hn).bare
  rw [Shorthand.bare_short] at hshort
  rw [Shorthand.bare_long] at hlong
  -- the runs without places
  have ends_short {σ : Store} {a : Answer} (ha : Completes m.store e short σ a) :
      Ends m.store.bare (.start e s.bare.short) σ.bare (a.view .erase) := by
    rw [← hshort, ← completes_iff_ends]
    exact completes_bare.2 ⟨σ, a, ha, rfl, rfl⟩
  have ends_long {σ : Store} {a : Answer} (ha : Completes m.store e long σ a) :
      Ends m.store.bare (.start e s.bare.long) σ.bare (a.view .erase) := by
    rw [← hlong, ← completes_iff_ends]
    exact completes_bare.2 ⟨σ, a, ha, rfl, rfl⟩
  refine ⟨?_, ⟨?_, ?_⟩, fun σ₁ a₁ σ₂ a₂ h₁ h₂ => ?_⟩
  · rw [← alone_bare, hshort, alone_iff_quiet, hready.quiet_iff, ← alone_iff_quiet, ← hlong,
      alone_bare]
  · rintro ⟨σ, a, ha⟩
    obtain ⟨τ, b, hb⟩ := hready.ends_long (ends_short ha)
    rw [← hlong, ← completes_iff_ends] at hb
    obtain ⟨σ', a', ha', -⟩ := completes_bare.1 hb
    exact ⟨σ', a', ha'⟩
  · rintro ⟨σ, a, ha⟩
    obtain ⟨τ, hb, -⟩ := hready.ends_short (ends_long ha)
    rw [← hshort, ← completes_iff_ends] at hb
    obtain ⟨σ', a', ha', -⟩ := completes_bare.1 hb
    exact ⟨σ', a', ha'⟩
  · obtain ⟨τ, hτ, hinserted⟩ := hready.ends_short (ends_long h₂)
    obtain ⟨hstore, hanswer⟩ := (ends_short h₁).unique hτ
    have hfresh : m.store.bare.heap.fresh = m.store.heap.fresh := m.store.heap.fresh_bare
    rw [hfresh] at hanswer hinserted
    rw [← hstore] at hinserted
    exact ⟨Answer.alike_of_skip hanswer, hinserted.sink, hinserted⟩

/-- A conditional with one branch. -/
def whenFive : Shorthand := .whenTrue (.bool true) (.int 5)

open Session in
theorem shorthand_means_longhand_five :
    ∃ σ a, Completes (new .unlimited true).store top whenFive.short σ a
      ∧ a.Alike (.value (.int 5)) := by
  obtain ⟨sink, cs, hr⟩ := (History.prelude .unlimited).reaches
  have hlookup (b : Builtin) (hb : b.name ∉ preludeNames) :
      (new .unlimited true).store.heap.lookup? top b.name = some (.primitive (.builtin b)) :=
    lookup?_new_true .unlimited hb
  obtain ⟨σ₀, hσ₀⟩ : ∃ σ₀, σ₀ = (new .unlimited true).store := ⟨_, rfl⟩
  have hname : σ₀.heap.lookup? top whenFive.name
      = (new .unlimited true).store.heap.lookup? top whenFive.name := by rw [hσ₀]
  rw [← hσ₀] at hr hlookup ⊢
  have hargs : ∀ n ∈ whenFive.args, n.Obeys σ₀.present := by
    simp [whenFive, Shorthand.args, Node.bool, Node.int]
  have hlong : Completes σ₀ top whenFive.long σ₀ (.value (.int 5)) :=
    completes_iff_solo.2
      ⟨7, _, (solo_call (hlookup (.form .branch) (by decide)) rfl rfl 4).trans rfl, rfl⟩
  obtain ⟨s₀, htop⟩ := (hr.wellFormed (Moment.wellFormed_first sink)).rooted.top
  obtain ⟨-, hends, hsame⟩ := shorthand_means_longhand hr (Heap.lt_size_of_get? htop) hargs hname
    (hlookup (.operation .list) (by decide)) (hlookup (.form .quote) (by decide)) rfl rfl
  obtain ⟨σ, a, ha⟩ := hends.2 ⟨_, _, hlong⟩
  exact ⟨σ, a, ha, (hsame σ a _ _ ha hlong).1⟩

end ChannelLisp
