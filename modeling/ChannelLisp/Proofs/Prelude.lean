import ChannelLisp.Proofs.Sessions
import Mathlib.Tactic

/-!
What the prelude does. A form that defines a transformer has the same effect in every store in
which the two names in it have their first meaning: it binds one name at top level, and does
nothing else. The prelude consists of such forms, so a session with it is a session without it
and four more bindings.
-/

namespace ChannelLisp

/-- The name and the transformer of a form that defines a transformer at top level. -/
def Node.definition? : Node → Option (String × Closure Node)
  | .call [.symbol d _, .symbol x _, .call (.symbol m _ :: params :: b :: bs) _] _ =>
    if d = Form.define.name ∧ m = Form.transformer.name then
      match makeClosure Form.transformer.name Session.top params (b :: bs) with
      | .ok c => some (x, c)
      | .error _ => none
    else none
  | _ => none

lemma Node.definition?_eq_some {n : Node} {x : String} {c : Closure Node}
    (h : n.definition? = some (x, c)) : ∃ params b bs l₁ l₂ l₃ l₄ l₅,
      n = .call [.symbol Form.define.name l₁, .symbol x l₂,
        .call (.symbol Form.transformer.name l₃ :: params :: b :: bs) l₄] l₅ ∧
      makeClosure Form.transformer.name Session.top params (b :: bs) = .ok c := by
  unfold Node.definition? at h
  split at h
  · split_ifs at h with hnames
    obtain ⟨rfl, rfl⟩ := hnames
    split at h
    · rename_i c' hc
      cases h
      exact ⟨_, _, _, _, _, _, _, _, rfl, hc⟩
    · cases h
  · cases h

/-- The names of the two forms of a definition have their meaning at top level. -/
structure Store.Defines (σ : Store) : Prop where
  define : σ.heap.lookup? Session.top Form.define.name
    = some (.primitive (.builtin (.form .define)))
  transformer : σ.heap.lookup? Session.top Form.transformer.name
    = some (.primitive (.builtin (.form .transformer)))

/-- Binds transformers at top level, one after another. -/
def Store.defineAll (σ : Store) (ds : List (String × Closure Node)) : Store :=
  ds.foldl (fun σ d => σ.define Session.top d.1 ((Node.transformer d.2).named d.1)) σ

variable {σ : Store}

lemma Store.Defines.define_of_ne (h : σ.Defines) {x : String} {v : Node}
    (hx : x ≠ Form.define.name) (hx' : x ≠ Form.transformer.name) :
    (σ.define Session.top x v).Defines where
  define := (Heap.lookup?_define_of_ne hx).trans h.define
  transformer := (Heap.lookup?_define_of_ne hx').trans h.transformer

lemma Heap.lookup?_define_top {h : Heap} {x : String} {v : Node}
    (htop : (h.get? Session.top).isSome) :
    (h.define Session.top x v).lookup? Session.top x = some v := by
  obtain ⟨s, hs⟩ := Option.isSome_iff_exists.1 htop
  have hget : ((h.define Session.top x v).get? Session.top).bind (·.get? x) = some v := by
    rw [get?_define, if_pos rfl, hs]
    exact (get?_put x x v s.bindings).trans (if_pos rfl)
  obtain ⟨s', hs', -⟩ := Option.bind_eq_some_iff.1 hget
  rw [lookup?, chain, chainFrom, hs', List.findSome?_cons, hget]

lemma Store.lookup?_defineAll_of_notMem {ds : List (String × Closure Node)} {x : String}
    (hx : x ∉ ds.map (·.1)) :
    (σ.defineAll ds).heap.lookup? Session.top x = σ.heap.lookup? Session.top x := by
  induction ds generalizing σ with
  | nil => rfl
  | cons d ds ih =>
    obtain ⟨hd, hds⟩ := not_or.1 (mt List.mem_cons.2 hx)
    exact (ih hds).trans (Heap.lookup?_define_of_ne (Ne.symm hd))

/-- Of distinct names, each is bound to its transformer in the end. -/
lemma Store.lookup?_defineAll {ds : List (String × Closure Node)} {x : String} {c : Closure Node}
    (htop : (σ.heap.get? Session.top).isSome) (hds : (ds.map (·.1)).Nodup) (hmem : (x, c) ∈ ds) :
    (σ.defineAll ds).heap.lookup? Session.top x = some ((Node.transformer c).named x) := by
  induction ds generalizing σ with
  | nil => cases hmem
  | cons d ds ih =>
    obtain ⟨hd, hds⟩ := List.nodup_cons.1 hds
    rcases List.mem_cons.1 hmem with rfl | hmem
    · have hrest := lookup?_defineAll_of_notMem hd
        (σ := σ.define Session.top x ((Node.transformer c).named x))
      exact hrest.trans (Heap.lookup?_define_top htop)
    · refine ih ?_ hds hmem
      change ((σ.heap.define _ _ _).get? Session.top).isSome
      rw [Heap.get?_define, if_pos rfl, Option.isSome_map]
      exact htop

/-- Three steps lead from a call to the special form that the head stands for. -/
lemma solo_call {σ' : Store} {t : Thread} {f : Form} {s : ScopeId} {x : String}
    {args : List Node} {l l' : Option Location} {k : List Frame}
    (hx : σ.heap.lookup? s x = some (.primitive (.builtin (.form f))))
    (hcount : f.arity.accepts args.length = true)
    (henter : f.enter σ s args (.locate l' :: k) = ⟨σ', t, none⟩) (n : Nat) :
    solo (n + 3) σ ⟨.eval s (.call (.symbol x l :: args) l'), k⟩ = solo n σ' t := by
  have hhead : evaluate σ s (.symbol x l) (.operator s args l' :: k)
      = ⟨.value (.primitive (.builtin (.form f))), .operator s args l' :: k⟩ := by
    rw [evaluate, Heap.resolve, hx]
  have happly : apply σ s (.primitive (.builtin (.form f))) args l' (.locate l' :: k)
      = ⟨σ', t, none⟩ := by
    rw [apply, Primitive.enter]
    exact (if_pos hcount).trans henter
  have hcall : step σ ⟨.eval s (.call (.symbol x l :: args) l'), k⟩
      = ⟨σ, ⟨.eval s (.symbol x l), .operator s args l' :: k⟩, none⟩ := rfl
  have hsymbol : step σ ⟨.eval s (.symbol x l), .operator s args l' :: k⟩
      = ⟨σ, ⟨.value (.primitive (.builtin (.form f))), .operator s args l' :: k⟩, none⟩ :=
    congrArg (Turn.mk σ · none) hhead
  have hform : step σ ⟨.value (.primitive (.builtin (.form f))), .operator s args l' :: k⟩
      = ⟨σ', t, none⟩ := happly
  rw [solo_succ (by rw [hcall]), hcall, solo_succ (by rw [hsymbol]), hsymbol,
    solo_succ (by rw [hform]), hform]

/-- The run of a definition: the call, in it the call that gives the transformer, and then the
binding. -/
lemma solo_definition {n : Node} {x : String} {c : Closure Node}
    (hn : n.definition? = some (x, c)) (h : σ.Defines) :
    solo 9 σ (.start Session.top n)
      = some (σ.define Session.top x ((Node.transformer c).named x),
        ⟨.value ((Node.transformer c).named x), []⟩) := by
  obtain ⟨params, b, bs, l₁, l₂, l₃, l₄, l₅, rfl, hc⟩ := Node.definition?_eq_some hn
  have hcount : Form.transformer.arity.accepts (params :: b :: bs).length = true := by
    simp [Form.arity, Arity.atLeast, Arity.accepts]
  have henter (k : List Frame) : Form.transformer.enter σ Session.top (params :: b :: bs) k
      = ⟨σ, ⟨.value (.transformer c), k⟩, none⟩ := by
    rw [Form.enter, hc]
  rw [Thread.start, solo_call h.define rfl rfl 6, solo_call h.transformer hcount (henter _) 3]
  rfl

namespace Session

variable {s : Session} {forms : List Node} {ds : List (String × Closure Node)}

/-- Definitions of transformers, one after another. -/
lemma evalForms_definitions (hw : s.workers = []) (hfuel : 9 ≤ s.fuel) (hs : s.store.Defines)
    (hforms : forms.map Node.definition? = ds.map some)
    (hnames : Form.define.name ∉ ds.map (·.1) ∧ Form.transformer.name ∉ ds.map (·.1))
    (last : Option Node) : s.QuietForms forms ∧
      ∃ v, s.evalForms last forms = (⟨s.store.defineAll ds, [], s.fuel⟩, .ok v) := by
  induction forms generalizing s ds last with
  | nil =>
    obtain rfl : ds = [] := by simpa using hforms.symm
    obtain ⟨store, workers, fuel⟩ := s
    obtain rfl : workers = [] := hw
    exact ⟨trivial, last, rfl⟩
  | cons n forms ih =>
    cases ds with
    | nil => simp at hforms
    | cons d ds =>
      obtain ⟨y, c⟩ := d
      obtain ⟨hc, htail⟩ := List.cons.inj hforms
      obtain ⟨⟨hx, hnames⟩, hx', hnames'⟩ :
          (Form.define.name ≠ y ∧ Form.define.name ∉ ds.map (·.1)) ∧
            Form.transformer.name ≠ y ∧ Form.transformer.name ∉ ds.map (·.1) := by
        simpa using hnames
      have hrun := evalIn_of_solo_le hw hfuel (solo_definition hc hs) rfl
      set t := (Node.transformer c).named y
      obtain ⟨hquiet, v, hv⟩ := ih (s := ⟨s.store.define top y t, [], s.fuel⟩) rfl hfuel
        (hs.define_of_ne hx.symm hx'.symm) htail ⟨hnames, hnames'⟩ (some t)
      refine ⟨⟨hrun.1, ?_⟩, v, ?_⟩
      · rw [hrun.2]
        exact hquiet
      · rw [evalForms_cons, hrun.2]
        exact hv

/-- A source that consists of definitions of transformers. -/
lemma evalSource_definitions {source label : String} (hw : s.workers = []) (hfuel : 9 ≤ s.fuel)
    (hs : s.store.Defines) (hread : (read source label).2 = [])
    (hforms : (read source label).1.map Node.definition? = ds.map some)
    (hnames : Form.define.name ∉ ds.map (·.1) ∧ Form.transformer.name ∉ ds.map (·.1)) :
    s.QuietSource source label ∧
      (s.evalSource source label).1 = ⟨s.store.defineAll ds, [], s.fuel⟩ := by
  obtain ⟨hquiet, v, hv⟩ := evalForms_definitions hw hfuel hs hforms hnames none
  refine ⟨(quietSource_of_no_errors hread).2 hquiet, ?_⟩
  rw [evalSource_of_no_errors hread, hv]
  rfl

/-! ### The prelude -/

/-- A top-level scope binds every primitive of the language. -/
lemma topLevel_get? (b : Builtin) : topLevel.get? b.name = some (.primitive (.builtin b)) := by
  have hmem : b ∈ Builtin.all := by
    rcases b with f | op | o
    · cases f <;> decide
    · cases op <;> decide
    · cases o <;> decide
  have hnodup : (Builtin.all.map Builtin.name).Nodup := by decide +kernel
  have hfind : ∀ bs : List Builtin, (bs.map Builtin.name).Nodup → b ∈ bs →
      get? b.name (bs.map fun b => (b.name, .primitive (.builtin b)))
        = some (.primitive (.builtin b)) := by
    intro bs
    induction bs with
    | nil => exact fun _ h => absurd h List.not_mem_nil
    | cons c bs ih =>
      intro hnodup hb
      obtain ⟨hc, hnodup⟩ := List.nodup_cons.1 hnodup
      rw [List.map_cons, ChannelLisp.get?]
      rcases List.mem_cons.1 hb with rfl | hb
      · rw [if_pos rfl]
      · rw [if_neg, ih hnodup hb]
        exact fun heq => hc (heq ▸ List.mem_map_of_mem hb)
  exact hfind Builtin.all hnodup hmem

lemma lookup?_builtin (sink : Sink) (b : Builtin) : (bare sink).store.heap.lookup? top b.name
    = some (.primitive (.builtin b)) := by
  have hget := topLevel_get? b
  simp [bare, Heap.lookup?, Heap.chain, Heap.chainFrom, Heap.get?, Heap.push, Heap.empty, top,
    topLevel, Scope.get?] at hget ⊢
  exact hget

lemma defines_bare (sink : Sink) : (bare sink).store.Defines :=
  ⟨lookup?_builtin sink (.form .define), lookup?_builtin sink (.form .transformer)⟩

lemma read_ofList (cs : List Char) (label : String) :
    read (String.ofList cs) label = Reader.ofTokens label (Scan.tokens cs) := by
  rw [read, tokenize, String.toList_ofList]

/-- The names that the prelude defines. -/
def preludeNames : List String := ["when", "unless", "defn", "defmacro"]

/-- The names with their transformers. What these are takes long to compute, and matters only to
those who read the prelude. -/
@[irreducible]
def preludeDefinitions : List (String × Closure Node) :=
  (read prelude "prelude").1.filterMap Node.definition?

set_option maxRecDepth 3000 in
/-- The prelude is read without errors, and is four definitions. -/
lemma read_prelude : (read prelude "prelude").2 = [] ∧
    (read prelude "prelude").1.map Node.definition? = preludeDefinitions.map some ∧
    preludeDefinitions.map (·.1) = preludeNames := by
  -- the text as a list of characters, so that these need not be decoded from it
  have htext : read prelude "prelude" = _ := read_ofList _ _
  unfold preludeDefinitions
  rw [htext]
  exact ⟨rfl, rfl, rfl⟩

lemma new_true (sink : Sink) : new sink true = ((bare sink).evalSource prelude "prelude").1 :=
  if_pos rfl

/-- Loading the prelude starts no thread and binds its names, and that is all. -/
lemma new_prelude (sink : Sink) : (bare sink).QuietSource prelude "prelude" ∧
    new sink true = ⟨(bare sink).store.defineAll preludeDefinitions, [], ampleFuel⟩ := by
  obtain ⟨hread, hforms, hnames⟩ := read_prelude
  have hfuel : 9 ≤ (bare sink).fuel := by
    have hpow : (9 : Nat) ≤ 10 ^ 15 := by norm_num
    exact hpow
  rw [new_true]
  exact evalSource_definitions rfl hfuel (defines_bare sink) hread hforms
    (by rw [hnames]; decide)

/-- The primitives of the language keep their names when the prelude is loaded. -/
lemma lookup?_new_true (sink : Sink) {b : Builtin} (hb : b.name ∉ preludeNames) :
    (new sink true).store.heap.lookup? top b.name = some (.primitive (.builtin b)) := by
  rw [← read_prelude.2.2] at hb
  rw [(new_prelude sink).2]
  exact (Store.lookup?_defineAll_of_notMem hb).trans (lookup?_builtin sink b)

end Session

end ChannelLisp
