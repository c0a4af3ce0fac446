import ChannelLisp.Proofs.Printing
import Mathlib.Tactic

/-!
What the comparison of nodes decides. Two trees are compared at the positions they share, from
the left, a list before its items. The verdict falls at the first position that is refused,
because one side is live there, or where the two differ; only if there is none are they equal.
So it is the same from both sides, and without floats equality is identity up to locations.
-/

namespace ChannelLisp

/-- A live object is somewhere inside. -/
inductive Node.HasLive : Node → Prop where
  | here {n : Node} (h : n.isLive = true) : HasLive n
  | inside {items : List Node} {l : Option Location} {n : Node} (hn : n ∈ items)
      (h : HasLive n) : HasLive (.call items l)

namespace Node

/-- The two are not the same at their position, and neither is live. Lists differ at their own
position only in length. -/
def differ : Node → Node → Bool
  | .literal x _, .literal y _ => !x.eq y
  | .symbol s _, .symbol t _ => s != t
  | .call xs _, .call ys _ => xs.length != ys.length
  | a, b => !a.isLive && !b.isLive

end Node

mutual

/-- What two trees have at the positions they share, from the left, each list before its items.
Lists of different lengths are not entered. -/
def Node.positions (a b : Node) : List (Node × Node) :=
  match a, b with
  | .call xs _, .call ys _ =>
    (a, b) :: if xs.length = ys.length then positionsAll xs ys else []
  | _, _ => [(a, b)]

def positionsAll : List Node → List Node → List (Node × Node)
  | a :: as, b :: bs => a.positions b ++ positionsAll as bs
  | _, _ => []

end

/-- The verdict on some positions: that of the first one which is refused or differs. -/
def verdict : List (Node × Node) → Except EvalError Bool
  | [] => .ok true
  | (a, b) :: ps =>
    match a.refuse? b with
    | some e => .error e
    | none => if a.differ b then .ok false else verdict ps

variable {a b : Node} {ps : List (Node × Node)}

lemma Node.refuse?_eq_none_iff : a.refuse? b = none ↔ a.isLive = false ∧ b.isLive = false := by
  unfold Node.refuse?
  split_ifs with ha hb
  · simp [ha]
  · simp [hb]
  · simp [ha, hb]

lemma Node.refuse?_call (xs ys : List Node) (l k : Option Location) :
    (Node.call xs l).refuse? (.call ys k) = none :=
  Node.refuse?_eq_none_iff.2 ⟨rfl, rfl⟩

lemma verdict_append (ps qs : List (Node × Node)) : verdict (ps ++ qs) =
    (verdict ps).bind fun same => if same then verdict qs else .ok false := by
  induction ps with
  | nil => rfl
  | cons p ps ih =>
    obtain ⟨a, b⟩ := p
    rw [List.cons_append, verdict, verdict]
    cases a.refuse? b with
    | some e => rfl
    | none =>
      cases a.differ b with
      | true => rfl
      | false => exact ih

lemma equalsAll_eq_verdict {as : List Node}
    (h : ∀ a ∈ as, ∀ b : Node, a.equals b = verdict (a.positions b)) (bs : List Node) :
    equalsAll as bs = verdict (positionsAll as bs) := by
  induction as generalizing bs with
  | nil =>
    rw [equalsAll.eq_def, positionsAll.eq_def]
    rfl
  | cons a as ih =>
    cases bs with
    | nil =>
      rw [equalsAll.eq_def, positionsAll.eq_def]
      rfl
    | cons b bs =>
      have hrest := ih (fun x hx => h x (List.mem_cons_of_mem a hx)) bs
      rw [equalsAll, positionsAll, verdict_append, h a List.mem_cons_self b, hrest]
      rcases verdict (a.positions b) with e | (_ | _) <;> rfl

/-- Comparison gives the verdict on the shared positions. -/
lemma Node.equals_eq_verdict (a b : Node) : a.equals b = verdict (a.positions b) := by
  induction a using Node.induction generalizing b with
  | call xs l ih =>
    cases b with
    | call ys k =>
      rw [Node.equals.eq_def, Node.positions.eq_def]
      by_cases hlen : xs.length = ys.length
      · simpa [verdict, Node.refuse?_call, Node.differ, hlen] using equalsAll_eq_verdict ih ys
      · simp [verdict, Node.refuse?_call, Node.differ, hlen]
    | _ =>
      rw [Node.equals.eq_def, Node.positions.eq_def]
      simp [verdict, Node.refuse?, Node.differ, Node.isLive]
  | literal v l =>
    rw [Node.equals.eq_def, Node.positions.eq_def]
    cases b with
    | literal v' k =>
      cases hv : v.eq v' <;> simp [verdict, Node.refuse?, Node.differ, Node.isLive, hv]
    | _ => simp [verdict, Node.refuse?, Node.differ, Node.isLive]
  | symbol x l =>
    rw [Node.equals.eq_def, Node.positions.eq_def]
    cases b with
    | symbol y k =>
      by_cases hx : x = y <;> simp [verdict, Node.refuse?, Node.differ, Node.isLive, hx]
    | _ => simp [verdict, Node.refuse?, Node.differ, Node.isLive]
  | _ =>
    rw [Node.equals.eq_def, Node.positions.eq_def]
    simp [verdict, Node.refuse?, Node.isLive]

/-! ### What the verdict says -/

/-- The verdict is a refusal if a live object is met before any difference. -/
lemma verdict_eq_error_iff : (∃ e, verdict ps = .error e) ↔ ∃ before a b after,
    ps = before ++ (a, b) :: after ∧ (a.isLive = true ∨ b.isLive = true) ∧
      ∀ p ∈ before, p.1.differ p.2 = false := by
  induction ps with
  | nil => simp [verdict]
  | cons p ps ih =>
    obtain ⟨a, b⟩ := p
    rw [verdict]
    rcases hr : a.refuse? b with _ | e
    · obtain ⟨ha, hb⟩ := Node.refuse?_eq_none_iff.1 hr
      cases hd : a.differ b with
      | true =>
        simp only [if_true, reduceCtorEq, exists_false, false_iff]
        rintro ⟨_ | ⟨p, before⟩, c, d, after, hps, hlive, hsame⟩
        · obtain ⟨⟨rfl, rfl⟩, -⟩ := by simpa using hps
          simp [ha, hb] at hlive
        · obtain ⟨rfl, -⟩ := List.cons.inj hps
          simp [hd] at hsame
      | false =>
        simp only [Bool.false_eq_true, if_false, ih]
        constructor
        · rintro ⟨before, c, d, after, rfl, hlive, hsame⟩
          exact ⟨(a, b) :: before, c, d, after, rfl, hlive, List.forall_mem_cons.2 ⟨hd, hsame⟩⟩
        · rintro ⟨_ | ⟨p, before⟩, c, d, after, hps, hlive, hsame⟩
          · obtain ⟨⟨rfl, rfl⟩, -⟩ := by simpa using hps
            simp [ha, hb] at hlive
          · obtain ⟨-, rfl⟩ := List.cons.inj hps
            exact ⟨before, c, d, after, rfl, hlive, (List.forall_mem_cons.1 hsame).2⟩
    · have hlive : a.isLive = true ∨ b.isLive = true := by
        by_contra hnot
        rw [not_or, Bool.not_eq_true, Bool.not_eq_true, ← Node.refuse?_eq_none_iff, hr] at hnot
        cases hnot
      exact ⟨fun _ => ⟨[], a, b, ps, rfl, hlive, by simp⟩, fun _ => ⟨e, rfl⟩⟩

/-! ### Both ways round -/

lemma compare_then_symm {e e' : Int} {m m' : Nat}
    (h : (compare e e').then (compare m m') = .eq) :
    (compare e' e).then (compare m' m) = .eq := by
  rw [Ordering.then_eq_eq, compare_eq_iff_eq, compare_eq_iff_eq] at h ⊢
  exact ⟨h.1.symm, h.2.symm⟩

lemma compare_symm {x y : Float.Model.UnpackedFloat} (h : x.compare y = some .eq) :
    y.compare x = some .eq := by
  -- unless both are finite and of one sign, the outcome shows without their digits
  rcases x with ⟨_ | _⟩ | _ | _ | ⟨_ | _, m, e, hm⟩ <;>
    rcases y with ⟨_ | _⟩ | _ | _ | ⟨_ | _, m', e', hm'⟩ <;> try first | rfl | cases h
  case finite.negative.finite.negative =>
    have hswap := Ordering.swap_eq_eq.1 (Option.some.inj h)
    exact congrArg some (Ordering.swap_eq_eq.2 (compare_then_symm hswap))
  case finite.positive.finite.positive =>
    exact congrArg some (compare_then_symm (Option.some.inj h))

/-- Equality of doubles is symmetric, although a double that is no number is not equal to
itself. -/
lemma double_beq_comm (x y : Float) : (x == y) = (y == x) := by
  have hbeq (x y : Float) : (x == y) = true ↔
      x.toModel.unpack.compare y.toModel.unpack = some .eq := by
    change (x.toModel.unpack.compare y.toModel.unpack == some .eq) = true ↔ _
    exact beq_iff_eq
  rw [Bool.eq_iff_iff, hbeq, hbeq]
  exact ⟨compare_symm, compare_symm⟩

lemma Literal.eq_comm (x y : Literal) : x.eq y = y.eq x := by
  cases x <;> cases y <;> first | rfl | exact Bool.beq_comm | exact double_beq_comm _ _

lemma Node.differ_comm (a b : Node) : a.differ b = b.differ a := by
  cases a <;> cases b <;>
    simp [Node.differ, Node.isLive, Literal.eq_comm, bne_comm]

lemma Node.refuse?_comm (a b : Node) : a.refuse? b = none ↔ b.refuse? a = none := by
  rw [Node.refuse?_eq_none_iff, Node.refuse?_eq_none_iff, and_comm]

lemma positionsAll_swap {as : List Node}
    (h : ∀ a ∈ as, ∀ b : Node, b.positions a = (a.positions b).map Prod.swap) (bs : List Node) :
    positionsAll bs as = (positionsAll as bs).map Prod.swap := by
  induction as generalizing bs with
  | nil => rw [positionsAll.eq_def, positionsAll.eq_def]; cases bs <;> rfl
  | cons a as ih =>
    cases bs with
    | nil => rw [positionsAll.eq_def, positionsAll.eq_def]; rfl
    | cons b bs =>
      have hrest := ih (fun x hx => h x (List.mem_cons_of_mem a hx)) bs
      rw [positionsAll, positionsAll, List.map_append, h a List.mem_cons_self b, hrest]

lemma Node.positions_swap (a b : Node) : b.positions a = (a.positions b).map Prod.swap := by
  induction a using Node.induction generalizing b with
  | call xs l ih =>
    rw [Node.positions.eq_def, Node.positions.eq_def]
    cases b with
    | call ys k =>
      by_cases hlen : xs.length = ys.length
      · simpa [hlen] using positionsAll_swap ih ys
      · simp [hlen, Ne.symm hlen]
    | _ => rfl
  | _ =>
    rw [Node.positions.eq_def, Node.positions.eq_def]
    cases b <;> rfl

/-- Seen from the other side, the verdict is the same, or else a refusal as well. -/
lemma verdict_swap (ps : List (Node × Node)) :
    (verdict (ps.map Prod.swap)).toOption = (verdict ps).toOption := by
  induction ps with
  | nil => rfl
  | cons p ps ih =>
    obtain ⟨a, b⟩ := p
    rw [List.map_cons, Prod.swap_prod_mk, verdict, verdict, Node.differ_comm b a]
    rcases hab : a.refuse? b with _ | e
    · rw [(Node.refuse?_comm a b).1 hab]
      cases a.differ b with
      | true => rfl
      | false => exact ih
    · rcases hba : b.refuse? a with _ | e'
      · rw [(Node.refuse?_comm b a).1 hba] at hab
        cases hab
      · rfl

/-! ### Without floats -/

namespace Node

variable {items : List Node} {l : Option Location}

@[simp] lemma hasLive_call : (call items l).HasLive ↔ ∃ n ∈ items, n.HasLive := by
  constructor
  · rintro (h | ⟨hn, h⟩)
    · cases h
    · exact ⟨_, hn, h⟩
  · rintro ⟨n, hn, h⟩
    exact .inside hn h

@[simp] lemma not_hasLive_literal (v : Literal) : ¬ (literal v l).HasLive := by
  rintro ⟨⟨⟩⟩

@[simp] lemma not_hasLive_symbol (x : String) : ¬ (symbol x l).HasLive := by
  rintro ⟨⟨⟩⟩

@[simp] lemma hasFloat_literal {v : Literal} : (literal v l).HasFloat ↔ ∃ x, v = .float x := by
  constructor
  · rintro ⟨⟩
    exact ⟨_, rfl⟩
  · rintro ⟨x, rfl⟩
    exact .here

@[simp] lemma hasFloat_call : (call items l).HasFloat ↔ ∃ n ∈ items, n.HasFloat := by
  constructor
  · rintro (_ | ⟨hn, h⟩)
    exact ⟨_, hn, h⟩
  · rintro ⟨n, hn, h⟩
    exact .inside hn h

end Node

/-- Literals other than floats are equal only if they are the same. -/
lemma Literal.eq_iff {x y : Literal} (hx : ∀ z, x ≠ .float z) (hy : ∀ z, y ≠ .float z) :
    x.eq y = true ↔ x = y := by
  cases x <;> cases y <;> simp_all [Literal.eq]

lemma equalsAll_eq_true_iff {as bs : List Node} (hlen : as.length = bs.length) :
    equalsAll as bs = .ok true ↔ List.Forall₂ (fun a b => a.equals b = .ok true) as bs := by
  induction as generalizing bs with
  | nil =>
    obtain rfl : bs = [] := List.length_eq_zero_iff.1 hlen.symm
    simp [equalsAll]
  | cons a as ih =>
    rcases bs with _ | ⟨b, bs⟩
    · cases hlen
    · rw [List.length_cons, List.length_cons, Nat.add_right_cancel_iff] at hlen
      rw [equalsAll, List.forall₂_cons, ← ih hlen]
      rcases a.equals b with e | (_ | _) <;> simp

namespace Node

/-- Lists are equal if they are so item by item. -/
lemma equals_call_iff {xs ys : List Node} {l k : Option Location} :
    (call xs l).equals (call ys k) = .ok true ↔
      List.Forall₂ (fun a b => a.equals b = .ok true) xs ys := by
  rw [equals.eq_def, refuse?_call]
  by_cases hlen : xs.length = ys.length
  · simpa [hlen] using equalsAll_eq_true_iff hlen
  · simp only [hlen, if_false, Except.ok.injEq, Bool.false_eq_true, false_iff]
    exact fun h => hlen h.length_eq

/-- Nothing with a live object inside is equal to anything. -/
lemma not_hasLive_of_equals (h : a.equals b = .ok true) : ¬ a.HasLive := by
  induction a using Node.induction generalizing b with
  | call xs l ih =>
    cases b with
    | call ys k =>
      have hall := (List.forall₂_and_left xs ys).2 ⟨ih, equals_call_iff.1 h⟩
      have hnone : List.Forall₂ (fun x _ => ¬ x.HasLive ∧ True) xs ys :=
        hall.imp fun x y hxy => ⟨hxy.1 hxy.2, trivial⟩
      simpa using ((List.forall₂_and_left xs ys).1 hnone).1
    | _ => simp [equals.eq_def, refuse?, isLive] at h
  | literal v l => exact not_hasLive_literal v
  | symbol x l => exact not_hasLive_symbol x
  | _ => simp [equals.eq_def, refuse?, isLive] at h

lemma forall₂_equals_iff {xs ys : List Node} (hx : ∀ x ∈ xs, ¬ x.HasFloat)
    (hy : ∀ y ∈ ys, ¬ y.HasFloat)
    (h : ∀ x ∈ xs, ∀ y : Node, ¬ x.HasFloat → ¬ y.HasFloat →
      (x.equals y = .ok true ↔ ¬ x.HasLive ∧ ¬ y.HasLive ∧ x.bare = y.bare)) :
    List.Forall₂ (fun a b => a.equals b = .ok true) xs ys ↔
      (∀ x ∈ xs, ¬ x.HasLive) ∧ (∀ y ∈ ys, ¬ y.HasLive) ∧ xs.map bare = ys.map bare := by
  induction xs generalizing ys with
  | nil => cases ys <;> simp
  | cons x xs ih =>
    rcases ys with _ | ⟨y, ys⟩
    · simp
    rw [List.forall_mem_cons] at hx hy
    rw [List.forall₂_cons, h x List.mem_cons_self y hx.1 hy.1,
      ih hx.2 hy.2 fun z hz => h z (List.mem_cons_of_mem x hz)]
    simp only [List.forall_mem_cons, List.map_cons, List.cons.injEq]
    tauto

/-- Without floats, equal nodes are the same up to locations. -/
lemma equals_eq_true_iff (ha : ¬ a.HasFloat) (hb : ¬ b.HasFloat) :
    a.equals b = .ok true ↔ ¬ a.HasLive ∧ ¬ b.HasLive ∧ a.bare = b.bare := by
  induction a using Node.induction generalizing b with
  | call xs l ih =>
    cases b with
    | call ys k =>
      simp only [hasFloat_call, not_exists, not_and] at ha hb
      rw [equals_call_iff, forall₂_equals_iff ha hb fun x hx y hxf hyf => ih x hx hxf hyf]
      simp
    | _ => simp [equals.eq_def, refuse?, isLive]
  | literal v l =>
    cases b with
    | literal v' k =>
      simp only [hasFloat_literal, not_exists] at ha hb
      simp [equals.eq_def, refuse?, isLive, Literal.eq_iff ha hb]
    | _ => simp [equals.eq_def, refuse?, isLive]
  | symbol x l => cases b <;> simp [equals.eq_def, refuse?, isLive]
  | _ =>
    refine iff_of_false ?_ fun h => h.1 (.here rfl)
    simp [equals.eq_def, refuse?, isLive]

end Node

/-- **Equality is structural and the same from both sides.** From either side the answer is the
same, or there is an error; nothing with a live object inside is equal to anything. Without
floats, nodes are equal if they are free of live objects and the same up to locations. There is
an error if a live object is met before any difference. -/
theorem equals_structural (a b : Node) :
    ((∃ same, a.equals b = .ok same ∧ b.equals a = .ok same) ∨
      ∃ e e', a.equals b = .error e ∧ b.equals a = .error e') ∧
    (a.HasLive ∨ b.HasLive → a.equals b ≠ .ok true ∧ b.equals a ≠ .ok true) ∧
    (¬ a.HasFloat → ¬ b.HasFloat →
      (a.equals b = .ok true ↔ ¬ a.HasLive ∧ ¬ b.HasLive ∧ a.bare = b.bare)) ∧
    ((∃ e, a.equals b = .error e) ↔ ∃ before x y after,
      a.positions b = before ++ (x, y) :: after ∧ (x.isLive = true ∨ y.isLive = true) ∧
        ∀ p ∈ before, p.1.differ p.2 = false) := by
  have hboth : (b.equals a).toOption = (a.equals b).toOption := by
    rw [b.equals_eq_verdict, a.equals_eq_verdict, a.positions_swap, verdict_swap]
  have hsides : (∃ same, a.equals b = .ok same ∧ b.equals a = .ok same) ∨
      ∃ e e', a.equals b = .error e ∧ b.equals a = .error e' := by
    cases hab : a.equals b <;> cases hba : b.equals a <;>
      simp_all [Except.toOption]
  refine ⟨hsides, fun hlive => ?_, fun ha hb => Node.equals_eq_true_iff ha hb, ?_⟩
  · have hsame : a.equals b = .ok true ↔ b.equals a = .ok true := by
      rcases hsides with ⟨same, hab, hba⟩ | ⟨e, e', hab, hba⟩ <;> simp [hab, hba]
    have hne : a.equals b ≠ .ok true := by
      intro h
      rcases hlive with ha | hb
      · exact Node.not_hasLive_of_equals h ha
      · exact Node.not_hasLive_of_equals (hsame.1 h) hb
    exact ⟨hne, fun h => hne (hsame.2 h)⟩
  · rw [a.equals_eq_verdict]
    exact verdict_eq_error_iff

end ChannelLisp
