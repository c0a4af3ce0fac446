import ChannelLisp.Operation
import Mathlib.Tactic

/-!
Arithmetic on integers never wraps around. Each step on words gives the exact result or none,
and an operation goes from left to right and ends with an error where a step gives none; so an
integer that an operation gives for integers is the one that arithmetic without bounds gives.
-/

namespace ChannelLisp

namespace Word

/-- An operation on words that gives the exact result or none. -/
def Exact (word : Int64 → Int64 → Option Int64) (exact : Int → Int → Int) : Prop :=
  ∀ a b w, word a b = some w → w.toInt = exact a.toInt b.toInt

/-- An operation on words that gives the exact result where that is a word, and none elsewhere. -/
def Fitted (word : Int64 → Int64 → Option Int64) (exact : Int → Int → Int) : Prop :=
  ∀ a b, word a b = ofInt? (exact a.toInt b.toInt)

lemma Fitted.exact {word : Int64 → Int64 → Option Int64} {exact : Int → Int → Int}
    (h : Fitted word exact) : Exact word exact :=
  fun a b _ hw => ofInt?_eq_some_iff.1 ((h a b).symm.trans hw)

lemma fitted_add? : Fitted add? (· + ·) := fun _ _ => rfl

lemma fitted_sub? : Fitted sub? (· - ·) := fun _ _ => rfl

lemma fitted_mul? : Fitted mul? (· * ·) := fun _ _ => rfl

lemma fitted_div? : Fitted div? Int.tdiv := fun _ _ => rfl

lemma exact_add? : Exact add? (· + ·) := fitted_add?.exact

lemma exact_sub? : Exact sub? (· - ·) := fitted_sub?.exact

lemma exact_mul? : Exact mul? (· * ·) := fitted_mul?.exact

lemma exact_div? : Exact div? Int.tdiv := fitted_div?.exact

/-- A remainder is exact, but refused where the quotient is no word. -/
lemma exact_mod? : Exact mod? (· % ·) := by
  intro a b w h
  obtain ⟨_, -, hw⟩ := Option.bind_eq_some_iff.1 h
  exact ofInt?_eq_some_iff.1 hw

end Word

namespace Operation

/-- From left to right, starting with the first of several integers or, for a single one, with
the unit. -/
def exactFold (f : Int → Int → Int) (unit : Int) : List Int → Int
  | n :: n' :: ns => (n' :: ns).foldl f n
  | ns => ns.foldl f unit

/-- What an operation gives on integers of any size, if it is arithmetic. -/
def unbounded? : Operation → List Int → Option Int
  | .add, ns => some (exactFold (· + ·) 0 ns)
  | .sub, ns => some (exactFold (· - ·) 0 ns)
  | .mul, ns => some (exactFold (· * ·) 1 ns)
  | .div, ns => some (exactFold Int.tdiv 1 ns)
  | .mod, [a, b] => some (a % b)
  | _, _ => none

variable {op : Operation} {ns : List Int64} {w : Int64}

lemma numbers_int (op : Operation) (ns : List Int64) :
    op.numbers (ns.map Node.int) = .ok (ns.map Number.int) := by
  induction ns with
  | nil => rfl
  | cons n ns ih => simp [numbers, ih, number, Node.int]

section Fold

variable {word : Int64 → Int64 → Option Int64} {double : Float → Float → Float}
  {exact : Int → Int → Int}

lemma foldFrom_exact (hword : Word.Exact word exact) (ns : List Int64) {a : Int64} {r : Number}
    (h : foldFrom (op.combine word double) (.int a) (ns.map .int) = .ok r) :
    ∃ w, r = .int w ∧ w.toInt = (ns.map Int64.toInt).foldl exact a.toInt := by
  induction ns generalizing a with
  | nil =>
    cases h
    exact ⟨a, rfl, rfl⟩
  | cons n ns ih =>
    rw [List.map_cons, foldFrom] at h
    cases hstep : word a n with
    | none => simp [combine, hstep] at h
    | some b =>
      simp only [combine, hstep] at h
      obtain ⟨w, hr, hw⟩ := ih h
      refine ⟨w, hr, ?_⟩
      rw [hw, hword a n b hstep, List.map_cons, List.foldl_cons]

lemma fold_exact (hword : Word.Exact word exact) {unit : Int64}
    (h : fold (op.combine word double) unit (ns.map .int) = .ok (.int w)) :
    w.toInt = exactFold exact unit.toInt (ns.map Int64.toInt) := by
  -- an integer among the results is one that the fold ended with
  have ended {r : Except EvalError Number} (hr : r.map Number.toNode = .ok (.int w)) :
      r = .ok (.int w) := by
    rcases r with e | n
    · cases hr
    · rcases n with n | x
      · cases hr
        rfl
      · cases hr
  have hfold := ended h
  rcases ns with _ | ⟨n, _ | ⟨n', ns⟩⟩
  · obtain ⟨v, hv, hw⟩ := foldFrom_exact hword [] hfold
    cases hv
    exact hw
  · obtain ⟨v, hv, hw⟩ := foldFrom_exact hword [n] hfold
    cases hv
    exact hw
  · obtain ⟨v, hv, hw⟩ := foldFrom_exact hword (n' :: ns) hfold
    cases hv
    exact hw

end Fold

lemma answer_eq_value {r : Except EvalError Node} {v : Node}
    (h : Answer.ofExcept r = .value v) : r = .ok v := by
  cases r with
  | ok u =>
    cases h
    rfl
  | error e => cases h

lemma divide_exact (h : divide (ns.map .int) = .ok (.int w)) :
    w.toInt = exactFold Int.tdiv 1 (ns.map Int64.toInt) := by
  unfold divide at h
  split at h
  · cases h
  · exact fold_exact Word.exact_div? h

lemma remainder_exact {a b : Int64} (h : remainder (.int a) (.int b) = .ok (.int w)) :
    w.toInt = a.toInt % b.toInt := by
  unfold remainder at h
  split at h
  · cases h
  · cases hmod : Word.mod? a b with
    | none => simp [combine, hmod, Except.map] at h
    | some r =>
      simp only [combine, hmod, Except.map, Number.toNode, Node.int] at h
      cases h
      exact Word.exact_mod? a b w hmod

/-- **No integer wraps around**: an integer that an operation gives for integers is the result
of exact arithmetic. -/
theorem run_exact (h : op.run (ns.map Node.int) = .value (.int w)) :
    op.unbounded? (ns.map Int64.toInt) = some w.toInt := by
  have folded {word : Int64 → Int64 → Option Int64} {double : Float → Float → Float}
      {exact : Int → Int → Int} {unit : Int64} (hword : Word.Exact word exact)
      (h : Answer.ofExcept (op.numbers (ns.map Node.int) >>= fold (op.combine word double) unit)
        = .value (.int w)) :
      some (exactFold exact unit.toInt (ns.map Int64.toInt)) = some w.toInt := by
    have hfold := answer_eq_value h
    rw [numbers_int] at hfold
    exact congrArg some (fold_exact hword hfold).symm
  cases op with
  | add => exact folded Word.exact_add? h
  | sub => exact folded Word.exact_sub? h
  | mul => exact folded Word.exact_mul? h
  | div =>
    cases ns with
    | nil => cases h
    | cons n ns =>
      have hdivide := answer_eq_value h
      rw [← List.map_cons, numbers_int] at hdivide
      exact congrArg some (divide_exact hdivide).symm
  | mod =>
    match ns with
    | [a, b] => exact congrArg some (remainder_exact (answer_eq_value h)).symm
    | [] | [_] | _ :: _ :: _ :: _ => cases h
  | less | greater | atMost | atLeast =>
    match ns with
    | [a, b] => cases h
    | [] | [_] | _ :: _ :: _ :: _ => cases h
  | equal =>
    match ns with
    | [a, b] =>
      have hequal : ((Node.int a).equals (Node.int b)).map Node.bool = .ok (.int w) := by
        apply answer_eq_value
        exact h
      cases hab : (Node.int a).equals (Node.int b) with
      | ok r =>
        rw [hab] at hequal
        cases hequal
      | error e =>
        rw [hab] at hequal
        cases hequal
    | [] | [_] | _ :: _ :: _ :: _ => cases h
  | cons =>
    match ns with
    | [a, b] => cases h
    | [] | [_] | _ :: _ :: _ :: _ => cases h
  | list => cases h
  | not | first | rest | isEmpty | kindOf =>
    match ns with
    | [a] => cases h
    | [] | _ :: _ :: _ => cases h

end Operation

end ChannelLisp
