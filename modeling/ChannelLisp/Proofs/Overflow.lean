import ChannelLisp.Proofs.Arithmetic
import ChannelLisp.Proofs.Composition
import Mathlib.Tactic

/-!
When arithmetic on integers fails. A fold over words gives the exact result as long as that of
every beginning of the list is a word, and otherwise an overflow, even where the result of the
whole list would be a word again. Division fails before it starts if a divisor is zero, and
overflows only where the least word is divided by `-1`. The remainder is never too large for a
word, but is refused at that same place.
-/

namespace ChannelLisp

namespace Word

/-- The integer is in the range of words. -/
def Fits (n : Int) : Prop := least ≤ n ∧ n ≤ greatest

instance (n : Int) : Decidable (Fits n) := inferInstanceAs (Decidable (_ ∧ _))

lemma fits_toInt (a : Int64) : Fits a.toInt := by
  have hlo := Int64.le_toInt a
  have hhi := Int64.toInt_lt a
  constructor
  · exact hlo
  · unfold greatest
    omega

lemma ofInt?_of_fits {n : Int} (h : Fits n) : ∃ w, ofInt? n = some w ∧ w.toInt = n :=
  ⟨Int64.ofInt n, if_pos h, ofInt?_eq_some_iff.1 (if_pos h)⟩

lemma ofInt?_of_not_fits {n : Int} (h : ¬ Fits n) : ofInt? n = none := if_neg h

lemma fits_neg_iff {a : Int} (ha : Fits a) : Fits (-a) ↔ a ≠ least := by
  unfold Fits least greatest at *
  omega

/-- Only one quotient of words is no word. -/
lemma fits_tdiv_iff {a b : Int} (ha : Fits a) : Fits (a.tdiv b) ↔ ¬ (a = least ∧ b = -1) := by
  by_cases hb : b = -1
  · rw [hb, Int.tdiv_neg, Int.tdiv_one, fits_neg_iff ha]
    simp
  · have hfits : Fits (a.tdiv b) := by
      rcases Nat.lt_or_ge b.natAbs 2 with hsmall | hlarge
      · obtain rfl | rfl : b = 0 ∨ b = 1 := by omega
        · rw [Int.tdiv_zero]
          decide
        · rwa [Int.tdiv_one]
      · -- half of a word, or less
        have hdiv : (a.tdiv b).natAbs = a.natAbs / b.natAbs := Int.natAbs_tdiv a b
        have hhalf : a.natAbs / b.natAbs ≤ a.natAbs / 2 := Nat.div_le_div_left hlarge two_pos
        unfold Fits least greatest at *
        omega
    simp [hfits, hb]

/-- Only one quotient is no word, whichever way it is rounded. -/
lemma fits_ediv_iff {a b : Int} (ha : Fits a) (hb : b ≠ 0) :
    Fits (a / b) ↔ ¬ (a = least ∧ b = -1) := by
  have habs : (a / b).natAbs ≤ a.natAbs := Int.natAbs_ediv_le_natAbs a b
  have hsum : b * (a / b) + a % b = a := Int.mul_ediv_add_emod a b
  have hlo : 0 ≤ a % b := Int.emod_nonneg a hb
  have hhi : a % b < |b| := Int.emod_lt_abs a hb
  unfold Fits least greatest at *
  constructor
  · rintro h ⟨rfl, rfl⟩
    exact absurd h (by decide)
  · intro h
    -- the only integer of that size that is no word
    by_cases hlarge : a / b = 0x8000000000000000
    · rw [hlarge] at hsum
      rcases abs_cases b with ⟨hb', -⟩ | ⟨hb', -⟩ <;> omega
    · omega

/-- A remainder is smaller than the divisor, so it is a word. -/
lemma fits_emod {a b : Int} (hb : Fits b) (h : b ≠ 0) : Fits (a % b) := by
  have hlo : 0 ≤ a % b := Int.emod_nonneg a h
  have hhi : a % b < |b| := Int.emod_lt_abs a h
  unfold Fits least greatest at *
  rcases abs_cases b with ⟨hb', -⟩ | ⟨hb', -⟩ <;> omega

end Word

open Word

/-- The node is the integer, read or computed. -/
def Node.IsInt (v : Node) (n : Int64) : Prop := ∃ l, v = .literal (.int n) l

/-- The answer is the integer, as a word, or the error, at the place. -/
def Answer.Gives (a : Answer) (l : Option Location) : Except Cause Int → Prop
  | .ok n => ∃ w : Int64, w.toInt = n ∧ a = .value (.int w)
  | .error c => a = .error ⟨c, l⟩

lemma Answer.Gives.withLocation {a : Answer} {r : Except Cause Int} (h : a.Gives none r)
    (l : Option Location) : (a.withLocation l).Gives l r := by
  cases r with
  | ok n =>
    obtain ⟨w, hw, rfl⟩ := h
    exact ⟨w, hw, rfl⟩
  | error c =>
    obtain rfl : a = .error ⟨c, none⟩ := h
    rfl

namespace Operation

/-! ### What arithmetic gives -/

/-- The value of a list of integers, if the values of its beginnings are all in range. -/
def inRange (op : Operation) (value : List Int → Int) (ns : List Int) : Except Cause Int :=
  if ∀ k < ns.length, Fits (value (ns.take (k + 1))) then .ok (value ns)
  else .error (.overflow op.name)

/-- The first integer less the sum of the others. -/
def difference : List Int → Int
  | [] => 0
  | n :: ns => n - ns.sum

/-- The first integer divided by the others in turn, each time rounded toward zero. -/
def quotient : List Int → Int
  | [] => 1
  | n :: ns => ns.foldl Int.tdiv n

/-- When an integer is divided by others in turn, the least word is divided by `-1`. -/
def DividesLeast (n : Int) (ns : List Int) : Prop :=
  ∃ k < ns.length, (ns.take k).foldl Int.tdiv n = least ∧ ns[k]? = some (-1)

instance (n : Int) (ns : List Int) : Decidable (DividesLeast n ns) :=
  inferInstanceAs (Decidable (∃ k < ns.length, _ ∧ ns[k]? = some (-1)))

/-- What an operation of arithmetic gives for integers. Subtraction takes a single integer from
zero, division divides one by it, and both need one at least. -/
def exactly? : Operation → List Int → Option (Except Cause Int)
  | .add, ns => some (inRange .add List.sum ns)
  | .mul, ns => some (inRange .mul List.prod ns)
  | .sub, [n] => some (if n = least then .error (.overflow sub.name) else .ok (-n))
  | .sub, n :: n' :: ns => some (inRange .sub difference (n :: n' :: ns))
  | .div, [n] => some (if n = 0 then .error .divisionByZero else .ok (Int.tdiv 1 n))
  | .div, n :: n' :: ns => some
    (if 0 ∈ n' :: ns then .error .divisionByZero
    else if DividesLeast n (n' :: ns) then .error (.overflow div.name)
    else .ok (quotient (n :: n' :: ns)))
  | _, _ => none

variable {ns : List Int64} {vs : List Node}

lemma numbers_of_isInt (op : Operation) (h : List.Forall₂ Node.IsInt vs ns) :
    op.numbers vs = .ok (ns.map .int) := by
  induction h with
  | nil => rfl
  | cons hv _ ih =>
    obtain ⟨l, rfl⟩ := hv
    rw [numbers, number, ih]
    rfl

section Fold

variable (op : Operation) (double : Float → Float → Float) {word : Int64 → Int64 → Option Int64}
  {f : Int → Int → Int}

/-- As long as the results fit, a fold over words is the fold over integers. -/
lemma foldFrom_of_fits (hword : Fitted word f) {a : Int64}
    (hfits : ∀ k < ns.length, Fits (((ns.map Int64.toInt).take (k + 1)).foldl f a.toInt)) :
    ∃ w : Int64, foldFrom (op.combine word double) (.int a) (ns.map .int) = .ok (.int w)
      ∧ w.toInt = (ns.map Int64.toInt).foldl f a.toInt := by
  induction ns generalizing a with
  | nil => exact ⟨a, rfl, rfl⟩
  | cons n ns ih =>
    have hfirst : Fits (f a.toInt n.toInt) := hfits 0 (Nat.succ_pos _)
    obtain ⟨b, hb, hexact⟩ := ofInt?_of_fits hfirst
    have hstep : op.combine word double (.int a) (.int n) = .ok (.int b) := by
      rw [combine, hword, hb]
    have hrest := ih (a := b) fun k hk => by
      rw [hexact]
      exact hfits (k + 1) (Nat.succ_lt_succ hk)
    rw [List.map_cons, foldFrom, hstep, List.map_cons, List.foldl_cons]
    rw [hexact] at hrest
    exact hrest

/-- Where a result does not fit, a fold over words ends with an overflow. -/
lemma foldFrom_of_not_fits (hword : Fitted word f) {a : Int64}
    (hfits : ¬ ∀ k < ns.length, Fits (((ns.map Int64.toInt).take (k + 1)).foldl f a.toInt)) :
    foldFrom (op.combine word double) (.int a) (ns.map .int)
      = .error ⟨.overflow op.name, none⟩ := by
  induction ns generalizing a with
  | nil => exact absurd (fun k hk => absurd hk (Nat.not_lt_zero k)) hfits
  | cons n ns ih =>
    rw [List.map_cons, foldFrom, combine, hword]
    by_cases hn : Fits (f a.toInt n.toInt)
    · obtain ⟨b, hb, hexact⟩ := ofInt?_of_fits hn
      rw [hb]
      refine ih fun hrest => hfits fun k hk => ?_
      cases k with
      | zero => exact hn
      | succ k =>
        have hk' := hrest k (Nat.lt_of_succ_lt_succ hk)
        rwa [hexact] at hk'
    · rw [ofInt?_of_not_fits hn]

/-- A fold that starts with the first integer of a list gives the value of the list, if `value`
is that fold over integers. -/
lemma foldFrom_gives {value : List Int → Int}
    (hword : Fitted word f)
    (hvalue : ∀ n ns, value (n :: ns) = ns.foldl f n) (n : Int64) (ns : List Int64) :
    (Answer.ofExcept ((foldFrom (op.combine word double) (.int n) (ns.map .int)).map
      Number.toNode)).Gives none (inRange op value ((n :: ns).map Int64.toInt)) := by
  have hiff : (∀ k < (n :: ns).length, Fits (value (((n :: ns).map Int64.toInt).take (k + 1))))
      ↔ ∀ k < ns.length, Fits (((ns.map Int64.toInt).take (k + 1)).foldl f n.toInt) := by
    simp only [List.map_cons, List.take_succ_cons, hvalue, List.length_cons]
    constructor
    · exact fun h k hk => h (k + 1) (Nat.succ_lt_succ hk)
    · intro h k hk
      cases k with
      | zero => exact fits_toInt n
      | succ k => exact h k (Nat.lt_of_succ_lt_succ hk)
  unfold inRange
  rw [List.length_map]
  split
  · rename_i hfits
    obtain ⟨w, hfold, hw⟩ := foldFrom_of_fits op double hword (hiff.1 hfits)
    rw [hfold]
    exact ⟨w, hw.trans (hvalue _ _).symm, rfl⟩
  · rename_i hfits
    rw [foldFrom_of_not_fits op double hword fun h => hfits (hiff.2 h)]
    rfl

/-- A single integer is taken for the second one, the first being the unit. -/
lemma fold_one_gives (hword : Fitted word f) (unit n : Int64) :
    (Answer.ofExcept (fold (op.combine word double) unit [.int n])).Gives none
      (if Fits (f unit.toInt n.toInt) then .ok (f unit.toInt n.toInt)
      else .error (.overflow op.name)) := by
  change (Answer.ofExcept ((foldFrom _ (.int unit) [.int n]).map Number.toNode)).Gives none _
  rw [foldFrom, combine, hword]
  by_cases hfits : Fits (f unit.toInt n.toInt)
  · obtain ⟨w, hw, hexact⟩ := ofInt?_of_fits hfits
    rw [hw, if_pos hfits]
    exact ⟨w, hexact, rfl⟩
  · rw [ofInt?_of_not_fits hfits, if_neg hfits]
    rfl

/-- The unit of a sum or a product makes no difference to a single integer. -/
lemma fold_gives {value : List Int → Int} (unit : Int64)
    (hword : Fitted word f)
    (hvalue : ∀ n ns, value (n :: ns) = ns.foldl f n) (hnil : value [] = unit.toInt)
    (hunit : ∀ n, f unit.toInt n = n) (ns : List Int64) :
    (Answer.ofExcept (fold (op.combine word double) unit (ns.map .int))).Gives none
      (inRange op value (ns.map Int64.toInt)) := by
  rcases ns with _ | ⟨n, _ | ⟨n', ns⟩⟩
  · have hempty : inRange op value [] = .ok (value []) :=
      if_pos fun k hk => absurd hk (Nat.not_lt_zero k)
    rw [List.map_nil, List.map_nil, hempty, hnil]
    exact ⟨unit, rfl, rfl⟩
  · have hsingle : inRange op value [n.toInt] = .ok n.toInt := by
      unfold inRange
      simp [hvalue, fits_toInt]
    have hone := fold_one_gives op double hword unit n
    rw [hunit, if_pos (fits_toInt n)] at hone
    rw [List.map_cons, List.map_nil, List.map_cons, List.map_nil, hsingle]
    exact hone
  · exact foldFrom_gives op double hword hvalue n (n' :: ns)

end Fold

lemma foldl_sub (n : Int) (ns : List Int) : ns.foldl (· - ·) n = difference (n :: ns) := by
  induction ns generalizing n with
  | nil => simp [difference]
  | cons n' ns ih =>
    rw [List.foldl_cons, ih, difference, difference, List.sum_cons]
    omega

lemma foldl_add (n : Int) (ns : List Int) : ns.foldl (· + ·) n = (n :: ns).sum := by
  rw [List.sum_eq_foldl, List.foldl_cons, Int.zero_add]

lemma foldl_mul (n : Int) (ns : List Int) : ns.foldl (· * ·) n = (n :: ns).prod := by
  rw [List.prod_eq_foldl, List.foldl_cons, Int.one_mul]

/-! ### Division -/

lemma any_isIntZero (ns : List Int64) :
    (ns.map Number.int).any Number.isIntZero = true ↔ 0 ∈ ns.map Int64.toInt := by
  induction ns with
  | nil => simp
  | cons n ns ih =>
    have hn : (Number.int n).isIntZero = true ↔ 0 = n.toInt := by
      rw [Number.isIntZero, beq_iff_eq, ← Int64.toInt_inj]
      exact eq_comm
    rw [List.map_cons, List.any_cons, Bool.or_eq_true, hn, ih, List.map_cons, List.mem_cons]

/-- Among the results of dividing in turn, the first that does not fit is the least word
divided by `-1`. -/
lemma fits_quotient_iff {n : Int} (hn : Fits n) (ns : List Int) :
    (∀ k < (n :: ns).length, Fits (quotient ((n :: ns).take (k + 1)))) ↔ ¬ DividesLeast n ns := by
  have hnext (k : Nat) (hk : k < ns.length) :
      (ns.take (k + 1)).foldl Int.tdiv n = ((ns.take k).foldl Int.tdiv n).tdiv ns[k] := by
    rw [List.take_succ_eq_append_getElem hk, List.foldl_append]
    rfl
  constructor
  · rintro h ⟨k, hk, hleast, hminus⟩
    have hfits : Fits ((ns.take (k + 1)).foldl Int.tdiv n) := h (k + 1) (Nat.succ_lt_succ hk)
    rw [List.getElem?_eq_getElem hk, Option.some_inj] at hminus
    rw [hnext k hk, hleast, hminus] at hfits
    exact absurd hfits (by decide)
  · intro h k
    change k < ns.length + 1 → Fits ((ns.take k).foldl Int.tdiv n)
    induction k with
    | zero => exact fun _ => hn
    | succ k ih =>
      intro hk
      have hk : k < ns.length := Nat.lt_of_succ_lt_succ hk
      rw [hnext k hk, fits_tdiv_iff (ih (Nat.lt_succ_of_lt hk))]
      rintro ⟨hleast, hminus⟩
      exact h ⟨k, hk, hleast, by rw [List.getElem?_eq_getElem hk, hminus]⟩

lemma inRange_quotient {n : Int} (hn : Fits n) (ns : List Int) :
    inRange .div quotient (n :: ns) = if DividesLeast n ns then .error (.overflow div.name)
      else .ok (quotient (n :: ns)) := by
  rw [inRange, if_congr (fits_quotient_iff hn ns) rfl rfl, ite_not]

/-- What division gives for several integers. -/
lemma divide_gives (n n' : Int64) (ns : List Int64) :
    (Answer.ofExcept (divide ((n :: n' :: ns).map .int))).Gives none
      (if 0 ∈ (n' :: ns).map Int64.toInt then .error .divisionByZero
      else if DividesLeast n.toInt ((n' :: ns).map Int64.toInt) then .error (.overflow div.name)
      else .ok (quotient ((n :: n' :: ns).map Int64.toInt))) := by
  have hzero : (divisors ((n :: n' :: ns).map .int)).any Number.isIntZero = true
      ↔ 0 ∈ (n' :: ns).map Int64.toInt := any_isIntZero (n' :: ns)
  have hrange : inRange .div quotient ((n :: n' :: ns).map Int64.toInt) = _ :=
    inRange_quotient (fits_toInt n) ((n' :: ns).map Int64.toInt)
  unfold divide
  simp only [hzero]
  split
  · rfl
  · exact hrange ▸ foldFrom_gives div _ fitted_div? (fun _ _ => rfl) n (n' :: ns)

/-- What division gives for a single integer. -/
lemma divide_one_gives (n : Int64) : (Answer.ofExcept (divide [.int n])).Gives none
    (if n.toInt = 0 then .error .divisionByZero else .ok (Int.tdiv 1 n.toInt)) := by
  have hzero : (divisors [.int n]).any Number.isIntZero = true ↔ n.toInt = 0 := by
    rw [eq_comm (b := 0), ← List.mem_singleton (a := (0 : Int))]
    exact any_isIntZero [n]
  have hfits : Fits (Int.tdiv 1 n.toInt) := by
    rw [fits_tdiv_iff (by decide)]
    exact fun h => absurd h.1 (by decide)
  have hone := fold_one_gives div (· / ·) fitted_div? 1 n
  rw [show (1 : Int64).toInt = 1 from rfl, if_pos hfits] at hone
  unfold divide
  simp only [hzero]
  split
  · rfl
  · exact hone

/-- What subtraction gives for a single integer. -/
lemma subtract_one_gives (n : Int64) :
    (Answer.ofExcept (fold (combine .sub Word.sub? (· - ·)) 0 [.int n])).Gives none
      (if n.toInt = least then .error (.overflow sub.name) else .ok (-n.toInt)) := by
  have hone := fold_one_gives sub (· - ·) fitted_sub? 0 n
  rw [show (0 : Int64).toInt = 0 from rfl, Int.zero_sub,
    if_congr (fits_neg_iff (fits_toInt n)) rfl rfl, ite_not] at hone
  exact hone

/-- On integers, arithmetic gives what it should. -/
lemma run_gives {op : Operation} {r : Except Cause Int} (hvs : List.Forall₂ Node.IsInt vs ns)
    (hr : op.exactly? (ns.map Int64.toInt) = some r) : (op.run vs).Gives none r := by
  have hnumbers (op : Operation) : op.numbers vs = .ok (ns.map .int) := numbers_of_isInt op hvs
  cases op with
  | add =>
    cases hr
    change (Answer.ofExcept (add.numbers vs >>= _)).Gives none _
    rw [hnumbers]
    exact fold_gives add _ 0 fitted_add? (fun n ns => (foldl_add n ns).symm) rfl Int.zero_add ns
  | mul =>
    cases hr
    change (Answer.ofExcept (mul.numbers vs >>= _)).Gives none _
    rw [hnumbers]
    exact fold_gives mul _ 1 fitted_mul? (fun n ns => (foldl_mul n ns).symm) rfl Int.one_mul ns
  | sub =>
    change (Answer.ofExcept (sub.numbers vs >>= _)).Gives none _
    rw [hnumbers]
    rcases ns with _ | ⟨n, _ | ⟨n', ns⟩⟩
    · cases hr
    · cases hr
      exact subtract_one_gives n
    · cases hr
      exact foldFrom_gives sub _ fitted_sub? (fun n ns => (foldl_sub n ns).symm) n (n' :: ns)
  | div =>
    cases hvs with
    | nil => cases hr
    | @cons v n vs ns hv hvs =>
      change (Answer.ofExcept (div.numbers (v :: vs) >>= _)).Gives none _
      rw [hnumbers]
      cases ns with
      | nil =>
        cases hr
        exact divide_one_gives n
      | cons n' ns =>
        cases hr
        exact divide_gives n n' ns
  | _ => cases hr

lemma accepts_of_exactly? {op : Operation} {ns : List Int} {r : Except Cause Int}
    (hr : op.exactly? ns = some r) : op.arity.accepts ns.length = true := by
  cases op with
  | add | mul => simp [Operation.arity, Arity.atLeast, Arity.accepts]
  | sub | div =>
    cases ns with
    | nil => cases hr
    | cons n ns => simp [Operation.arity, Arity.atLeast, Arity.accepts]
  | _ => cases hr

end Operation

open Operation

/-- **Integer arithmetic is exact or an error**. If the operands of `+`, `-`, `*` or `/` are all
evaluated, by whatever thread, and to integers, then the thread goes on with the exact result, or
with the error that tells why there is none; and a call whose head and operands start no thread
ends with it. -/
theorem arithmetic_exact_or_error {op : Operation} {ns : List Int64} {vs : List Node}
    {r : Except Cause Int} (hr : op.exactly? (ns.map Int64.toInt) = some r)
    (hvs : List.Forall₂ Node.IsInt vs ns) :
    (∀ σ e k, ∃ a : Answer, a.Gives none r ∧
      Store.operands σ e (.operation op) vs.reverse [] k = (σ, ⟨.ofAnswer a, k⟩)) ∧
    ∀ σ σ₀ σ' e head args l,
      Completes σ e head σ₀ (.value (.primitive (.builtin (.operation op)))) →
      CompletesAll e σ₀ args σ' vs →
      ∃ a : Answer, a.Gives l r ∧ Completes σ e (.call (head :: args) l) σ' a := by
  have hrun := run_gives hvs hr
  refine ⟨fun σ e k => ⟨op.run vs, hrun, operands_operation⟩,
    fun σ σ₀ σ' e head args l hhead hargs => ?_⟩
  have hcount : op.arity.accepts args.length = true := by
    rw [← hargs.length_eq, hvs.length_eq, ← List.length_map (f := Int64.toInt)]
    exact accepts_of_exactly? hr
  exact ⟨_, hrun.withLocation l, completes_operation hhead hcount hargs⟩

/-- A store in which names stand for operations of arithmetic. -/
def calculator : Store :=
  ⟨⟨#[⟨"first", none, [("+", .primitive (.builtin (.operation .add))),
    ("mod", .primitive (.builtin (.operation .mod)))]⟩]⟩, 0, .unlimited⟩

/-- The sum would fit in the end, but it does not on the way. -/
theorem arithmetic_exact_or_error_passing :
    ∃ σ a, Completes calculator 0 (.call [.symbol "+" none, .int Int64.maxValue, .int 1, .int (-1)]
      (some ⟨"a", 1⟩)) σ a ∧ a = .error ⟨.overflow "+", some ⟨"a", 1⟩⟩ := by
  have hr : Operation.add.exactly? ([Int64.maxValue, 1, -1].map Int64.toInt)
      = some (.error (.overflow "+")) := by
    refine congrArg some (if_neg fun h => ?_)
    exact absurd (h 1 (by decide)) (by decide)
  have hargs : CompletesAll 0 calculator [.int Int64.maxValue, .int 1, .int (-1)] calculator
      [.int Int64.maxValue, .int 1, .int (-1)] :=
    .cons ⟨1, _, rfl, rfl⟩ (.cons ⟨1, _, rfl, rfl⟩ (.cons ⟨1, _, rfl, rfl⟩ .nil))
  obtain ⟨-, hcalls⟩ := arithmetic_exact_or_error hr
    (.cons ⟨none, rfl⟩ (.cons ⟨none, rfl⟩ (.cons ⟨none, rfl⟩ .nil)))
  have hhead : Completes calculator 0 (.symbol "+" none) calculator
      (.value (.primitive (.builtin (.operation .add)))) := ⟨3, _, rfl, rfl⟩
  obtain ⟨a, ha, hcall⟩ := hcalls _ _ _ 0 _ _ (some ⟨"a", 1⟩) hhead hargs
  exact ⟨_, a, hcall, ha⟩

/-! ### Remainders -/

namespace Word

lemma mod?_eq_none_iff {a b : Int64} (hb : b.toInt ≠ 0) :
    mod? a b = none ↔ a.toInt = least ∧ b.toInt = -1 := by
  have hquotient := fits_ediv_iff (fits_toInt a) hb
  obtain ⟨m, hm, -⟩ := ofInt?_of_fits (fits_emod (fits_toInt b) hb : Fits (a.toInt % b.toInt))
  unfold mod?
  rw [hm]
  by_cases h : a.toInt = least ∧ b.toInt = -1
  · rw [ofInt?_of_not_fits fun hfits => hquotient.1 hfits h]
    simpa using h
  · obtain ⟨q, hq, -⟩ := ofInt?_of_fits (hquotient.2 h)
    rw [hq]
    simpa using h

/-- The remainder is the only integer that could be one. -/
lemma isRemainder_iff {a b x : Int} (hb : b ≠ 0) :
    (0 ≤ x ∧ x < |b| ∧ ∃ q, a = q * b + x) ↔ x = a % b := by
  constructor
  · rintro ⟨hlo, hhi, q, rfl⟩
    rw [Int.mul_add_emod_self_right, ← Int.emod_abs, Int.emod_eq_of_lt hlo hhi]
  · rintro rfl
    exact ⟨Int.emod_nonneg a hb, Int.emod_lt_abs a hb, a / b, (Int.ediv_mul_add_emod a b).symm⟩

end Word

lemma Operation.run_mod {a b : Int64} {v w : Node} (hv : v.IsInt a) (hw : w.IsInt b) :
    Operation.mod.run [v, w] = if b.toInt = 0 then .error ⟨.divisionByZero, none⟩
      else match Word.mod? a b with
        | some m => .value (.int m)
        | none => .error ⟨.overflow "mod", none⟩ := by
  obtain ⟨l, rfl⟩ := hv
  obtain ⟨l', rfl⟩ := hw
  change Answer.ofExcept (remainder (.int a) (.int b)) = _
  by_cases hb : b = 0
  · rw [hb]
    rfl
  · have hzero : b.toInt ≠ 0 := fun h => hb (Int64.toInt_inj.1 h)
    rw [if_neg hzero]
    unfold remainder
    split
    · rename_i heq
      exact absurd (Number.int.inj heq) hb
    · rw [combine]
      cases Word.mod? a b <;> rfl

/-- The answer is the only integer from zero up to the divisor, taken without its sign, that
differs from the dividend by a multiple of the divisor; or it tells why it is not. -/
structure Answer.IsRemainder (r : Answer) (l : Option Location) (a b : Int) : Prop where
  zero : r = .error ⟨.divisionByZero, l⟩ ↔ b = 0
  overflow : r = .error ⟨.overflow "mod", l⟩ ↔ a = least ∧ b = -1
  value : b ≠ 0 → ¬ (a = least ∧ b = -1) → ∃ m : Int64, r = .value (.int m) ∧
    ∀ x, (0 ≤ x ∧ x < |b| ∧ ∃ q, a = q * b + x) ↔ x = m.toInt

lemma Operation.isRemainder_run {a b : Int64} {v w : Node} (hv : v.IsInt a) (hw : w.IsInt b)
    (l : Option Location) :
    ((Operation.mod.run [v, w]).withLocation l).IsRemainder l a.toInt b.toInt := by
  rw [run_mod hv hw]
  by_cases hb : b.toInt = 0
  · rw [if_pos hb]
    constructor <;> simp [hb, Answer.withLocation, EvalError.withLocation]
  · rw [if_neg hb]
    cases hm : Word.mod? a b with
    | none =>
      have hleast := (mod?_eq_none_iff hb).1 hm
      constructor <;> simp [hleast, Answer.withLocation, EvalError.withLocation]
    | some m =>
      have hleast : ¬ (a.toInt = least ∧ b.toInt = -1) := fun h => by
        rw [(mod?_eq_none_iff hb).2 h] at hm
        cases hm
      have hexact : m.toInt = a.toInt % b.toInt := exact_mod? a b m hm
      refine ⟨by simp [Answer.withLocation, hb], by simp [Answer.withLocation, hleast], ?_⟩
      refine fun _ _ => ⟨m, rfl, fun x => ?_⟩
      rw [hexact]
      exact isRemainder_iff hb

/-- **The remainder of integers** is unique, and fails to be given if the divisor is zero, and
where the least word is divided by `-1`; so for every thread that has evaluated the two operands
of `mod`, and so for a call whose head and operands start no thread. -/
theorem remainder_unique_or_error {a b : Int64} {v w : Node} (hv : v.IsInt a) (hw : w.IsInt b) :
    (∀ σ e k, ∃ r : Answer, r.IsRemainder none a.toInt b.toInt ∧
      Store.operands σ e (.operation .mod) [w, v] [] k = (σ, ⟨.ofAnswer r, k⟩)) ∧
    ∀ σ σ₀ σ' e head args l,
      Completes σ e head σ₀ (.value (.primitive (.builtin (.operation .mod)))) →
      CompletesAll e σ₀ args σ' [v, w] →
      ∃ r : Answer, r.IsRemainder l a.toInt b.toInt ∧
        Completes σ e (.call (head :: args) l) σ' r := by
  refine ⟨fun σ e k => ⟨Operation.mod.run [v, w], ?_, rfl⟩,
    fun σ σ₀ σ' e head args l hhead hargs => ?_⟩
  · have hnone := isRemainder_run hv hw none
    rwa [Answer.withLocation_none] at hnone
  · have hcount : Operation.mod.arity.accepts args.length = true := by
      rw [← hargs.length_eq]
      rfl
    exact ⟨_, isRemainder_run hv hw l, completes_operation hhead hcount hargs⟩

theorem remainder_unique_or_error_negative :
    Completes calculator 0 (.call [.symbol "mod" none, .int (-7), .int (-2)] none) calculator
      (.value (.int 1)) := by
  have hhead : Completes calculator 0 (.symbol "mod" none) calculator
      (.value (.primitive (.builtin (.operation .mod)))) := ⟨3, _, rfl, rfl⟩
  have hargs : CompletesAll 0 calculator [.int (-7), .int (-2)] calculator
      [.int (-7), .int (-2)] := .cons ⟨1, _, rfl, rfl⟩ (.cons ⟨1, _, rfl, rfl⟩ .nil)
  obtain ⟨-, hcalls⟩ := remainder_unique_or_error
    (⟨none, rfl⟩ : Node.IsInt (.int (-7)) (-7)) (⟨none, rfl⟩ : Node.IsInt (.int (-2)) (-2))
  obtain ⟨r, hr, hcall⟩ := hcalls _ _ _ 0 _ _ none hhead hargs
  obtain ⟨m, rfl, hm⟩ := hr.value (by decide) (by decide)
  have hone : 1 = m.toInt := (hm 1).1 ⟨by decide, by decide, 4, by decide⟩
  obtain rfl : 1 = m := Int64.toInt_inj.1 hone
  exact hcall

/-- The remainder of the least word by `-1` would be zero, but is refused as an overflow. -/
theorem remainder_of_least_refused :
    Completes calculator 0
      (.call [.symbol "mod" none, .int Int64.minValue, .int (-1)] (some ⟨"test", 1⟩)) calculator
        (.error ⟨.overflow "mod", some ⟨"test", 1⟩⟩) ∧
    (-1 : Int64).toInt ≠ 0 ∧ (0 : Int) < |(-1 : Int64).toInt| ∧
    ∃ q : Int, Int64.minValue.toInt = q * (-1 : Int64).toInt + 0 :=
  ⟨⟨30, _, rfl, rfl⟩, by decide, by decide, 0x8000000000000000, by decide⟩

end ChannelLisp
