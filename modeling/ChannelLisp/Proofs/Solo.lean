import ChannelLisp.Pool
import Mathlib.Tactic

/-!
A thread that runs alone: there is no other thread, and it starts none. Its run in a pool is
then its own steps, one after another, until it ends; at a channel it waits forever. What
every step keeps, the run keeps.
-/

namespace ChannelLisp

/-- The store and the thread after a number of steps; none if one of them starts a thread. -/
def solo : Nat → Store → Thread → Option (Store × Thread)
  | 0, σ, t => some (σ, t)
  | fuel + 1, σ, t =>
    match (step σ t).spawned? with
    | none => solo fuel (step σ t).store (step σ t).thread
    | some _ => none

variable {σ σ' : Store} {t t' : Thread} {fuel : Nat}

lemma solo_succ (h : (step σ t).spawned? = none) :
    solo (fuel + 1) σ t = solo fuel (step σ t).store (step σ t).thread := by
  rw [solo, h]

lemma solo_succ_eq_some (h : solo (fuel + 1) σ t = some (σ', t')) :
    (step σ t).spawned? = none
      ∧ solo fuel (step σ t).store (step σ t).thread = some (σ', t') := by
  rw [solo] at h
  split at h
  · rename_i hs
    exact ⟨hs, h⟩
  · cases h

lemma solo_of_not_canStep (h : t.canStep = false) (fuel : Nat) : solo fuel σ t = some (σ, t) := by
  induction fuel with
  | zero => rfl
  | succ fuel ih =>
    rw [solo, step_eq_self h]
    exact ih

lemma solo_add {n m : Nat} (h : solo n σ t = some (σ', t')) :
    solo (n + m) σ t = solo m σ' t' := by
  induction n generalizing σ t with
  | zero =>
    cases h
    rw [Nat.zero_add]
  | succ n ih =>
    obtain ⟨hs, hrest⟩ := solo_succ_eq_some h
    rw [Nat.succ_add, solo_succ hs]
    exact ih hrest

/-- A run that has reached its end, or a channel, stays there. -/
lemma solo_le {fuel' : Nat} (hle : fuel ≤ fuel') (h : solo fuel σ t = some (σ', t'))
    (ht : t'.canStep = false) : solo fuel' σ t = some (σ', t') := by
  induction fuel generalizing σ t fuel' with
  | zero =>
    cases h
    exact solo_of_not_canStep ht fuel'
  | succ fuel ih =>
    obtain ⟨hs, hrun⟩ := solo_succ_eq_some h
    obtain ⟨m, rfl⟩ : ∃ m, fuel' = m + 1 := ⟨fuel' - 1, by omega⟩
    rw [solo_succ hs]
    exact ih (by omega) hrun

/-- What every step keeps that starts no thread, holds at the end of a run. -/
lemma solo_invariant {P : Store → Thread → Prop}
    (hstep : ∀ σ t, P σ t → (step σ t).spawned? = none → P (step σ t).store (step σ t).thread)
    (h : solo fuel σ t = some (σ', t')) (hP : P σ t) : P σ' t' := by
  induction fuel generalizing σ t with
  | zero =>
    cases h
    exact hP
  | succ fuel ih =>
    obtain ⟨hs, hrun⟩ := solo_succ_eq_some h
    exact ih hrun (hstep σ t hP hs)

/-! ### In a pool -/

namespace Pool

lemma length_move (p : Pool) (m : Move) : p.threads.length ≤ (p.move m).threads.length := by
  cases m with
  | advance i =>
    simp only [move]
    split <;> simp
  | handOff i j =>
    simp only [move]
    repeat' split
    all_goals simp

/-- Threads that have ended stay in the pool. -/
lemma length_runUntil (stop : Pool → Bool) (fuel time : Nat) (p : Pool) :
    p.threads.length ≤ (p.runUntil stop fuel time).threads.length := by
  induction fuel generalizing time p with
  | zero => exact le_rfl
  | succ fuel ih =>
    rw [runUntil]
    split
    · exact le_rfl
    · split
      · exact le_rfl
      · exact le_trans (length_move p _) (ih _ _)

/-- A single thread does not meet itself at a channel. -/
lemma moveOf?_single (σ : Store) (t : Thread) :
    (⟨σ, [t]⟩ : Pool).moveOf? 0 = if t.canStep then some (.advance 0) else none := by
  obtain ⟨control, stack⟩ := t
  cases control <;> simp [moveOf?, Thread.canStep, Thread.receivesOn, Thread.sendsOn]

lemma next?_single (σ : Store) (t : Thread) (time : Nat) :
    (⟨σ, [t]⟩ : Pool).next? time = if t.canStep then some (.advance 0) else none := by
  simp [next?, Nat.mod_one, moveOf?_single]

lemma move_single (σ : Store) (t : Thread) : (⟨σ, [t]⟩ : Pool).move (.advance 0)
    = ⟨(step σ t).store, (step σ t).thread :: (step σ t).spawned?.toList⟩ := by
  simp [move]

lemma runUntil_single (time : Nat) :
    runUntil (fun q => q.answer?.isSome) fuel time ⟨σ, [t]⟩ = ⟨σ', [t']⟩
      ↔ solo fuel σ t = some (σ', t') := by
  induction fuel generalizing σ t time with
  | zero => simp [runUntil, solo]
  | succ fuel ih =>
    by_cases hc : t.canStep = true
    · have ha : (⟨σ, [t]⟩ : Pool).answer?.isSome = false := by
        cases h : t.answer? with
        | none => simp [answer?, h]
        | some a => simp [canStep_of_answer? h] at hc
      rw [runUntil, ha, next?_single, hc]
      simp only [Bool.false_eq_true, if_false, if_true]
      rw [move_single]
      cases hs : (step σ t).spawned? with
      | none => simpa [solo_succ hs] using ih (time + 1)
      | some u =>
        -- the thread that was started would be in the pool at the end
        have hlen := length_runUntil (fun q => q.answer?.isSome) fuel (time + 1)
          ⟨(step σ t).store, [(step σ t).thread, u]⟩
        simp only [solo, hs, reduceCtorEq, iff_false, Option.toList_some]
        intro h
        rw [h] at hlen
        simp at hlen
    · have hc : t.canStep = false := by simpa using hc
      rw [runUntil, next?_single, hc, solo_of_not_canStep hc]
      simp

/-- The run of a single thread in a pool, if it starts no other, is its run alone. -/
lemma run_single : run fuel ⟨σ, [t]⟩ = ⟨σ', [t']⟩ ↔ solo fuel σ t = some (σ', t') :=
  runUntil_single 0

end Pool

/-! ### Evaluation -/

/-- Evaluating a form in a scope ends with an answer and leaves a store behind. No thread is
started on the way: it would be in the pool beside the first. -/
def Completes (σ : Store) (e : ScopeId) (n : Node) (σ' : Store) (a : Answer) : Prop :=
  ∃ fuel t, Pool.run fuel ⟨σ, [.start e n]⟩ = ⟨σ', [t]⟩ ∧ t.answer? = some a

/-- Evaluating a form in a scope, as long as it goes on, starts no thread. -/
def Alone (σ : Store) (e : ScopeId) (n : Node) : Prop :=
  ∀ fuel, ∃ σ' t, Pool.run fuel ⟨σ, [.start e n]⟩ = ⟨σ', [t]⟩

lemma completes_iff_solo {e : ScopeId} {n : Node} {a : Answer} :
    Completes σ e n σ' a
      ↔ ∃ fuel t, solo fuel σ (.start e n) = some (σ', t) ∧ t.answer? = some a := by
  simp only [Completes, Pool.run_single]

/-- Evaluation has one result at most. -/
lemma Completes.unique {σ₁ σ₂ : Store} {e : ScopeId} {n : Node} {a₁ a₂ : Answer}
    (h₁ : Completes σ e n σ₁ a₁) (h₂ : Completes σ e n σ₂ a₂) : σ₁ = σ₂ ∧ a₁ = a₂ := by
  obtain ⟨fuel₁, t₁, hrun₁, ht₁⟩ := completes_iff_solo.1 h₁
  obtain ⟨fuel₂, t₂, hrun₂, ht₂⟩ := completes_iff_solo.1 h₂
  have hmax₁ := solo_le (le_max_left fuel₁ fuel₂) hrun₁ (canStep_of_answer? ht₁)
  have hmax₂ := solo_le (le_max_right fuel₁ fuel₂) hrun₂ (canStep_of_answer? ht₂)
  obtain ⟨rfl, rfl⟩ : σ₁ = σ₂ ∧ t₁ = t₂ := by
    rw [hmax₁] at hmax₂
    simpa using hmax₂
  exact ⟨rfl, Option.some.inj (ht₁.symm.trans ht₂)⟩

lemma alone_iff_solo {e : ScopeId} {n : Node} :
    Alone σ e n ↔ ∀ fuel, ∃ σ' t, solo fuel σ (.start e n) = some (σ', t) := by
  simp only [Alone, Pool.run_single]

end ChannelLisp
