import ChannelLisp.Proofs.Soundness
import Mathlib.Tactic

/-!
Channels under every schedule. What was sent and what was received is observed from outside: a
thread that stood at a channel goes on with a value. A value passes from a thread that sends
to one that receives on the same channel, and both go on in the same move. A thread could also
be cut off, with an error, when nothing refers to its channel any more; but a thread that
waits at a channel refers to it.
-/

namespace ChannelLisp

/-- A completed sending: the channel, the value, and the value that the sender goes on with. -/
structure Sent where
  channel : ChannelId
  value : Node
  given : Node

/-- A completed receiving: the channel, and the value that the receiver goes on with. -/
structure Received where
  channel : ChannelId
  value : Node

/-- The thread sent, and now has gone on. -/
def Thread.sent? (t t' : Thread) : Option Sent :=
  match t.control, t'.control with
  | .send c v, .value w => some ⟨c, v, w⟩
  | _, _ => none

/-- The thread received, and now has gone on. -/
def Thread.received? (t t' : Thread) : Option Received :=
  match t.control, t'.control with
  | .receive c, .value w => some ⟨c, w⟩
  | _, _ => none

/-- The thread waits at a channel. -/
def Thread.IsAt (t : Thread) (c : ChannelId) : Prop :=
  (∃ v, t.control = .send c v) ∨ t.control = .receive c

/-- One channel may not occur. -/
def Policy.without (c : ChannelId) : Policy := { any True with channel := (· ≠ c) }

namespace Pool

/-- The sendings that complete from one pool to the next. Threads keep their index. -/
def sent (p p' : Pool) : List Sent :=
  (p.threads.zip p'.threads).filterMap fun q => q.1.sent? q.2

def received (p p' : Pool) : List Received :=
  (p.threads.zip p'.threads).filterMap fun q => q.1.received? q.2

/-- Neither a scope nor a thread that has not ended refers to the channel. -/
structure Abandoned (p : Pool) (c : ChannelId) : Prop where
  heap : p.store.heap.Obeys (.without c)
  threads : ∀ t ∈ p.threads, t.answer? = none → t.Obeys (.without c)

/-- What happens next, by any schedule. -/
inductive Next (p : Pool) : Pool → Prop
  | move {m : Move} : p.canMove m = true → Next p (p.move m)
  /-- Both ends of a channel go away with the last reference to it. -/
  | cutOff {i : Nat} {t : Thread} {c : ChannelId} :
      p.threads[i]? = some t → t.IsAt c → p.Abandoned c →
        Next p ⟨p.store, p.threads.set i (.raise ⟨.disconnected c, none⟩ t.stack)⟩

/-- The states in the life of sessions, with the sendings and the receivings that have completed
so far, in order. Any form may be started in any scope and beside any threads. -/
inductive Logged : Pool → List Sent → List Received → Prop
  | bare (sink : Sink) : Logged ⟨(Session.bare sink).store, []⟩ [] []
  | submit {p : Pool} {ss : List Sent} {rs : List Received} (e : ScopeId) (n : Node) :
      Logged p ss rs → Logged ⟨p.store, .start e n :: p.threads⟩ ss rs
  | addPrimitive {p : Pool} {ss : List Sent} {rs : List Received} (h : HostPrimitive) :
      Logged p ss rs →
        Logged ⟨p.store.define Session.top h.name (.primitive (.host h)), p.threads⟩ ss rs
  | next {p p' : Pool} {ss : List Sent} {rs : List Received} :
      Logged p ss rs → p.Next p' → Logged p' (ss ++ p.sent p') (rs ++ p.received p')
  | report {p : Pool} {ss : List Sent} {rs : List Received} (sink : Sink) :
      Logged p ss rs → Logged ⟨{ p.store with sink := sink }, p.threads⟩ ss rs
  | drop {p : Pool} {ss : List Sent} {rs : List Received} {ts : List Thread} :
      Logged p ss rs → ts ⊆ p.threads → Logged ⟨p.store, ts⟩ ss rs

end Pool

variable {p p' : Pool} {t t' : Thread} {c : ChannelId}

/-! ### One thread -/

/-- A thread that waits refers to its channel. -/
lemma Thread.IsAt.not_obeys (h : t.IsAt c) : ¬ t.Obeys (.without c) := by
  intro ht
  have hcontrol := ht.control
  rcases h with ⟨v, hsend⟩ | hreceive
  · rw [hsend] at hcontrol
    exact hcontrol.1 rfl
  · rw [hreceive] at hcontrol
    exact hcontrol rfl

lemma Thread.IsAt.answer? (h : t.IsAt c) : t.answer? = none := by
  obtain ⟨control, stack⟩ := t
  rcases h with ⟨v, hsend⟩ | hreceive
  · cases hsend
    rfl
  · cases hreceive
    rfl

/-- A thread that waits is not cut off. -/
lemma Pool.not_abandoned {i : Nat} (ht : p.threads[i]? = some t) (h : t.IsAt c) :
    ¬ p.Abandoned c :=
  fun ha => h.not_obeys (ha.threads t (List.mem_of_getElem? ht) h.answer?)

lemma Thread.sent?_self (t : Thread) : t.sent? t = none := by
  obtain ⟨control, stack⟩ := t
  cases control <;> rfl

lemma Thread.received?_self (t : Thread) : t.received? t = none := by
  obtain ⟨control, stack⟩ := t
  cases control <;> rfl

/-- A thread with a step of its own does not wait. -/
lemma Thread.completes_of_canStep (h : t.canStep = true) (t' : Thread) :
    t.sent? t' = none ∧ t.received? t' = none := by
  obtain ⟨control, stack⟩ := t
  cases control <;> first | exact ⟨rfl, rfl⟩ | cases h

/-! ### Completions, thread by thread -/

section Lists

variable {α β : Type} {f : α → Option β} {l : List α} {i : Nat} {x : β}

lemma filterMap_eq_nil (h : ∀ (k : Nat) (a : α), l[k]? = some a → f a = none) :
    l.filterMap f = [] := by
  refine List.filterMap_eq_nil_iff.2 fun a ha => ?_
  obtain ⟨k, hk⟩ := List.getElem?_of_mem ha
  exact h k a hk

/-- Something comes from one place only. -/
lemma filterMap_eq_singleton {a : α} (ha : l[i]? = some a) (hx : f a = some x)
    (h : ∀ (k : Nat) (b : α), k ≠ i → l[k]? = some b → f b = none) :
    l.filterMap f = [x] := by
  induction l generalizing i with
  | nil => cases ha
  | cons b l ih =>
    cases i with
    | zero =>
      obtain rfl : b = a := Option.some.inj ha
      have hrest : l.filterMap f = [] :=
        filterMap_eq_nil fun k d hk => h (k + 1) d (Nat.succ_ne_zero k) hk
      rw [List.filterMap_cons_some hx, hrest]
    | succ i =>
      have hb : f b = none := h 0 b (Nat.succ_ne_zero i).symm rfl
      rw [List.filterMap_cons_none hb]
      exact ih ha fun k d hk => h (k + 1) d fun heq => hk (Nat.succ.inj heq)

lemma getElem?_set_of_some {a b : α} {k : Nat} (h : l[k]? = some a) :
    (l.set i b)[k]? = some (if i = k then b else a) := by
  rw [List.getElem?_set]
  obtain ⟨hk, -⟩ := List.getElem?_eq_some_iff.1 h
  split_ifs with hi hlt
  · rfl
  · exact absurd (hi ▸ hk) hlt
  · exact h

end Lists

namespace Pool

/-- All threads stay as they are, but for one that takes a step and for new ones. -/
structure Alone (p p' : Pool) (i : Nat) (t t' : Thread) : Prop where
  mover : p.threads[i]? = some t
  canStep : t.canStep = true
  after : ∀ (k : Nat) (u : Thread), p.threads[k]? = some u →
    p'.threads[k]? = some (if i = k then t' else u)

/-- All threads stay as they are, but for one that sends and one that receives. -/
structure Together (p p' : Pool) (i j : Nat) (s r : Thread) (c : ChannelId) (v : Node) : Prop where
  sender : p.threads[i]? = some s
  receiver : p.threads[j]? = some r
  sends : s.control = .send c v
  receives : r.control = .receive c
  after : ∀ (k : Nat) (u : Thread), p.threads[k]? = some u → p'.threads[k]? =
    some (if j = k then r.resumeWith v else if i = k then s.resumeWith v else u)

/-- Whatever the schedule, one thread takes a step or a value passes from one to another. -/
lemma Next.cases (h : p.Next p') :
    (∃ i t t', p.Alone p' i t t') ∨ ∃ i j s r c v, p.Together p' i j s r c v := by
  obtain ⟨store, threads⟩ := p
  cases h with
  | @move m hm =>
    cases m with
    | advance i =>
      simp only [canMove, Option.any_eq_true] at hm
      obtain ⟨t, ht, hstep⟩ := hm
      refine .inl ⟨i, t, (step store t).thread, ht, hstep, fun k u hu => ?_⟩
      have hk := getElem?_set_of_some (i := i) (b := (step store t).thread) hu
      simp only [Pool.move, ht]
      obtain ⟨hlt, -⟩ := List.getElem?_eq_some_iff.1 hk
      rw [List.getElem?_append_left hlt, hk]
    | handOff i j =>
      simp only [canMove] at hm
      split at hm
      · rename_i c v c' hsend hreceive
        obtain ⟨s, hs, hsend⟩ := Option.map_eq_some_iff.1 hsend
        obtain ⟨r, hr, hreceive⟩ := Option.map_eq_some_iff.1 hreceive
        obtain rfl : c = c' := by simpa using hm
        refine .inr ⟨i, j, s, r, c, v, hs, hr, hsend, hreceive, fun k u hu => ?_⟩
        simp only [Pool.move, hs, hr, hsend, hreceive, if_true]
        exact getElem?_set_of_some (getElem?_set_of_some hu)
      · cases hm
  | cutOff ht hat habandoned => exact absurd habandoned (not_abandoned ht hat)

lemma Together.ne {i j : Nat} {s r : Thread} {v : Node} (h : p.Together p' i j s r c v) :
    i ≠ j := by
  rintro rfl
  obtain rfl : s = r := Option.some.inj (h.sender.symm.trans h.receiver)
  have hcontrol := h.sends.symm.trans h.receives
  cases hcontrol

lemma Together.sender_after {i j : Nat} {s r : Thread} {v : Node}
    (h : p.Together p' i j s r c v) : p'.threads[i]? = some (s.resumeWith v) := by
  have hi := h.after i s h.sender
  rwa [if_neg h.ne.symm, if_pos rfl] at hi

lemma Together.receiver_after {i j : Nat} {s r : Thread} {v : Node}
    (h : p.Together p' i j s r c v) : p'.threads[j]? = some (r.resumeWith v) := by
  have hj := h.after j r h.receiver
  rwa [if_pos rfl] at hj

/-- Nothing completes in the step of one thread. -/
lemma Alone.completions {i : Nat} (h : p.Alone p' i t t') :
    p.sent p' = [] ∧ p.received p' = [] := by
  have hnone : ∀ (k : Nat) (q : Thread × Thread), (p.threads.zip p'.threads)[k]? = some q →
      q.1.sent? q.2 = none ∧ q.1.received? q.2 = none := by
    rintro k ⟨u, u'⟩ hk
    obtain ⟨hu, hu'⟩ := List.getElem?_zip_eq_some.1 hk
    rw [h.after k u hu] at hu'
    by_cases hi : i = k
    · obtain rfl : t = u := Option.some.inj (h.mover.symm.trans (hi ▸ hu))
      exact Thread.completes_of_canStep h.canStep u'
    · rw [if_neg hi] at hu'
      obtain rfl : u = u' := Option.some.inj hu'
      exact ⟨u.sent?_self, u.received?_self⟩
  exact ⟨filterMap_eq_nil fun k q hk => (hnone k q hk).1,
    filterMap_eq_nil fun k q hk => (hnone k q hk).2⟩

/-- One sending and one receiving complete when a value passes. -/
lemma Together.completions {i j : Nat} {s r : Thread} {v : Node}
    (h : p.Together p' i j s r c v) :
    p.sent p' = [⟨c, v, v⟩] ∧ p.received p' = [⟨c, v⟩] := by
  have hs' := h.sender_after
  have hr' := h.receiver_after
  obtain ⟨hs, hr, hsend, hreceive, hafter⟩ := h
  have hpair {k : Nat} {u u' : Thread} (hu : p.threads[k]? = some u)
      (hu' : p'.threads[k]? = some u') : (p.threads.zip p'.threads)[k]? = some (u, u') :=
    List.getElem?_zip_eq_some.2 ⟨hu, hu'⟩
  -- the others stay as they are, the receiver does not send and the sender does not receive
  have hother : ∀ (k : Nat) (q : Thread × Thread), (p.threads.zip p'.threads)[k]? = some q →
      (k ≠ i → q.1.sent? q.2 = none) ∧ (k ≠ j → q.1.received? q.2 = none) := by
    rintro k ⟨u, u'⟩ hk
    obtain ⟨hu, hu'⟩ := List.getElem?_zip_eq_some.1 hk
    rw [hafter k u hu] at hu'
    by_cases hj : j = k
    · obtain rfl : r = u := Option.some.inj (hr.symm.trans (hj ▸ hu))
      exact ⟨fun _ => by simp [Thread.sent?, hreceive], fun hk => absurd hj.symm hk⟩
    · by_cases hi : i = k
      · obtain rfl : s = u := Option.some.inj (hs.symm.trans (hi ▸ hu))
        exact ⟨fun hk => absurd hi.symm hk, fun _ => by simp [Thread.received?, hsend]⟩
      · rw [if_neg hj, if_neg hi] at hu'
        obtain rfl : u = u' := Option.some.inj hu'
        exact ⟨fun _ => u.sent?_self, fun _ => u.received?_self⟩
  constructor
  · refine filterMap_eq_singleton (hpair hs hs') ?_ fun k q hk hq => (hother k q hq).1 hk
    simp [Thread.sent?, hsend, Thread.resumeWith]
  · refine filterMap_eq_singleton (hpair hr hr') ?_ fun k q hk hq => (hother k q hq).2 hk
    simp [Thread.received?, hreceive, Thread.resumeWith]

/-- A sending completes together with a receiving on the same channel, which has its value. -/
lemma Next.completions (h : p.Next p') :
    (p.sent p' = [] ∧ p.received p' = []) ∨
      ∃ c v, p.sent p' = [⟨c, v, v⟩] ∧ p.received p' = [⟨c, v⟩] := by
  obtain ⟨i, t, t', halone⟩ | ⟨i, j, s, r, c, v, htogether⟩ := h.cases
  · exact .inl halone.completions
  · exact .inr ⟨c, v, htogether.completions⟩

/-- What becomes of a thread that waits: it goes on waiting, or goes on with the value together
with a partner on the same channel. -/
structure Meets (p p' : Pool) (t t' : Thread) : Prop where
  send : ∀ c v, t.control = .send c v → t' = t ∨ t' = t.resumeWith v ∧
    ∃ (j : Nat) (r : Thread), p.threads[j]? = some r ∧ r.control = .receive c ∧
      p'.threads[j]? = some (r.resumeWith v)
  receive : ∀ c, t.control = .receive c → t' = t ∨ ∃ v, t' = t.resumeWith v ∧
    ∃ (j : Nat) (s : Thread), p.threads[j]? = some s ∧ s.control = .send c v ∧
      p'.threads[j]? = some (s.resumeWith v)

/-- A thread that waits does not end with an error. -/
lemma Meets.control_ne_raise (h : p.Meets p' t t') (hat : t.IsAt c) (e : EvalError) :
    t'.control ≠ .raise e := by
  rcases hat with ⟨v, hsend⟩ | hreceive
  · obtain rfl | ⟨rfl, -⟩ := h.send c v hsend
    · simp [hsend]
    · exact nofun
  · obtain rfl | ⟨v, rfl, -⟩ := h.receive c hreceive
    · simp [hreceive]
    · exact nofun

/-- A thread that does not wait meets nobody, and neither does one that goes on waiting. -/
lemma Meets.of_canStep (h : t.canStep = true) : p.Meets p' t t' where
  send c v hcontrol := by simp [Thread.canStep, hcontrol] at h
  receive c hcontrol := by simp [Thread.canStep, hcontrol] at h

lemma Meets.refl (t : Thread) : p.Meets p' t t := ⟨fun _ _ _ => .inl rfl, fun _ _ => .inl rfl⟩

lemma Alone.thread {i k : Nat} {u u' : Thread} (h : p.Alone p' i u u')
    (ht : p.threads[k]? = some t) : ∃ t', p'.threads[k]? = some t' ∧ p.Meets p' t t' := by
  refine ⟨_, h.after k t ht, ?_⟩
  by_cases hi : i = k
  · obtain rfl : u = t := Option.some.inj (h.mover.symm.trans (hi ▸ ht))
    exact .of_canStep h.canStep
  · rw [if_neg hi]
    exact .refl t

lemma Together.thread {i j k : Nat} {s r : Thread} {v : Node} (h : p.Together p' i j s r c v)
    (ht : p.threads[k]? = some t) : ∃ t', p'.threads[k]? = some t' ∧ p.Meets p' t t' := by
  have hs' := h.sender_after
  have hr' := h.receiver_after
  obtain ⟨hs, hr, hsend, hreceive, hafter⟩ := h
  refine ⟨_, hafter k t ht, ?_⟩
  by_cases hj : j = k
  · obtain rfl : r = t := Option.some.inj (hr.symm.trans (hj ▸ ht))
    rw [if_pos hj]
    refine ⟨fun c' v' hcontrol => ?_, fun c' hcontrol => .inr ⟨v, rfl, i, s, hs, ?_, hs'⟩⟩
    · rw [hreceive] at hcontrol
      cases hcontrol
    · rw [hreceive] at hcontrol
      cases hcontrol
      exact hsend
  · rw [if_neg hj]
    by_cases hi : i = k
    · obtain rfl : s = t := Option.some.inj (hs.symm.trans (hi ▸ ht))
      rw [if_pos hi]
      refine ⟨fun c' v' hcontrol => .inr ?_, fun c' hcontrol => ?_⟩
      · rw [hsend] at hcontrol
        cases hcontrol
        exact ⟨rfl, j, r, hr, hreceive, hr'⟩
      · rw [hsend] at hcontrol
        cases hcontrol
    · rw [if_neg hi]
      exact .refl t

/-- Whatever happens next, threads keep their index, and one that waits is not cut off. -/
lemma Next.thread {i : Nat} (h : p.Next p') (ht : p.threads[i]? = some t) :
    ∃ t', p'.threads[i]? = some t' ∧ p.Meets p' t t' := by
  obtain ⟨k, u, u', halone⟩ | ⟨k, j, s, r, c, v, htogether⟩ := h.cases
  · exact halone.thread ht
  · exact htogether.thread ht

/-! ### Schedules -/

variable {ss : List Sent} {rs : List Received}

/-- What was received is what was sent, in the same order, and senders go on with the value that
they sent. -/
lemma Logged.exact (h : Logged p ss rs) :
    rs = ss.map (fun x => ⟨x.channel, x.value⟩) ∧ ∀ x ∈ ss, x.given = x.value := by
  induction h with
  | bare sink => exact ⟨rfl, by simp⟩
  | next _ hnext ih =>
    obtain ⟨hrs, hgiven⟩ := ih
    obtain ⟨hsent, hreceived⟩ | ⟨c, v, hsent, hreceived⟩ := hnext.completions
    · rw [hsent, hreceived, List.append_nil, List.append_nil]
      exact ⟨hrs, hgiven⟩
    · rw [hsent, hreceived, hrs, List.map_append]
      refine ⟨rfl, fun x hx => ?_⟩
      rcases List.mem_append.1 hx with hx | hx
      · exact hgiven x hx
      · rw [List.mem_singleton.1 hx]
  | submit _ _ _ ih => exact ih
  | addPrimitive _ _ ih => exact ih
  | report _ _ ih => exact ih
  | drop _ _ ih => exact ih

lemma move_eq_self {m : Move} (h : p.canMove m = false) : p.move m = p := by
  obtain ⟨store, threads⟩ := p
  cases m with
  | advance i =>
    simp only [canMove] at h
    simp only [move]
    split
    · rfl
    · rename_i t ht
      have hcan : t.canStep = false := by simpa [ht] using h
      rw [step_eq_self hcan]
      refine congrArg (Pool.mk store) ?_
      rw [Option.toList_none, List.append_nil]
      obtain ⟨hi, rfl⟩ := List.getElem?_eq_some_iff.1 ht
      exact List.set_getElem_self hi
  | handOff i j =>
    simp only [canMove] at h
    simp only [move]
    repeat' split
    all_goals simp_all

lemma sent_self (p : Pool) : p.sent p = [] := by
  refine filterMap_eq_nil fun k q hk => ?_
  obtain ⟨hq, hq'⟩ := List.getElem?_zip_eq_some.1 hk
  rw [Option.some.inj (hq.symm.trans hq')]
  exact Thread.sent?_self _

lemma received_self (p : Pool) : p.received p = [] := by
  refine filterMap_eq_nil fun k q hk => ?_
  obtain ⟨hq, hq'⟩ := List.getElem?_zip_eq_some.1 hk
  rw [Option.some.inj (hq.symm.trans hq')]
  exact Thread.received?_self _

/-- A move, if it is possible. -/
lemma Logged.move (h : Logged p ss rs) (m : Move) :
    Logged (p.move m) (ss ++ p.sent (p.move m)) (rs ++ p.received (p.move m)) := by
  cases hm : p.canMove m with
  | true => exact h.next (.move hm)
  | false =>
    rw [move_eq_self hm, sent_self, received_self, List.append_nil, List.append_nil]
    exact h

end Pool

open Pool

/-- The states of sessions are among those with a log. -/
lemma Live.logged (h : Live p) : ∃ ss rs, Logged p ss rs := by
  induction h with
  | bare sink => exact ⟨[], [], .bare sink⟩
  | submit _ _ ih =>
    obtain ⟨ss, rs, hlog⟩ := ih
    exact ⟨ss, rs, hlog.submit _ _⟩
  | move m _ ih =>
    obtain ⟨ss, rs, hlog⟩ := ih
    exact ⟨_, _, hlog.move m⟩
  | report sink _ ih =>
    obtain ⟨ss, rs, hlog⟩ := ih
    exact ⟨ss, rs, hlog.report sink⟩
  | drop _ hts ih =>
    obtain ⟨ss, rs, hlog⟩ := ih
    exact ⟨ss, rs, hlog.drop hts⟩

/-- **Hand-off is exact.** In every state of a session, whatever the schedule, the values that
were received on a channel are those that were sent on it, in the same order, and a completed
sending has given the value that was sent. Whatever happens next, a thread that sends or
receives goes on waiting, or goes on with the value together with a partner on the same
channel; it is never told that the channel is disconnected. -/
theorem hand_off_exact :
    (∀ (p : Pool) (ss : List Sent) (rs : List Received), Logged p ss rs →
      (∀ c, (rs.filter (·.channel = c)).map (·.value)
        = (ss.filter (·.channel = c)).map (·.value)) ∧
      (∀ x ∈ ss, x.given = x.value) ∧
      ∀ p', p.Next p' → ∀ (i : Nat) (t : Thread), p.threads[i]? = some t →
        ∃ t', p'.threads[i]? = some t' ∧ p.Meets p' t t' ∧
          ∀ c l, t.IsAt c → t'.control ≠ .raise ⟨.disconnected c, l⟩) ∧
    ∀ p, Live p → ∃ ss rs, Logged p ss rs := by
  refine ⟨fun p ss rs hlog => ?_, fun p hp => hp.logged⟩
  obtain ⟨rfl, hgiven⟩ := hlog.exact
  refine ⟨fun c => ?_, hgiven, fun p' hnext i t ht => ?_⟩
  · rw [List.filter_map, List.map_map]
    rfl
  · obtain ⟨t', ht', hmeets⟩ := hnext.thread ht
    exact ⟨t', ht', hmeets, fun c l hat => hmeets.control_ne_raise hat _⟩

/-- A thread is started that sends to the main thread. -/
def exchange : String := "(let ((c (chan))) (go (send c 7)) (receive c))"

/-- The main thread comes to receive, and then the other one to send. -/
def approach : List Move := List.replicate 18 (.advance 0) ++ List.replicate 7 (.advance 1)

def meeting : Pool :=
  approach.foldl Pool.move ⟨(Session.bare .unlimited).store,
    [.start Session.top ((read exchange "main").1.headD .nil)]⟩

lemma Pool.Logged.moves {ss : List Sent} {rs : List Received} (h : Logged p ss rs)
    (ms : List Move) : ∃ ss' rs', Logged (ms.foldl Pool.move p) ss' rs' := by
  induction ms generalizing p ss rs with
  | nil => exact ⟨ss, rs, h⟩
  | cons m ms ih => exact ih (h.move m)

theorem hand_off_exact_meeting :
    ∃ ss rs, Logged meeting ss rs ∧ meeting.Next (meeting.move (.handOff 1 0)) ∧
      (meeting.received (meeting.move (.handOff 1 0))).map
        (fun x => (x.channel, x.value.display)) = [(0, "7")] ∧
      (rs.filter (·.channel = 0)).map (·.value) = (ss.filter (·.channel = 0)).map (·.value) ∧
      ∃ t t', meeting.threads[0]? = some t ∧ t.receivesOn 0 = true ∧
        (meeting.move (.handOff 1 0)).threads[0]? = some t' ∧
        meeting.Meets (meeting.move (.handOff 1 0)) t t' := by
  obtain ⟨ss, rs, hlog⟩ : ∃ ss rs, Logged meeting ss rs :=
    ((Logged.bare .unlimited).submit Session.top _).moves approach
  have hcan : meeting.canMove (.handOff 1 0) = true := by decide +kernel
  have hreceived : (meeting.received (meeting.move (.handOff 1 0))).map
      (fun x => (x.channel, x.value.display)) = [(0, "7")] := by decide +kernel
  have hreceiver : (meeting.threads[0]?).any (·.receivesOn 0) = true := by decide +kernel
  -- how the meeting came about does not matter from here on
  generalize meeting = p at hlog hcan hreceived hreceiver ⊢
  obtain ⟨t, ht, hreceives⟩ := (Option.any_eq_true _ _).1 hreceiver
  obtain ⟨hsame, -, hnext⟩ := hand_off_exact.1 p ss rs hlog
  obtain ⟨t', ht', hmeets, -⟩ := hnext _ (.move hcan) 0 t ht
  exact ⟨ss, rs, hlog, .move hcan, hreceived, hsame 0, t, t', ht, hreceives, ht', hmeets⟩

end ChannelLisp
