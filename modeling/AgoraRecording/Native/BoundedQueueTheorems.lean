/-
AgoraRecording.Native.BoundedQueueTheorems — what `set_capacity` bounds.

`node_async_call` leaves its queue unbounded; a queue given a capacity
evicts in the locked section of `async_call`. Its test `q_.size() >
capacity_` looks at the size BEFORE the push, so a queue that holds
exactly `c` elements takes one more: the queue is bounded, by `c + 1`
(`length_after_le`), and keeps the newest `c + 1` (`after_pushes`).

So the bound `c` is kept exactly by the runs in which no push finds `c`
elements (`keepsBound_iff`).

A run here is a sequence of locked sections. `sections_of_runFrom` says
that this is all that callers and the loop thread, interleaved in any
way, can do to the contents of a queue.
-/
import AgoraRecording.Native.AsyncQueueTheorems
import Mathlib.Data.List.DropRight

namespace AgoraRecording.Native

open AgoraRecording.Lib

variable {ι Elem : Type}

/-- What is done to a queue under its lock. -/
inductive Locked (Elem : Type) where
  /-- by `async_call` -/
  | push (e : Elem)
  /-- one turn of the loop of `on_event` -/
  | pop
  | clear
  deriving DecidableEq, Repr

namespace AsyncQueue

/-- A turn of `on_event` on an empty queue ends its loop. -/
def locked (s : AsyncQueue Elem) : Locked Elem → AsyncQueue Elem
  | .push e => s.push e
  | .pop =>
      match s.pop with
      | none => s
      | some (_, s') => s'
  | .clear => s.clear

def after (s : AsyncQueue Elem) (as : List (Locked Elem)) : AsyncQueue Elem := as.foldl locked s

theorem after_append (s : AsyncQueue Elem) (as bs : List (Locked Elem)) :
    s.after (as ++ bs) = (s.after as).after bs := List.foldl_append

theorem after_concat (s : AsyncQueue Elem) (as : List (Locked Elem)) (a : Locked Elem) :
    s.after (as ++ [a]) = (s.after as).locked a := after_append s as [a]

/-! ## One section -/

theorem q_pop (s : AsyncQueue Elem) : (s.locked .pop).q = s.q.tail := by
  cases hq : s.q with
  | nil => simp [locked, pop, hq]
  | cons e rest => simp [locked, pop, hq]

@[simp] theorem q_clear (s : AsyncQueue Elem) : (s.locked .clear).q = [] := rfl

/-- A push finds room. -/
theorem q_push_of_le {s : AsyncQueue Elem} (h : s.q.length ≤ s.capacity) (e : Elem) :
    (s.locked (.push e)).q = s.q ++ [e] := by
  have hno : ¬ (s.capacity ≠ 0 ∧ s.q.length > s.capacity) := by omega
  simp only [locked, push, if_neg hno]

/-- A push evicts the oldest element. -/
theorem q_push_of_lt {s : AsyncQueue Elem} (hc : 0 < s.capacity) (h : s.capacity < s.q.length)
    (e : Elem) : (s.locked (.push e)).q = s.q.tail ++ [e] := by
  have hevict : s.capacity ≠ 0 ∧ s.q.length > s.capacity := by omega
  simp only [locked, push, if_pos hevict]

@[simp] theorem capacity_locked (s : AsyncQueue Elem) (a : Locked Elem) :
    (s.locked a).capacity = s.capacity := by
  cases a with
  | push e => rfl
  | pop =>
    cases hq : s.q with
    | nil => simp [locked, pop, hq]
    | cons e rest => simp [locked, pop, hq]
  | clear => rfl

@[simp] theorem capacity_after (s : AsyncQueue Elem) (as : List (Locked Elem)) :
    (s.after as).capacity = s.capacity := by
  induction as using List.reverseRecOn with
  | nil => rfl
  | append_singleton as a ih => rw [after_concat, capacity_locked, ih]

theorem length_locked_le {s : AsyncQueue Elem} (hc : 0 < s.capacity)
    (h : s.q.length ≤ s.capacity + 1) (a : Locked Elem) :
    (s.locked a).q.length ≤ s.capacity + 1 := by
  cases a with
  | push e =>
    by_cases hle : s.q.length ≤ s.capacity
    · rw [q_push_of_le hle, List.length_append, List.length_singleton]
      omega
    · rw [q_push_of_lt hc (by omega), List.length_append, List.length_tail, List.length_singleton]
      omega
  | pop =>
    rw [q_pop, List.length_tail]
    omega
  | clear => simp

/-! ## The law of the code -/

/-- **One more than the capacity** is the bound. -/
theorem length_after_le {s : AsyncQueue Elem} (hc : 0 < s.capacity) (hs : s.q = [])
    (as : List (Locked Elem)) : (s.after as).q.length ≤ s.capacity + 1 := by
  induction as using List.reverseRecOn with
  | nil => simp [after, hs]
  | append_singleton as a ih =>
    rw [after_concat]
    have hstep := length_locked_le (s := s.after as) (by simpa using hc) (by simpa using ih) a
    simpa using hstep

/-- From empty, pushes alone leave **the newest `capacity + 1`**. -/
theorem after_pushes {s : AsyncQueue Elem} (hc : 0 < s.capacity) (hs : s.q = [])
    (es : List Elem) : (s.after (es.map .push)).q = es.rtake (s.capacity + 1) := by
  induction es using List.reverseRecOn with
  | nil => simp [after, hs]
  | append_singleton es e ih =>
    rw [List.map_append, List.map_singleton, after_concat, List.rtake_concat_succ]
    have hlen : (s.after (es.map .push)).q.length = min es.length (s.capacity + 1) := by
      rw [ih, List.rtake, List.length_drop]
      omega
    by_cases hle : es.length ≤ s.capacity
    · have hroom : (s.after (es.map .push)).q.length ≤ (s.after (es.map .push)).capacity := by
        rw [hlen, capacity_after]
        omega
      rw [q_push_of_le hroom, ih, List.rtake, List.rtake,
        show es.length - (s.capacity + 1) = 0 by omega, show es.length - s.capacity = 0 by omega]
    · have hfull : (s.after (es.map .push)).capacity < (s.after (es.map .push)).q.length := by
        rw [hlen, capacity_after]
        omega
      rw [q_push_of_lt (by simpa using hc) hfull, ih, List.rtake, List.rtake, List.tail_drop,
        show es.length - (s.capacity + 1) + 1 = es.length - s.capacity by omega]

/-! ## The capacity as a bound -/

/-- In every state of the run the queue holds at most `capacity` elements,
and after pushes since it was empty the newest of them. -/
structure KeepsBound (s : AsyncQueue Elem) (as : List (Locked Elem)) : Prop where
  length_le : ∀ bs cs, as = bs ++ cs → (s.after bs).q.length ≤ s.capacity
  newest : ∀ bs (es : List Elem) cs, as = bs ++ es.map .push ++ cs → (s.after bs).q = [] →
    (s.after (bs ++ es.map .push)).q = es.rtake (min es.length s.capacity)

theorem newest_of_short {s : AsyncQueue Elem} (hc : 0 < s.capacity) (hs : s.q = [])
    {es : List Elem} (hes : es.length ≤ s.capacity) :
    (s.after (es.map .push)).q = es.rtake (min es.length s.capacity) := by
  rw [after_pushes hc hs, List.rtake, List.rtake,
    show es.length - (s.capacity + 1) = es.length - min es.length s.capacity by omega]

/-- **The exact condition**: the capacity is kept as a bound if and only if
each push of the run finds fewer elements than that. -/
theorem keepsBound_iff {c : Nat} (hc : 0 < c) {s : AsyncQueue Elem} (hs : s.q = [])
    (as : List (Locked Elem)) :
    (s.setCapacity c).KeepsBound as ↔
      ∀ bs e cs, as = bs ++ .push e :: cs → ((s.setCapacity c).after bs).q.length < c := by
  have hcap : ∀ bs, ((s.setCapacity c).after bs).capacity = c := fun bs => by
    rw [capacity_after]
    rfl
  constructor
  · intro h bs e cs has
    have hbefore : ((s.setCapacity c).after bs).q.length ≤ c := h.length_le bs (.push e :: cs) has
    have hafter := h.length_le (bs ++ [.push e]) cs (by simp [has])
    rw [after_concat, q_push_of_le (by rw [hcap]; exact hbefore), List.length_append,
      List.length_singleton, ← capacity_after _ bs, hcap] at hafter
    omega
  · intro h
    have hlength : ∀ bs cs, as = bs ++ cs → ((s.setCapacity c).after bs).q.length ≤ c := by
      intro bs
      induction bs using List.reverseRecOn with
      | nil => simp [after, setCapacity, hs]
      | append_singleton bs a ih =>
        intro cs has
        have hbs : as = bs ++ a :: cs := by simp [has]
        have hle := ih (a :: cs) hbs
        rw [after_concat]
        cases a with
        | push e =>
          have hroom := h bs e cs hbs
          rw [q_push_of_le (by rw [hcap]; exact hle), List.length_append, List.length_singleton]
          omega
        | pop =>
          rw [q_pop, List.length_tail]
          omega
        | clear => simp
    refine ⟨hlength, fun bs es cs has hempty => ?_⟩
    have hpos : 0 < ((s.setCapacity c).after bs).capacity := by
      rw [hcap]
      exact hc
    -- the last of the pushes found fewer than `c`, so there were at most `c` of them
    have hshort : es.length ≤ ((s.setCapacity c).after bs).capacity := by
      rw [hcap]
      rcases List.eq_nil_or_concat es with rfl | ⟨es', e, rfl⟩
      · exact Nat.zero_le c
      · have hroom := h (bs ++ es'.map .push) e cs (by simp [has])
        rw [after_append, after_pushes hpos hempty, hcap, List.rtake, List.length_drop] at hroom
        rw [List.length_concat]
        omega
    rw [after_append, newest_of_short hpos hempty hshort, hcap]
    rfl

/-- With a pop between them, two pushes fit a queue of capacity one. -/
theorem keepsBound_pushPopPush :
    ((new : AsyncQueue Nat).setCapacity 1).KeepsBound [.push 1, .pop, .push 2] := by
  refine (keepsBound_iff (s := new) (by decide) rfl [.push 1, .pop, .push 2]).mpr ?_
  intro bs e cs has
  match bs with
  | [] => decide
  | [a] => simp at has
  | [a, b] =>
    simp only [List.cons_append, List.nil_append, List.cons.injEq] at has
    obtain ⟨rfl, rfl, -⟩ := has
    decide
  | a :: b :: d :: bs => simp at has

/-- Without it, the queue holds two. -/
theorem not_keepsBound_pushPush :
    ¬ ∀ (c : Nat) (s : AsyncQueue Nat), 0 < c → s.q = [] →
      ∀ as, (s.setCapacity c).KeepsBound as := by
  intro h
  have hlength := (h 1 new (by decide) rfl [.push 1, .push 2]).length_le [.push 1, .push 2] [] rfl
  exact absurd hlength (by decide)

end AsyncQueue

/-! ## Callers and the loop thread -/

namespace AsyncQueue

/-- The contents and the capacity of two queues are the same. -/
def SameContents (s t : AsyncQueue Elem) : Prop := s.q = t.q ∧ s.capacity = t.capacity

theorem SameContents.locked {s t : AsyncQueue Elem} (h : s.SameContents t) (a : Locked Elem) :
    (s.locked a).SameContents (t.locked a) := by
  obtain ⟨hq, hcap⟩ := h
  refine ⟨?_, by simp [hcap]⟩
  cases a with
  | push e => simp only [AsyncQueue.locked, push, hq, hcap]
  | pop => rw [q_pop, q_pop, hq]
  | clear => rfl

theorem SameContents.after {s t : AsyncQueue Elem} (h : s.SameContents t)
    (as : List (Locked Elem)) : (s.after as).SameContents (t.after as) := by
  induction as using List.reverseRecOn with
  | nil => exact h
  | append_singleton as a ih =>
    rw [after_concat, after_concat]
    exact ih.locked a

theorem sections_asyncCall (s : AsyncQueue Elem) (pc : CallPc Elem) :
    ∃ as, (s.asyncCall pc).1.SameContents (s.after as) := by
  rcases asyncCall_cases s pc with ⟨e, -, h, -⟩ | ⟨e, -, h⟩ | ⟨-, h⟩
  · exact ⟨[], by rw [h]; exact ⟨rfl, rfl⟩⟩
  · exact ⟨[.push e], by rw [h]; exact ⟨rfl, rfl⟩⟩
  · exact ⟨[], by rw [h]; exact ⟨rfl, rfl⟩⟩

end AsyncQueue

/-- The capacity is not set again. -/
def QueueAction.keepsCapacity : QueueAction ι Elem → Bool
  | .setCapacity _ => false
  | _ => true

variable [DecidableEq ι]

/-- A step of a caller or of the loop is at most one section. -/
theorem sections_of_step {s s' : QueueState ι Elem} {a : QueueAction ι Elem}
    (ha : a.keepsCapacity = true) (h : s.step a = some s') :
    ∃ as, s'.queue.SameContents (s.queue.after as) := by
  unfold QueueState.step at h
  split at h
  case h_1 =>
    split at h <;> cases h
    exact ⟨[], rfl, rfl⟩
  case h_2 =>
    split at h <;> cases h
    exact AsyncQueue.sections_asyncCall _ _
  case h_3 =>
    repeat' split at h
    all_goals cases h
    exact ⟨[], rfl, rfl⟩
  case h_4 =>
    split at h
    · split at h <;> cases h
      · exact ⟨[], rfl, rfl⟩
      · rename_i e queue hpop
        exact ⟨[.pop], by simp [AsyncQueue.after, AsyncQueue.locked, hpop, AsyncQueue.SameContents]⟩
    · cases h
  case h_5 =>
    split at h <;> cases h
    exact ⟨[], rfl, rfl⟩
  case h_6 =>
    split at h <;> cases h
    exact AsyncQueue.sections_asyncCall _ _
  case h_7 =>
    split at h <;> cases h
    exact ⟨[], rfl, rfl⟩
  case h_8 =>
    cases h
    exact ⟨[], rfl, rfl⟩
  case h_9 =>
    cases h
    exact ⟨[.clear], rfl, rfl⟩
  case h_10 => cases ha

/-- **Any interleaving is a sequence of sections**, as far as the contents
of the queue go. -/
theorem sections_of_runFrom {s s' : QueueState ι Elem} {as : List (QueueAction ι Elem)}
    (has : ∀ a ∈ as, a.keepsCapacity = true)
    (h : (QueueState.machine ι Elem).runFrom s as = some s') :
    ∃ bs, s'.queue.SameContents (s.queue.after bs) := by
  refine Machine.runFrom_keeps_of_forall (M := QueueState.machine ι Elem)
    (I := fun t => ∃ bs, t.queue.SameContents (s.queue.after bs)) ?_ has ⟨[], rfl, rfl⟩ h
  rintro t a t' ⟨bs, hbs⟩ ha hstep
  obtain ⟨cs, hcs⟩ := sections_of_step ha hstep
  refine ⟨bs ++ cs, ?_⟩
  obtain ⟨hq, hcap⟩ := hbs.after cs
  rw [AsyncQueue.after_append]
  exact ⟨hcs.1.trans hq, hcs.2.trans hcap⟩

/-- A queue bounded while it was empty never holds more than one element
over its capacity. -/
theorem length_le_of_runFrom {s s' : QueueState ι Elem} {as : List (QueueAction ι Elem)}
    (hc : 0 < s.queue.capacity) (hs : s.queue.q = []) (has : ∀ a ∈ as, a.keepsCapacity = true)
    (h : (QueueState.machine ι Elem).runFrom s as = some s') :
    s'.queue.q.length ≤ s.queue.capacity + 1 := by
  obtain ⟨bs, hq, -⟩ := sections_of_runFrom has h
  rw [hq]
  exact AsyncQueue.length_after_le hc hs bs

end AgoraRecording.Native
