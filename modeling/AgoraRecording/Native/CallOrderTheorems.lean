/-
AgoraRecording.Native.CallOrderTheorems — each caller's tasks are queued in
the order it called `async_call`.

The queue as a whole is first in, first out; what that is worth to one
thread depends on the pushes coming in the order of its calls. They do,
because a caller is inside one `async_call` at a time: `InCallOrder` says
that what a caller has pushed, followed by the task it is about to push, is
what it called with. Tasks carry who called (`who`), so that one caller's
can be told from another's.

`Advances` says once what a step that is no call can do, and `HandsOver`
what it does to the tasks that were pushed and have not returned.
-/
import AgoraRecording.Native.QueueLossTheorems

namespace AgoraRecording.Native

open AgoraRecording.Lib

variable {ι Elem : Type}

/-! ## Callers and the running task -/

/-- The task a caller has still to push. -/
def CallPc.unpushed : CallPc Elem → Option Elem
  | .entered e | .open_ e => some e
  | .pushed => none

/-- A caller's step starts no task. -/
theorem asyncCall_started (s : AsyncQueue Elem) (pc : CallPc Elem) :
    (s.asyncCall pc).1.started = s.started := by
  rcases asyncCall_cases s pc with ⟨e, -, h, -⟩ | ⟨e, -, h⟩ | ⟨-, h⟩
  · rw [h]
  · rw [h]; rfl
  · rw [h]

theorem serves_plain {a : QueueAction ι Elem} (h : a.serves = true) :
    a.plain = true := by
  cases a <;> first | rfl | cases h

namespace QueueState

def unpushed (s : QueueState ι Elem) (c : Option ι) : Option Elem :=
  (s.caller c).bind CallPc.unpushed

theorem unpushed_congr {s s' : QueueState ι Elem} (h : s'.caller = s.caller) :
    s'.unpushed = s.unpushed := by
  funext c
  rw [unpushed, unpushed, h]

/-- The tasks that were pushed and have not returned, oldest first. -/
def tasks (s : QueueState ι Elem) : List Elem := s.running.toList ++ s.queue.q

/-- What is queued follows from what was pushed and started. -/
theorem q_eq_of_started {s s' : QueueState ι Elem} (h : QueueInv s) (h' : QueueInv s')
    {E : List Elem} (hpushed : s'.queue.pushed = s.queue.pushed)
    (hstarted : s'.queue.started = s.queue.started ++ E) : s.queue.q = E ++ s'.queue.q := by
  have hall : s.queue.started ++ (E ++ s'.queue.q) = s.queue.started ++ s.queue.q := by
    rw [← List.append_assoc, ← hstarted]
    exact h'.inOrder.trans (hpushed.trans h.inOrder.symm)
  exact (List.append_cancel_left hall).symm

variable [DecidableEq ι]

/-- One step that serves the queue, as its callers and the loop see it. -/
inductive Advances (s s' : QueueState ι Elem) : QueueAction ι Elem → Prop
  | advance (a : QueueAction ι Elem) (hne : a ≠ .finish) (c : Option ι) (pc : CallPc Elem)
      (at_ : s.caller c = some pc) (queue : s'.queue = (s.queue.asyncCall pc).1)
      (caller : s'.caller = Function.update s.caller c (s.queue.asyncCall pc).2)
      (running : s'.running = s.running) : Advances s s' a
  | wait (a : QueueAction ι Elem) (hne : a ≠ .finish) (caller : s'.caller = s.caller)
      (queue : s'.queue.pushed = s.queue.pushed ∧ s'.queue.closed = s.queue.closed ∧
        s'.queue.started = s.queue.started)
      (running : s'.running = s.running) : Advances s s' a
  | poll (e : Elem) (caller : s'.caller = s.caller)
      (queue : s'.queue.pushed = s.queue.pushed ∧ s'.queue.closed = s.queue.closed ∧
        s'.queue.started = s.queue.started ++ [e])
      (idle : s.running = none) (running : s'.running = some e) : Advances s s' .poll
  | finish (e : Elem) (caller : s'.caller = s.caller) (queue : s'.queue = s.queue)
      (running : s.running = some e) (idle : s'.running = none) : Advances s s' .finish

theorem advances_of_step {s s' : QueueState ι Elem} {a : QueueAction ι Elem}
    (ha : a.serves = true) (h : s.step a = some s') : s.Advances s' a := by
  cases a with
  | advance p =>
    simp only [step] at h
    split at h <;> cases h
    rename_i pc hpc
    exact .advance _ (by simp) (some p) pc hpc rfl (caller_producers s _ p _) rfl
  | wake =>
    simp only [step] at h
    split at h
    · rename_i hidle
      split at h <;> cases h
      refine .wait _ (by simp) ?_ ⟨rfl, rfl, rfl⟩ (by simp [running, hidle])
      funext c
      cases c <;> simp [caller, hidle]
    · cases h
  | poll =>
    simp only [step] at h
    split at h
    · rename_i hpolling
      split at h <;> cases h
      · refine .wait _ (by simp) ?_ ⟨rfl, rfl, rfl⟩ (by simp [running, hpolling])
        funext c
        cases c <;> simp [caller, hpolling]
      · rename_i e queue hpop
        obtain ⟨rest, -, rfl⟩ := AsyncQueue.pop_some hpop
        refine .poll e ?_ ⟨rfl, rfl, rfl⟩ (by simp [running, hpolling]) rfl
        funext c
        cases c <;> simp [caller, hpolling]
    · cases h
  | advanceInside =>
    simp only [step] at h
    split at h <;> cases h
    rename_i t pc hloop
    exact .advance _ (by simp) none pc (by simp [caller, hloop]) rfl (caller_running s _ t _)
      (by simp [running, hloop])
  | finish =>
    simp only [step] at h
    split at h <;> cases h
    rename_i t hloop
    refine .finish t ?_ rfl (by simp [running, hloop]) rfl
    funext c
    cases c <;> simp [caller, hloop]
  | _ => cases ha

/-- Nobody enters `async_call` by serving. -/
theorem caller_of_serve {s s' : QueueState ι Elem} {a : QueueAction ι Elem}
    (ha : a.serves = true) (hstep : s.step a = some s') {c : Option ι} (hc : s'.caller c ≠ none) :
    s.caller c ≠ none := by
  cases advances_of_step ha hstep with
  | advance _ _ c' pc at_ queue caller running =>
    by_cases hcc : c = c'
    · subst hcc
      rw [at_]
      exact Option.some_ne_none pc
    · rw [caller, Function.update_of_ne hcc] at hc
      exact hc
  | wait _ _ caller queue running =>
    rw [caller] at hc
    exact hc
  | poll e caller queue idle running =>
    rw [caller] at hc
    exact hc
  | finish e caller queue running idle =>
    rw [caller] at hc
    exact hc

/-! ## The invariant -/

variable (who : Elem → Option ι)

/-- The queue is open, and each caller's tasks were pushed in the order of
its calls. -/
structure InCallOrder (called : List Elem) (s : QueueState ι Elem) : Prop where
  opened : s.queue.closed = false
  who_unpushed : ∀ c e, s.unpushed c = some e → who e = c
  order : ∀ c, s.queue.pushed.filter (fun e => who e = c) ++ (s.unpushed c).toList =
    called.filter (fun e => who e = c)

theorem inCallOrder_init : InCallOrder who [] (machine ι Elem).init where
  opened := rfl
  who_unpushed := by
    intro c e h
    cases c <;> cases h
  order := by
    intro c
    cases c <;> rfl

variable {who}

theorem InCallOrder.congr {called : List Elem} {s s' : QueueState ι Elem}
    (h : InCallOrder who called s) (hsame : s'.unpushed = s.unpushed)
    (hpushed : s'.queue.pushed = s.queue.pushed) (hclosed : s'.queue.closed = s.queue.closed) :
    InCallOrder who called s' :=
  ⟨hclosed ▸ h.opened, hsame ▸ h.who_unpushed, by rw [hpushed, hsame]; exact h.order⟩

/-- A caller enters `async_call`. -/
theorem InCallOrder.enter {called : List Elem} {s s' : QueueState ι Elem}
    (h : InCallOrder who called s) {c : Option ι} {e : Elem} (hwho : who e = c)
    (hfree : s.caller c = none) (hqueue : s'.queue = s.queue)
    (hcaller : s'.caller = Function.update s.caller c (some (.entered e))) :
    InCallOrder who (called ++ [e]) s' := by
  have hself : s'.unpushed c = some e := by simp [unpushed, hcaller, CallPc.unpushed]
  have hother : ∀ c', c' ≠ c → s'.unpushed c' = s.unpushed c' := by
    intro c' hne
    simp [unpushed, hcaller, Function.update_of_ne hne]
  refine ⟨hqueue ▸ h.opened, fun c' e' he' => ?_, fun c' => ?_⟩
  · by_cases hc : c' = c
    · subst hc
      rw [hself] at he'
      cases he'
      exact hwho
    · exact h.who_unpushed c' e' (hother c' hc ▸ he')
  · have horder := h.order c'
    rw [hqueue, List.filter_append]
    by_cases hc : c' = c
    · subst hc
      have hnone : s.unpushed c' = none := by simp [unpushed, hfree]
      rw [hnone, Option.toList_none, List.append_nil] at horder
      rw [horder, hself]
      simp [hwho]
    · have hne : ¬ who e = c' := fun heq => hc (heq.symm.trans hwho)
      rw [hother c' hc, horder]
      simp [hne]

/-- A caller takes its next step: it finds the queue open, pushes what it
called with, or has pushed it. -/
theorem InCallOrder.advance {called : List Elem} {s s' : QueueState ι Elem}
    (h : InCallOrder who called s) {c : Option ι} {pc : CallPc Elem}
    (hat : s.caller c = some pc) (hqueue : s'.queue = (s.queue.asyncCall pc).1)
    (hcaller : s'.caller = Function.update s.caller c (s.queue.asyncCall pc).2) :
    InCallOrder who called s' := by
  have hother : ∀ c', c' ≠ c → s'.unpushed c' = s.unpushed c' := by
    intro c' hne
    simp [unpushed, hcaller, Function.update_of_ne hne]
  have hself : s'.unpushed c = (s.queue.asyncCall pc).2.bind CallPc.unpushed := by
    simp [unpushed, hcaller]
  have hwas : s.unpushed c = pc.unpushed := by simp [unpushed, hat]
  have hall : s'.unpushed c = s.unpushed c → s'.unpushed = s.unpushed := by
    intro hc
    funext c'
    by_cases heq : c' = c
    · rw [heq, hc]
    · exact hother c' heq
  cases pc with
  | entered e =>
    have hstep : s.queue.asyncCall (.entered e) = (s.queue, some (.open_ e)) := by
      simp [AsyncQueue.asyncCall, h.opened]
    rw [hstep] at hqueue hself
    have hsame : s'.unpushed = s.unpushed := hall (by rw [hself, hwas]; rfl)
    exact h.congr hsame (by rw [hqueue]) (by rw [hqueue])
  | open_ e =>
    have hwho : who e = c := h.who_unpushed c e (by rw [hwas]; rfl)
    have hpushed : s'.queue.pushed = s.queue.pushed ++ [e] := by rw [hqueue]; rfl
    have hnone : s'.unpushed c = none := by rw [hself]; rfl
    refine ⟨by rw [hqueue]; exact h.opened, fun c' e' he' => ?_, fun c' => ?_⟩
    · by_cases hc : c' = c
      · rw [hc, hnone] at he'
        cases he'
      · exact h.who_unpushed c' e' (hother c' hc ▸ he')
    · have horder := h.order c'
      rw [hpushed, List.filter_append]
      by_cases hc : c' = c
      · subst hc
        rw [hwas] at horder
        rw [hnone, ← horder]
        simp [hwho, CallPc.unpushed]
      · have hne : ¬ who e = c' := fun heq => hc (heq.symm.trans hwho)
        rw [hother c' hc, ← horder]
        simp [hne]
  | pushed =>
    have hsame : s'.unpushed = s.unpushed := hall (by rw [hself, hwas]; rfl)
    exact h.congr hsame (by rw [hqueue]; rfl) (by rw [hqueue]; rfl)

/-- **The step lemma.** -/
theorem InCallOrder.serve {called : List Elem} {s s' : QueueState ι Elem} {a : QueueAction ι Elem}
    (h : InCallOrder who called s) (ha : a.serves = true) (hstep : s.step a = some s') :
    InCallOrder who called s' := by
  cases advances_of_step ha hstep with
  | advance _ hne c pc at_ queue caller running => exact h.advance at_ queue caller
  | wait _ hne caller queue running =>
    exact h.congr (unpushed_congr caller) queue.1 queue.2.1
  | poll e caller queue idle running =>
    exact h.congr (unpushed_congr caller) queue.1 queue.2.1
  | finish e caller queue running idle =>
    exact h.congr (unpushed_congr caller) (by rw [queue]) (by rw [queue])

/-! ## Serving as handing over -/

/-- What a step of `async_call` or `on_event` does to the tasks, other than
a return: nothing, or a caller's task is put at their end. -/
inductive HandsOver (s s' : QueueState ι Elem) : Prop
  | kept (tasks : s'.tasks = s.tasks) (unpushed : s'.unpushed = s.unpushed)
  | pushed (c : Option ι) (e : Elem) (was : s.unpushed c = some e)
      (unpushed : s'.unpushed = Function.update s.unpushed c none)
      (tasks : s'.tasks = s.tasks ++ [e])

theorem handsOver_of_advance {s s' : QueueState ι Elem} (h : QueueInv s)
    (hopen : s.queue.closed = false) {c : Option ι} {pc : CallPc Elem}
    (hat : s.caller c = some pc) (hqueue : s'.queue = (s.queue.asyncCall pc).1)
    (hcaller : s'.caller = Function.update s.caller c (s.queue.asyncCall pc).2)
    (hrunning : s'.running = s.running) : s.HandsOver s' := by
  have hunpushed : s'.unpushed =
      Function.update s.unpushed c ((s.queue.asyncCall pc).2.bind CallPc.unpushed) := by
    funext c'
    by_cases hc : c' = c
    · subst hc
      simp [unpushed, hcaller]
    · simp [unpushed, hcaller, Function.update_of_ne hc]
  have hwas : s.unpushed c = pc.unpushed := by simp [unpushed, hat]
  cases pc with
  | entered e =>
    have hstep : s.queue.asyncCall (.entered e) = (s.queue, some (.open_ e)) := by
      simp [AsyncQueue.asyncCall, hopen]
    rw [hstep] at hqueue hunpushed
    refine .kept (by rw [tasks, tasks, hqueue, hrunning]) ?_
    have hsame : (some (CallPc.open_ e)).bind CallPc.unpushed = s.unpushed c := hwas.symm
    rw [hunpushed, hsame, Function.update_eq_self]
  | open_ e =>
    refine .pushed c e hwas hunpushed ?_
    have hpush : (s.queue.push e).q = s.queue.q ++ [e] := by
      rw [AsyncQueue.push_unbounded h.unbounded]
    simp only [AsyncQueue.asyncCall] at hqueue
    rw [tasks, tasks, hqueue, hrunning, hpush, List.append_assoc]
  | pushed =>
    simp only [AsyncQueue.asyncCall] at hqueue
    refine .kept (by rw [tasks, tasks, hqueue, hrunning]) ?_
    have hsame : (none : Option (CallPc Elem)).bind CallPc.unpushed = s.unpushed c := hwas.symm
    simp only [AsyncQueue.asyncCall] at hunpushed
    rw [hunpushed, hsame, Function.update_eq_self]

/-- **What serving does to the tasks.** -/
theorem handsOver_of_step {s s' : QueueState ι Elem} {a : QueueAction ι Elem} (h : QueueInv s)
    (h' : QueueInv s') (hopen : s.queue.closed = false) (ha : a.serves = true)
    (hne : a ≠ .finish) (hstep : s.step a = some s') : s.HandsOver s' := by
  cases advances_of_step ha hstep with
  | advance _ _ c pc at_ queue caller running =>
    exact handsOver_of_advance h hopen at_ queue caller running
  | wait _ _ caller queue running =>
    have hq := q_eq_of_started (E := []) h h' queue.1 (by rw [queue.2.2, List.append_nil])
    exact .kept (by rw [tasks, tasks, running, hq, List.nil_append]) (unpushed_congr caller)
  | poll e caller queue idle running =>
    have hq := q_eq_of_started h h' queue.1 queue.2.2
    exact .kept (by rw [tasks, tasks, running, idle, hq]; rfl) (unpushed_congr caller)
  | finish => exact absurd rfl hne

/-- A task that returns is the first. -/
theorem tasks_of_finish {s s' : QueueState ι Elem} (hstep : s.step .finish = some s') :
    ∃ e, s.running = some e ∧ s.tasks = e :: s'.tasks ∧ s'.unpushed = s.unpushed := by
  cases advances_of_step rfl hstep with
  | advance _ hne => exact absurd rfl hne
  | wait _ hne => exact absurd rfl hne
  | finish e caller queue running idle =>
    exact ⟨e, running, by rw [tasks, tasks, running, idle, queue]; rfl, unpushed_congr caller⟩

end QueueState

end AgoraRecording.Native
