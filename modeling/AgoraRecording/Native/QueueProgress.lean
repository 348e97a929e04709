/-
AgoraRecording.Native.QueueProgress — what is left for the task queue to
do.

`workOn` counts the steps of `async_call` and `on_event` that are still to
come: those of the callers, the signal each of them sends and the round of
`on_event` it starts, and each queued task. Every step that serves lowers it
(`workOn_step`), whichever caller or task goes first; and where no such step
is possible, nobody is inside `async_call` and the loop sleeps without a
signal (`rest_of_stuck`).
-/
import AgoraRecording.Native.AsyncQueueTheorems
import Mathlib.Algebra.BigOperators.Group.Finset.Basic

namespace AgoraRecording.Native

open AgoraRecording.Lib

variable {ι Elem : Type}

/-! ## What is left to do -/

/-- A pushed task costs three steps, the signal two. -/
def CallPc.work : CallPc Elem → Nat
  | .entered _ => 8
  | .open_ _ => 7
  | .pushed => 3

def LoopPc.work : LoopPc Elem → Nat
  | .idle => 0
  | .polling => 1
  | .running _ call => 3 + (call.map CallPc.work).getD 0

namespace AsyncQueue

def work (s : AsyncQueue Elem) : Nat := (if s.pending then 2 else 0) + 3 * s.q.length

/-- A caller leaves less to do than it found. -/
theorem work_asyncCall (s : AsyncQueue Elem) (pc : CallPc Elem) :
    (s.asyncCall pc).1.work + ((s.asyncCall pc).2.map CallPc.work).getD 0 <
      s.work + pc.work := by
  cases pc with
  | entered e =>
    simp only [asyncCall]
    split <;> simp [CallPc.work]
  | open_ e =>
    have hlen : (s.push e).q.length ≤ s.q.length + 1 := by
      unfold push
      split <;> simp
    have hpending : (s.push e).pending = s.pending := by
      unfold push
      split <;> rfl
    simp only [asyncCall, work, hpending, CallPc.work, Option.map_some, Option.getD_some]
    omega
  | pushed =>
    simp only [asyncCall, work, CallPc.work, Option.map_none, Option.getD_none, if_true]
    split <;> omega

end AsyncQueue

namespace QueueState

variable [DecidableEq ι]

/-- The work of the callers in `P`, the loop and the queue. -/
def workOn (s : QueueState ι Elem) (P : Finset ι) : Nat :=
  (∑ p ∈ P, ((s.producers p).map CallPc.work).getD 0) + s.loop.work + s.queue.work

theorem sum_update (producers : ι → Option (CallPc Elem)) {P : Finset ι} {p : ι}
    (hmem : p ∈ P) {pc : CallPc Elem} (hp : producers p = some pc)
    (pc' : Option (CallPc Elem)) :
    (∑ p' ∈ P, ((Function.update producers p pc' p').map CallPc.work).getD 0) + pc.work =
      (∑ p' ∈ P, ((producers p').map CallPc.work).getD 0) + (pc'.map CallPc.work).getD 0 := by
  rw [← Finset.add_sum_erase _ _ hmem,
    ← Finset.add_sum_erase (f := fun p' => ((producers p').map CallPc.work).getD 0) _ hmem,
    Function.update_self, hp]
  have hrest : ∀ p' ∈ P.erase p,
      ((Function.update producers p pc' p').map CallPc.work).getD 0 =
        ((producers p').map CallPc.work).getD 0 := by
    intro p' hp'
    rw [Function.update_of_ne (Finset.ne_of_mem_erase hp')]
  rw [Finset.sum_congr rfl hrest]
  simp only [Option.map_some, Option.getD_some]
  omega

/-- Every step that serves lowers what is left, and a returning task by
more than the immediate it may leave. -/
theorem workOn_step {s s' : QueueState ι Elem} {a : QueueAction ι Elem} {P : Finset ι}
    (hP : ∀ p, s.producers p ≠ none → p ∈ P) (ha : a.serves = true) (h : s.step a = some s') :
    s'.workOn P < s.workOn P ∧ (a = .finish → s'.workOn P + 1 < s.workOn P) := by
  cases a with
  | advance p =>
    simp only [step] at h
    split at h <;> cases h
    rename_i pc hpc
    have hsum := sum_update s.producers (hP p (by simp [hpc])) hpc (s.queue.asyncCall pc).2
    have hcall := s.queue.work_asyncCall pc
    refine ⟨?_, fun hfinish => by cases hfinish⟩
    simp only [workOn]
    omega
  | wake =>
    simp only [step] at h
    split at h
    · rename_i hloop
      split at h <;> cases h
      rename_i hpending
      refine ⟨?_, fun hfinish => by cases hfinish⟩
      simp only [workOn, AsyncQueue.work, LoopPc.work, hloop, hpending, if_true,
        Bool.false_eq_true, if_false]
      omega
    · cases h
  | poll =>
    simp only [step] at h
    split at h
    · rename_i hloop
      split at h <;> cases h
      · refine ⟨?_, fun hfinish => by cases hfinish⟩
        simp [workOn, LoopPc.work, hloop]
      · rename_i e queue hpop
        obtain ⟨rest, hq, rfl⟩ := AsyncQueue.pop_some hpop
        refine ⟨?_, fun hfinish => by cases hfinish⟩
        simp only [workOn, AsyncQueue.work, LoopPc.work, hloop, hq, List.length_cons,
          Option.map_none, Option.getD_none]
        omega
    · cases h
  | advanceInside =>
    simp only [step] at h
    split at h <;> cases h
    rename_i t pc hloop
    have hcall := s.queue.work_asyncCall pc
    refine ⟨?_, fun hfinish => by cases hfinish⟩
    simp only [workOn, LoopPc.work, hloop, Option.map_some, Option.getD_some]
    omega
  | finish =>
    simp only [step] at h
    split at h <;> cases h
    rename_i t hloop
    simp only [workOn, LoopPc.work, hloop, Option.map_none, Option.getD_none]
    omega
  | _ => cases ha

/-- Whoever is inside `async_call` can go on, and so can the loop. -/
theorem rest_of_stuck {s : QueueState ι Elem}
    (h : ∀ a : QueueAction ι Elem, a.serves = true → s.step a = none) :
    (∀ p, s.producers p = none) ∧ s.queue.pending = false ∧ s.loop = .idle := by
  have hloop : s.loop = .idle := by
    cases hl : s.loop with
    | idle => rfl
    | polling =>
      have hnone := h .poll rfl
      simp only [step, hl] at hnone
      split at hnone <;> cases hnone
    | running e call =>
      cases call with
      | none =>
        have hnone := h .finish rfl
        simp [step, hl] at hnone
      | some pc =>
        have hnone := h .advanceInside rfl
        simp [step, hl] at hnone
  refine ⟨fun p => ?_, ?_, hloop⟩
  · cases hp : s.producers p with
    | none => rfl
    | some pc =>
      have hnone := h (.advance p) rfl
      simp [step, hp] at hnone
  · have hnone := h .wake rfl
    simpa [step, hloop] using hnone

end QueueState

end AgoraRecording.Native
