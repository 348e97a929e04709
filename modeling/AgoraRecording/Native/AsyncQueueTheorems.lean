/-
AgoraRecording.Native.AsyncQueueTheorems — the task queue is a FIFO and
never sleeps on work.

`queue_in_order_and_awake` has two halves. Conservation: what `on_event`
has started, followed by what is still queued, is exactly what was pushed,
in push order. And the wake-up: when nobody stands between a push and its
send, no signal is pending and `on_event` is not running, there is no work.
Both are fields of one invariant, `QueueInv`, kept by every step of every
caller and of the loop thread.

The wake-up half is not about the last push alone. A merged signal may
stand for many pushes, and `wake` CLEARS the flag before `on_event` looks
at the queue — so while work is queued the duty to look passes from the
caller (`pushed`), to the flag, to the loop, and back to the flag when a
push lands after the final emptiness test. `QueueInv.awake` says it is
always with one of the three.
-/
import AgoraRecording.Native.AsyncQueue
import Mathlib.Data.List.Basic

namespace AgoraRecording.Native

open AgoraRecording.Lib

variable {ι Elem : Type}

/-! ## The steps of the queue itself -/

namespace AsyncQueue

/-- An unbounded queue evicts nothing. -/
theorem push_unbounded {s : AsyncQueue Elem} (h : s.capacity = 0) (e : Elem) :
    s.push e = { s with q := s.q ++ [e], pushed := s.pushed ++ [e] } := by
  simp [push, h]

theorem pop_none {s : AsyncQueue Elem} (h : s.pop = none) : s.q = [] := by
  unfold pop at h
  split at h
  · assumption
  · cases h

theorem pop_some {s s' : AsyncQueue Elem} {e : Elem} (h : s.pop = some (e, s')) :
    ∃ rest, s.q = e :: rest ∧ s' = { s with q := rest, started := s.started ++ [e] } := by
  unfold pop at h
  split at h
  · cases h
  · rename_i e' rest hq
    cases h
    exact ⟨rest, hq, rfl⟩

/-- Conservation on the queue alone. -/
def InOrder (s : AsyncQueue Elem) : Prop := s.started ++ s.q = s.pushed

theorem InOrder.push {s : AsyncQueue Elem} (h : s.InOrder) (hcap : s.capacity = 0) (e : Elem) :
    (s.push e).InOrder := by
  rw [push_unbounded hcap, InOrder, ← List.append_assoc, show s.started ++ s.q = s.pushed from h]

theorem InOrder.pop {s s' : AsyncQueue Elem} {e : Elem} (h : s.InOrder)
    (hpop : s.pop = some (e, s')) : s'.InOrder := by
  obtain ⟨rest, hq, rfl⟩ := pop_some hpop
  have hall : s.started ++ e :: rest = s.pushed := hq ▸ h
  simpa [InOrder] using hall

end AsyncQueue

/-! ## The invariant -/

/-- What holds between any two atomic steps of a run that never closes,
clears or bounds the queue. -/
structure QueueInv (s : QueueState ι Elem) : Prop where
  unbounded : s.queue.capacity = 0
  inOrder : s.queue.InOrder
  /-- work is somebody's duty: a caller's, the flag's or the loop's -/
  awake : s.queue.q ≠ [] →
    (∃ p, s.producers p = some .pushed) ∨ s.queue.pending = true ∨ s.loop ≠ .idle

/-- One step of `async_call`, as its callers see it. -/
theorem asyncCall_cases (s : AsyncQueue Elem) (pc : CallPc Elem) :
    (∃ e, pc = .entered e ∧ (s.asyncCall pc).1 = s ∧ (s.asyncCall pc).2 ≠ some .pushed) ∨
    (∃ e, pc = .open_ e ∧ s.asyncCall pc = (s.push e, some .pushed)) ∨
    (pc = .pushed ∧ s.asyncCall pc = ({ s with pending := true }, none)) := by
  cases pc with
  | entered e =>
    refine Or.inl ⟨e, rfl, ?_⟩
    by_cases hc : s.closed = true <;> simp [AsyncQueue.asyncCall, hc]
  | open_ e => exact Or.inr (Or.inl ⟨e, rfl, rfl⟩)
  | pushed => exact Or.inr (Or.inr ⟨rfl, rfl⟩)

theorem asyncCall_capacity (s : AsyncQueue Elem) (pc : CallPc Elem) :
    (s.asyncCall pc).1.capacity = s.capacity := by
  rcases asyncCall_cases s pc with ⟨e, -, h, -⟩ | ⟨e, -, h⟩ | ⟨-, h⟩
  · rw [h]
  · rw [h]; rfl
  · rw [h]

theorem asyncCall_inOrder {s : AsyncQueue Elem} (hcap : s.capacity = 0) (h : s.InOrder)
    (pc : CallPc Elem) : (s.asyncCall pc).1.InOrder := by
  rcases asyncCall_cases s pc with ⟨e, -, heq, -⟩ | ⟨e, -, heq⟩ | ⟨-, heq⟩
  · rw [heq]; exact h
  · rw [heq]; exact h.push hcap e
  · rw [heq]; exact h

variable [DecidableEq ι]

theorem queueInv_init : QueueInv (QueueState.machine ι Elem).init where
  unbounded := rfl
  inOrder := rfl
  awake := fun h => absurd rfl h

/-- A producer's step passes the duty on: to itself after the push, to the
flag after the send. -/
theorem QueueInv.advance {s : QueueState ι Elem} (h : QueueInv s) {p : ι} {pc : CallPc Elem}
    (hp : s.producers p = some pc) :
    QueueInv { s with queue := (s.queue.asyncCall pc).1,
                      producers := Function.update s.producers p (s.queue.asyncCall pc).2 } where
  unbounded := (asyncCall_capacity s.queue pc).trans h.unbounded
  inOrder := asyncCall_inOrder h.unbounded h.inOrder pc
  awake := by
    intro hne
    rcases asyncCall_cases s.queue pc with ⟨e, rfl, hq, hpc⟩ | ⟨e, rfl, heq⟩ | ⟨rfl, heq⟩
    · -- only the caller's own counter moved, and it was not at the send
      simp only [hq] at hne ⊢
      rcases h.awake hne with ⟨p', hp'⟩ | hpend | hloop
      · have hpp : p' ≠ p := by
          rintro rfl
          rw [hp] at hp'
          cases hp'
        exact Or.inl ⟨p', (Function.update_of_ne hpp _ _).trans hp'⟩
      · exact Or.inr (Or.inl hpend)
      · exact Or.inr (Or.inr hloop)
    · exact Or.inl ⟨p, by simp only [heq, Function.update_self]⟩
    · exact Or.inr (Or.inl (by rw [heq]))

/-- **The step lemma**: no interleaving breaks the invariant. -/
theorem QueueInv.step {s s' : QueueState ι Elem} {a : QueueAction ι Elem} (h : QueueInv s)
    (hplain : a.plain = true) (hstep : s.step a = some s') : QueueInv s' := by
  cases a with
  | call p e =>
    simp only [QueueState.step] at hstep
    split at hstep
    · rename_i hnone
      cases hstep
      refine ⟨h.unbounded, h.inOrder, fun hne => ?_⟩
      rcases h.awake hne with ⟨p', hp'⟩ | hrest
      · have hpp : p' ≠ p := by
          rintro rfl
          rw [hnone] at hp'
          cases hp'
        exact Or.inl ⟨p', (Function.update_of_ne hpp _ _).trans hp'⟩
      · exact Or.inr hrest
    · cases hstep
  | advance p =>
    simp only [QueueState.step] at hstep
    split at hstep
    · cases hstep
    · rename_i pc hp
      cases hstep
      exact h.advance hp
  | wake =>
    simp only [QueueState.step] at hstep
    split at hstep
    · split at hstep
      · cases hstep
        exact ⟨h.unbounded, h.inOrder, fun _ => Or.inr (Or.inr (by nofun))⟩
      · cases hstep
    · cases hstep
  | poll =>
    simp only [QueueState.step] at hstep
    split at hstep
    · split at hstep
      · -- the final emptiness test: the loop may sleep, the queue is empty
        rename_i hpop
        cases hstep
        exact ⟨h.unbounded, h.inOrder, fun hne => absurd (AsyncQueue.pop_none hpop) hne⟩
      · rename_i e queue hpop
        cases hstep
        obtain ⟨rest, -, rfl⟩ := AsyncQueue.pop_some hpop
        exact ⟨h.unbounded, h.inOrder.pop hpop, fun _ => Or.inr (Or.inr (by nofun))⟩
    · cases hstep
  | callInside e =>
    simp only [QueueState.step] at hstep
    split at hstep
    · cases hstep
      exact ⟨h.unbounded, h.inOrder, fun _ => Or.inr (Or.inr (by nofun))⟩
    · cases hstep
  | advanceInside =>
    simp only [QueueState.step] at hstep
    split at hstep
    · rename_i t pc hloop
      cases hstep
      exact ⟨(asyncCall_capacity s.queue pc).trans h.unbounded,
        asyncCall_inOrder h.unbounded h.inOrder pc, fun _ => Or.inr (Or.inr (by nofun))⟩
    · cases hstep
  | finish =>
    simp only [QueueState.step] at hstep
    split at hstep
    · cases hstep
      exact ⟨h.unbounded, h.inOrder, fun _ => Or.inr (Or.inr (by nofun))⟩
    · cases hstep
  | close => cases hplain
  | clear => cases hplain
  | setCapacity capacity => cases hplain

/-- The invariant along a whole run of plain actions. -/
theorem queueInv_run {as : List (QueueAction ι Elem)} {s s' : QueueState ι Elem}
    (h : QueueInv s) (hplain : ∀ a ∈ as, a.plain = true)
    (hrun : (QueueState.machine ι Elem).runFrom s as = some s') : QueueInv s' :=
  Machine.runFrom_keeps_of_forall (fun _ _ _ hi ha hstep => hi.step ha hstep) hplain h hrun

/-! ## What the queue guarantees -/

/-- **Nothing is lost, duplicated or reordered, and no work waits on a
signal that will not come.** -/
theorem queue_in_order_and_awake {as : List (QueueAction ι Elem)} {s : QueueState ι Elem}
    (hplain : ∀ a ∈ as, a.plain = true)
    (hrun : (QueueState.machine ι Elem).run as = some s) :
    s.queue.started ++ s.queue.q = s.queue.pushed ∧
      ((∀ p, s.producers p ≠ some .pushed) → s.queue.pending = false → s.loop = .idle →
        s.queue.q = []) := by
  have h : QueueInv s := queueInv_run queueInv_init hplain hrun
  refine ⟨h.inOrder, fun hprod hpend hloop => ?_⟩
  by_contra hne
  rcases h.awake hne with ⟨p, hp⟩ | hp | hl
  · exact hprod p hp
  · rw [hpend] at hp
    cases hp
  · exact hl hloop

/-- A push lands after the flag was cleared, from inside the task that is
running. Its task is run by the same `on_event`, and the signal it left wakes
the loop once more for nothing. -/
def pushWhileRunning : List (QueueAction Bool Nat) :=
  [.call true 7, .advance true, .advance true, .advance true, .wake, .poll,
   .callInside 8, .advanceInside, .advanceInside, .advanceInside, .finish, .poll, .finish, .poll,
   .wake, .poll]

theorem queue_in_order_and_awake_pushWhileRunning :
    ∃ s, (QueueState.machine Bool Nat).run pushWhileRunning = some s ∧ s.queue.q = [] ∧
      s.queue.started = [7, 8] := by
  have hrun : ((QueueState.machine Bool Nat).run pushWhileRunning).any (fun s =>
      decide ((∀ p, s.producers p ≠ some .pushed) ∧ s.queue.pending = false ∧ s.loop = .idle ∧
        s.queue.pushed = [7, 8])) = true := by decide
  obtain ⟨s, hs, hend⟩ := (Option.any_eq_true _ _).mp hrun
  obtain ⟨hproducers, hpending, hloop, hpushed⟩ := of_decide_eq_true hend
  obtain ⟨horder, hawake⟩ := queue_in_order_and_awake (by decide) hs
  have hempty := hawake hproducers hpending hloop
  rw [hempty, List.append_nil, hpushed] at horder
  exact ⟨s, hs, hempty, horder⟩

end AgoraRecording.Native
