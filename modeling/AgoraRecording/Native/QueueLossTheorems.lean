/-
AgoraRecording.Native.QueueLossTheorems — what the task queue keeps when
it is closed, cleared or bounded.

`node_async_call` does none of the three, and then nothing is lost
(`queue_in_order_and_awake`). `async_queue` allows each of them at any
moment, to any thread. What is left is `queue_sublist_and_awake`, for every
run of every action: tasks may be lost, but those that start do so in push
order and none of them twice, and no queued task waits for a signal that
will not come.

`close` is no barrier. A caller reads `closed_` before it takes the lock,
so one that read it in time pushes afterwards. `pushed_after_close` counts
those: the callers that stood between the two when the queue was closed
push at most once each, and nobody else pushes again.

`QueueState.Steps` says once what a step can do; both invariants are read
off it.
-/
import AgoraRecording.Native.AsyncQueueTheorems
import Mathlib.Data.List.Nodup

namespace AgoraRecording.Native

open AgoraRecording.Lib

variable {ι Elem : Type}

/-! ## What a step can do -/

namespace QueueState

/-- Where a caller stands: a producer, or the task that is running
(`none`). -/
def caller (s : QueueState ι Elem) : Option ι → Option (CallPc Elem)
  | some p => s.producers p
  | none =>
      match s.loop with
      | .running _ call => call
      | _ => none

@[simp] theorem caller_some (s : QueueState ι Elem) (p : ι) :
    s.caller (some p) = s.producers p := rfl

/-- The task a caller is about to push: it has read `closed_` already. -/
def entering (s : QueueState ι Elem) (c : Option ι) : Option Elem :=
  match s.caller c with
  | some (.open_ e) => some e
  | _ => none

theorem entering_congr {s s' : QueueState ι Elem} (h : s'.caller = s.caller) (c : Option ι) :
    s'.entering c = s.entering c := by
  unfold entering
  rw [h]

variable [DecidableEq ι]

/-- One atomic step, as the queue and its callers see it. -/
inductive Steps (s s' : QueueState ι Elem) : Prop
  | enter (c : Option ι) (e : Elem) (queue : s'.queue = s.queue)
      (caller : s'.caller = Function.update s.caller c (some (.entered e)))
      (loop : s.loop = .idle ↔ s'.loop = .idle) (free : s.caller c = none)
  | advance (c : Option ι) (pc : CallPc Elem) (at_ : s.caller c = some pc)
      (queue : s'.queue = (s.queue.asyncCall pc).1)
      (caller : s'.caller = Function.update s.caller c (s.queue.asyncCall pc).2)
      (loop : s.loop = .idle ↔ s'.loop = .idle)
  | poll (loop : s'.loop ≠ .idle) (caller : s'.caller = s.caller)
      (queue : s'.queue = { s.queue with pending := false } ∨ s'.queue = s.queue ∨
        ∃ e, s.queue.pop = some (e, s'.queue))
  | sleep (empty : s.queue.q = []) (queue : s'.queue = s.queue) (caller : s'.caller = s.caller)
  | control (loop : s'.loop = s.loop) (caller : s'.caller = s.caller)
      (queue : s'.queue = s.queue.close ∨ s'.queue = s.queue.clear ∨
        ∃ capacity, s'.queue = s.queue.setCapacity capacity)

theorem caller_producers (s : QueueState ι Elem) (queue : AsyncQueue Elem) (p : ι)
    (pc : Option (CallPc Elem)) :
    caller { s with queue := queue, producers := Function.update s.producers p pc } =
      Function.update s.caller (some p) pc := by
  funext c
  cases c with
  | none => simp [caller]
  | some p' => by_cases h : p' = p <;> simp [caller, Function.update, h]

theorem caller_running (s : QueueState ι Elem) (queue : AsyncQueue Elem) (t : Elem)
    (pc : Option (CallPc Elem)) :
    caller { s with queue := queue, loop := .running t pc } =
      Function.update s.caller none pc := by
  funext c
  cases c <;> simp [caller, Function.update]

theorem steps_of_step {s s' : QueueState ι Elem} {a : QueueAction ι Elem}
    (h : s.step a = some s') : s.Steps s' := by
  cases a with
  | call p e =>
    simp only [step] at h
    split at h <;> cases h
    rename_i hnone
    exact .enter (some p) e rfl (caller_producers s s.queue p _) Iff.rfl hnone
  | advance p =>
    simp only [step] at h
    split at h <;> cases h
    rename_i pc hpc
    exact .advance (some p) pc hpc rfl (caller_producers s _ p _) Iff.rfl
  | wake =>
    simp only [step] at h
    split at h
    · rename_i hidle
      split at h <;> cases h
      refine .poll (fun h => by cases h) ?_ (Or.inl rfl)
      funext c
      cases c <;> simp [caller, hidle]
    · cases h
  | poll =>
    simp only [step] at h
    split at h
    · rename_i hpolling
      split at h <;> cases h
      · rename_i hpop
        refine .sleep (AsyncQueue.pop_none hpop) rfl ?_
        funext c
        cases c <;> simp [caller, hpolling]
      · rename_i e queue hpop
        refine .poll (fun h => by cases h) ?_ (Or.inr (Or.inr ⟨e, hpop⟩))
        funext c
        cases c <;> simp [caller, hpolling]
    · cases h
  | callInside e =>
    simp only [step] at h
    split at h <;> cases h
    rename_i t hloop
    exact .enter none e rfl (caller_running s s.queue t _) (by simp [hloop])
      (by simp [caller, hloop])
  | advanceInside =>
    simp only [step] at h
    split at h <;> cases h
    rename_i t pc hloop
    exact .advance none pc (by simp [caller, hloop]) rfl (caller_running s _ t _)
      (by simp [hloop])
  | finish =>
    simp only [step] at h
    split at h <;> cases h
    rename_i t hloop
    refine .poll (fun h => by cases h) ?_ (Or.inr (Or.inl rfl))
    funext c
    cases c <;> simp [caller, hloop]
  | close =>
    cases h
    exact .control rfl rfl (Or.inl rfl)
  | clear =>
    cases h
    exact .control rfl rfl (Or.inr (Or.inl rfl))
  | setCapacity capacity =>
    cases h
    exact .control rfl rfl (Or.inr (Or.inr ⟨capacity, rfl⟩))

end QueueState

/-! ## Order, whatever is lost -/

namespace AsyncQueue

/-- What was started and what is queued were pushed in this order; others
may have been pushed between them. -/
def Ordered (s : AsyncQueue Elem) : Prop := (s.started ++ s.q).Sublist s.pushed

theorem Ordered.push {s : AsyncQueue Elem} (h : s.Ordered) (e : Elem) : (s.push e).Ordered := by
  have hkept : (s.started ++ if s.capacity ≠ 0 ∧ s.q.length > s.capacity then s.q.tail
      else s.q).Sublist s.pushed := by
    split
    · exact ((List.Sublist.refl s.started).append (List.tail_sublist s.q)).trans h
    · exact h
  have hboth := hkept.append (List.Sublist.refl [e])
  rw [List.append_assoc] at hboth
  exact hboth

theorem Ordered.pop {s s' : AsyncQueue Elem} {e : Elem} (h : s.Ordered)
    (hpop : s.pop = some (e, s')) : s'.Ordered := by
  obtain ⟨rest, hq, rfl⟩ := pop_some hpop
  have hall : (s.started ++ e :: rest).Sublist s.pushed := hq ▸ h
  simpa [Ordered] using hall

theorem Ordered.clear {s : AsyncQueue Elem} (h : s.Ordered) : s.clear.Ordered := by
  have hstarted := (List.sublist_append_left s.started s.q).trans h
  simpa [Ordered, AsyncQueue.clear] using hstarted

theorem Ordered.asyncCall {s : AsyncQueue Elem} (h : s.Ordered) (pc : CallPc Elem) :
    (s.asyncCall pc).1.Ordered := by
  rcases asyncCall_cases s pc with ⟨e, -, heq, -⟩ | ⟨e, -, heq⟩ | ⟨-, heq⟩
  · rw [heq]; exact h
  · rw [heq]; exact h.push e
  · rw [heq]; exact h

end AsyncQueue

variable [DecidableEq ι]

/-- What no action breaks. -/
structure LossInv (s : QueueState ι Elem) : Prop where
  ordered : s.queue.Ordered
  awake : s.queue.q ≠ [] →
    (∃ c, s.caller c = some .pushed) ∨ s.queue.pending = true ∨ s.loop ≠ .idle

theorem lossInv_init : LossInv (QueueState.machine ι Elem).init where
  ordered := List.Sublist.refl _
  awake := fun h => absurd rfl h

/-- A caller that stands elsewhere before and after keeps the duty where
it was. -/
theorem awake_update {s s' : QueueState ι Elem} {c : Option ι} {pc : Option (CallPc Elem)}
    (hc : s.caller c ≠ some .pushed) (hcaller : s'.caller = Function.update s.caller c pc)
    (hloop : s.loop = .idle ↔ s'.loop = .idle)
    (h : (∃ c, s.caller c = some .pushed) ∨ s.queue.pending = true ∨ s.loop ≠ .idle) :
    (∃ c, s'.caller c = some .pushed) ∨ s.queue.pending = true ∨ s'.loop ≠ .idle := by
  rcases h with ⟨c', hc'⟩ | hpend | hidle
  · have hne : c' ≠ c := fun heq => hc (heq ▸ hc')
    exact Or.inl ⟨c', by rw [hcaller, Function.update_of_ne hne, hc']⟩
  · exact Or.inr (Or.inl hpend)
  · exact Or.inr (Or.inr (fun h => hidle (hloop.mpr h)))

/-- **The step lemma.** -/
theorem LossInv.step {s s' : QueueState ι Elem} {a : QueueAction ι Elem} (h : LossInv s)
    (hstep : s.step a = some s') : LossInv s' := by
  cases QueueState.steps_of_step hstep with
  | enter c e queue caller loop free =>
    refine ⟨queue ▸ h.ordered, fun hne => ?_⟩
    rw [queue] at hne ⊢
    exact awake_update (by simp [free]) caller loop (h.awake hne)
  | advance c pc at_ queue caller loop =>
    refine ⟨queue ▸ h.ordered.asyncCall pc, fun hne => ?_⟩
    rcases asyncCall_cases s.queue pc with ⟨e, rfl, heq, -⟩ | ⟨e, rfl, heq⟩ | ⟨rfl, heq⟩
    · rw [queue, heq] at hne ⊢
      exact awake_update (by simp [at_]) caller loop (h.awake hne)
    · -- the push leaves its caller with the duty to send
      exact Or.inl ⟨c, by rw [caller, heq, Function.update_self]⟩
    · exact Or.inr (Or.inl (by rw [queue, heq]))
  | poll loop caller queue =>
    refine ⟨?_, fun _ => Or.inr (Or.inr loop)⟩
    rcases queue with heq | heq | ⟨e, hpop⟩
    · rw [heq]; exact h.ordered
    · rw [heq]; exact h.ordered
    · exact h.ordered.pop hpop
  | sleep empty queue caller =>
    exact ⟨queue ▸ h.ordered, fun hne => absurd (queue ▸ empty) hne⟩
  | control loop caller queue =>
    rcases queue with heq | heq | ⟨capacity, heq⟩
    · refine ⟨by rw [heq]; exact h.ordered, fun hne => ?_⟩
      rw [heq] at hne ⊢
      rw [caller, loop]
      exact h.awake hne
    · exact ⟨by rw [heq]; exact h.ordered.clear, fun hne => absurd (by rw [heq]; rfl) hne⟩
    · refine ⟨by rw [heq]; exact h.ordered, fun hne => ?_⟩
      rw [heq] at hne ⊢
      rw [caller, loop]
      exact h.awake hne

theorem lossInv_reachable {s : QueueState ι Elem} (hs : (QueueState.machine ι Elem).Reachable s) :
    LossInv s :=
  Machine.Reachable.induct lossInv_init (fun _ _ _ _ hi hstep => hi.step hstep) hs

/-- **Whatever is done to the queue**: tasks are started in push order and
at most once each, and no queued task waits for a signal that will not
come. -/
theorem queue_sublist_and_awake {as : List (QueueAction ι Elem)} {s : QueueState ι Elem}
    (hrun : (QueueState.machine ι Elem).run as = some s) :
    (s.queue.started ++ s.queue.q).Sublist s.queue.pushed ∧
      ((∀ p, s.producers p ≠ some .pushed) → s.queue.pending = false → s.loop = .idle →
        s.queue.q = []) := by
  have h : LossInv s := lossInv_reachable ⟨as, hrun⟩
  refine ⟨h.ordered, fun hprod hpend hloop => ?_⟩
  by_contra hne
  rcases h.awake hne with ⟨c, hc⟩ | hp | hl
  · cases c with
    | some p => exact hprod p hc
    | none => simp [QueueState.caller, hloop] at hc
  · rw [hpend] at hp
    cases hp
  · exact hl hloop

/-- A task is evicted, the rest is cleared, and a caller that was past the
check pushes into the closed queue. Its task is run, and the loop goes idle. -/
def lossyRun : List (QueueAction Bool Nat) :=
  [.setCapacity 1, .call true 1, .advance true, .advance true, .advance true, .call true 2,
   .advance true, .advance true, .advance true, .call true 3, .call false 4, .advance false,
   .advance true, .advance true, .clear, .close, .advance false, .wake, .poll,
   .advance true, .advance false, .finish, .poll, .wake, .poll]

theorem queue_sublist_and_awake_lossyRun :
    ∃ s, (QueueState.machine Bool Nat).run lossyRun = some s ∧ s.queue.q = [] ∧
      s.queue.started.Sublist [1, 2, 3, 4] := by
  have hrun : ((QueueState.machine Bool Nat).run lossyRun).any (fun s =>
      decide ((∀ p, s.producers p ≠ some .pushed) ∧ s.queue.pending = false ∧ s.loop = .idle ∧
        s.queue.pushed = [1, 2, 3, 4])) = true := by decide
  obtain ⟨s, hs, hend⟩ := (Option.any_eq_true _ _).mp hrun
  obtain ⟨hproducers, hpending, hloop, hpushed⟩ := of_decide_eq_true hend
  obtain ⟨hsublist, hawake⟩ := queue_sublist_and_awake hs
  have hempty := hawake hproducers hpending hloop
  rw [hempty, List.append_nil, hpushed] at hsublist
  exact ⟨s, hs, hempty, hsublist⟩

/-! ## After `close` -/

/-- Since the queue was closed in `s`, exactly the callers `who` have
pushed, each the task it held then. -/
structure Drains (s : QueueState ι Elem) (who : List (Option ι)) (s' : QueueState ι Elem) :
    Prop where
  closed : s'.queue.closed = true
  nodup : who.Nodup
  pushed : s'.queue.pushed.map some = s.queue.pushed.map some ++ who.map s.entering
  entering : ∀ c, s'.entering c = if c ∈ who then none else s.entering c

theorem entering_update {s s' : QueueState ι Elem} {c : Option ι} {pc : Option (CallPc Elem)}
    (hcaller : s'.caller = Function.update s.caller c pc)
    (hpc : ∀ e, pc ≠ some (.open_ e)) (c' : Option ι) :
    s'.entering c' = if c' = c then none else s.entering c' := by
  unfold QueueState.entering
  rw [hcaller]
  by_cases h : c' = c
  · subst h
    simp only [Function.update_self, if_true]
  · simp only [Function.update_of_ne h, if_neg h]

namespace Drains

variable {s t t' : QueueState ι Elem} {who : List (Option ι)}

theorem refl (h : s.queue.closed = true) : Drains s [] s where
  closed := h
  nodup := List.nodup_nil
  pushed := by simp
  entering := by simp

/-- A step that pushes nothing and puts nobody past the check. -/
theorem keeps (h : Drains s who t) (hclosed : t'.queue.closed = true)
    (hpushed : t'.queue.pushed = t.queue.pushed)
    (hentering : ∀ c, t'.entering c = t.entering c) : Drains s who t' where
  closed := hclosed
  nodup := h.nodup
  pushed := by rw [hpushed, h.pushed]
  entering := by
    intro c
    rw [hentering, h.entering]

/-- **The step lemma**: the only push is by a caller that was past the
check all along, and it is past it no more. -/
theorem step {a : QueueAction ι Elem} (h : Drains s who t) (hstep : t.step a = some t') :
    ∃ more, Drains s (who ++ more) t' := by
  cases QueueState.steps_of_step hstep with
  | enter c e queue caller loop free =>
    refine ⟨[], ?_⟩
    rw [List.append_nil]
    refine h.keeps (by rw [queue, h.closed]) (by rw [queue]) (fun c' => ?_)
    rw [entering_update caller (fun _ h => by cases h)]
    split
    · rename_i heq
      simp [QueueState.entering, heq, free]
    · rfl
  | advance c pc at_ queue caller loop =>
    rcases asyncCall_cases t.queue pc with ⟨e, rfl, -, -⟩ | ⟨e, rfl, heq⟩ | ⟨rfl, heq⟩
    · -- `if (closed_) return -1`
      have hrefused : t.queue.asyncCall (.entered e) = (t.queue, none) := by
        simp [AsyncQueue.asyncCall, h.closed]
      rw [hrefused] at queue caller
      refine ⟨[], ?_⟩
      rw [List.append_nil]
      refine h.keeps (by rw [queue, h.closed]) (by rw [queue]) (fun c' => ?_)
      rw [entering_update caller (fun _ h => by cases h)]
      split
      · rename_i hcc
        simp [QueueState.entering, hcc, at_]
      · rfl
    · rw [heq] at queue caller
      have hentering : t.entering c = some e := by simp [QueueState.entering, at_]
      have hfresh : c ∉ who := by
        intro hmem
        rw [h.entering, if_pos hmem] at hentering
        cases hentering
      have hheld : s.entering c = some e := by
        rw [h.entering, if_neg hfresh] at hentering
        exact hentering
      refine ⟨[c], ?_, ?_, ?_, fun c' => ?_⟩
      · rw [queue]
        exact h.closed
      · exact h.nodup.append (List.nodup_singleton c) (by simpa using hfresh)
      · rw [queue]
        simp [AsyncQueue.push, h.pushed, hheld]
      · rw [entering_update caller (fun _ h => by cases h), h.entering]
        by_cases hcc : c' = c
        · simp [hcc]
        · simp [hcc]
    · rw [heq] at queue caller
      refine ⟨[], ?_⟩
      rw [List.append_nil]
      refine h.keeps (by rw [queue]; exact h.closed) (by rw [queue]) (fun c' => ?_)
      rw [entering_update caller (fun _ h => by cases h)]
      split
      · rename_i hcc
        simp [QueueState.entering, hcc, at_]
      · rfl
  | poll loop caller queue =>
    refine ⟨[], ?_⟩
    rw [List.append_nil]
    have hboth : t'.queue.closed = t.queue.closed ∧ t'.queue.pushed = t.queue.pushed := by
      rcases queue with heq | heq | ⟨e, hpop⟩
      · rw [heq]; exact ⟨rfl, rfl⟩
      · rw [heq]; exact ⟨rfl, rfl⟩
      · obtain ⟨rest, -, heq⟩ := AsyncQueue.pop_some hpop
        rw [heq]; exact ⟨rfl, rfl⟩
    exact h.keeps (hboth.1.trans h.closed) hboth.2 (QueueState.entering_congr caller)
  | sleep empty queue caller =>
    refine ⟨[], ?_⟩
    rw [List.append_nil]
    exact h.keeps (by rw [queue, h.closed]) (by rw [queue]) (QueueState.entering_congr caller)
  | control loop caller queue =>
    refine ⟨[], ?_⟩
    rw [List.append_nil]
    have hentering := QueueState.entering_congr caller
    rcases queue with heq | heq | ⟨capacity, heq⟩
    · exact h.keeps (by rw [heq]; rfl) (by rw [heq]; rfl) hentering
    · exact h.keeps (by rw [heq]; exact h.closed) (by rw [heq]; rfl) hentering
    · exact h.keeps (by rw [heq]; exact h.closed) (by rw [heq]; rfl) hentering

end Drains

/-- **What `close` still lets through**: in any run on from a closed queue,
callers that were past the check push the task they held, each at most once,
and nothing else is ever pushed. -/
theorem pushed_after_close {s s' : QueueState ι Elem} {as : List (QueueAction ι Elem)}
    (hclosed : s.queue.closed = true)
    (hrun : (QueueState.machine ι Elem).runFrom s as = some s') :
    ∃ who : List (Option ι), who.Nodup ∧
      s'.queue.pushed.map some = s.queue.pushed.map some ++ who.map s.entering := by
  have h : ∃ who, Drains s who s' := by
    refine Machine.runFrom_keeps (M := QueueState.machine ι Elem)
      (I := fun t => ∃ who, Drains s who t) ?_ ⟨[], Drains.refl hclosed⟩ hrun
    intro t a t' ⟨who, ht⟩ hstep
    obtain ⟨more, hmore⟩ := ht.step hstep
    exact ⟨who ++ more, hmore⟩
  obtain ⟨who, hdrains⟩ := h
  exact ⟨who, hdrains.nodup, hdrains.pushed⟩

/-- Two callers are in `async_call` when the queue is closed: one has read
`closed_`, the other has not. -/
def closingState : QueueState Bool Nat :=
  { queue := AsyncQueue.new.close
    producers := fun p => some (if p then .open_ 1 else .entered 2)
    loop := .idle }

theorem pushed_after_close_closingState :
    ∃ s', (QueueState.machine Bool Nat).runFrom closingState
        [.advance false, .advance true, .advance true] = some s' ∧
      ∃ who : List (Option Bool), who.Nodup ∧
        s'.queue.pushed.map some =
          closingState.queue.pushed.map some ++ who.map closingState.entering := by
  have hsome : ((QueueState.machine Bool Nat).runFrom closingState
      [.advance false, .advance true, .advance true]).isSome = true := by decide
  obtain ⟨s', hs'⟩ := Option.isSome_iff_exists.mp hsome
  exact ⟨s', hs', pushed_after_close rfl hs'⟩

end AgoraRecording.Native
