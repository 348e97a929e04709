/-
AgoraRecording.Server.ThreadsProgress — whatever the threads do, every
session ends up as its engine's reports call for.

Two measures are added: what is left for the task queue (`workOn`) and for
the manager's loop (`Process.work`). A task that returns may leave an
immediate, so the queue counts double (`Inv.work_step`). When no thread, task,
immediate or reaction can go on, everything is at rest (`Inv.atRest_of_stuck`),
each session is quiet, and the laws of quiet sessions say the rest.
-/
import AgoraRecording.Native.QueueProgress
import AgoraRecording.Server.LoopProgress
import AgoraRecording.Server.PictureTheorems
import AgoraRecording.Server.ThreadsTheorems

namespace AgoraRecording.Server.Threads

open AgoraRecording.Lib AgoraRecording.Js AgoraRecording.Native

/-! ## What is left to do -/

/-- No request, no storage callback and no report: the threads go on, and
the loop serves what is pending. -/
def serving : ThreadAction → Bool
  | .js .runImmediate | .js .runReaction => true
  | .serve a => a.serves
  | _ => false

def work (s : Threads) : Nat :=
  2 * s.queue.workOn (Finset.range s.process.sessions.length) + s.process.work

/-- A step that serves: the manager's own, a task's return, or a step of
`async_call` or `on_event`. -/
theorem serve_cases {s s' : Threads} {a : ThreadAction} (ha : serving a = true)
    (h : s.step a = some s') :
    (∃ b : Action, b.serves = true ∧ b ≠ .runTask ∧ (s.process.step b).bind s.post = some s') ∨
    (∃ e, s.queue.running = some e ∧ s.finish e = some s') ∨
    ∃ b queue, b.serves = true ∧ s.queue.step b = some queue ∧ s.process.crashed = false ∧
      s' = { s with queue := queue } := by
  cases a with
  | js b =>
    simp only [step] at h
    split at h
    · refine Or.inl ⟨b, ?_, ?_, h⟩
      · cases b <;> first | rfl | cases ha
      · rintro rfl
        cases ha
    · cases h
  | raise i ev dir => cases ha
  | serve b =>
    simp only [step] at h
    split at h
    · cases h
    rename_i halive
    split at h
    · exact Or.inr (Or.inl (Option.bind_eq_some_iff.mp h))
    · split at h
      · rename_i hserves
        obtain ⟨queue, hqueue, rfl⟩ := Option.map_eq_some_iff.mp h
        exact Or.inr (Or.inr ⟨b, queue, hserves, hqueue, by simpa using halive, rfl⟩)
      · cases h

/-- The manager serves what is pending, and posts no task. -/
theorem Inv.hand_serving {s s' : Threads} {b : Action} (h : s.Inv) (hb : b.serves = true)
    (hne : b ≠ .runTask) (hstep : (s.process.step b).bind s.post = some s') :
    s.process.step b = some s'.process ∧ s'.queue = s.queue := by
  obtain ⟨p, hp, hpost⟩ := Option.bind_eq_some_iff.mp hstep
  have hqueue : p.queue = [] := ((h.wired.kept_of_serve hb hp).2 hne).trans h.handed
  rcases post_eq_some hpost with ⟨-, rfl⟩ | ⟨e, hone, -, -⟩
  · exact ⟨hp, rfl⟩
  · rw [hqueue] at hone
    cases hone

/-- A task's return is a step of the process on that task. -/
theorem finish_eq_some {s s' : Threads} {e : SessionId × Event} (h : s.finish e = some s') :
    s.queue.step .finish = some s'.queue ∧
      (s.process.withQueue [e]).step .runTask = some s'.process := by
  obtain ⟨queue, hqueue, hrest⟩ := Option.bind_eq_some_iff.mp h
  obtain ⟨p, hp, rfl⟩ := Option.map_eq_some_iff.mp hrest
  exact ⟨hqueue, hp⟩

/-- Serving does not end the process, and lowers what is left. -/
theorem Inv.work_step {s s' : Threads} {a : ThreadAction} (h : s.Inv) (ha : serving a = true)
    (hstep : s.step a = some s') : s'.process.crashed = false ∧ s'.work < s.work := by
  have hcallers : ∀ i, s.queue.producers i ≠ none → i ∈ Finset.range s.process.sessions.length :=
    fun i hi => Finset.mem_range.mpr (h.callers i hi)
  rcases serve_cases ha hstep with ⟨b, hb, hne, hhand⟩ | ⟨e, -, hfinish⟩ |
    ⟨b, queue, hb, hqueue, halive, rfl⟩
  · obtain ⟨hp, hqueue⟩ := h.hand_serving hb hne hhand
    obtain ⟨halive, hless⟩ := h.wired.work_step hb hp
    refine ⟨halive, ?_⟩
    rw [work, work, hqueue, (h.wired.kept_of_serve hb hp).1]
    omega
  · obtain ⟨hqueue, hp⟩ := finish_eq_some hfinish
    have hw := h.wired.withQueue [e]
    obtain ⟨halive, hless⟩ := hw.work_step rfl hp
    obtain ⟨-, hmore⟩ := QueueState.workOn_step hcallers rfl hqueue
    have hpriced : (s.process.withQueue [e]).work = s.process.work + 4 := by
      simp only [Process.work, Process.withQueue, h.handed, List.length_singleton,
        List.length_nil]
      omega
    have hsessions : s'.process.sessions.length = s.process.sessions.length :=
      (hw.kept_of_serve rfl hp).1
    refine ⟨halive, ?_⟩
    have hmore' := hmore rfl
    simp only [work, hsessions]
    omega
  · obtain ⟨hless, -⟩ := QueueState.workOn_step hcallers hb hqueue
    refine ⟨halive, ?_⟩
    simp only [work]
    omega

/-- Serving makes no engine report. -/
theorem Inv.posted_step {s s' : Threads} {a : ThreadAction} (h : s.Inv) (ha : serving a = true)
    (hstep : s.step a = some s') {i : SessionId} {posted : List Event}
    (hg : ∃ g, s.process.sessions[i]? = some g ∧ g.posted = posted) :
    ∃ g, s'.process.sessions[i]? = some g ∧ g.posted = posted := by
  obtain ⟨g, hg, rfl⟩ := hg
  rcases serve_cases ha hstep with ⟨b, hb, hne, hhand⟩ | ⟨e, -, hfinish⟩ |
    ⟨b, queue, -, -, -, rfl⟩
  · obtain ⟨hp, -⟩ := h.hand_serving hb hne hhand
    obtain ⟨g', hg', -, hposted⟩ := h.wired.posted_step hb hp hg
    exact ⟨g', hg', hposted⟩
  · obtain ⟨-, hp⟩ := finish_eq_some hfinish
    obtain ⟨g', hg', -, hposted⟩ := (h.wired.withQueue [e]).posted_step rfl hp hg
    exact ⟨g', hg', hposted⟩
  · exact ⟨g, hg, rfl⟩

/-! ## At rest -/

/-- A task that is running can return. -/
theorem Inv.finish_enabled {s : Threads} {e : SessionId × Event} (h : s.Inv)
    (halive : s.process.crashed = false) (hloop : s.queue.loop = .running e none) :
    ∃ s', s.finish e = some s' := by
  have hmem : e ∈ s.queue.tasks := by simp [QueueState.tasks, QueueState.running, hloop]
  have hlt := h.known e (Or.inl hmem)
  have hg : s.process.sessions[e.1]? = some s.process.sessions[e.1] := List.getElem?_eq_getElem hlt
  have hrun := Process.step_runTask (s := s.process.withQueue [e]) halive hg rfl
  refine Option.isSome_iff_exists.mp ?_
  simp [Threads.finish, QueueState.step, hloop, hrun]

/-- Where nothing can go on, nothing is left. -/
theorem Inv.atRest_of_stuck {s : Threads} (h : s.Inv) (halive : s.process.crashed = false)
    (hstuck : ∀ a, serving a = true → s.step a = none) : s.AtRest := by
  have hqueue : ∀ b : QueueAction SessionId (SessionId × Event), b.serves = true →
      s.queue.step b = none := by
    intro b hb
    have hnone := hstuck (.serve b) hb
    simp only [Threads.step, halive, Bool.false_eq_true, if_false] at hnone
    by_cases hfinish : b = .finish
    · subst hfinish
      simp only [if_true] at hnone
      cases hloop : s.queue.loop with
      | running e call =>
        cases call with
        | none =>
          obtain ⟨s', hs'⟩ := h.finish_enabled halive hloop
          simp [QueueState.running, hloop, hs'] at hnone
        | some pc => simp [QueueState.step, hloop]
      | _ => simp [QueueState.step, hloop]
    · simpa [hfinish, hb] using hnone
  obtain ⟨hproducers, hpending, hloop⟩ := QueueState.rest_of_stuck hqueue
  have hserve : ∀ b : Action, b.serves = true → s.free b = true → b ≠ .runTask →
      s.process.step b = none := by
    intro b hb hfree hne
    cases hp : s.process.step b with
    | none => rfl
    | some p =>
      have hnone := hstuck (.js b) (by cases b <;> first | rfl | exact absurd rfl hne | cases hb)
      have hempty : p.queue = [] := ((h.wired.kept_of_serve hb hp).2 hne).trans h.handed
      simp [Threads.step, hfree, hp, Threads.post, hempty] at hnone
  have hidle : s.process.Idle := by
    refine Process.idle_of_stuck h.owned halive (fun b hb => ?_)
    cases b with
    | runTask =>
      have hnone : Process.step s.process .runTask = none := by
        simp [Process.step, halive, h.handed]
      exact hnone
    | runImmediate => exact hserve _ rfl (by simp [free, hloop, LoopPc.isIdle]) (by simp)
    | runReaction => exact hserve _ rfl (by simp [free, QueueState.running, hloop]) (by simp)
    | _ => cases hb
  exact ⟨hproducers, hpending, hloop, hidle.immediates, hidle.reactions⟩

/-- At rest a session has nothing pending. -/
theorem Inv.quiet_of_rest {s : Threads} (h : s.Inv) (hrest : s.AtRest) {i : SessionId} {l : Local}
    (hl : s.process.view i = some l) : (l.withQueue (s.waiting i)).Quiet := by
  obtain ⟨-, -, -, himmediates, hreactions⟩ := Process.view_eq_some hl
  have hq : s.queue.queue.q = [] := by
    by_contra hne
    rcases h.queue.awake hne with ⟨p, hp⟩ | hpending | hloop
    · rw [hrest.producers p] at hp
      cases hp
    · rw [hrest.pending] at hpending
      cases hpending
    · exact hloop hrest.loop
  refine ⟨?_, ?_, ?_⟩
  · simp [Local.withQueue, waiting, QueueState.tasks, QueueState.running, hrest.loop, hq,
      QueueState.unpushed, hrest.producers i]
  · exact himmediates.trans (by rw [hrest.immediates, share_nil])
  · exact hreactions.trans (by rw [hrest.reactions, share_nil])

/-! ## Where it ends -/

/-- Session `i` is as these reports of its engine call for: its start is
answered as was reported first, it is in the registry exactly if that was
joining, and then its picture shows the present users, if there are any and
none came before the registration. -/
structure Settled (s : Threads) (i : SessionId) (posted : List Event) (g : Session) : Prop where
  session : s.process.sessions[i]? = some g
  reports : g.posted = posted
  started : g.started = verdict posted
  registered : s.process.registered i g.sid = true ↔ verdict posted = .resolved
  picture : verdict posted = .resolved → (∀ ev ∈ g.early, user ev = none) → present posted ≠ [] →
    ∃ engine, g.sdk.current = some engine ∧
      engine.regionList.map Region.uid = present posted

theorem settled_of_rest {s : Threads} (hs : machine.Reachable s) (hrest : s.AtRest)
    {i : SessionId} {g : Session} (hg : s.process.sessions[i]? = some g) :
    s.Settled i g.posted g := by
  obtain ⟨l, hl, rfl⟩ := Process.exists_view hg
  have hquiet := (inv_reachable hs).quiet_of_rest hrest hl
  have hsound : (l.withQueue (s.waiting i)).Sound :=
    Local.reachable_keeps Local.sound_start Local.sound_step
      ((simulates_session i).reachable hs) _ (view_of_process hl)
  have hregistered : l.registered = s.process.registered i l.session.sid :=
    (Process.view_eq_some hl).2.1
  have hverdict : l.registered = true ↔ verdict l.session.posted = .resolved :=
    hsound.inv.registered_iff hquiet
  exact ⟨hg, rfl, hsound.inv.started_of_quiet hquiet, hregistered ▸ hverdict,
    fun hresolved hearly hsome =>
      hsound.shows_present hquiet (hverdict.mpr hresolved) hearly hsome⟩

/-- **Every session ends up as reported**: from any state in which the
process is running, and without new requests, storage callbacks or reports, no
scheduling of the engines' threads and the JavaScript thread goes on for more
than `work` steps; and when none of them can go on, every session is settled
by the reports its engine had made. -/
theorem settles {s s' : Threads} (hs : machine.Reachable s) (halive : s.process.crashed = false)
    {as : List ThreadAction} (hserving : ∀ a ∈ as, serving a = true)
    (hrun : machine.runFrom s as = some s') :
    as.length ≤ s.work ∧
      ((∀ a, serving a = true → s'.step a = none) →
        ∀ (i : SessionId) (g : Session), s.process.sessions[i]? = some g →
          ∃ g', s'.Settled i g.posted g') := by
  constructor
  · have hle := Machine.length_add_rank_le (M := machine) (I := Inv)
      (A := fun a => serving a = true) (r := work)
      (fun _ _ _ hi ha hstep => ⟨(hi.step hstep).1, (hi.work_step ha hstep).2⟩)
      (inv_reachable hs) hserving hrun
    exact Nat.le_of_add_right_le hle
  · intro hstuck i g hg
    obtain ⟨hinv, halive', g', hg', hposted⟩ :=
      Machine.runFrom_keeps_of_forall (M := machine)
        (I := fun t => t.Inv ∧ t.process.crashed = false ∧
          ∃ g', t.process.sessions[i]? = some g' ∧ g'.posted = g.posted)
        (A := fun a => serving a = true)
        (fun _ _ _ ⟨hinv, _, hkept⟩ ha hstep =>
          ⟨(hinv.step hstep).1, (hinv.work_step ha hstep).1, hinv.posted_step ha hstep hkept⟩)
        hserving ⟨inv_reachable hs, halive, g, hg, rfl⟩ hrun
    refine ⟨g', ?_⟩
    rw [← hposted]
    exact settled_of_rest (hs.runFrom hrun) (hinv.atRest_of_stuck halive' hstuck) hg'

/-- A user joined a started session; the report goes all the way, and
nothing is left. -/
theorem settles_joinedRun :
    ∃ s s', machine.run (joinedRun.take 16) = some s ∧
      machine.runFrom s (joinedRun.drop 16) = some s' ∧ (joinedRun.drop 16).length ≤ s.work ∧
        ∀ (i : SessionId) (g : Session), s.process.sessions[i]? = some g →
          ∃ g', s'.Settled i g.posted g' := by
  have hrun : (machine.run (joinedRun.take 16)).any (fun s =>
      (machine.runFrom s (joinedRun.drop 16)).any (fun s' =>
        !s.process.crashed && s'.work == 0)) = true := by decide
  obtain ⟨s, s', hs, hrest, hs', hends⟩ := Machine.exists_of_cut hrun
  obtain ⟨halive, hdone⟩ := Bool.and_eq_true_iff.mp hends
  obtain ⟨hbound, hsettled⟩ :=
    settles ⟨joinedRun.take 16, hs⟩ (by simpa using halive) (by decide) hrest
  refine ⟨s, s', hs, hrest, hbound, hsettled (fun a ha => ?_)⟩
  exact Machine.step_eq_none_of_rank (M := machine)
    (fun _ hstep => ((inv_reachable ⟨joinedRun, hs'⟩).work_step ha hstep).2) (beq_iff_eq.mp hdone)

end AgoraRecording.Server.Threads
