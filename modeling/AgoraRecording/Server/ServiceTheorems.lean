/-
AgoraRecording.Server.ServiceTheorems — what a client can rely on, whatever
the threads of the engines are doing.

A step of the threads leaves every session with its constants and its
answered start (`Threads.Inv.keeps`), and the manager's state is consistent
after it as before, because each session goes through a run of its own
machine (`Threads.consistent_of_reachable`). These two are all that the laws
of `AppTheorems` ask of the manager, so they hold of the whole server
(`clients_sound`).

`served` puts the two halves of progress together: the threads deliver each
report, the loop serves it, and the route writes the response.
-/
import AgoraRecording.Server.AppProgress
import AgoraRecording.Server.Service
import AgoraRecording.Server.ThreadsProgress

namespace AgoraRecording.Server

open AgoraRecording.Lib AgoraRecording.Js AgoraRecording.Native

/-! ## The manager among its threads -/

namespace Process

theorem Keeps.refl (p : Process) : p.Keeps p := fun _ g hg => ⟨g, hg, .refl g, fun _ => rfl⟩

/-- What waits in the queue does not matter. -/
theorem Keeps.withQueue {p p' : Process} (h : p.Keeps p') (queue : List (SessionId × Event)) :
    p.Keeps (p'.withQueue queue) := h

end Process

namespace Threads

theorem consistent_of_reachable {s : Threads} (hs : machine.Reachable s) :
    s.process.Consistent where
  wired := (inv_reachable hs).wired
  sessions := fun i _ hl =>
    ⟨s.waiting i, Local.reachable_keeps Local.inv_start
      (fun _ _ _ h hstep => Local.inv_step h hstep)
      ((simulates_session i).reachable hs) _ (view_of_process hl)⟩

theorem Inv.keeps_hand {s s' : Threads} {a : Action} (h : s.Inv)
    (hstep : (s.process.step a).bind s.post = some s') : s.process.Keeps s'.process := by
  obtain ⟨p, hp, hpost⟩ := Option.bind_eq_some_iff.mp hstep
  rcases post_eq_some hpost with ⟨-, rfl⟩ | ⟨_, -, -, rfl⟩
  · exact h.wired.keeps hp
  · exact (h.wired.keeps hp).withQueue []

/-- A step keeps every session and its settled start. -/
theorem Inv.keeps {s s' : Threads} {a : ThreadAction} (h : s.Inv) (hstep : s.step a = some s') :
    s.process.Keeps s'.process := by
  cases a with
  | js a =>
    simp only [Threads.step] at hstep
    split at hstep
    · exact h.keeps_hand hstep
    · cases hstep
  | raise i ev dir =>
    simp only [Threads.step] at hstep
    split at hstep
    · exact h.keeps_hand hstep
    · cases hstep
  | serve a =>
    simp only [Threads.step] at hstep
    split at hstep
    · cases hstep
    split at hstep
    · obtain ⟨e, -, hfinish⟩ := Option.bind_eq_some_iff.mp hstep
      obtain ⟨-, hp⟩ := finish_eq_some hfinish
      exact (h.wired.withQueue [e]).keeps hp
    · split at hstep
      · obtain ⟨queue, -, rfl⟩ := Option.map_eq_some_iff.mp hstep
        exact .refl s.process
      · cases hstep

end Threads

/-! ## The routes among the threads -/

namespace Service

variable {numberText : JsNumber → JsString} {host : Int}

structure Inv (s : Service) : Prop where
  threads : Threads.machine.Reachable s.threads
  app : s.app.Wf

/-- A start request is a step of the manager. -/
theorem Inv.start_step {s : Service} (h : s.Inv) (hidle : s.threads.queue.loop.isIdle = true)
    {sid : JsString} {key : Option Json} {appid channel : Json} {process : Process}
    (hstep : s.threads.process.step (.start sid key appid channel) = some process) :
    s.threads.step (.js (.start sid key appid channel)) =
      some (Threads.mk process s.threads.queue) := by
  have hinv := Threads.inv_reachable h.threads
  have hqueue : process.queue = [] := by
    obtain ⟨-, ⟨_, _, _, _, -, -, rfl⟩ | ⟨_, heq, -⟩ | ⟨_, _, _, _, _, ht, -⟩⟩ :=
      hinv.wired.step_cases hstep
    · exact hinv.handed
    · cases heq
    · cases ht
  have hfree : s.threads.free (.start sid key appid channel) = true := hidle
  rw [Threads.step, if_pos hfree, hstep, Option.bind_some, Threads.post, hqueue]

/-- **The step lemma.** -/
theorem Inv.step {s s' : Service} {a : ServiceAction} (h : s.Inv)
    (hstep : s.step numberText host a = some s') : s'.Inv := by
  have hinv := Threads.inv_reachable h.threads
  cases a with
  | request r uuid readdirSync =>
    simp only [Service.step] at hstep
    split at hstep
    · rename_i hidle
      obtain ⟨t, ht, rfl⟩ := Option.map_eq_some_iff.mp hstep
      simp only [App.step] at ht
      split at ht
      · cases ht
      have hreceived := App.received_of_receive ht
      refine ⟨?_, h.app.receive hinv.wired hreceived⟩
      cases hreceived with
      | closed _ _ _ _ _ eq => exact eq ▸ h.threads
      | began _ _ _ process _ step eq =>
        subst eq
        exact h.threads.step (a := .js (.start _ _ _ _)) (h.start_step hidle step)
    · cases hstep
  | threads a =>
    simp only [Service.step] at hstep
    split at hstep
    · obtain ⟨threads, hthreads, rfl⟩ := Option.map_eq_some_iff.mp hstep
      exact ⟨h.threads.step hthreads, h.app.move (hinv.keeps hthreads)⟩
    · cases hstep
  | settled k =>
    simp only [Service.step] at hstep
    split at hstep
    · obtain ⟨t, ht, rfl⟩ := Option.map_eq_some_iff.mp hstep
      simp only [App.step] at ht
      split at ht
      · cases ht
      refine ⟨?_, h.app.settle ht⟩
      obtain ⟨_, _, _, _, -, -, -, -, -, rfl⟩ := App.settle_eq_some ht
      exact h.threads
    · cases hstep

theorem inv_reachable {s : Service} (hs : (machine numberText host).Reachable s) : s.Inv :=
  Machine.Reachable.induct (I := Inv)
    ⟨Machine.Reachable.init, by simp [machine, app], by simp [machine, app]⟩
    (fun _ _ _ _ hi hstep => hi.step hstep) hs

/-- **What a client can rely on**, under every scheduling of the engines'
threads: what `replies_sound` says of the routes over the idealised manager. -/
theorem clients_sound {s : Service} (hs : (machine numberText host).Reachable s) {k : Nat}
    {x : Exchange} (hk : s.exchanges[k]? = some x) :
    x.replies.length ≤ 1 ∧
    (∀ sid, .started sid ∈ x.replies → s.app.Recorded x sid ∧
      (s.threads.process.postStop numberText (Process.stopBody (.string sid))).1 = .success ∧
      ∀ k' x', s.exchanges[k']? = some x' → .started sid ∈ x'.replies → k' = k) ∧
    (.notFound ∈ x.replies → s.app.Failed x) := by
  have hinv := inv_reachable hs
  exact hinv.app.responses_sound numberText (Threads.consistent_of_reachable hinv.threads) hk

/-- Both clients are answered: one told its sid, one that its start failed. -/
theorem clients_sound_failedRun :
    ∃ s x y, (machine (fun _ => []) 0).run failedRun = some s ∧ s.exchanges = [x, y] ∧
      s.app.Recorded x Process.someSid ∧ s.app.Failed y := by
  have hrun : ((machine (fun _ => []) 0).run failedRun).map (fun s =>
      s.exchanges.map Exchange.replies) = some [[.started Process.someSid], [.notFound]] := by
    decide
  obtain ⟨s, hs, heq⟩ := Option.map_eq_some_iff.mp hrun
  obtain ⟨x, rest, hxs, hx, hrest⟩ := List.map_eq_cons_iff.mp heq
  obtain ⟨y, rfl, hy⟩ := List.map_eq_singleton_iff.mp hrest
  have hfirst := clients_sound ⟨failedRun, hs⟩ (k := 0) (x := x) (by rw [hxs]; rfl)
  have hsecond := clients_sound ⟨failedRun, hs⟩ (k := 1) (x := y) (by rw [hxs]; rfl)
  exact ⟨s, x, y, hs, hxs, (hfirst.2.1 _ (by simp [hx])).1, hsecond.2.2 (by simp [hy])⟩

/-! ## What is left to do -/

/-- No request, no storage callback and no report. -/
def serving : ServiceAction → Bool
  | .request _ _ _ => false
  | .threads a => Threads.serving a
  | .settled _ => true

def work (s : Service) : Nat := s.threads.work + s.exchanges.countP Exchange.waiting

theorem internal_of_serving {a : ThreadAction} (ha : Threads.serving a = true) :
    a.internal = true := by
  cases a with
  | js b => cases b <;> first | rfl | cases ha
  | raise i ev dir => rfl
  | serve b => rfl

/-- A step that serves: one of the threads, or the response to a start. -/
theorem serve_cases {s s' : Service} {a : ServiceAction} (ha : serving a = true)
    (h : s.step numberText host a = some s') :
    (∃ b threads, Threads.serving b = true ∧ s.threads.step b = some threads ∧
      s' = { s with threads := threads }) ∨
    ∃ k t, s.threads.process.crashed = false ∧ s.app.settle k = some t ∧ s' = s.withApp t := by
  cases a with
  | request r uuid readdirSync => cases ha
  | threads b =>
    simp only [step, internal_of_serving ha, if_true] at h
    obtain ⟨threads, hthreads, rfl⟩ := Option.map_eq_some_iff.mp h
    exact Or.inl ⟨b, threads, ha, hthreads, rfl⟩
  | settled k =>
    simp only [step] at h
    split at h
    · obtain ⟨t, ht, rfl⟩ := Option.map_eq_some_iff.mp h
      simp only [App.step] at ht
      split at ht
      · cases ht
      · rename_i halive
        exact Or.inr ⟨k, t, by simpa [app] using halive, ht, rfl⟩
    · cases h

/-- Serving does not end the process, and lowers what is left. -/
theorem Inv.work_step {s s' : Service} {a : ServiceAction} (h : s.Inv) (ha : serving a = true)
    (hstep : s.step numberText host a = some s') :
    s'.threads.process.crashed = false ∧ s'.work < s.work := by
  rcases serve_cases ha hstep with ⟨b, threads, hb, hthreads, rfl⟩ | ⟨k, t, halive, ht, rfl⟩
  · obtain ⟨halive, hless⟩ := (Threads.inv_reachable h.threads).work_step hb hthreads
    exact ⟨halive, Nat.add_lt_add_right hless _⟩
  · obtain ⟨x, _, _, reply, hk, hwaiting, -, -, -, rfl⟩ := App.settle_eq_some ht
    exact ⟨halive, Nat.add_lt_add_left (App.countP_waiting_set hk hwaiting _) _⟩

/-! ## Where it ends -/

/-- Exchange `k` began session `i`, whose engine has made these reports. -/
structure Asked (s : Service) (k : Nat) (i : SessionId) (replies : List Reply)
    (posted : List Event) : Prop where
  asked : s.app.Asked k i replies
  posted : ∃ g, s.threads.process.sessions[i]? = some g ∧ g.posted = posted

theorem Asked.step {s s' : Service} {a : ServiceAction} {k : Nat} {i : SessionId}
    {replies : List Reply} {posted : List Event} (hinv : s.Inv) (h : s.Asked k i replies posted)
    (ha : serving a = true) (hstep : s.step numberText host a = some s') :
    s'.Asked k i replies posted := by
  have hthreads := Threads.inv_reachable hinv.threads
  rcases serve_cases ha hstep with ⟨b, threads, hb, hb', rfl⟩ | ⟨j, t, -, ht, rfl⟩
  · obtain ⟨⟨hexchange, g, hg, hreplies⟩, hposted⟩ := h
    obtain ⟨g', hg', hsame, -⟩ := hthreads.keeps hb' i g hg
    obtain ⟨g'', hg'', heq⟩ := hthreads.posted_step hb hb' ⟨g, hg, rfl⟩
    have hgg : g'' = g' := Option.some.inj (hg''.symm.trans hg')
    subst hgg
    refine ⟨⟨hexchange, g'', hg', ?_⟩, hthreads.posted_step hb hb' hposted⟩
    rw [← hreplies, App.answer, App.answer, heq, hsame.sid]
  · refine ⟨h.asked.settle ht, ?_⟩
    obtain ⟨_, _, _, _, -, -, -, -, -, rfl⟩ := App.settle_eq_some ht
    exact h.posted

/-- Where nothing can go on, no thread can and no reaction is due. -/
theorem rest_of_stuck {s : Service} (hinv : s.Inv) (halive : s.threads.process.crashed = false)
    (hstuck : ∀ a, serving a = true → s.step numberText host a = none) :
    s.threads.AtRest ∧ ∀ k, s.app.settle k = none := by
  have hrest : s.threads.AtRest := by
    refine (Threads.inv_reachable hinv.threads).atRest_of_stuck halive (fun a ha => ?_)
    have hnone := hstuck (.threads a) ha
    simpa [Service.step, internal_of_serving ha] using hnone
  refine ⟨hrest, fun k => ?_⟩
  have hnone := hstuck (.settled k) rfl
  simpa [Service.step, QueueState.running, hrest.loop, App.step, app, halive] using hnone

/-- **Every client is served**: from any state in which the process is
running, and without new requests, storage callbacks or reports, no scheduling
of the engines' threads, the loop and the routes goes on for more than `work`
steps; and when nothing can go on, each start is answered as its engine
reported, and its session is settled by those reports. -/
theorem served {s s' : Service} (hs : (machine numberText host).Reachable s)
    (halive : s.threads.process.crashed = false) {as : List ServiceAction}
    (hserving : ∀ a ∈ as, serving a = true)
    (hrun : (machine numberText host).runFrom s as = some s') :
    as.length ≤ s.work ∧
      ((∀ a, serving a = true → s'.step numberText host a = none) →
        ∀ (k : Nat) (x : Exchange) (i : SessionId) (g : Session), s.exchanges[k]? = some x →
          x.session = some i → s.threads.process.sessions[i]? = some g →
            ∃ x' g', s'.exchanges[k]? = some x' ∧ x'.replies = App.answer g ∧
              s'.threads.Settled i g.posted g') := by
  constructor
  · have hle := Machine.length_add_rank_le (M := machine numberText host) (I := Inv)
      (A := fun a => serving a = true) (r := work)
      (fun _ _ _ hi ha hstep => ⟨hi.step hstep, (hi.work_step ha hstep).2⟩)
      (inv_reachable hs) hserving hrun
    exact Nat.le_of_add_right_le hle
  · intro hstuck k x i g hk hi hg
    obtain ⟨hinv, halive', ⟨⟨x', hk', hi'⟩, g₁, hg₁, hanswer⟩, g', hg', hposted⟩ :=
      Machine.runFrom_keeps_of_forall (M := machine numberText host)
        (I := fun t => t.Inv ∧ t.threads.process.crashed = false ∧
          t.Asked k i (App.answer g) g.posted)
        (A := fun a => serving a = true)
        (fun _ _ _ ⟨hinv, _, hasked⟩ ha hstep =>
          ⟨hinv.step hstep, (hinv.work_step ha hstep).1, hasked.step hinv ha hstep⟩)
        hserving ⟨inv_reachable hs, halive, ⟨⟨x, hk, hi⟩, g, hg, rfl⟩, g, hg, rfl⟩ hrun
    have hgg : g₁ = g' := Option.some.inj (hg₁.symm.trans hg')
    subst hgg
    obtain ⟨hrest, hsettle⟩ := rest_of_stuck hinv halive' hstuck
    have hsettled := Threads.settled_of_rest hinv.threads hrest hg'
    refine ⟨x', g₁, hk', ?_, hposted ▸ hsettled⟩
    rw [← hanswer]
    exact hinv.app.replies_eq hk' hi' hg' hsettled.started (hsettle k)

/-- The second engine has reported, and the report goes all the way to its
client. Nothing is left then. -/
theorem served_failedRun :
    ∃ s s', (machine (fun _ => []) 0).run (failedRun.take 22) = some s ∧
      (machine (fun _ => []) 0).runFrom s (failedRun.drop 22) = some s' ∧
      (failedRun.drop 22).length ≤ s.work ∧
        ∀ (k : Nat) (x : Exchange) (i : SessionId) (g : Session), s.exchanges[k]? = some x →
          x.session = some i → s.threads.process.sessions[i]? = some g →
            ∃ x' g', s'.exchanges[k]? = some x' ∧ x'.replies = App.answer g ∧
              s'.threads.Settled i g.posted g' := by
  have hrun : ((machine (fun _ => []) 0).run (failedRun.take 22)).any (fun s =>
      ((machine (fun _ => []) 0).runFrom s (failedRun.drop 22)).any (fun s' =>
        !s.threads.process.crashed && s'.work == 0)) = true := by decide
  obtain ⟨s, s', hs, hrest, hs', hends⟩ := Machine.exists_of_cut hrun
  obtain ⟨halive, hdone⟩ := Bool.and_eq_true_iff.mp hends
  obtain ⟨hbound, hserved⟩ :=
    served ⟨failedRun.take 22, hs⟩ (by simpa using halive) (by decide) hrest
  refine ⟨s, s', hs, hrest, hbound, hserved (fun a ha => ?_)⟩
  exact Machine.step_eq_none_of_rank (M := machine (fun _ => []) 0)
    (fun _ hstep => ((inv_reachable ⟨failedRun, hs'⟩).work_step ha hstep).2) (beq_iff_eq.mp hdone)

end Service

end AgoraRecording.Server
