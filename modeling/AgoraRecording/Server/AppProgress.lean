/-
AgoraRecording.Server.AppProgress — every start is answered.

A start whose engine has reported is still several steps from its response:
the task of the report, its immediate, up to two reactions of the manager and
the one of the route. `work` counts them for all requests together, and every
step that serves lowers it (`Inv.work_step`), so without new requests and
reports the loop runs dry. Where no such step is left nothing is pending
(`Inv.quiet_of_stuck`), and then each start is answered exactly when its
engine has reported (`Inv.replies_eq`).
-/
import AgoraRecording.Server.AppTheorems
import AgoraRecording.Server.LoopProgress

namespace AgoraRecording.Server

open AgoraRecording.Lib AgoraRecording.Js AgoraRecording.Native

namespace App

variable {numberText : JsNumber → JsString} {host : Int}

/-! ## When there is a response -/

/-- Nothing is pending: no task, immediate or reaction of the manager, and
no reaction to a settled promise. -/
structure Quiet (s : App) : Prop where
  idle : s.process.Idle
  settled : ∀ k, s.settle k = none

/-- What a start is told, read off the reports of its engine. -/
def answer (g : Session) : List Reply :=
  match verdict g.posted with
  | .pending => []
  | .resolved => [.started g.sid]
  | .rejected => [.notFound]

/-- A start that is settled as its engine reported is answered so, once the
reaction to its promise has run. -/
theorem Wf.replies_eq {s : App} (h : s.Wf) {k : Nat} {x : Exchange} {i : SessionId} {g : Session}
    (hk : s.exchanges[k]? = some x) (hi : x.session = some i)
    (hg : s.process.sessions[i]? = some g) (hstarted : g.started = verdict g.posted)
    (hnone : s.settle k = none) : x.replies = answer g := by
  have hlinked := h.linked x (List.mem_of_getElem? hk)
  rw [Linked, hi] at hlinked
  obtain ⟨g', hg', htracks⟩ := hlinked
  have hgg : g' = g := Option.some.inj (hg'.symm.trans hg)
  subst hgg
  rw [htracks.replies, answer, ← hstarted]
  cases hwaiting : x.waiting with
  | false =>
    simp only [Bool.false_eq_true, if_false, settledReply]
    cases g'.started <;> rfl
  | true =>
    -- the promise is pending, or its reaction would be enabled
    simp only [App.settle, hk, hwaiting, if_true, hi, Option.bind_some, hg, Option.map_eq_none_iff]
      at hnone
    simp only [if_true]
    unfold settledReply at hnone
    cases hp : g'.started with
    | pending => rfl
    | resolved => simp [hp] at hnone
    | rejected => simp [hp] at hnone

/-- When nothing is pending, a start is answered as its engine reported. -/
theorem Inv.replies_eq {s : App} (h : s.Inv) (hq : s.Quiet) {k : Nat} {x : Exchange}
    {i : SessionId} {g : Session} (hk : s.exchanges[k]? = some x) (hi : x.session = some i)
    (hg : s.process.sessions[i]? = some g) : x.replies = answer g := by
  obtain ⟨l, hl, rfl⟩ := Process.exists_view hg
  exact h.toWf.replies_eq hk hi hg
    ((Process.reachable_inv h.process hl).started_of_quiet (hq.idle.quiet hl)) (hq.settled k)

/-! ## What is left to do -/

/-- No request, no storage callback and no report: the loop serves what is
pending. -/
def serving : AppAction → Bool
  | .process a => a.serves
  | .settled _ => true
  | .request _ _ _ => false

def work (s : App) : Nat := s.process.work + s.exchanges.countP Exchange.waiting

/-- An answer leaves one exchange less to wait for. -/
theorem countP_waiting_set {xs : List Exchange} {k : Nat} {x : Exchange} (hk : xs[k]? = some x)
    (hwaiting : x.waiting = true) (replies : List Reply) :
    (xs.set k { x with replies := replies, waiting := false }).countP Exchange.waiting <
      xs.countP Exchange.waiting := by
  obtain ⟨hlt, heq⟩ := List.getElem?_eq_some_iff.mp hk
  have hpos : 0 < xs.countP Exchange.waiting :=
    List.countP_pos_iff.mpr ⟨x, List.mem_of_getElem? hk, hwaiting⟩
  simp only [List.countP_set hlt, heq, hwaiting, if_true, Bool.false_eq_true, if_false]
  omega

/-- A step that serves: the process's own, or the response to a start. -/
theorem serve_cases {s s' : App} {a : AppAction} (ha : serving a = true)
    (h : s.step numberText host a = some s') :
    (∃ b process, b.serves = true ∧ s.process.step b = some process ∧
      s' = { s with process := process }) ∨
    ∃ k, s.process.crashed = false ∧ s.settle k = some s' := by
  unfold step at h
  split at h
  · cases h
  · rename_i halive
    cases a with
    | request r uuid readdirSync => cases ha
    | process b =>
      simp only at h
      split at h
      · obtain ⟨process, hstep, rfl⟩ := Option.map_eq_some_iff.mp h
        exact Or.inl ⟨b, process, ha, hstep, rfl⟩
      · cases h
    | settled k => exact Or.inr ⟨k, by simpa using halive, h⟩

/-- Serving does not end the process, and lowers what is left. -/
theorem Inv.work_step {s s' : App} {a : AppAction} (h : s.Inv) (ha : serving a = true)
    (hstep : s.step numberText host a = some s') :
    s'.process.crashed = false ∧ s'.work < s.work := by
  rcases serve_cases ha hstep with ⟨b, process, hb, hprocess, rfl⟩ | ⟨k, halive, hsettle⟩
  · obtain ⟨halive, hless⟩ := (Process.reachable_wired h.process).1.work_step hb hprocess
    exact ⟨halive, Nat.add_lt_add_right hless _⟩
  · obtain ⟨x, _, _, reply, hk, hwaiting, -, -, -, rfl⟩ := settle_eq_some hsettle
    exact ⟨halive, Nat.add_lt_add_left (countP_waiting_set hk hwaiting _) _⟩

theorem Inv.quiet_of_stuck {s : App} (h : s.Inv) (halive : s.process.crashed = false)
    (hstuck : ∀ a, serving a = true → s.step numberText host a = none) : s.Quiet := by
  constructor
  · refine Process.idle_of_stuck (Process.reachable_wired h.process).2 halive (fun a ha => ?_)
    have hnone := hstuck (.process a) ha
    have hinternal : a.internal = true := by
      cases a <;> first | rfl | cases ha
    simpa [App.step, halive, hinternal] using hnone
  · intro k
    have hnone := hstuck (.settled k) rfl
    simpa [App.step, halive] using hnone

/-! ## The response arrives -/

/-- Exchange `k` began session `i`, whose engine's reports call for these
responses. -/
structure Asked (s : App) (k : Nat) (i : SessionId) (replies : List Reply) : Prop where
  exchange : ∃ x : Exchange, s.exchanges[k]? = some x ∧ x.session = some i
  session : ∃ g : Session, s.process.sessions[i]? = some g ∧ answer g = replies

theorem Asked.settle {s s' : App} {j k : Nat} {i : SessionId} {replies : List Reply}
    (h : s.Asked k i replies) (hsettle : s.settle j = some s') : s'.Asked k i replies := by
  obtain ⟨x, _, _, reply, hj, -, -, -, -, rfl⟩ := settle_eq_some hsettle
  obtain ⟨⟨y, hy, hi⟩, hsession⟩ := h
  refine ⟨?_, hsession⟩
  by_cases hjk : j = k
  · subst hjk
    have hxy : x = y := Option.some.inj (hj.symm.trans hy)
    subst hxy
    exact ⟨_, List.getElem?_set_self (List.getElem?_eq_some_iff.mp hj).1, hi⟩
  · exact ⟨y, by rw [List.getElem?_set_ne hjk, hy], hi⟩

theorem Asked.step {s s' : App} {a : AppAction} {k : Nat} {i : SessionId} {replies : List Reply}
    (hinv : s.Inv) (h : s.Asked k i replies) (ha : serving a = true)
    (hstep : s.step numberText host a = some s') : s'.Asked k i replies := by
  rcases serve_cases ha hstep with ⟨b, process, hb, hprocess, rfl⟩ | ⟨j, -, hsettle⟩
  · obtain ⟨hexchange, g, hg, hreplies⟩ := h
    obtain ⟨g', hg', hsame, hposted⟩ :=
      (Process.reachable_wired hinv.process).1.posted_step hb hprocess hg
    refine ⟨hexchange, g', hg', ?_⟩
    rw [← hreplies, answer, answer, hposted, hsame.sid]
  · exact h.settle hsettle

/-- **Every start is answered**: from any state in which the process is
running, and without new requests, storage callbacks or reports, no order of
tasks, immediates and reactions goes on for more than `work` steps; and when
none of them can go on, each start has been answered exactly if its engine had
reported, with its sid if that was joining and with `Recorder not found` if it
was an error. -/
theorem answered {s s' : App} (hs : (machine numberText host).Reachable s)
    (halive : s.process.crashed = false) {as : List AppAction}
    (hserving : ∀ a ∈ as, serving a = true)
    (hrun : (machine numberText host).runFrom s as = some s') :
    as.length ≤ s.work ∧
      ((∀ a, serving a = true → s'.step numberText host a = none) →
        ∀ (k : Nat) (x : Exchange) (i : SessionId) (g : Session), s.exchanges[k]? = some x →
          x.session = some i → s.process.sessions[i]? = some g →
            ∃ x', s'.exchanges[k]? = some x' ∧ x'.replies = answer g) := by
  constructor
  · have hle := Machine.length_add_rank_le (M := machine numberText host) (I := Inv)
      (A := fun a => serving a = true) (r := work)
      (fun _ _ _ hi ha hstep => ⟨hi.step hstep, (hi.work_step ha hstep).2⟩)
      (inv_reachable hs) hserving hrun
    exact Nat.le_of_add_right_le hle
  · intro hstuck k x i g hk hi hg
    obtain ⟨hinv, halive', hasked⟩ :=
      Machine.runFrom_keeps_of_forall (M := machine numberText host)
        (I := fun t => t.Inv ∧ t.process.crashed = false ∧ t.Asked k i (answer g))
        (A := fun a => serving a = true)
        (fun _ _ _ ⟨hinv, _, hasked⟩ ha hstep =>
          ⟨hinv.step hstep, (hinv.work_step ha hstep).1, hasked.step hinv ha hstep⟩)
        hserving ⟨inv_reachable hs, halive, ⟨x, hk, hi⟩, g, hg, rfl⟩ hrun
    obtain ⟨⟨x', hk', hi'⟩, g', hg', hanswer⟩ := hasked
    refine ⟨x', hk', ?_⟩
    rw [← hanswer]
    exact hinv.replies_eq (hinv.quiet_of_stuck halive' hstuck) hk' hi' hg'

/-- Both engines have reported, and nothing is left where both clients are
answered. -/
theorem answered_failedRun :
    ∃ s s', (machine (fun _ => []) 0).run (failedRun.take 16) = some s ∧
      (machine (fun _ => []) 0).runFrom s (failedRun.drop 16) = some s' ∧
      (failedRun.drop 16).length ≤ s.work ∧
        ∀ (k : Nat) (x : Exchange) (i : SessionId) (g : Session), s.exchanges[k]? = some x →
          x.session = some i → s.process.sessions[i]? = some g →
            ∃ x', s'.exchanges[k]? = some x' ∧ x'.replies = answer g := by
  have hdone : ((machine (fun _ => []) 0).run failedRun).map work = some 0 := by decide
  obtain ⟨s, s', -, -, hs, halive, hrest, hs', -⟩ := run_failedRun
  rw [hs', Option.map_some, Option.some.injEq] at hdone
  obtain ⟨hbound, hanswered⟩ := answered ⟨failedRun.take 16, hs⟩ halive (by decide) hrest
  refine ⟨s, s', hs, hrest, hbound, hanswered (fun a ha => ?_)⟩
  exact Machine.step_eq_none_of_rank (M := machine (fun _ => []) 0)
    (fun _ hstep => ((inv_reachable ⟨failedRun, hs'⟩).work_step ha hstep).2) hdone

end App

end AgoraRecording.Server
