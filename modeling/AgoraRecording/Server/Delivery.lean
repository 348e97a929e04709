/-
AgoraRecording.Server.Delivery — what an engine reports about users
reaches the handlers.

When nothing is pending, a registered session's engine may report any user
event, and three steps later the session has handled it and nothing is
pending again (`Waits.deliver`). So every list of user events is the
history of some session (`exists_history`): a law about the histories of
registered sessions is a law about all lists of user events.
-/
import AgoraRecording.Server.StopTheorems
import AgoraRecording.Server.LayoutHistory

namespace AgoraRecording.Server

open AgoraRecording.Lib AgoraRecording.Js AgoraRecording.Native

/-- A registered session's engine may report anything. -/
theorem Local.Joined.raises {l : Local} (h : l.Joined) (hreg : l.registered = true) (ev : Event) :
    ∃ g, l.session.raise ev none = some { session := g, posted := [ev] } ∧
      g.late = l.session.late := by
  have hresolved := h.resolved hreg
  have hposted := h.posted_ne_nil (by simp [hresolved])
  have hengine := h.engine
  generalize l.session.created = created at hengine
  cases hengine with
  | absent ptr engines silent => exact absurd silent hposted
  | null ptr engines silent => exact absurd silent hposted
  | engine joinResult one errors =>
    -- its join was accepted, or every report would have been an error
    have hok : joinResult = errOk := by
      by_contra hfail
      have hall : ∀ ev ∈ l.session.early ++ l.session.late, ∃ err stat, ev = .error err stat := by
        intro ev hev
        have hmem : ev ∈ l.session.posted.filter handled := by
          rw [h.history]
          exact List.mem_append_left _ (List.mem_append_left _ hev)
        exact errors hfail ev (List.mem_filter.mp hmem).1
      have hverdict := h.verdict
      rw [hresolved] at hverdict
      cases hevs : l.session.early ++ l.session.late with
      | nil =>
        rw [hevs] at hverdict
        cases hverdict
      | cons ev evs =>
        obtain ⟨err, stat, rfl⟩ := hall ev (by simp [hevs])
        rw [hevs] at hverdict
        cases hverdict
    obtain ⟨engine, hengines, hjoined, -⟩ := one.engine
    have hmay : Session.mayRaise l.session.sdk ev = some 0 := by
      rw [Session.mayRaise, one.ptr, hengines]
      simp only [List.getElem?_cons_zero, hjoined, hok]
      cases ev <;> rfl
    obtain ⟨sdk, hsdk, -⟩ := one.onEvent ev none
      (fun e he => (raise_inChannel e ev).trans (congrArg (reportChannel · ev) he))
    exact ⟨{ l.session with sdk := sdk, posted := l.session.posted ++ [ev] },
      by simp only [Session.raise, hmay, hsdk], rfl⟩

namespace Process

/-! ## Steps that are due -/

theorem reachable_step {s s' : Process} {a : Action} (hs : machine.Reachable s)
    (hstep : s.step a = some s') : machine.Reachable s' :=
  Machine.Reachable.step (M := machine) hs hstep

theorem own_eq {s : Process} {i : SessionId} {g : Session} {f : Session → Option Turn} {t : Turn}
    (hg : s.sessions[i]? = some g) (ht : f g = some t) : s.own i f = some (s.take i t) := by
  rw [own, hg, Option.bind_some, ht, Option.map_some]

theorem step_raise {s : Process} {i : SessionId} {g : Session} {ev : Event} {dir : Option String}
    {t : Turn} (halive : s.crashed = false) (hg : s.sessions[i]? = some g)
    (ht : g.raise ev dir = some t) : s.step (.raise i ev dir) = some (s.take i t) := by
  simp only [step, halive, Bool.false_eq_true, if_false]
  exact own_eq hg ht

theorem step_runTask {s : Process} {i : SessionId} {g : Session} {ev : Event}
    {rest : List (SessionId × Event)} (halive : s.crashed = false)
    (hg : s.sessions[i]? = some g) (hnext : s.queue = (i, ev) :: rest) :
    s.step .runTask = some ({ s with queue := rest }.take i (g.task ev)) := by
  simp only [step, halive, Bool.false_eq_true, if_false, hnext]
  exact own_eq hg rfl

theorem step_runImmediate {s : Process} {i : SessionId} {g : Session} {ev : Event}
    {rest : List (SessionId × Event)} (hw : s.Wired) (halive : s.crashed = false)
    (hg : s.sessions[i]? = some g) (hnext : s.immediates = (i, ev) :: rest) :
    s.step .runImmediate =
      some ({ s with immediates := rest }.take i (g.emit (s.registered i g.sid) ev)) := by
  have hpopped : Wired { s with immediates := rest } := ⟨hw.sids, hw.plain, hw.entries⟩
  simp only [step, halive, Bool.false_eq_true, if_false, hnext, hg, Option.map_some]
  exact congrArg some (hpopped.emit_eq hg ev)

/-! ## One event -/

/-- Nothing is pending, and session `i` is registered. -/
structure Waits (s : Process) (sid : JsString) (i : SessionId) (g : Session) : Prop where
  reachable : machine.Reachable s
  alive : s.crashed = false
  idle : s.Idle
  find : s.find sid = .own i
  session : s.sessions[i]? = some g

/-- The engine of session `i` reports the event, and it is handled. -/
def deliver (i : SessionId) (ev : Event) : List Action :=
  [.raise i ev none, .runTask, .runImmediate]

/-- A registered session is subscribed. -/
theorem fired_task {s : Process} {sid : JsString} {i : SessionId} {g : Session} {ev : Event}
    (hs : machine.Reachable s) (hfind : s.find sid = .own i) (hg : s.sessions[i]? = some g)
    (huser : user ev ≠ none) : g.task ev = { session := g, fired := [ev] } := by
  obtain ⟨l, -, rfl, -, hjoined⟩ := exists_registered_view hs hfind hg
  have hhandled : handled ev = true := by
    cases ev <;> first | rfl | exact absurd rfl huser
  rw [Session.task_eq hjoined.subscribed, List.filter_cons_of_pos hhandled, List.filter_nil]

theorem registered_of_find {s : Process} {sid : JsString} {i : SessionId} {g : Session}
    (hs : machine.Reachable s) (hfind : s.find sid = .own i) (hg : s.sessions[i]? = some g) :
    s.registered i g.sid = true := by
  obtain ⟨l, hl, rfl, hreg, -⟩ := exists_registered_view hs hfind hg
  exact (view_eq_some hl).2.1.symm.trans hreg

theorem Waits.deliver {s : Process} {sid : JsString} {i : SessionId} {g : Session}
    (h : s.Waits sid i g) {ev : Event} (huser : user ev ≠ none) :
    ∃ s' g', machine.runFrom s (deliver i ev) = some s' ∧ s'.Waits sid i g' ∧
      g'.late = g.late ++ [ev] := by
  obtain ⟨hs, halive, ⟨hqueue, himm, hreact⟩, hfind, hg⟩ := h
  obtain ⟨l, hl, rfl, hreg, hjoined⟩ := exists_registered_view hs hfind hg
  -- the engine reports
  obtain ⟨g₁, hraise, hlate⟩ := hjoined.raises hreg ev
  have hstep₁ := step_raise halive hg hraise
  have hs₁ := reachable_step hs hstep₁
  have hfind₁ := find_step (reachable_wired hs).1 hfind hstep₁
  have hg₁ := take_sessions hg { session := g₁, posted := [ev] }
  have hnext₁ : (s.take i { session := g₁, posted := [ev] }).queue = (i, ev) :: [] := by
    simp [take, hqueue]
  -- its task is run
  have hstep₂ := step_runTask rfl hg₁ hnext₁
  rw [fired_task hs₁ hfind₁ hg₁ huser] at hstep₂
  have hs₂ := reachable_step hs₁ hstep₂
  have hfind₂ := find_step (reachable_wired hs₁).1 hfind₁ hstep₂
  have hg₂ := take_sessions hg₁ { session := g₁, fired := [ev] }
  have hnext₂ : (({ s.take i { session := g₁, posted := [ev] } with queue := [] } : Process).take i
      { session := g₁, fired := [ev] }).immediates = (i, ev) :: [] := by
    simp [take, himm]
  -- and the event emitted
  have hstep₃ := step_runImmediate (reachable_wired hs₂).1 rfl hg₂ hnext₂
  rw [registered_of_find hs₂ hfind₂ hg₂] at hstep₃
  obtain ⟨-, -, hheard, -⟩ := g₁.emit_registered ev
  have hturn : g₁.emit true ev = { session := (g₁.emit true ev).session } := by
    rw [Session.emit_eq_onUser _ _ huser]
  rw [hturn] at hstep₃
  refine ⟨_, (g₁.emit true ev).session, ?_, ⟨reachable_step hs₂ hstep₃, rfl, ⟨?_, ?_, ?_⟩, ?_, ?_⟩,
    hheard.trans (by rw [hlate])⟩
  · exact machine.runFrom_cons_some.mpr ⟨_, hstep₁, machine.runFrom_cons_some.mpr
      ⟨_, hstep₂, machine.runFrom_cons_some.mpr ⟨_, hstep₃, rfl⟩⟩⟩
  · simp [take]
  · simp [take]
  · simp [take, hreact]
  · exact find_step (reachable_wired hs₂).1 hfind₂ hstep₃
  · exact take_sessions hg₂ _

/-! ## Every history -/

/-- A started recording hears the events one after the other. -/
def userRun (evs : List Event) : List Action := startRun ++ evs.flatMap (deliver 0)

/-- **Every list of user events is a history.** -/
theorem exists_history (evs : List Event) (husers : ∀ ev ∈ evs, user ev ≠ none) :
    ∃ s g, machine.run (userRun evs) = some s ∧ s.Waits someSid 0 g ∧ g.late = evs := by
  induction evs using List.reverseRecOn with
  | nil =>
    have hrun : (machine.run startRun).map (fun s =>
        (s.crashed, s.sessions[0]?.map Session.late)) = some (false, some []) := by decide
    obtain ⟨s, hs, hfind, hidle⟩ := run_startRun
    rw [hs, Option.map_some, Option.some.injEq, Prod.mk.injEq, Option.map_eq_some_iff] at hrun
    obtain ⟨halive, g, hg, hlate⟩ := hrun
    exact ⟨s, g, by simpa [userRun] using hs, ⟨⟨_, hs⟩, halive, hidle, hfind, hg⟩, hlate⟩
  | append_singleton evs ev ih =>
    obtain ⟨s, g, hs, hwaits, hlate⟩ := ih (fun e he => husers e (List.mem_append_left _ he))
    obtain ⟨s', g', hs', hwaits', hlate'⟩ :=
      hwaits.deliver (husers ev (List.mem_append_right _ (List.mem_singleton.mpr rfl)))
    refine ⟨s', g', ?_, hwaits', by rw [hlate', hlate]⟩
    rw [userRun, List.flatMap_append, ← List.append_assoc, ← userRun, Machine.run,
      Machine.runFrom_append, show machine.runFrom machine.init (userRun evs) = some s from hs,
      Option.bind_some]
    simpa using hs'

end Process

end AgoraRecording.Server
