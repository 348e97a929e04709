/-
AgoraRecording.Server.RegistryTheorems — when the registry lists only
live recordings.

An engine can end its session on its own, by an error or by leaving. The
error does reach the manager, whose listener calls `onCleanup`; the leave
is posted under a name no callback is subscribed to and is dropped. As
`onCleanup` deletes nothing, either way the entry stays. So when nothing
is pending, the registry lists only live recordings exactly in the runs
in which no engine that reported joining first has ended its session
since (`registry_live_iff`).
-/
import AgoraRecording.Server.StopTheorems

namespace AgoraRecording.Server.Process

open AgoraRecording.Lib AgoraRecording.Js AgoraRecording.Native

/-- Every entry belongs to a session whose engine has raised neither an
error nor a leave since it joined. -/
def ListsOnlyLive (s : Process) : Prop :=
  ∀ sid i g, s.find sid = .own i → s.sessions[i]? = some g → Live g.posted

/-- When nothing is pending, the registry holds exactly the sessions whose
engine reported joining before any error. -/
theorem Idle.find_iff {s : Process} (hs : machine.Reachable s) (h : s.Idle) {i : SessionId}
    {g : Session} (hg : s.sessions[i]? = some g) :
    s.find g.sid = .own i ↔ verdict g.posted = .resolved := by
  obtain ⟨l, hl, rfl⟩ := exists_view hg
  rw [← (reachable_inv hs hl).registered_iff (h.quiet hl), (view_eq_some hl).2.1,
    (reachable_wired hs).1.find_eq hg]
  cases s.registered i l.session.sid <;> simp

/-- **The exact condition.** -/
theorem registry_live_iff {s : Process} (hs : machine.Reachable s) (h : s.Idle) :
    s.ListsOnlyLive ↔
      ∀ g ∈ s.sessions, verdict g.posted = .resolved → Live g.posted := by
  constructor
  · intro hlive g hmem hjoined
    obtain ⟨i, hg⟩ := List.mem_iff_getElem?.mp hmem
    exact hlive g.sid i g ((h.find_iff hs hg).mpr hjoined) hg
  · intro hended sid i g hfind hg
    obtain ⟨l, hl, rfl, -⟩ := (reachable_wired hs).1.exists_session hfind
    have hgl : l.session = g := Option.some.inj ((view_eq_some hl).1.symm.trans hg)
    subst hgl
    exact hended l.session (List.mem_of_getElem? hg) ((h.find_iff hs hg).mp hfind)

theorem registry_live_startRun :
    ∃ s, machine.run startRun = some s ∧ s.Idle ∧
      (s.ListsOnlyLive ↔ ∀ g ∈ s.sessions, verdict g.posted = .resolved → Live g.posted) := by
  obtain ⟨s, hs, -, hidle⟩ := run_startRun
  exact ⟨s, hs, hidle, registry_live_iff ⟨startRun, hs⟩ hidle⟩

/-- The engine of a started recording reports an error. -/
def endedRun : List Action :=
  startRun ++ [.raise 0 (.error 5 6) none, .runTask, .runImmediate]

/-- The registry still lists it. -/
theorem not_lists_only_live_endedRun :
    ¬ ∀ as s, (∀ a ∈ as, ∀ sid, a ≠ .stop sid) → machine.run as = some s → s.Idle →
      s.ListsOnlyLive := by
  intro h
  have hnostop : ∀ a ∈ endedRun, ∀ sid, a ≠ .stop sid := by
    simp [endedRun, startRun, joinRun]
  have hrun : (machine.run endedRun).map (fun s => (s.queue, s.immediates, s.reactions)) =
      some ([], [], []) := by decide
  have hentry : (machine.run endedRun).map (fun s =>
      (s.find someSid, s.sessions.map Session.posted)) =
        some (.own 0, [[.joinchannel [99] 0, .error 5 6]]) := by decide
  obtain ⟨s, hs, heq⟩ := Option.map_eq_some_iff.mp hrun
  rw [hs, Option.map_some, Option.some.injEq, Prod.mk.injEq] at hentry
  obtain ⟨hfind, hposted⟩ := hentry
  simp only [Prod.mk.injEq] at heq
  obtain ⟨l, hl, -, -⟩ := (reachable_wired ⟨endedRun, hs⟩).1.exists_session hfind
  have hg := (view_eq_some hl).1
  have hidle : s.Idle := ⟨heq.1, heq.2.1, heq.2.2⟩
  have hlive := h endedRun s hnostop hs hidle someSid 0 l.session hfind hg
  have hhist : l.session.posted = [.joinchannel [99] 0, .error 5 6] := by
    have hget : (s.sessions.map Session.posted)[0]? = some l.session.posted := by
      rw [List.getElem?_map, hg]
      rfl
    rw [hposted] at hget
    exact (Option.some.inj hget).symm
  rw [hhist] at hlive
  exact absurd (hlive (.error 5 6) (List.mem_singleton.mpr rfl)) (by decide)

end AgoraRecording.Server.Process
