/-
AgoraRecording.Server.PresenceTheorems — when a recorded layout shows
everyone.

The user handlers are subscribed before the join, but they look their
recorder up in a registry that a later reaction fills. An event emitted
before that reaction has run finds nothing and is dropped; what is
emitted afterwards is folded into the layout without loss. So a layout is
complete exactly when nobody who was present at the registration has been
silent since (`shows_present_iff`).

The question is asked of a start that was answered, in a state where
nothing of the session is on its way (`Local.Quiet`).
-/
import AgoraRecording.Server.Delivery

namespace AgoraRecording.Server

open AgoraRecording.Lib AgoraRecording.Js AgoraRecording.Native

/-- The layout shows exactly the users who joined and have not left. -/
def Local.ShowsPresent (l : Local) : Prop :=
  ∀ u, u ∈ l.session.layout.regions.map JsRegion.uid ↔ u ∈ present l.session.posted

namespace Process

/-- **The exact condition**: once a start is answered and the session is
quiet, its layout shows everyone present if and only if each user who was
present among the events emitted before the registration has been heard of
again. -/
theorem shows_present_iff {s : Process} (hs : machine.Reachable s) {i : SessionId} {l : Local}
    (hl : s.view i = some l) (hstarted : l.session.started = .resolved) (hq : l.Quiet) :
    l.ShowsPresent ↔
      ∀ u ∈ present l.session.early, ∃ ev ∈ l.session.late, user ev = some u := by
  have hjoined := (reachable_inv hs hl).joined_of_started (by simp [hstarted])
  have hposted : present l.session.posted = present (l.session.early ++ l.session.late) := by
    rw [← present_filter_handled, hjoined.posted_eq hq]
  rw [← present_append_iff]
  unfold Local.ShowsPresent
  rw [hposted]
  exact forall_congr' (fun u => by rw [hjoined.layout u])

/-- A user joins after the registration. -/
def lateUserRun : List Action :=
  startRun ++ [.raise 0 (.userjoin 7) none, .runTask, .runImmediate]

theorem shows_present_lateUserRun :
    ∃ s l, machine.run lateUserRun = some s ∧ s.view 0 = some l ∧ l.session.started = .resolved ∧
      l.Quiet ∧ (l.ShowsPresent ↔
        ∀ u ∈ present l.session.early, ∃ ev ∈ l.session.late, user ev = some u) := by
  obtain ⟨s, g, hs, hwaits, -⟩ := exists_history [.userjoin 7] (by decide)
  obtain ⟨l, hl, -, hreg, hjoined⟩ :=
    exists_registered_view hwaits.reachable hwaits.find hwaits.session
  have hstarted := hjoined.aftermath.started_iff.mpr hreg
  have hq := hwaits.idle.quiet hl
  exact ⟨s, l, hs, hl, hstarted, hq, shows_present_iff hwaits.reachable hl hstarted hq⟩

/-- A user joins while the registration is still a pending reaction. -/
def earlyUserRun : List Action :=
  joinRun ++ [.raise 0 (.joinchannel [99] 0) none, .raise 0 (.userjoin 7) none, .runTask, .runTask,
    .runImmediate, .runImmediate, .runReaction]

/-- That user is never shown. -/
theorem not_shows_present_earlyUserRun :
    ¬ ∀ s, machine.Reachable s → ∀ i l, s.view i = some l →
      alternates [] l.session.posted = true → l.session.started = .resolved → l.Quiet →
      l.ShowsPresent := by
  intro h
  have hrun : ((machine.run earlyUserRun).bind (fun s => s.view 0)).map (fun l =>
      ((l.session.started, l.queue, l.immediates, l.reactions),
        l.session.layout.regions.length, l.session.posted)) =
          some ((.resolved, [], [], []), 0, [.joinchannel [99] 0, .userjoin 7]) := by decide
  obtain ⟨l, hl, heq⟩ := Option.map_eq_some_iff.mp hrun
  obtain ⟨s, hs, hview⟩ := Option.bind_eq_some_iff.mp hl
  simp only [Prod.mk.injEq] at heq
  obtain ⟨⟨hstarted, hqueue, himmediates, hreactions⟩, hregions, hposted⟩ := heq
  have hshows := h s ⟨earlyUserRun, hs⟩ 0 l hview (by rw [hposted]; rfl) hstarted
    ⟨hqueue, himmediates, hreactions⟩ 7
  rw [List.length_eq_zero_iff.mp hregions, hposted] at hshows
  exact absurd (hshows.mpr (by decide)) List.not_mem_nil

end Process

end AgoraRecording.Server
