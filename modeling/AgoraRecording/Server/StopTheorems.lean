/-
AgoraRecording.Server.StopTheorems — what a stop request does to a
recording.

`RecordManager.stop` calls `onCleanup`, and the statements of `onCleanup`
that would leave the channel, release the engine and delete the entry are
commented out; nothing else in the program deletes an entry or calls
`leaveChannel` or `release`. So an entry, once made, is there in every
later state (`find_keeps`), with the one engine its session created still
in use (`registered_engine`), and a stop request for it succeeds again
every time.
-/
import AgoraRecording.Server.SessionInvariant

namespace AgoraRecording.Server.Process

open AgoraRecording.Lib AgoraRecording.Js AgoraRecording.Native

/-! ## Entries -/

theorem recorders_of_find {s : Process} {sid : JsString} {i : SessionId}
    (h : s.find sid = .own i) : s.recorders.lookup sid = some i := by
  unfold find at h
  split at h
  · rename_i j hj
    cases h
    exact hj
  · split at h <;> cases h

theorem find_of_recorders {s : Process} {sid : JsString} {i : SessionId}
    (h : s.recorders.lookup sid = some i) : s.find sid = .own i := by
  rw [find, h]

/-- The session an entry leads to. -/
theorem Wired.exists_session {s : Process} {sid : JsString} {i : SessionId} (h : s.Wired)
    (hfind : s.find sid = .own i) :
    ∃ l, s.view i = some l ∧ l.session.sid = sid ∧ l.registered = true := by
  obtain ⟨g, hg, rfl⟩ := h.entries sid i (recorders_of_find hfind)
  obtain ⟨l, hl, rfl⟩ := exists_view hg
  refine ⟨l, hl, rfl, ?_⟩
  rw [(view_eq_some hl).2.1, registered, recorders_of_find hfind]
  exact beq_self_eq_true _

/-- No step takes an entry away. -/
theorem find_step {s s' : Process} {a : Action} {sid : JsString} {i : SessionId} (h : s.Wired)
    (hfind : s.find sid = .own i) (hstep : s.step a = some s') : s'.find sid = .own i := by
  obtain ⟨-, ⟨_, _, _, _, -, -, rfl⟩ | ⟨_, -, rfl⟩ | ⟨j, g, m, t, s₀, ht, rfl⟩⟩ :=
    h.step_cases hstep
  · exact hfind
  · exact hfind
  · have hold := recorders_of_find hfind
    apply find_of_recorders
    unfold take
    rw [ht.popped.2.1]
    simp only
    split
    · rw [List.lookup_cons]
      split
      · rename_i heq
        -- an entry made now under this sid is this session's
        obtain ⟨g', hg', hsid⟩ := h.entries sid i hold
        have hsame : g'.sid = g.sid := by rw [hsid, eq_of_beq heq, ht.same.sid]
        rw [h.sids i j g' g hg' ht.get hsame]
      · exact hold
    · exact hold

theorem entry_step {s s' : Process} {a : Action} {sid : JsString} {i : SessionId}
    (h : machine.Reachable s ∧ s.find sid = .own i) (hstep : s.step a = some s') :
    machine.Reachable s' ∧ s'.find sid = .own i :=
  ⟨h.1.step hstep, find_step (reachable_wired h.1).1 h.2 hstep⟩

theorem find_keeps {s s' : Process} {as : List Action} {sid : JsString} {i : SessionId}
    (hs : machine.Reachable s) (hfind : s.find sid = .own i)
    (hrun : machine.runFrom s as = some s') : s'.find sid = .own i :=
  (Machine.runFrom_keeps (I := fun t => machine.Reachable t ∧ t.find sid = .own i)
    (fun _ _ _ h hstep => entry_step h hstep) ⟨hs, hfind⟩ hrun).2

/-- A registered session has called the native join. -/
theorem exists_registered {s : Process} {sid : JsString} {i : SessionId}
    (hs : machine.Reachable s) (hfind : s.find sid = .own i) :
    ∃ l, s.view i = some l ∧ l.session.sid = sid ∧ l.registered = true ∧ l.Inv ∧ l.Joined := by
  obtain ⟨l, hl, hsid, hreg⟩ := (reachable_wired hs).1.exists_session hfind
  have hinv := reachable_inv hs hl
  exact ⟨l, hl, hsid, hreg, hinv, hinv.joined_of_registered hreg⟩

theorem exists_registered_view {s : Process} {sid : JsString} {i : SessionId} {g : Session}
    (hs : machine.Reachable s) (hfind : s.find sid = .own i) (hg : s.sessions[i]? = some g) :
    ∃ l, s.view i = some l ∧ l.session = g ∧ l.registered = true ∧ l.Joined := by
  obtain ⟨l, hl, -, hreg, -, hjoined⟩ := exists_registered hs hfind
  exact ⟨l, hl, Option.some.inj ((view_eq_some hl).1.symm.trans hg), hreg, hjoined⟩

/-- And it has its one engine, neither left nor released. -/
theorem registered_engine {s : Process} {sid : JsString} {i : SessionId}
    (hs : machine.Reachable s) (hfind : s.find sid = .own i) :
    ∃ g engine, s.sessions[i]? = some g ∧ g.sid = sid ∧ g.sdk.engines = [engine] ∧
      engine.left = false ∧ engine.released = 0 := by
  obtain ⟨l, hl, hsid, hreg, -, hjoined⟩ := exists_registered hs hfind
  obtain ⟨engine, hengines, hleft, hreleased⟩ :=
    hjoined.exists_engine (by simp [hjoined.resolved hreg])
  exact ⟨l.session, engine, (view_eq_some hl).1, hsid, hengines, hleft, hreleased⟩

/-! ## Stopping -/

/-- What a stop request that succeeds should have done. -/
structure Ended (s : Process) (sid : JsString) (i : SessionId) (s' : Process) : Prop where
  gone : s'.find sid = .missing
  released : ∀ g, s'.sessions[i]? = some g →
    ∀ engine ∈ g.sdk.engines, engine.left = true ∧ 0 < engine.released
  others : ∀ sid', sid' ≠ sid → s'.find sid' = s.find sid'
  once : ∀ as t, machine.runFrom s' as = some t → t.stop sid = .error "recorder not exists"

/-- The recording goes on: registered, its engine in use, and a stop
request for it succeeds. -/
structure GoesOn (sid : JsString) (i : SessionId) (t : Process) : Prop where
  found : t.find sid = .own i
  engine : ∃ g engine, t.sessions[i]? = some g ∧ g.sid = sid ∧ g.sdk.engines = [engine] ∧
    engine.left = false ∧ engine.released = 0
  again : ∃ t', t.stop sid = .ok t'

theorem goesOn_of_find {s : Process} {sid : JsString} {i : SessionId}
    (hs : machine.Reachable s) (hfind : s.find sid = .own i) : GoesOn sid i s :=
  ⟨hfind, registered_engine hs hfind, s.onCleanup sid, by rw [stop, hfind]⟩

/-- **A stop request ends no recording**: for every registered session of
every run it succeeds, none of what it should do is done, and the
recording goes on in every later state. -/
theorem stop_ends_nothing {s : Process} {sid : JsString} {i : SessionId}
    (hs : machine.Reachable s) (hfind : s.find sid = .own i) :
    ∃ s', s.stop sid = .ok s' ∧ ¬ Ended s sid i s' ∧
      ∀ as t, machine.runFrom s' as = some t → GoesOn sid i t := by
  have hstop : s.stop sid = .ok s := by
    rw [stop, hfind]
    rfl
  refine ⟨s, hstop, fun hended => ?_, fun as t hrun => ?_⟩
  · have hgone := hended.gone
    rw [hfind] at hgone
    cases hgone
  · exact goesOn_of_find (hs.runFrom hrun) (find_keeps hs hfind hrun)

/-- A start that succeeded, with nothing left to do. -/
theorem run_startRun :
    ∃ s, machine.run startRun = some s ∧ s.find someSid = .own 0 ∧ s.Idle := by
  have hrun : (machine.run startRun).map (fun s =>
      (s.find someSid, s.queue.length, s.immediates.length, s.reactions.length)) =
        some (.own 0, 0, 0, 0) := by decide
  obtain ⟨s, hs, heq⟩ := Option.map_eq_some_iff.mp hrun
  simp only [Prod.mk.injEq] at heq
  obtain ⟨hfind, hqueue, himmediates, hreactions⟩ := heq
  exact ⟨s, hs, hfind, List.length_eq_zero_iff.mp hqueue, List.length_eq_zero_iff.mp himmediates,
    List.length_eq_zero_iff.mp hreactions⟩

theorem stop_ends_nothing_startRun :
    ∃ s, machine.run startRun = some s ∧ ∃ s', s.stop someSid = .ok s' ∧ ¬ Ended s someSid 0 s' ∧
      ∀ as t, machine.runFrom s' as = some t → GoesOn someSid 0 t := by
  obtain ⟨s, hs, hfind, -⟩ := run_startRun
  exact ⟨s, hs, stop_ends_nothing ⟨startRun, hs⟩ hfind⟩

/-- So stopping does not end what it should. -/
theorem not_ended_by_stop :
    ¬ ∀ s sid i s', machine.Reachable s → s.find sid = .own i → s.stop sid = .ok s' →
      Ended s sid i s' := by
  intro h
  obtain ⟨s, hs, hfind, -⟩ := run_startRun
  have hstop : s.stop someSid = .ok s := by
    rw [stop, hfind]
    rfl
  have hgone := (h s someSid 0 s ⟨startRun, hs⟩ hfind hstop).gone
  rw [hfind] at hgone
  cases hgone

end AgoraRecording.Server.Process
