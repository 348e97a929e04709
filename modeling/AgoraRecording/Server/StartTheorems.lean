/-
AgoraRecording.Server.StartTheorems — when a start request is all or
nothing.

A start can fail at six places, and each has its own way of not being
handled: an error of `fs.mkdir` or `fs.access`, or an `appid` or channel
that is no string, ends the process (`crashed_iff`); the `err` of
`fs.writeFile` and the result of the native join are dropped; and an
error reported by the engine rejects the promise but keeps the engine. So
the failing half of "all or nothing" never happens, and a start is all or
nothing exactly when all of it succeeds and nothing in the whole process
was fatal (`allOrNothing_iff`).
-/
import AgoraRecording.Server.StopTheorems

namespace AgoraRecording.Server

open AgoraRecording.Lib AgoraRecording.Js AgoraRecording.Native

/-! ## Outcomes -/

namespace Session

/-- `appid` or channel is not a non-empty string. -/
def Unjoinable (g : Session) : Prop :=
  ¬ ((∃ s, g.appid = .string s ∧ s ≠ []) ∧ ∃ s, g.channel = .string s ∧ s ≠ [])

/-- One of the session's steps had an outcome that ends the process. -/
def Fatal (g : Session) : Prop :=
  g.mkdir = some false ∨ g.access = some false ∨ (g.writeFile ≠ none ∧ g.Unjoinable)

/-- The file `AgoraRecordSdk.joinChannel` writes, and its `Recording_Dir`. -/
def cfgFile (g : Session) : JsString × JsString :=
  (cfgPath (storagePath g.sid), storagePath g.sid)

end Session

/-- A turn that is no storage step: it writes no file, does not end the
process and has no outcome. -/
structure Turn.Plain (g : Session) (t : Turn) : Prop where
  crashed : t.crashed = false
  written : t.written = []
  same : g.Same t.session
  mkdir : t.session.mkdir = g.mkdir
  access : t.session.access = g.access
  writeFile : t.session.writeFile = g.writeFile

namespace Session

theorem plain_raise {g : Session} {ev : Event} {dir : Option String} {t : Turn}
    (hg : EngineOk g.sdk g.posted g.created) (h : g.raise ev dir = some t) : t.Plain g := by
  obtain ⟨_, _, -, -, rfl, -, -⟩ := raise_eq_some hg h
  exact ⟨rfl, rfl, ⟨rfl, rfl, rfl⟩, rfl, rfl, rfl⟩

theorem plain_task (g : Session) (ev : Event) : (g.task ev).Plain g := by
  unfold task
  split <;> exact ⟨rfl, rfl, ⟨rfl, rfl, rfl⟩, rfl, rfl, rfl⟩

theorem plain_once (g : Session) (ev : Event) : (g.once ev).Plain g := by
  obtain ⟨_, _, _, _, h⟩ := g.once_eq ev
  rw [h]
  exact ⟨rfl, rfl, ⟨rfl, rfl, rfl⟩, rfl, rfl, rfl⟩

theorem plain_emit (g : Session) (registered : Bool) (ev : Event) :
    (g.emit registered ev).Plain g := by
  by_cases h : user ev = none
  · rw [emit_eq_once g registered h]
    have hp := plain_once (g.emitted registered ev) ev
    have hm : (g.emitted registered ev).mkdir = g.mkdir ∧
        (g.emitted registered ev).access = g.access ∧
        (g.emitted registered ev).writeFile = g.writeFile := by
      cases registered <;> exact ⟨rfl, rfl, rfl⟩
    exact ⟨hp.crashed, hp.written, (g.same_emitted registered ev).trans hp.same,
      hp.mkdir.trans hm.1, hp.access.trans hm.2.1, hp.writeFile.trans hm.2.2⟩
  · rw [emit_eq_onUser g registered h]
    cases registered <;> exact ⟨rfl, rfl, ⟨rfl, rfl, rfl⟩, rfl, rfl, rfl⟩

theorem plain_react (g : Session) (r : Reaction) : (g.react r).Plain g := by
  cases r <;> exact ⟨rfl, rfl, ⟨rfl, rfl, rfl⟩, rfl, rfl, rfl⟩

theorem fatal_congr {g g' : Session} (h : g.Same g') (hmkdir : g'.mkdir = g.mkdir)
    (haccess : g'.access = g.access) (hwrite : g'.writeFile = g.writeFile) :
    g'.Fatal ↔ g.Fatal := by
  unfold Fatal Unjoinable
  rw [hmkdir, haccess, hwrite, h.appid, h.channel]

end Session

theorem Local.Inv.joined_of_raise {l : Local} {ev : Event} {dir : Option String} {t : Turn}
    (h : l.Inv) (ht : l.session.raise ev dir = some t) : l.Joined := by
  have hne : l.session.sdk.engines ≠ [] := by
    intro hnil
    rw [Session.raise_of_engines_nil hnil] at ht
    cases ht
  unfold Inv at h
  split at h
  · exact absurd h.2.2 hne
  · exact absurd h.2.2 hne
  · exact absurd (by rw [h.2.2]; rfl) hne
  · exact absurd (by rw [h.2.2]; rfl) hne
  · exact h

theorem Local.Inv.writeFile_none {l : Local} (h : l.Inv) (hstage : l.session.stage = .write) :
    l.session.writeFile = none := by
  rw [Inv, hstage] at h
  exact h.1.writeFile

namespace Process

/-! ## Over a whole run -/

/-- What a turn does to the outcomes: nothing, or it is one of the three
storage steps. -/
theorem Turns.outcome {s s₀ : Process} {a : Action} {i : SessionId} {g : Session} {m : Move}
    {t : Turn} (hs : machine.Reachable s) (ht : s.Turns a i g m t s₀) :
    t.Plain g ∨
    (g.Same t.session ∧ t.written = [] ∧ t.session.writeFile = g.writeFile ∧
      ∃ ok, t.crashed = !ok ∧
        ((t.session.mkdir = some ok ∧ t.session.access = g.access) ∨
          (t.session.access = some ok ∧ t.session.mkdir = g.mkdir))) ∨
    (g.Same t.session ∧ g.writeFile = none ∧ t.session.mkdir = g.mkdir ∧
      t.session.access = g.access ∧ (t.crashed = true ↔ g.Unjoinable) ∧
      ∃ ok, t.session.writeFile = some ok ∧ t.written = if ok then [g.cfgFile] else []) := by
  obtain ⟨l, hl, rfl⟩ := exists_view ht.get
  have hinv := reachable_inv hs hl
  have hsame := ht.same
  cases ht with
  | mkdirDone hg h =>
    refine Or.inr (Or.inl ⟨hsame, ?_⟩)
    unfold Session.mkdirDone at h
    split at h
    · split at h
      · cases h
        exact ⟨rfl, rfl, true, rfl, Or.inl ⟨rfl, rfl⟩⟩
      · cases h
        exact ⟨rfl, rfl, false, rfl, Or.inl ⟨rfl, rfl⟩⟩
    · cases h
  | accessDone hg h =>
    refine Or.inr (Or.inl ⟨hsame, ?_⟩)
    unfold Session.accessDone at h
    split at h
    · split at h
      · cases h
        exact ⟨rfl, rfl, true, rfl, Or.inr ⟨rfl, rfl⟩⟩
      · cases h
        exact ⟨rfl, rfl, false, rfl, Or.inr ⟨rfl, rfl⟩⟩
    · cases h
  | writeDone hg h =>
    refine Or.inr (Or.inr ⟨hsame, hinv.writeFile_none (Local.writeDone_stage h), ?_⟩)
    unfold Session.writeDone at h
    split at h
    swap
    · cases h
    simp only at h
    split at h
    · rename_i hout
      cases h
      have hun := (recordingJoinChannel_aborted_iff _ _ _ _ _ _).mp hout
      exact ⟨rfl, rfl, iff_of_true rfl hun, _, rfl, rfl⟩
    · rename_i hout
      cases h
      have hun : ¬ l.session.Unjoinable := by
        intro hun
        rw [(recordingJoinChannel_aborted_iff _ _ _ _ _ _).mpr hun] at hout
        cases hout
      exact ⟨rfl, rfl, iff_of_false (by simp) hun, _, rfl, rfl⟩
    · rename_i hout
      cases h
      have hun : ¬ l.session.Unjoinable := by
        intro hun
        rw [(recordingJoinChannel_aborted_iff _ _ _ _ _ _).mpr hun] at hout
        cases hout
      exact ⟨rfl, rfl, iff_of_false (by simp) hun, _, rfl, rfl⟩
  | raise hg h => exact Or.inl (Session.plain_raise (hinv.joined_of_raise h).engine h)
  | runTask hg h => exact Or.inl (Session.plain_task _ _)
  | runImmediate hg h => exact Or.inl (Session.plain_emit _ _ _)
  | runReaction hg h => exact Or.inl (Session.plain_react _ _)

/-- A turn ends the process exactly when it is fatal for its session. -/
theorem Turns.crashed_iff {s s₀ : Process} {a : Action} {i : SessionId} {g : Session} {m : Move}
    {t : Turn} (hs : machine.Reachable s) (ht : s.Turns a i g m t s₀) (hnot : ¬ g.Fatal) :
    t.crashed = true ↔ t.session.Fatal := by
  rcases ht.outcome hs with hp | ⟨hsame, -, hwrite, ok, hcrash, hstep⟩ |
    ⟨hsame, hwas, hmkdir, haccess, hcrash, ok, hwrite, -⟩
  · rw [hp.crashed, Session.fatal_congr hp.same hp.mkdir hp.access hp.writeFile]
    simp [hnot]
  · have hun : ¬ (t.session.writeFile ≠ none ∧ t.session.Unjoinable) := by
      unfold Session.Unjoinable
      rw [hwrite, hsame.appid, hsame.channel]
      exact fun h => hnot (Or.inr (Or.inr h))
    have hm : ¬ g.mkdir = some false := fun h => hnot (Or.inl h)
    have ha : ¬ g.access = some false := fun h => hnot (Or.inr (Or.inl h))
    unfold Session.Fatal
    rcases hstep with ⟨hmkdir, haccess⟩ | ⟨haccess, hmkdir⟩
    · rw [hcrash, hmkdir, haccess]
      cases ok <;> simp [ha, hun]
    · rw [hcrash, hmkdir, haccess]
      cases ok <;> simp [hm, hun]
  · have hm : ¬ g.mkdir = some false := fun h => hnot (Or.inl h)
    have ha : ¬ g.access = some false := fun h => hnot (Or.inr (Or.inl h))
    rw [hcrash]
    unfold Session.Fatal Session.Unjoinable
    rw [hmkdir, haccess, hwrite, hsame.appid, hsame.channel]
    simp [hm, ha]

/-- A list with one place singled out. -/
theorem exists_mem_iff {α : Type} {l : List α} {i : Nat} {a : α} (h : l[i]? = some a)
    (P : α → Prop) : (∃ x ∈ l, P x) ↔ P a ∨ ∃ j x, i ≠ j ∧ l[j]? = some x ∧ P x := by
  constructor
  · rintro ⟨x, hx, hp⟩
    obtain ⟨j, hj⟩ := List.mem_iff_getElem?.mp hx
    by_cases hij : i = j
    · subst hij
      rw [h] at hj
      cases hj
      exact Or.inl hp
    · exact Or.inr ⟨j, x, hij, hj, hp⟩
  · rintro (hp | ⟨j, x, -, hj, hp⟩)
    · exact ⟨a, List.mem_of_getElem? h, hp⟩
    · exact ⟨x, List.mem_of_getElem? hj, hp⟩

/-- The sessions after a turn: its own is new, the others are as before. -/
theorem Turns.exists_mem_iff {s s₀ : Process} {a : Action} {i : SessionId} {g : Session} {m : Move}
    {t : Turn} (ht : s.Turns a i g m t s₀) (P : Session → Prop) :
    (∃ x ∈ (s₀.take i t).sessions, P x) ↔
      P t.session ∨ ∃ j x, i ≠ j ∧ s.sessions[j]? = some x ∧ P x := by
  have hg : s₀.sessions[i]? = some g := by
    rw [ht.popped.1]
    exact ht.get
  rw [Process.exists_mem_iff (take_sessions hg t) P]
  refine or_congr Iff.rfl ⟨?_, ?_⟩
  · rintro ⟨j, x, hij, hj, hp⟩
    rw [take_sessions_other s₀ hij, ht.popped.1] at hj
    exact ⟨j, x, hij, hj, hp⟩
  · rintro ⟨j, x, hij, hj, hp⟩
    refine ⟨j, x, hij, ?_, hp⟩
    rw [take_sessions_other s₀ hij, ht.popped.1]
    exact hj

/-- **The process dies of a fatal outcome and of nothing else.** -/
theorem crashed_iff {s : Process} (hs : machine.Reachable s) :
    s.crashed = true ↔ ∃ g ∈ s.sessions, g.Fatal := by
  refine hs.induct (I := fun s => s.crashed = true ↔ ∃ g ∈ s.sessions, g.Fatal) ?_ ?_
  · simp [machine, empty]
  · intro s a s' hs hiff hstep
    obtain ⟨hrun, ⟨sid, key, appid, channel, -, -, rfl⟩ | ⟨_, -, rfl⟩ |
      ⟨i, g, m, t, s₀, ht, rfl⟩⟩ := (reachable_wired hs).1.step_cases hstep
    · have hnew : ¬ (Session.start sid key appid channel).Fatal := by
        simp [Session.Fatal, Session.start]
      simp only [List.mem_append, List.mem_singleton]
      rw [hiff]
      constructor
      · rintro ⟨g, hg, hf⟩
        exact ⟨g, Or.inl hg, hf⟩
      · rintro ⟨g, hg | rfl, hf⟩
        · exact ⟨g, hg, hf⟩
        · exact absurd hf hnew
    · exact hiff
    · have hnone : ¬ ∃ g ∈ s.sessions, g.Fatal := by
        rw [← hiff, hrun]
        simp
      have hnot : ¬ g.Fatal := fun hf => hnone ⟨g, List.mem_of_getElem? ht.get, hf⟩
      rw [ht.exists_mem_iff]
      show t.crashed = true ↔ _
      rw [ht.crashed_iff hs hnot]
      refine ⟨Or.inl, ?_⟩
      rintro (hf | ⟨j, x, -, hj, hf⟩)
      · exact hf
      · exact absurd ⟨x, List.mem_of_getElem? hj, hf⟩ hnone

/-- **The files written are those of the sessions whose write succeeded.** -/
theorem mem_files_iff {s : Process} (hs : machine.Reachable s) (p : JsString × JsString) :
    p ∈ s.files ↔ ∃ g ∈ s.sessions, g.writeFile = some true ∧ p = g.cfgFile := by
  refine hs.induct
    (I := fun s => p ∈ s.files ↔ ∃ g ∈ s.sessions, g.writeFile = some true ∧ p = g.cfgFile) ?_ ?_
  · simp [machine, empty]
  · intro s a s' hs hiff hstep
    obtain ⟨-, ⟨sid, key, appid, channel, -, -, rfl⟩ | ⟨_, -, rfl⟩ | ⟨i, g, m, t, s₀, ht, rfl⟩⟩ :=
      (reachable_wired hs).1.step_cases hstep
    · rw [show p ∈ s.files ↔ _ from hiff]
      constructor
      · rintro ⟨g, hg, hf⟩
        exact ⟨g, List.mem_append_left _ hg, hf⟩
      · rintro ⟨g, hg, hf⟩
        rcases List.mem_append.mp hg with hg | hg
        · exact ⟨g, hg, hf⟩
        · rw [List.mem_singleton.mp hg] at hf
          cases hf.1
    · exact hiff
    · have hfiles : p ∈ (s₀.take i t).files ↔ p ∈ s.files ∨ p ∈ t.written := by
        simp [take, ht.popped.2.2.1]
      rw [hfiles, hiff, ht.exists_mem_iff, Process.exists_mem_iff ht.get]
      have hfile : t.session.cfgFile = g.cfgFile := by
        unfold Session.cfgFile
        rw [ht.same.sid]
      rcases ht.outcome hs with hp | ⟨-, hwritten, hwrite, -⟩ |
        ⟨-, hwas, -, -, -, ok, hwrite, hwritten⟩
      · simp [hp.written, hp.writeFile, hfile]
      · simp [hwritten, hwrite, hfile]
      · rw [hwritten, hwas, hwrite, hfile]
        cases ok <;> simp [or_comm]

/-! ## All or nothing -/

/-- No callback, immediate or reaction of the start is pending, and an
engine whose join was accepted has reported. A process that ended runs no
callback any more. -/
def Settled (s : Process) (l : Local) : Prop :=
  s.crashed = true ∨
    (l.session.stage = .native ∧ l.Quiet ∧
      (l.session.created = some (.engine errOk) → verdict l.session.posted ≠ .pending))

/-- All of it. -/
structure Succeeded (s : Process) (i : SessionId) (g : Session) : Prop where
  resolved : g.started = .resolved
  found : s.find g.sid = .own i
  file : g.cfgFile ∈ s.files
  inChannel : ∃ engine, g.sdk.current = some engine ∧ engine.inChannel = true

/-- Nothing of it. -/
structure Undone (s : Process) (g : Session) : Prop where
  rejected : g.started = .rejected
  missing : s.find g.sid = .missing
  released : ∀ e, ¬ g.sdk.Unreleased e

/-- The server runs on, and exactly one of the two holds. -/
def AllOrNothing (s : Process) (i : SessionId) (g : Session) : Prop :=
  s.crashed = false ∧ (s.Succeeded i g ∨ s.Undone g) ∧ ¬ (s.Succeeded i g ∧ s.Undone g)

/-- Every step succeeded, the engine reported joining first and its
session has not ended, and no start of the process had a fatal outcome. -/
structure AllWell (s : Process) (g : Session) : Prop where
  alive : ∀ g' ∈ s.sessions, ¬ g'.Fatal
  written : g.writeFile = some true
  created : ∃ out, g.created = some out ∧ out.ok = true
  joined : verdict g.posted = .resolved
  inChannel : inChannelAfter g.posted = true

theorem cfgFile_mem_iff {s : Process} (hs : machine.Reachable s) {i : SessionId} {g : Session}
    (hg : s.sessions[i]? = some g) : g.cfgFile ∈ s.files ↔ g.writeFile = some true := by
  rw [mem_files_iff hs]
  constructor
  · rintro ⟨g', hmem, hwrite, hfile⟩
    obtain ⟨j, hj⟩ := List.mem_iff_getElem?.mp hmem
    have hsid : g.sid = g'.sid := cfgPath_storagePath_inj (Prod.mk.inj hfile).1
    have hij := (reachable_wired hs).1.sids i j g g' hg hj hsid
    rw [← hij, hg] at hj
    cases hj
    exact hwrite
  · intro hwrite
    exact ⟨g, List.mem_of_getElem? hg, hwrite, rfl⟩

/-- **The exact condition**: a settled start is all or nothing if and only
if all of it went well. -/
theorem allOrNothing_iff {s : Process} (hs : machine.Reachable s) {i : SessionId} {l : Local}
    (hl : s.view i = some l) (hsettled : s.Settled l) :
    s.AllOrNothing i l.session ↔ s.AllWell l.session := by
  have hg := (view_eq_some hl).1
  have hinv := reachable_inv hs hl
  have hfind := (reachable_wired hs).1.find_eq hg
  have hregistered := (view_eq_some hl).2.1
  constructor
  · rintro ⟨hrun, hor, -⟩
    rcases hsettled with hcrashed | ⟨hstage, hq, -⟩
    · rw [hrun] at hcrashed
      cases hcrashed
    have hstarted : l.session.started ≠ .pending := by
      rcases hor with hsucc | hundone
      · simp [hsucc.resolved]
      · simp [hundone.rejected]
    have hj := hinv.joined_of_started hstarted
    have hafter := hj.aftermath
    rw [hq.reactions] at hafter
    rcases hor with hsucc | hundone
    · have hchannel := hj.engine.inChannel_iff.mp hsucc.inChannel
      refine ⟨?_, (cfgFile_mem_iff hs hg).mp hsucc.file, hchannel.2, ?_, hchannel.1⟩
      · intro g' hmem hfatal
        rw [(crashed_iff hs).mpr ⟨g', hmem, hfatal⟩] at hrun
        cases hrun
      · rw [hj.verdict_posted hq, ← hafter.quiet.1]
        exact hsucc.resolved
    · -- a rejected start has an engine, and nobody has released it
      have hrejected : l.session.joined ≠ .pending := by
        rw [← hafter.quiet.1]
        exact hstarted
      obtain ⟨engine, hengines, -, hreleased⟩ := hj.exists_engine hrejected
      exact absurd ⟨engine, by rw [hengines]; rfl, hreleased⟩ (hundone.released 0)
  · intro hwell
    have hrun : s.crashed = false := by
      by_contra hcrashed
      obtain ⟨g', hmem, hfatal⟩ := (crashed_iff hs).mp (by simpa using hcrashed)
      exact hwell.alive g' hmem hfatal
    rcases hsettled with hcrashed | ⟨hstage, hq, -⟩
    · rw [hrun] at hcrashed
      cases hcrashed
    have hreg : l.registered = true := (hinv.registered_iff hq).mpr hwell.joined
    have hj := hinv.joined_of_registered hreg
    have hafter := hj.aftermath
    rw [hq.reactions] at hafter
    have hresolved : l.session.started = .resolved := by
      rw [hafter.quiet.1, ← hj.verdict_posted hq]
      exact hwell.joined
    have hsucc : s.Succeeded i l.session := by
      refine ⟨hresolved, ?_, (cfgFile_mem_iff hs hg).mpr hwell.written,
        hj.engine.inChannel_iff.mpr ⟨hwell.inChannel, hwell.created⟩⟩
      rw [hfind, ← hregistered, hreg]
      rfl
    refine ⟨hrun, Or.inl hsucc, ?_⟩
    rintro ⟨-, hundone⟩
    have hrejected := hundone.rejected
    rw [hresolved] at hrejected
    cases hrejected

theorem allOrNothing_startRun :
    ∃ s l, machine.run startRun = some s ∧ s.view 0 = some l ∧ s.Settled l ∧
      (s.AllOrNothing 0 l.session ↔ s.AllWell l.session) := by
  obtain ⟨s, hs, hfind, hidle⟩ := run_startRun
  obtain ⟨l, hl, -, hreg⟩ := (reachable_wired ⟨startRun, hs⟩).1.exists_session hfind
  have hinv := reachable_inv ⟨startRun, hs⟩ hl
  have hq := hidle.quiet hl
  have hsettled : s.Settled l := by
    rcases hinv.blank_or_joined with hb | ⟨hstage, -⟩
    · exact absurd hreg (by simp [hb.registered])
    · exact Or.inr ⟨hstage, hq, fun _ => by simp [(hinv.registered_iff hq).mp hreg]⟩
  exact ⟨s, l, hs, hl, hsettled, allOrNothing_iff ⟨startRun, hs⟩ hl hsettled⟩

/-- The library has no engine to give: the start is never answered. -/
def noEngineRun : List Action :=
  [.start someSid none (.string (js "a")) (.string (js "c")), .mkdirDone 0 true, .runReaction,
   .accessDone 0 true, .writeDone 0 true .null]

theorem not_allOrNothing_noEngineRun :
    ¬ ∀ s, machine.Reachable s → ∀ i l, s.view i = some l →
      (∃ appid channel, l.session.appid = .string appid ∧ l.session.channel = .string channel) →
      s.Settled l → s.AllOrNothing i l.session := by
  intro h
  have hrun : ((machine.run noEngineRun).bind (fun s => s.view 0)).map (fun l =>
      (l.session.stage, l.queue, l.immediates, l.reactions)) =
        some (.native, [], [], []) := by decide
  have hstate : ((machine.run noEngineRun).bind (fun s => s.view 0)).map (fun l =>
      (l.session.created, l.session.started)) = some (some .null, .pending) := by decide
  have hargs : ((machine.run noEngineRun).bind (fun s => s.view 0)).map (fun l =>
      (l.session.appid, l.session.channel)) =
        some (.string (js "a"), .string (js "c")) := rfl
  obtain ⟨l, hl, heq⟩ := Option.map_eq_some_iff.mp hrun
  rw [hl, Option.map_some, Option.some.injEq, Prod.mk.injEq] at hstate hargs
  obtain ⟨s, hs, hview⟩ := Option.bind_eq_some_iff.mp hl
  simp only [Prod.mk.injEq] at heq
  obtain ⟨hstage, hqueue, himmediates, hreactions⟩ := heq
  obtain ⟨hcreated, hstarted⟩ := hstate
  have hsettled : s.Settled l := by
    refine Or.inr ⟨hstage, ⟨hqueue, himmediates, hreactions⟩, fun hok => ?_⟩
    rw [hcreated] at hok
    cases hok
  obtain ⟨-, hor, -⟩ := h s ⟨noEngineRun, hs⟩ 0 l hview ⟨_, _, hargs.1, hargs.2⟩ hsettled
  rcases hor with hsucc | hundone
  · have hresolved := hsucc.resolved
    rw [hstarted] at hresolved
    cases hresolved
  · have hrejected := hundone.rejected
    rw [hstarted] at hrejected
    cases hrejected

end Process

end AgoraRecording.Server
