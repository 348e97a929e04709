/-
AgoraRecording.Server.SessionInvariant — what holds of a session at every
stage of every run.

While the storage steps are under way nothing has happened yet (`Blank`).
Once the native join was called, `Joined` ties together the five things
that move: the events posted, those emitted and those still on their way
(`history`); the answer of the engine and the promise of
`sdk.joinChannel` (`verdict`); that promise, the pending reaction, the
promise of `start` and the registry bit (`Aftermath`); the layout and the
users who joined under registration (`layout`); and the engine itself
(`engine`).

`inv_step` is the one induction step; `reachable_inv` puts it under every
session of every run of the server.
-/
import AgoraRecording.Native.AgoraSdkTheorems
import AgoraRecording.Server.History
import AgoraRecording.Server.Simulation

namespace AgoraRecording.Server

open AgoraRecording.Lib AgoraRecording.Js AgoraRecording.Native

/-! ## The invariant -/

/-- Nothing has come of the session yet. -/
structure Local.Blank (l : Local) : Prop where
  queue : l.queue = []
  immediates : l.immediates = []
  registered : l.registered = false
  posted : l.session.posted = []
  early : l.session.early = []
  late : l.session.late = []
  joined : l.session.joined = .pending
  started : l.session.started = .pending
  created : l.session.created = none
  writeFile : l.session.writeFile = none
  regions : l.session.layout.regions = []

/-- How far an answer has come: the promise of `sdk.joinChannel`, the
pending reaction, the promise of `start`, the registry bit. -/
inductive Aftermath : Settle → List Reaction → Settle → Bool → Prop
  | waiting : Aftermath .pending [] .pending false
  | joining : Aftermath .resolved [.joined] .pending false
  | joined : Aftermath .resolved [] .resolved true
  | failing : Aftermath .rejected [.joinFailed] .pending false
  | catching : Aftermath .rejected [.caught] .pending false
  | failed : Aftermath .rejected [] .rejected false

/-- What `createChannel` was answered, and the engine that came of it. -/
inductive EngineOk (sdk : AgoraSdk) (posted : List Event) : Option CreateOutcome → Prop
  | absent (ptr : sdk.mEngine = none) (engines : sdk.engines = []) (silent : posted = []) :
      EngineOk sdk posted none
  | null (ptr : sdk.mEngine = none) (engines : sdk.engines = []) (silent : posted = []) :
      EngineOk sdk posted (some .null)
  | engine (joinResult : Int)
      (one : sdk.OneEngine (decide (joinResult = errOk)) (inChannelAfter posted))
      (errors : joinResult ≠ errOk → ∀ ev ∈ posted, ∃ err stat, ev = .error err stat) :
      EngineOk sdk posted (some (.engine joinResult))

structure Local.Joined (l : Local) : Prop where
  subscribed : l.session.sdk.mCallbacks = eventNames
  history : l.session.posted.filter handled =
    l.session.early ++ l.session.late ++ l.immediates ++ l.queue.filter handled
  unregistered : l.registered = false → l.session.late = []
  verdict : l.session.joined = verdict (l.session.early ++ l.session.late)
  aftermath : Aftermath l.session.joined l.reactions l.session.started l.registered
  listening : l.session.sdk.mEngine ≠ none → l.session.joined = .pending →
    l.session.onceError = true ∧ l.session.onceJoinchannel = true
  layout : ∀ u, u ∈ l.session.layout.regions.map JsRegion.uid ↔ u ∈ present l.session.late
  engine : EngineOk l.session.sdk l.session.posted l.session.created

def Local.Inv (l : Local) : Prop :=
  match l.session.stage with
  | .mkdir => l.Blank ∧ l.reactions = [] ∧ l.session.sdk.engines = []
  | .storage => l.Blank ∧ l.reactions = [.storage] ∧ l.session.sdk.engines = []
  | .access | .write => l.Blank ∧ l.reactions = [] ∧ l.session.sdk = startedSdk
  | .native => l.Joined

/-! ## Lemmas about single callbacks -/

namespace Session

theorem map_uid_relayout_userjoin (layout : JsLayout) (u uid : Uid) :
    u ∈ (relayout layout (.userjoin uid)).regions.map JsRegion.uid ↔
      u ∈ layout.regions.map JsRegion.uid ∨ u = uid := by
  have huid : (joinRegion layout.regions uid).uid = uid := by
    unfold joinRegion
    simp only
    split <;> rfl
  rw [relayout, List.map_append, List.mem_append, List.map_singleton, List.mem_singleton, huid]

theorem map_uid_relayout_userleave (layout : JsLayout) (u uid : Uid) :
    u ∈ (relayout layout (.userleave uid)).regions.map JsRegion.uid ↔
      u ∈ layout.regions.map JsRegion.uid ∧ u ≠ uid := by
  simp only [relayout, List.mem_map, List.mem_filter, decide_eq_true_eq]
  constructor
  · rintro ⟨r, ⟨hr, hne⟩, rfl⟩
    exact ⟨⟨r, hr, rfl⟩, hne⟩
  · rintro ⟨⟨r, hr, rfl⟩, hne⟩
    exact ⟨r, ⟨hr, hne⟩, rfl⟩

/-- A handler keeps the layout in step with who is present. -/
theorem mem_relayout {layout : JsLayout} {evs : List Event} {ev : Event}
    (h : ∀ u, u ∈ layout.regions.map JsRegion.uid ↔ u ∈ present evs) (u : Uid) :
    u ∈ (relayout layout ev).regions.map JsRegion.uid ↔ u ∈ present (evs ++ [ev]) := by
  rw [present_concat, mem_attend, ← h u]
  cases ev with
  | userjoin uid =>
    rw [map_uid_relayout_userjoin, Event.userjoin.injEq, eq_comm (a := uid)]
    simp [or_comm]
  | userleave uid =>
    have hne : u ≠ uid ↔ Event.userleave uid ≠ .userleave u :=
      ⟨fun h heq => h (Event.userleave.inj heq).symm, fun h heq => h (heq ▸ rfl)⟩
    rw [map_uid_relayout_userleave, hne]
    simp
  | _ => simp [relayout]

/-- Only an engine can raise, and one whose join failed only errors. -/
theorem raise_eq_some {g : Session} {ev : Event} {dir : Option String} {t : Turn}
    (hg : EngineOk g.sdk g.posted g.created) (h : g.raise ev dir = some t) :
    ∃ joinResult sdk, g.created = some (.engine joinResult) ∧
      (joinResult ≠ errOk → ∃ err stat, ev = .error err stat) ∧
      t = { session := { g with sdk := sdk, posted := g.posted ++ [ev] }, posted := [ev] } ∧
      sdk.mCallbacks = g.sdk.mCallbacks ∧
      sdk.OneEngine (decide (joinResult = errOk)) (inChannelAfter (g.posted ++ [ev])) := by
  generalize hc : g.created = created at hg
  unfold raise at h
  cases hg with
  | absent ptr engines silent =>
    rw [mayRaise, ptr] at h
    cases h
  | null ptr engines silent =>
    rw [mayRaise, ptr] at h
    cases h
  | engine joinResult one errors =>
    obtain ⟨engine, hengines, hjoined, -, -, -⟩ := one.engine
    obtain ⟨sdk, hev, hone, hcallbacks⟩ := one.onEvent ev dir
      (fun e he => (raise_inChannel e ev).trans (congrArg (reportChannel · ev) he))
    have hmay : mayRaise g.sdk ev = none ∨ (mayRaise g.sdk ev = some 0 ∧
        (joinResult ≠ errOk → ∃ err stat, ev = .error err stat)) := by
      rw [mayRaise, one.ptr, hengines]
      simp only [List.getElem?_cons_zero, hjoined]
      by_cases hok : joinResult = errOk
      · cases ev <;> simp [hok]
      · cases ev <;> simp [hok]
    rcases hmay with hnone | ⟨hsome, herror⟩
    · rw [hnone] at h
      cases h
    · rw [hsome] at h
      simp only [hev] at h
      cases h
      refine ⟨joinResult, sdk, rfl, herror, by rw [← hc], hcallbacks, ?_⟩
      rw [inChannelAfter_concat]
      exact hone

/-- With the wrapper's subscriptions, a task passes on the events the
wrapper handles. -/
theorem task_eq {g : Session} {ev : Event} (h : g.sdk.mCallbacks = eventNames) :
    g.task ev = { session := g, fired := [ev].filter handled } := by
  unfold task
  rw [h]
  by_cases hev : ev.name ∈ eventNames
  · have hhandled : handled ev = true := decide_eq_true hev
    rw [if_pos hev, List.filter_cons_of_pos hhandled, List.filter_nil]
  · have hhandled : ¬ handled ev = true := by simpa [handled] using hev
    rw [if_neg hev, List.filter_cons_of_neg hhandled, List.filter_nil]

/-- The reaction a settled promise of `sdk.joinChannel` queues. -/
def answer : Settle → List Reaction
  | .pending => []
  | .resolved => [.joined]
  | .rejected => [.joinFailed]

/-- The `once` listeners of a session that listens while it waits: the
first report settles the promise, later ones change nothing but a flag. -/
theorem once_spec {g : Session} (ev : Event)
    (hl : g.joined = .pending → g.onceError = true ∧ g.onceJoinchannel = true) :
    ∃ onceError onceJoinchannel,
      g.once ev =
        { session := { g with
            joined := g.joined.to (verdict [ev])
            onceError := onceError
            onceJoinchannel := onceJoinchannel }
          reactions := if g.joined = .pending then answer (verdict [ev]) else [] } ∧
      (g.joined.to (verdict [ev]) = .pending →
        onceError = g.onceError ∧ onceJoinchannel = g.onceJoinchannel) := by
  have hto : ∀ p : Settle, p.to .pending = p := by
    intro p
    cases p <;> rfl
  have hsettled : g.joined ≠ .pending → ∀ v, g.joined.to v = g.joined :=
    fun hp v => if_neg hp
  cases ev with
  | joinchannel channel uid =>
    by_cases hp : g.joined = .pending
    · obtain ⟨-, hj⟩ := hl hp
      refine ⟨g.onceError, false, ?_, fun h => absurd h (by simp [Settle.to, hp, verdict])⟩
      simp [once, hj, verdict, answer]
    · -- fired or not, the listener is off afterwards
      refine ⟨g.onceError, false, ?_, fun h => absurd h (by simp [Settle.to, hp])⟩
      cases hj : g.onceJoinchannel with
      | true => simp [once, hj, hp, hsettled hp]
      | false =>
        have hoff : { g with onceJoinchannel := false } = g := by rw [← hj]
        simp [once, hj, hp, hsettled hp, hoff]
  | error err stat =>
    by_cases hp : g.joined = .pending
    · obtain ⟨he, -⟩ := hl hp
      refine ⟨false, g.onceJoinchannel, ?_, fun h => absurd h (by simp [Settle.to, hp, verdict])⟩
      simp [once, he, verdict, answer]
    · refine ⟨false, g.onceJoinchannel, ?_, fun h => absurd h (by simp [Settle.to, hp])⟩
      cases he : g.onceError with
      | true => simp [once, he, hp, hsettled hp]
      | false =>
        have hoff : { g with onceError := false } = g := by rw [← he]
        simp [once, he, hp, hsettled hp, hoff]
  | leavechannel | userjoin | userleave =>
    refine ⟨g.onceError, g.onceJoinchannel, ?_, fun _ => ⟨rfl, rfl⟩⟩
    simp [once, verdict, answer, hto]

/-- An event nobody but the `once` listeners hears. -/
theorem emit_eq_once (g : Session) (registered : Bool) {ev : Event} (h : user ev = none) :
    g.emit registered ev = (g.emitted registered ev).once ev := by
  cases ev with
  | userjoin uid | userleave uid => cases h
  | _ => rfl

/-- An event the manager's handlers hear. -/
theorem emit_eq_onUser (g : Session) (registered : Bool) {ev : Event} (h : user ev ≠ none) :
    g.emit registered ev =
      { session := if registered then (g.emitted registered ev).onUser ev
                   else g.emitted registered ev } := by
  cases ev with
  | userjoin uid | userleave uid => rfl
  | _ => exact absurd rfl h

section Emitted

variable (g : Session) (registered : Bool) (ev : Event)

@[simp] theorem emitted_sdk : (g.emitted registered ev).sdk = g.sdk := by
  cases registered <;> rfl

@[simp] theorem emitted_layout : (g.emitted registered ev).layout = g.layout := by
  cases registered <;> rfl

@[simp] theorem emitted_stage : (g.emitted registered ev).stage = g.stage := by
  cases registered <;> rfl

@[simp] theorem emitted_joined : (g.emitted registered ev).joined = g.joined := by
  cases registered <;> rfl

@[simp] theorem emitted_started : (g.emitted registered ev).started = g.started := by
  cases registered <;> rfl

@[simp] theorem emitted_onceError : (g.emitted registered ev).onceError = g.onceError := by
  cases registered <;> rfl

@[simp] theorem emitted_onceJoinchannel :
    (g.emitted registered ev).onceJoinchannel = g.onceJoinchannel := by
  cases registered <;> rfl

@[simp] theorem emitted_posted : (g.emitted registered ev).posted = g.posted := by
  cases registered <;> rfl

@[simp] theorem emitted_created : (g.emitted registered ev).created = g.created := by
  cases registered <;> rfl

end Emitted

theorem stage_emit (g : Session) (registered : Bool) (ev : Event) :
    (g.emit registered ev).session.stage = g.stage := by
  by_cases h : user ev = none
  · obtain ⟨_, _, _, _, honce⟩ := (g.emitted registered ev).once_eq ev
    rw [emit_eq_once g registered h, honce]
    exact g.emitted_stage registered ev
  · rw [emit_eq_onUser g registered h]
    cases registered <;> rfl

theorem emitted_history {g : Session} {registered : Bool} (ev : Event)
    (h : registered = false → g.late = []) :
    (g.emitted registered ev).early ++ (g.emitted registered ev).late =
      g.early ++ g.late ++ [ev] := by
  cases registered with
  | true => simp [emitted]
  | false => simp [emitted, h rfl]

end Session

theorem EngineOk.exists_engine {sdk : AgoraSdk} {posted : List Event}
    {created : Option CreateOutcome} (h : EngineOk sdk posted created) (hne : posted ≠ []) :
    sdk.mEngine ≠ none := by
  cases h with
  | absent ptr engines silent => exact absurd silent hne
  | null ptr engines silent => exact absurd silent hne
  | engine joinResult one errors => simp [one.ptr]

theorem EngineOk.setMixLayout {sdk : AgoraSdk} {posted : List Event}
    {created : Option CreateOutcome} (h : EngineOk sdk posted created) (hne : posted ≠ [])
    (layout : JsLayout) : EngineOk (setMixLayout sdk layout) posted created := by
  cases h with
  | absent ptr engines silent => exact absurd silent hne
  | null ptr engines silent => exact absurd silent hne
  | engine joinResult one errors =>
    exact .engine joinResult (one.updateMixLayout layout.toNative.layout) errors

/-- An engine is in its channel exactly when its reports say so, and then
its join was accepted. -/
theorem EngineOk.inChannel_iff {sdk : AgoraSdk} {posted : List Event}
    {created : Option CreateOutcome} (h : EngineOk sdk posted created) :
    (∃ engine, sdk.current = some engine ∧ engine.inChannel = true) ↔
      inChannelAfter posted = true ∧ ∃ out, created = some out ∧ out.ok = true := by
  cases h with
  | absent ptr engines silent =>
    rw [AgoraSdk.current_of_mEngine_none ptr]
    simp
  | null ptr engines silent =>
    rw [AgoraSdk.current_of_mEngine_none ptr]
    simp [CreateOutcome.ok]
  | engine joinResult one errors =>
    obtain ⟨engine, hengines, -, hin, -, -⟩ := one.engine
    have hcurrent : sdk.current = some engine := by
      rw [AgoraSdk.current, one.ptr, hengines]
      rfl
    constructor
    · rintro ⟨engine', hcurrent', hin'⟩
      rw [hcurrent] at hcurrent'
      cases hcurrent'
      rw [hin] at hin'
      refine ⟨hin', _, rfl, ?_⟩
      by_contra hfail
      have hne : joinResult ≠ errOk := by simpa [CreateOutcome.ok] using hfail
      rw [inChannelAfter_of_errors (errors hne)] at hin'
      cases hin'
    · rintro ⟨hafter, -⟩
      exact ⟨engine, hcurrent, hin.trans hafter⟩

theorem Aftermath.settle {joined started : Settle} {reactions : List Reaction}
    {registered : Bool} (h : Aftermath joined reactions started registered) (v : Settle) :
    Aftermath (joined.to v)
      (reactions ++ if joined = .pending then Session.answer v else []) started registered := by
  cases h with
  | waiting => cases v <;> constructor
  | _ => constructor

theorem Aftermath.of_registered {joined started : Settle} {reactions : List Reaction}
    (h : Aftermath joined reactions started true) : joined = .resolved := by
  cases h
  rfl

theorem Aftermath.reactions_of_registered {joined started : Settle} {reactions : List Reaction}
    (h : Aftermath joined reactions started true) : reactions = [] := by
  cases h
  rfl

/-- The promise of the start resolves in the reaction that registers. -/
theorem Aftermath.started_iff {joined started : Settle} {reactions : List Reaction}
    {registered : Bool} (h : Aftermath joined reactions started registered) :
    started = .resolved ↔ registered = true := by
  cases h <;> simp

/-- When no reaction is pending, both promises and the registry agree. -/
theorem Aftermath.quiet {joined started : Settle} {registered : Bool}
    (h : Aftermath joined [] started registered) :
    started = joined ∧ registered = decide (joined = .resolved) := by
  cases h <;> exact ⟨rfl, rfl⟩

/-! ## The step -/

namespace Local.Joined

variable {l : Local}

theorem resolved (h : l.Joined) (hreg : l.registered = true) : l.session.joined = .resolved := by
  have hafter := h.aftermath
  rw [hreg] at hafter
  exact hafter.of_registered

theorem raise {ev : Event} {dir : Option String} {t : Turn} (h : l.Joined)
    (ht : l.session.raise ev dir = some t) : (l.take t).Joined := by
  obtain ⟨joinResult, sdk, hcreated, herror, rfl, hcallbacks, hone⟩ :=
    Session.raise_eq_some h.engine ht
  have hengine := h.engine
  rw [hcreated] at hengine
  obtain ⟨_, hold, herrors⟩ : ∃ r, l.session.sdk.mEngine ≠ none ∧
      (joinResult ≠ errOk → ∀ ev ∈ l.session.posted, ∃ err stat, ev = .error err stat) := by
    cases hengine with
    | engine _ one errors => exact ⟨joinResult, by simp [one.ptr], errors⟩
  constructor
  · exact hcallbacks.trans h.subscribed
  · simp [take, List.filter_append, h.history]
  · exact h.unregistered
  · exact h.verdict
  · simpa [take] using h.aftermath
  · intro _ hp
    exact h.listening hold hp
  · exact h.layout
  · show EngineOk sdk (l.session.posted ++ [ev]) l.session.created
    rw [hcreated]
    refine .engine joinResult hone (fun hfail ev' hev' => ?_)
    rcases List.mem_append.mp hev' with hmem | hmem
    · exact herrors hfail ev' hmem
    · rw [List.mem_singleton.mp hmem]
      exact herror hfail

/-- Only the events no callback is subscribed for are dropped. -/
theorem task {ev : Event} {rest : List Event} (h : l.Joined) (hq : l.queue = ev :: rest) :
    ({ l with queue := rest }.take (l.session.task ev)).Joined := by
  have hhistory := h.history
  rw [hq, ← List.singleton_append, List.filter_append] at hhistory
  rw [Session.task_eq h.subscribed]
  constructor
  · exact h.subscribed
  · simpa [take] using hhistory
  · exact h.unregistered
  · exact h.verdict
  · simpa [take] using h.aftermath
  · exact h.listening
  · exact h.layout
  · exact h.engine

/-- An emitted event moves from the immediates to the history; if it is
the first report it settles the promise, and if it is about a user it
reaches the layout of a registered session. -/
theorem emit {ev : Event} {rest : List Event} (h : l.Joined) (hi : l.immediates = ev :: rest) :
    ({ l with immediates := rest }.take (l.session.emit l.registered ev)).Joined := by
  have hhistory := h.history
  rw [hi] at hhistory
  have hposted : l.session.posted ≠ [] := by
    intro hnil
    rw [hnil] at hhistory
    simp at hhistory
  have hlistening := h.listening (h.engine.exists_engine hposted)
  have hmoved := Session.emitted_history (g := l.session) ev h.unregistered
  have hverdict : l.session.joined.to (Server.verdict [ev]) =
      Server.verdict ((l.session.emitted l.registered ev).early ++
        (l.session.emitted l.registered ev).late) := by
    rw [hmoved, verdict_append, h.verdict]
  have hevents : l.session.posted.filter handled =
      (l.session.emitted l.registered ev).early ++ (l.session.emitted l.registered ev).late ++
        rest ++ l.queue.filter handled := by
    rw [hmoved, hhistory]
    simp
  have hunregistered : l.registered = false → (l.session.emitted l.registered ev).late = [] := by
    intro hreg
    rw [hreg]
    exact h.unregistered hreg
  by_cases huser : user ev = none
  · rw [Session.emit_eq_once _ _ huser]
    obtain ⟨onceError, onceJoinchannel, heq, hflags⟩ :=
      @Session.once_spec (l.session.emitted l.registered ev) ev (by simpa using hlistening)
    rw [heq]
    have hsilent : ∀ u, u ∈ present (l.session.emitted l.registered ev).late ↔
        u ∈ present l.session.late := by
      intro u
      cases l.registered with
      | false => exact Iff.rfl
      | true =>
        have hjoin : ev ≠ .userjoin u := fun heq => by rw [heq] at huser; cases huser
        have hleave : ev ≠ .userleave u := fun heq => by rw [heq] at huser; cases huser
        simp [Session.emitted, present_concat, mem_attend, hjoin, hleave]
    constructor
    · simpa [take] using h.subscribed
    · simpa [take] using hevents
    · simpa [take] using hunregistered
    · simpa [take] using hverdict
    · simpa [take] using h.aftermath.settle (Server.verdict [ev])
    · intro _ hp
      obtain ⟨he, hj⟩ := hflags hp
      have hwas : l.session.joined = .pending := by
        by_contra hne
        simp [take, Settle.to, hne] at hp
      simpa [take, he, hj] using hlistening hwas
    · intro u
      simpa [take, hsilent u] using h.layout u
    · simpa [take] using h.engine
  · rw [Session.emit_eq_onUser _ _ huser]
    have hwaits : l.session.joined.to (Server.verdict [ev]) = l.session.joined := by
      cases ev with
      | userjoin uid | userleave uid => cases l.session.joined <;> rfl
      | _ => exact absurd rfl huser
    rw [hwaits] at hverdict
    cases hreg : l.registered with
    | false =>
      rw [hreg] at hevents hverdict hunregistered
      constructor
      · simpa [take] using h.subscribed
      · simpa [take] using hevents
      · intro _
        exact hunregistered rfl
      · simpa [take] using hverdict
      · simpa [take, hreg] using h.aftermath
      · intro _ hp
        simpa [take] using hlistening (by simpa [take] using hp)
      · intro u
        simpa [take, Session.emitted] using h.layout u
      · simpa [take] using h.engine
    | true =>
      rw [hreg] at hevents hverdict
      constructor
      · simpa [take, Session.onUser, Session.mix, setMixLayout] using h.subscribed
      · simpa [take, Session.onUser, Session.mix] using hevents
      · intro hfalse
        simp [take] at hfalse
      · simpa [take, Session.onUser, Session.mix] using hverdict
      · simpa [take, Session.onUser, Session.mix, hreg] using h.aftermath
      · intro _ hp
        have hwas : l.session.joined = .pending := by
          simpa [take, Session.onUser, Session.mix] using hp
        simpa [take, Session.onUser, Session.mix] using hlistening hwas
      · intro u
        have hmem := @Session.mem_relayout _ _ ev h.layout u
        simpa [take, Session.onUser, Session.mix, Session.emitted] using hmem
      · simpa [take, Session.onUser, Session.mix] using h.engine.setMixLayout hposted _

/-- A reaction changes the progress of the answer and nothing else. -/
theorem progress {l' : Local} {started : Settle} (h : l.Joined)
    (hsession : l'.session = { l.session with started := started }) (hqueue : l'.queue = l.queue)
    (himmediates : l'.immediates = l.immediates)
    (hregistered : l'.registered = false → l.registered = false)
    (hafter : Aftermath l.session.joined l'.reactions started l'.registered) : l'.Joined := by
  obtain ⟨session, registered, queue, immediates, reactions⟩ := l'
  simp only at hsession hqueue himmediates hregistered hafter
  subst hsession hqueue himmediates
  exact ⟨h.subscribed, h.history, fun hfalse => h.unregistered (hregistered hfalse), h.verdict,
    hafter, h.listening, h.layout, h.engine⟩

/-- Each reaction is the one the promises wait for. -/
theorem react {r : Reaction} {rest : List Reaction} (h : l.Joined)
    (hr : l.reactions = r :: rest) :
    ({ l with reactions := rest }.take (l.session.react r)).Joined := by
  have hafter := h.aftermath
  rw [hr] at hafter
  generalize hj : l.session.joined = joined at hafter
  generalize hs : l.session.started = started at hafter
  generalize hreg : l.registered = registered at hafter
  cases hafter with
  | joining =>
    refine h.progress rfl (List.append_nil _) (List.append_nil _) (fun hfalse => ?_) ?_
    · simp [take, Session.react] at hfalse
    · simpa [take, Session.react, hj, hs, Settle.to] using Aftermath.joined
  | failing =>
    refine h.progress rfl (List.append_nil _) (List.append_nil _) (fun _ => hreg) ?_
    simpa [take, Session.react, hj, hs, hreg] using Aftermath.catching
  | catching =>
    refine h.progress rfl (List.append_nil _) (List.append_nil _) (fun _ => hreg) ?_
    simpa [take, Session.react, hj, hs, hreg, Settle.to] using Aftermath.failed

/-- The native join, whatever comes of it, starts from nothing. -/
theorem write {ok : Bool} {out : CreateOutcome} {t : Turn} (h : l.Blank) (hr : l.reactions = [])
    (hsdk : l.session.sdk = startedSdk) (ht : l.session.writeDone ok out = some t) :
    t.session.stage = .native ∧ (l.take t).Joined := by
  unfold Session.writeDone at ht
  split at ht
  swap
  · cases ht
  have hnil : l.session.layout.regions = [] := h.regions
  -- the clauses that do not depend on the answer
  have hblank : ∀ (sdk : AgoraSdk) (g' : Session) (files : List (JsString × JsString))
      (crashed : Bool),
      g'.sdk = sdk → sdk.mCallbacks = eventNames → g'.posted = [] → g'.early = [] → g'.late = [] →
      g'.joined = .pending → g'.started = .pending → g'.layout.regions = [] →
      (sdk.mEngine ≠ none → g'.onceError = true ∧ g'.onceJoinchannel = true) →
      EngineOk sdk [] g'.created →
      (l.take { session := g', written := files, crashed := crashed }).Joined := by
    intro sdk g' files crashed hg hcallbacks hposted hearly hlate hjoined hstarted hregions
      hlisten hengine
    subst hg
    constructor
    · exact hcallbacks
    · simp [take, hposted, hearly, hlate, h.queue, h.immediates]
    · intro _
      exact hlate
    · simp [take, hjoined, hearly, hlate, Server.verdict]
    · simpa [take, hjoined, hstarted, hr, h.registered] using Aftermath.waiting
    · intro hptr _
      exact hlisten hptr
    · intro u
      simp [take, hregions, hlate, present]
    · simpa [take, hposted] using hengine
  simp only at ht
  split at ht
  · cases ht
    exact ⟨rfl, hblank _ _ _ _ rfl (by rw [hsdk]; decide) h.posted h.early h.late h.joined
      h.started hnil (by rw [hsdk]; exact fun hne => absurd rfl hne)
      (by rw [h.created, hsdk]; exact .absent rfl rfl rfl)⟩
  · rename_i err statCode hout
    rw [hsdk] at hout
    exact absurd hout (nodeJoinChannel_ne_emitError rfl rfl _ _ _ _ _ _ _ _)
  · rename_i appid _ _ _ config hout
    cases ht
    refine ⟨rfl, hblank _ _ _ _ rfl ?_ h.posted h.early h.late h.joined h.started hnil
      (fun _ => ⟨rfl, rfl⟩) ?_⟩
    · rw [AgoraSdk.createChannel_mCallbacks, hsdk]
      decide
    · rw [hsdk]
      cases out with
      | null => exact .null rfl rfl rfl
      | engine joinResult =>
        obtain ⟨hptr, hengines⟩ := startedSdk.createChannel_engine appid config joinResult
        refine .engine joinResult ⟨hptr, _, hengines, rfl, rfl, rfl, rfl⟩ ?_
        intro _ ev hev
        cases hev

end Local.Joined

namespace Session

/-- Without an engine nothing can be raised. -/
theorem raise_of_engines_nil {g : Session} (h : g.sdk.engines = []) (ev : Event)
    (dir : Option String) : g.raise ev dir = none := by
  have hmay : mayRaise g.sdk ev = none := by
    unfold mayRaise
    cases g.sdk.mEngine with
    | none => rfl
    | some e => simp [h]
  rw [raise, hmay]

end Session

namespace Local

/-- A storage step leaves the session blank. -/
theorem Blank.take {l : Local} (h : l.Blank) (stage : Stage) (mkdir access : Option Bool)
    (sdk : AgoraSdk) (mixCalls : List JsLayout) {layout : JsLayout} (hlayout : layout.regions = [])
    (reactions : List Reaction) (crashed : Bool) :
    (l.take
      { session := { l.session with
          stage := stage, mkdir := mkdir, access := access, sdk := sdk, mixCalls := mixCalls
          layout := layout }
        reactions := reactions, crashed := crashed }).Blank := by
  refine ⟨?_, ?_, h.registered, h.posted, h.early, h.late, h.joined, h.started, h.created,
    h.writeFile, hlayout⟩
  · simp [Local.take, h.queue]
  · simp [Local.take, h.immediates]

/-- While a session waits for its storage, only its storage moves. -/
theorem Blank.step_cases {l l' : Local} {m : Move} (h : l.Blank)
    (hengines : l.session.sdk.engines = []) (hstep : l.step m = some l') :
    (∃ ok t, l.session.mkdirDone ok = some t ∧ l' = l.take t) ∨
    (∃ ok t, l.session.accessDone ok = some t ∧ l' = l.take t) ∨
    (∃ ok out t, l.session.writeDone ok out = some t ∧ l' = l.take t) ∨
    ∃ r rest, l.reactions = r :: rest ∧
      l' = { l with reactions := rest }.take (l.session.react r) := by
  cases m with
  | mkdirDone ok =>
    obtain ⟨t, ht, rfl⟩ := Option.map_eq_some_iff.mp hstep
    exact Or.inl ⟨ok, t, ht, rfl⟩
  | accessDone ok =>
    obtain ⟨t, ht, rfl⟩ := Option.map_eq_some_iff.mp hstep
    exact Or.inr (Or.inl ⟨ok, t, ht, rfl⟩)
  | writeDone ok out =>
    obtain ⟨t, ht, rfl⟩ := Option.map_eq_some_iff.mp hstep
    exact Or.inr (Or.inr (Or.inl ⟨ok, out, t, ht, rfl⟩))
  | raise ev dir =>
    simp [Local.step, Session.raise_of_engines_nil hengines] at hstep
  | runTask => simp [Local.step, h.queue] at hstep
  | runImmediate => simp [Local.step, h.immediates] at hstep
  | runReaction =>
    simp only [Local.step] at hstep
    split at hstep
    · cases hstep
    · rename_i r rest hr
      cases hstep
      exact Or.inr (Or.inr (Or.inr ⟨r, rest, hr, rfl⟩))

theorem mkdirDone_stage {g : Session} {ok : Bool} {t : Turn} (h : g.mkdirDone ok = some t) :
    g.stage = .mkdir := by
  unfold Session.mkdirDone at h
  split at h
  · assumption
  · cases h

theorem accessDone_stage {g : Session} {ok : Bool} {t : Turn} (h : g.accessDone ok = some t) :
    g.stage = .access := by
  unfold Session.accessDone at h
  split at h
  · assumption
  · cases h

theorem writeDone_stage {g : Session} {ok : Bool} {out : CreateOutcome} {t : Turn}
    (h : g.writeDone ok out = some t) : g.stage = .write := by
  unfold Session.writeDone at h
  split at h
  · assumption
  · cases h

theorem inv_start (sid : JsString) (key : Option Json) (appid channel : Json) :
    (Local.start sid key appid channel).Inv :=
  ⟨⟨rfl, rfl, rfl, rfl, rfl, rfl, rfl, rfl, rfl, rfl, rfl⟩, rfl, rfl⟩

theorem inv_of_joined {l : Local} (hstage : l.session.stage = .native) (h : l.Joined) : l.Inv := by
  simpa only [Inv, hstage] using h

/-- Once the native join was called, the storage is done with. -/
theorem native_step_cases {l l' : Local} {m : Move} (hstage : l.session.stage = .native)
    (hstep : l.step m = some l') :
    (∃ ev dir t, m = .raise ev dir ∧ l.session.raise ev dir = some t ∧ l' = l.take t) ∨
    (∃ ev rest, m = .runTask ∧ l.queue = ev :: rest ∧
      l' = { l with queue := rest }.take (l.session.task ev)) ∨
    (∃ ev rest, m = .runImmediate ∧ l.immediates = ev :: rest ∧
      l' = { l with immediates := rest }.take (l.session.emit l.registered ev)) ∨
    ∃ r rest, m = .runReaction ∧ l.reactions = r :: rest ∧
      l' = { l with reactions := rest }.take (l.session.react r) := by
  cases m with
  | mkdirDone ok =>
    obtain ⟨t, ht, -⟩ := Option.map_eq_some_iff.mp hstep
    simp [mkdirDone_stage ht] at hstage
  | accessDone ok =>
    obtain ⟨t, ht, -⟩ := Option.map_eq_some_iff.mp hstep
    simp [accessDone_stage ht] at hstage
  | writeDone ok out =>
    obtain ⟨t, ht, -⟩ := Option.map_eq_some_iff.mp hstep
    simp [writeDone_stage ht] at hstage
  | raise ev dir =>
    obtain ⟨t, ht, rfl⟩ := Option.map_eq_some_iff.mp hstep
    exact Or.inl ⟨ev, dir, t, rfl, ht, rfl⟩
  | runTask =>
    simp only [Local.step] at hstep
    split at hstep
    · cases hstep
    · rename_i ev rest hq
      cases hstep
      exact Or.inr (Or.inl ⟨ev, rest, rfl, hq, rfl⟩)
  | runImmediate =>
    simp only [Local.step] at hstep
    split at hstep
    · cases hstep
    · rename_i ev rest hi
      cases hstep
      exact Or.inr (Or.inr (Or.inl ⟨ev, rest, rfl, hi, rfl⟩))
  | runReaction =>
    simp only [Local.step] at hstep
    split at hstep
    · cases hstep
    · rename_i r rest hr
      cases hstep
      exact Or.inr (Or.inr (Or.inr ⟨r, rest, rfl, hr, rfl⟩))

/-- The step of a session that has called the native join. -/
theorem Joined.step {l l' : Local} {m : Move} (hstage : l.session.stage = .native) (h : l.Joined)
    (hstep : l.step m = some l') : l'.Inv := by
  rcases native_step_cases hstage hstep with ⟨ev, dir, t, rfl, ht, rfl⟩ |
    ⟨ev, rest, rfl, hq, rfl⟩ | ⟨ev, rest, rfl, hi, rfl⟩ | ⟨r, rest, rfl, hr, rfl⟩
  · refine inv_of_joined ?_ (h.raise ht)
    obtain ⟨_, _, -, -, rfl, -, -⟩ := Session.raise_eq_some h.engine ht
    exact hstage
  · refine inv_of_joined ?_ (h.task hq)
    rw [Session.task_eq h.subscribed]
    exact hstage
  · refine inv_of_joined ?_ (h.emit hi)
    exact (Session.stage_emit _ _ _).trans hstage
  · refine inv_of_joined ?_ (h.react hr)
    cases r with
    | storage =>
      -- the storage was answered before the native join
      have hafter := h.aftermath
      rw [hr] at hafter
      generalize l.session.joined = joined at hafter
      generalize l.session.started = started at hafter
      generalize l.registered = registered at hafter
      cases hafter
    | _ => exact hstage

/-- **The step lemma**: every move of a session keeps the invariant. -/
theorem inv_step {l l' : Local} {m : Move} (h : l.Inv) (hstep : l.step m = some l') : l'.Inv := by
  unfold Inv at h
  cases hstage : l.session.stage with
  | mkdir =>
    rw [hstage] at h
    obtain ⟨hb, hr, he⟩ := h
    rcases hb.step_cases he hstep with ⟨ok, t, ht, rfl⟩ | ⟨ok, t, ht, -⟩ | ⟨ok, out, t, ht, -⟩ |
      ⟨r, rest, hr', -⟩
    · unfold Session.mkdirDone at ht
      rw [if_pos hstage] at ht
      cases ok with
      | true =>
        cases ht
        exact ⟨hb.take _ _ _ _ _ hb.regions _ _, by simp [take, hr], he⟩
      | false =>
        cases ht
        simp only [Inv, take, hstage]
        exact ⟨hb.take _ _ _ _ _ hb.regions _ true, by simp [hr], he⟩
    · simp [accessDone_stage ht] at hstage
    · simp [writeDone_stage ht] at hstage
    · simp [hr] at hr'
  | storage =>
    rw [hstage] at h
    obtain ⟨hb, hr, he⟩ := h
    rcases hb.step_cases he hstep with ⟨ok, t, ht, -⟩ | ⟨ok, t, ht, -⟩ | ⟨ok, out, t, ht, -⟩ |
      ⟨r, rest, hr', rfl⟩
    · simp [mkdirDone_stage ht] at hstage
    · simp [accessDone_stage ht] at hstage
    · simp [writeDone_stage ht] at hstage
    · rw [hr] at hr'
      cases hr'
      have hpopped : Blank { l with reactions := [] } :=
        ⟨hb.queue, hb.immediates, hb.registered, hb.posted, hb.early, hb.late, hb.joined,
          hb.started, hb.created, hb.writeFile, hb.regions⟩
      exact ⟨hpopped.take _ _ _ _ _ rfl _ _, rfl, rfl⟩
  | access =>
    rw [hstage] at h
    obtain ⟨hb, hr, hsdk⟩ := h
    have he : l.session.sdk.engines = [] := by
      rw [hsdk]
      rfl
    rcases hb.step_cases he hstep with ⟨ok, t, ht, -⟩ | ⟨ok, t, ht, rfl⟩ | ⟨ok, out, t, ht, -⟩ |
      ⟨r, rest, hr', -⟩
    · simp [mkdirDone_stage ht] at hstage
    · unfold Session.accessDone at ht
      rw [if_pos hstage] at ht
      cases ok with
      | true =>
        cases ht
        exact ⟨hb.take _ _ _ _ _ hb.regions _ _, by simp [take, hr], hsdk⟩
      | false =>
        cases ht
        simp only [Inv, take, hstage]
        exact ⟨hb.take _ _ _ _ _ hb.regions _ true, by simp [hr], hsdk⟩
    · simp [writeDone_stage ht] at hstage
    · simp [hr] at hr'
  | write =>
    rw [hstage] at h
    obtain ⟨hb, hr, hsdk⟩ := h
    have he : l.session.sdk.engines = [] := by
      rw [hsdk]
      rfl
    rcases hb.step_cases he hstep with ⟨ok, t, ht, -⟩ | ⟨ok, t, ht, -⟩ | ⟨ok, out, t, ht, rfl⟩ |
      ⟨r, rest, hr', -⟩
    · simp [mkdirDone_stage ht] at hstage
    · simp [accessDone_stage ht] at hstage
    · obtain ⟨hnative, hjoined⟩ := Joined.write hb hr hsdk ht
      exact inv_of_joined hnative hjoined
    · simp [hr] at hr'
  | native =>
    rw [hstage] at h
    exact Joined.step hstage h hstep

/-- A session that was answered has had something posted. -/
theorem Joined.posted_ne_nil {l : Local} (h : l.Joined) (hj : l.session.joined ≠ .pending) :
    l.session.posted ≠ [] := by
  intro hnil
  have hhistory := h.history
  rw [hnil] at hhistory
  have hboth : l.session.early ++ l.session.late = [] := by
    simp only [List.filter_nil, List.nil_eq, List.append_eq_nil_iff] at hhistory
    simp [hhistory.1.1]
  apply hj
  rw [h.verdict, hboth]
  rfl

/-- A session that was answered has its one engine. -/
theorem Joined.exists_engine {l : Local} (h : l.Joined) (hj : l.session.joined ≠ .pending) :
    ∃ engine, l.session.sdk.engines = [engine] ∧ engine.left = false ∧ engine.released = 0 := by
  have hposted := h.posted_ne_nil hj
  have hengine := h.engine
  generalize l.session.created = created at hengine
  cases hengine with
  | absent ptr engines silent => exact absurd silent hposted
  | null ptr engines silent => exact absurd silent hposted
  | engine joinResult one errors =>
    obtain ⟨engine, hengines, -, -, hleft, hreleased⟩ := one.engine
    exact ⟨engine, hengines, hleft, hreleased⟩

/-! ## Quiet sessions -/

/-- No task, immediate or reaction of the session is pending. -/
structure Quiet (l : Local) : Prop where
  queue : l.queue = []
  immediates : l.immediates = []
  reactions : l.reactions = []

/-- In a quiet session what was posted was emitted. -/
theorem Joined.posted_eq {l : Local} (h : l.Joined) (hq : l.Quiet) :
    l.session.posted.filter handled = l.session.early ++ l.session.late := by
  rw [h.history, hq.immediates, hq.queue]
  simp

theorem Joined.verdict_posted {l : Local} (h : l.Joined) (hq : l.Quiet) :
    Server.verdict l.session.posted = l.session.joined := by
  rw [← verdict_filter_handled, h.posted_eq hq, h.verdict]

theorem Inv.blank_or_joined {l : Local} (h : l.Inv) :
    l.Blank ∨ (l.session.stage = .native ∧ l.Joined) := by
  unfold Inv at h
  split at h
  case h_5 hstage => exact Or.inr ⟨hstage, h⟩
  all_goals exact Or.inl h.1

/-- A session whose start was answered has called the native join. -/
theorem Inv.joined_of_started {l : Local} (h : l.Inv) (hs : l.session.started ≠ .pending) :
    l.Joined := by
  rcases h.blank_or_joined with hb | ⟨-, hj⟩
  · exact absurd hb.started hs
  · exact hj

/-- So has one in the registry. -/
theorem Inv.joined_of_registered {l : Local} (h : l.Inv) (hreg : l.registered = true) :
    l.Joined := by
  rcases h.blank_or_joined with hb | ⟨-, hj⟩
  · exact absurd hreg (by simp [hb.registered])
  · exact hj

/-- In a quiet session the registry holds exactly the starts whose engine
reported joining first. -/
theorem Inv.registered_iff {l : Local} (h : l.Inv) (hq : l.Quiet) :
    l.registered = true ↔ Server.verdict l.session.posted = .resolved := by
  rcases h.blank_or_joined with hb | ⟨-, hj⟩
  · simp [hb.registered, hb.posted, Server.verdict]
  · have hafter := hj.aftermath
    rw [hq.reactions] at hafter
    rw [hafter.quiet.2, hj.verdict_posted hq, decide_eq_true_iff]

end Local

namespace Process

/-- **Every session of every run is in order.** -/
theorem reachable_inv {s : Process} (hs : machine.Reachable s) {i : SessionId} {l : Local}
    (hl : s.view i = some l) : l.Inv :=
  view_keeps Local.inv_start (fun _ _ _ h hstep => Local.inv_step h hstep) hs hl

/-- All native tasks, immediates and promise reactions are processed. -/
structure Idle (s : Process) : Prop where
  queue : s.queue = []
  immediates : s.immediates = []
  reactions : s.reactions = []

theorem Idle.quiet {s : Process} (h : s.Idle) {i : SessionId} {l : Local}
    (hl : s.view i = some l) : l.Quiet := by
  obtain ⟨-, -, hqueue, himmediates, hreactions⟩ := view_eq_some hl
  constructor
  · rw [hqueue, h.queue, share_nil]
  · rw [himmediates, h.immediates, share_nil]
  · rw [hreactions, h.reactions, share_nil]

end Process

end AgoraRecording.Server
