/-
AgoraRecording.Native.EngineCallsTheorems — when a call on `m_engine` is
safe, over every interleaving of the wrapper with the engine's callbacks.

Part one ties the frames to the methods: a frame that nobody interrupts
computes the method of `AgoraSdk.lean` (`run_release`, …).

Part two is the safety theorem. The JavaScript thread is the only writer
of `m_engine`, so each of its own calls comes after its own test and is
always safe; that is the invariant `CallState.Sound`, kept by EVERY step
with no side condition. What can fail is a callback: `onErrorImpl`
dereferences without a test, and a callback that has passed
`if(m_engine)` may be overtaken by `release`. `calls_along_iff` says that
this is all: the calls of a run are safe exactly when no callback calls
while the wrapper holds no engine or is between `m_engine->release()` and
`m_engine = NULL`.
-/
import AgoraRecording.Native.EngineCalls
import AgoraRecording.Native.AgoraSdkTheorems

namespace AgoraRecording.Native

open AgoraRecording.Lib

/-! ## Frames that nobody interrupts -/

namespace Frame

/-- `n` steps of one thread on its own. -/
def run : Nat → AgoraSdk × Frame → Option (AgoraSdk × Frame)
  | 0, sf => some sf
  | n + 1, (sdk, f) => (f.step sdk).bind (run n)

theorem run_release (sdk : AgoraSdk) : run 4 (sdk, releaseTest) = some (sdk.release, .done) := by
  cases h : sdk.mEngine with
  | none => simp [run, step, AgoraSdk.release, h]
  | some e => simp [run, step, AgoraSdk.onCurrent, AgoraSdk.release, h]

theorem run_leaveChannel (sdk : AgoraSdk) :
    run 2 (sdk, leaveTest) = some (sdk.leaveChannel, .done) := by
  cases h : sdk.mEngine with
  | none => simp [run, step, AgoraSdk.leaveChannel, h]
  | some e => simp [run, step, AgoraSdk.onCurrent, AgoraSdk.leaveChannel, h]

theorem run_setVideoMixLayout (sdk : AgoraSdk) :
    run 3 (sdk, layoutTest) = some (sdk.setVideoMixLayout, .done) := by
  by_cases hcount : sdk.mLayout.regionCount = 0
  · simp [run, step, AgoraSdk.setVideoMixLayout, hcount]
  · cases h : sdk.mEngine with
    | none =>
      simp [run, step, AgoraSdk.setVideoMixLayout, AgoraSdk.setVideoMixingLayout, hcount, h]
    | some e =>
      simp [run, step, AgoraSdk.onCurrent, AgoraSdk.setVideoMixLayout,
        AgoraSdk.setVideoMixingLayout, hcount, h]

theorem run_createChannel (sdk : AgoraSdk) (appid : Bytes) (config : RecordingConfig)
    (out : CreateOutcome) :
    run 3 (sdk, createEnter appid config out) =
      some ((sdk.createChannel appid config out).1, .done) := by
  cases out with
  | null => simp [run, step, AgoraSdk.createChannel]
  | engine joinResult =>
    -- the engine appended is the one the join is made on
    have hjoin : (sdk.engines ++ [Engine.new appid]).modify sdk.engines.length
        (fun g => g.joinChannel joinResult) =
          sdk.engines ++ [(Engine.new appid).joinChannel joinResult] := by
      rw [List.modify_eq_take_cons_drop (by simp)]
      simp
    by_cases hok : errOk = joinResult
    · simp [run, step, AgoraSdk.onCurrent, AgoraSdk.onEngine, AgoraSdk.createChannel, hjoin, hok]
    · simp [run, step, AgoraSdk.onCurrent, AgoraSdk.onEngine, AgoraSdk.createChannel, hjoin, hok]

/-- The unguarded method: no result exactly when `onErrorImpl` has none. -/
theorem run_onErrorImpl (sdk : AgoraSdk) :
    run 1 (sdk, stoppedCall) = sdk.onErrorImpl.map (fun t => (t, .done)) := by
  cases h : sdk.mEngine with
  | none => simp [run, step, AgoraSdk.onCurrent, AgoraSdk.onErrorImpl, h]
  | some e => simp [run, step, AgoraSdk.onCurrent, AgoraSdk.onErrorImpl, h]

theorem run_onUserJoinedImpl (sdk : AgoraSdk) (uid : Uid) (storageDir : Option String) :
    run 3 (CallState.recordJoin sdk uid storageDir, layoutTest) =
      some (sdk.onUserJoinedImpl uid storageDir, .done) :=
  run_setVideoMixLayout (CallState.recordJoin sdk uid storageDir)

theorem run_onUserOfflineImpl (sdk : AgoraSdk) (uid : Uid) :
    run 3 (CallState.recordOffline sdk uid, layoutTest) =
      some (sdk.onUserOfflineImpl uid, .done) :=
  run_setVideoMixLayout (CallState.recordOffline sdk uid)

/-! ## What one step of a thread does -/

/-- The steps that write `m_engine` or release an engine. -/
def moves : Frame → Bool
  | .creating _ _ _ | .releaseCall | .releaseClear => true
  | _ => false

/-- Where a callback can stand. -/
def inCallback : Frame → Bool
  | .done | .layoutTest | .mixingTest | .mixingCall | .stoppedCall => true
  | _ => false

end Frame

theorem AgoraSdk.onCurrent_eq_some {sdk t : AgoraSdk} {f : Engine → Engine} :
    sdk.onCurrent f = some t ↔ ∃ e, sdk.mEngine = some e ∧ sdk.onEngine e f = t := by
  rw [AgoraSdk.onCurrent, Option.map_eq_some_iff]

/-- The pointer and the unreleased engines are as they were. -/
def AgoraSdk.SameEngines (sdk t : AgoraSdk) : Prop :=
  t.mEngine = sdk.mEngine ∧ ∀ e, t.Unreleased e ↔ sdk.Unreleased e

theorem AgoraSdk.SameEngines.refl (sdk : AgoraSdk) : sdk.SameEngines sdk :=
  ⟨rfl, fun _ => Iff.rfl⟩

/-- A call that releases nothing leaves the engines alone. -/
theorem AgoraSdk.sameEngines_onCurrent {sdk t : AgoraSdk} {f : Engine → Engine}
    (h : sdk.onCurrent f = some t) (hf : ∀ g, (f g).released = g.released) :
    sdk.SameEngines t := by
  obtain ⟨e, -, rfl⟩ := AgoraSdk.onCurrent_eq_some.mp h
  exact ⟨rfl, AgoraSdk.unreleased_onEngine f hf⟩

/-- The step lemma of a thread that neither writes the pointer nor
releases. -/
theorem Frame.step_sameEngines {sdk sdk' : AgoraSdk} {f f' : Frame} (hf : f.moves = false)
    (h : f.step sdk = some (sdk', f')) : sdk.SameEngines sdk' := by
  cases f with
  | creating appid config out => cases hf
  | releaseCall => cases hf
  | releaseClear => cases hf
  | done | layoutTest | mixingTest | leaveTest | releaseTest | releasing | createEnter =>
    cases h
    exact AgoraSdk.SameEngines.refl sdk
  | mixingCall =>
    obtain ⟨t, ht, heq⟩ := Option.map_eq_some_iff.mp h
    have hsame : sdk.SameEngines t := AgoraSdk.sameEngines_onCurrent ht (fun _ => rfl)
    cases heq
    exact hsame
  | leaveCall =>
    obtain ⟨t, ht, heq⟩ := Option.map_eq_some_iff.mp h
    have hsame : sdk.SameEngines t := AgoraSdk.sameEngines_onCurrent ht (fun _ => rfl)
    cases heq
    exact hsame
  | joinCall config joinResult =>
    obtain ⟨t, ht, heq⟩ := Option.map_eq_some_iff.mp h
    have hsame : sdk.SameEngines t := AgoraSdk.sameEngines_onCurrent ht (fun _ => rfl)
    cases heq
    split
    · exact hsame
    · exact hsame
  | stoppedCall =>
    obtain ⟨t, ht, heq⟩ := Option.map_eq_some_iff.mp h
    have hsame : sdk.SameEngines t := AgoraSdk.sameEngines_onCurrent ht (fun _ => rfl)
    cases heq
    exact hsame

theorem Frame.inCallback.moves_eq {f : Frame} (h : f.inCallback = true) : f.moves = false := by
  cases f <;> first | rfl | cases h

/-- A callback stays in its callback. -/
theorem Frame.inCallback.step {sdk sdk' : AgoraSdk} {f f' : Frame} (hf : f.inCallback = true)
    (h : f.step sdk = some (sdk', f')) : f'.inCallback = true := by
  cases f with
  | done => cases h; rfl
  | layoutTest => cases h; split <;> rfl
  | mixingTest => cases h; split <;> rfl
  | mixingCall | stoppedCall =>
    obtain ⟨t, -, heq⟩ := Option.map_eq_some_iff.mp h
    cases heq
    rfl
  | _ => cases hf

/-! ## The invariant -/

namespace CallState

/-- What holds in every reachable state, whatever the interleaving. -/
structure Sound (s : CallState) : Prop where
  /-- outside `release`, the pointer is to an unreleased engine -/
  pointer : s.js.inRelease = false → ∀ e, s.sdk.mEngine = some e → s.sdk.Unreleased e
  /-- inside it, to a released one -/
  releasing : s.js.inRelease = true → ∃ e, s.sdk.mEngine = some e ∧ ¬ s.sdk.Unreleased e
  /-- the JavaScript thread calls only after its own test or creation -/
  tested : s.js.calls = true → s.sdk.mEngine ≠ none
  callbacks : ∀ f ∈ s.callbacks, f.inCallback = true

theorem sound_init : machine.init.Sound := by
  constructor
  · intro _ e he
    cases he
  · intro h
    cases h
  · intro h
    cases h
  · intro f hf
    cases hf

/-- A step of anyone that leaves the engines and the JavaScript thread
alone keeps the invariant. -/
theorem Sound.of_sameEngines {s s' : CallState} (h : s.Sound) (hjs : s'.js = s.js)
    (hsame : s.sdk.SameEngines s'.sdk) (hcb : ∀ f ∈ s'.callbacks, f.inCallback = true) :
    s'.Sound := by
  obtain ⟨hptr, hun⟩ := hsame
  constructor
  · intro hout e he
    exact (hun e).mpr (h.pointer (hjs ▸ hout) e (hptr ▸ he))
  · intro hin
    obtain ⟨e, he, hrel⟩ := h.releasing (hjs ▸ hin)
    exact ⟨e, hptr.trans he, fun hnow => hrel ((hun e).mp hnow)⟩
  · intro hcall
    rw [hptr]
    exact h.tested (hjs ▸ hcall)
  · exact hcb

theorem Sound.beginCallback {s s' : CallState} {sdk : AgoraSdk} {f : Frame} (h : s.Sound)
    (hsdk : s.sdk.SameEngines sdk) (hf : f.inCallback = true)
    (hstep : s.beginCallback sdk f = some s') : s'.Sound := by
  unfold CallState.beginCallback at hstep
  split at hstep
  · cases hstep
    refine h.of_sameEngines rfl hsdk ?_
    intro f' hf'
    rcases List.mem_append.mp hf' with hold | hnew
    · exact h.callbacks f' hold
    · rw [List.mem_singleton.mp hnew]
      exact hf
  · cases hstep

/-- A JavaScript operation begins: it has tested nothing and released
nothing yet. -/
theorem Sound.enter {s s' : CallState} {sdk : AgoraSdk} {f : Frame} (h : s.Sound)
    (hsdk : s.sdk.SameEngines sdk) (hcalls : f.calls = false) (hrel : f.inRelease = false)
    (hstep : s.enter sdk f = some s') : s'.Sound := by
  unfold CallState.enter at hstep
  split at hstep
  · rename_i hidle
    cases hstep
    have hdone : s.js = .done := by
      have hboth := Bool.and_eq_true_iff.mp hidle
      exact eq_of_beq hboth.1
    obtain ⟨hptr, hun⟩ := hsdk
    refine ⟨fun _ e he => ?_, fun hin => ?_, fun hc => ?_, h.callbacks⟩
    · exact (hun e).mpr (h.pointer (by rw [hdone]; rfl) e (hptr ▸ he))
    · exact absurd hin (by simp [hrel])
    · exact absurd hc (by simp [hcalls])
  · cases hstep

/-- The three steps that move the pointer, and the tests that come before
a call. -/
theorem Sound.stepJs {s : CallState} (h : s.Sound) : s.stepJs.Sound := by
  unfold CallState.stepJs
  split
  · rename_i sdk' f' hstep
    by_cases hmoves : s.js.moves = true
    · cases hjs : s.js with
      | creating appid config out =>
        rw [hjs] at hstep
        cases out with
        | null =>
          cases hstep
          exact ⟨fun _ e he => (by cases he), fun hin => (by cases hin), fun hc => (by cases hc),
            h.callbacks⟩
        | engine joinResult =>
          cases hstep
          refine ⟨fun _ e he => ?_, fun hin => (by cases hin), fun _ => ?_, h.callbacks⟩
          · cases he
            exact ⟨_, List.getElem?_concat_length, rfl⟩
          · exact Option.some_ne_none _
      | releaseCall =>
        rw [hjs] at hstep
        obtain ⟨t, ht, heq⟩ := Option.map_eq_some_iff.mp hstep
        cases heq
        obtain ⟨e, he, rfl⟩ := AgoraSdk.onCurrent_eq_some.mp ht
        refine ⟨fun hout => (by cases hout), fun _ => ⟨e, he, ?_⟩, fun hc => (by cases hc),
          h.callbacks⟩
        intro hun
        exact ((AgoraSdk.unreleased_release s.sdk e e).mp hun).2 rfl
      | releaseClear =>
        rw [hjs] at hstep
        cases hstep
        exact ⟨fun _ e he => (by cases he), fun hin => (by cases hin), fun hc => (by cases hc),
          h.callbacks⟩
      | _ => rw [hjs] at hmoves; cases hmoves
    · have hquiet : s.js.moves = false := by simpa using hmoves
      obtain ⟨hptr, hun⟩ := Frame.step_sameEngines hquiet hstep
      -- where the thread stands now, and what it has tested on the way
      have hnext : f'.inRelease = s.js.inRelease ∧ (f'.calls = true → s.sdk.mEngine ≠ none) := by
        cases hjs : s.js with
        | creating | releaseCall | releaseClear => rw [hjs] at hquiet; cases hquiet
        | done | releasing | createEnter =>
          rw [hjs] at hstep
          cases hstep
          exact ⟨rfl, fun hc => (by cases hc)⟩
        | layoutTest =>
          rw [hjs] at hstep
          cases hstep
          split
          · exact ⟨rfl, fun hc => (by cases hc)⟩
          · exact ⟨rfl, fun hc => (by cases hc)⟩
        | mixingTest | leaveTest | releaseTest =>
          rw [hjs] at hstep
          cases hstep
          split
          · rename_i hsome
            exact ⟨rfl, fun _ hnone => (by rw [hnone] at hsome; cases hsome)⟩
          · exact ⟨rfl, fun hc => (by cases hc)⟩
        | mixingCall | leaveCall | joinCall | stoppedCall =>
          rw [hjs] at hstep
          obtain ⟨t, -, heq⟩ := Option.map_eq_some_iff.mp hstep
          cases heq
          exact ⟨rfl, fun hc => (by cases hc)⟩
      refine ⟨fun hout e he => ?_, fun hin => ?_, fun hc => ?_, h.callbacks⟩
      · exact (hun e).mpr (h.pointer (hnext.1 ▸ hout) e (hptr ▸ he))
      · obtain ⟨e, he, hrel⟩ := h.releasing (hnext.1 ▸ hin)
        exact ⟨e, hptr.trans he, fun hnow => hrel ((hun e).mp hnow)⟩
      · show sdk'.mEngine ≠ none
        rw [hptr]
        exact hnext.2 hc
  · exact ⟨h.pointer, h.releasing, h.tested, h.callbacks⟩

theorem Sound.stepCallback {s : CallState} {i : Nat} {f : Frame} (h : s.Sound)
    (hf : s.callbacks[i]? = some f) : (s.stepCallback i f).Sound := by
  have hin : f.inCallback = true := h.callbacks f (List.mem_of_getElem? hf)
  unfold CallState.stepCallback
  split
  · rename_i sdk' f' hstep
    have hsame := Frame.step_sameEngines (Frame.inCallback.moves_eq hin) hstep
    refine h.of_sameEngines rfl hsame ?_
    intro f'' hf''
    rcases List.mem_or_eq_of_mem_set hf'' with hold | rfl
    · exact h.callbacks f'' hold
    · exact Frame.inCallback.step hin hstep
  · exact ⟨h.pointer, h.releasing, h.tested, h.callbacks⟩

theorem sameEngines_recordJoin (sdk : AgoraSdk) (uid : Uid) (storageDir : Option String) :
    sdk.SameEngines (recordJoin sdk uid storageDir) := by
  cases storageDir <;> exact AgoraSdk.SameEngines.refl sdk

/-- **The step lemma**: no step of any thread breaks the invariant. -/
theorem Sound.step {s s' : CallState} {a : CallAction} (h : s.Sound)
    (hstep : s.step a = some s') : s'.Sound := by
  unfold CallState.step at hstep
  split at hstep
  · cases hstep
  have hrefl := AgoraSdk.SameEngines.refl s.sdk
  cases a with
  | joinChannel appid config out => exact h.enter hrefl rfl rfl hstep
  | setMixLayout layout =>
    have hsame : s.sdk.SameEngines { s.sdk with mLayout := layout } := hrefl
    exact h.enter hsame rfl rfl hstep
  | leaveChannel => exact h.enter hrefl rfl rfl hstep
  | release => exact h.enter hrefl rfl rfl hstep
  | destroy =>
    obtain ⟨t, ht, rfl⟩ := Option.map_eq_some_iff.mp hstep
    have hs := h.enter hrefl rfl rfl ht
    exact ⟨hs.pointer, hs.releasing, hs.tested, hs.callbacks⟩
  | js =>
    cases hstep
    exact h.stepJs
  | onError => exact h.beginCallback hrefl rfl hstep
  | onUserJoined uid storageDir =>
    exact h.beginCallback (sameEngines_recordJoin s.sdk uid storageDir) rfl hstep
  | onUserOffline uid =>
    have hsame : s.sdk.SameEngines (recordOffline s.sdk uid) := hrefl
    exact h.beginCallback hsame rfl hstep
  | onLeaveChannel => exact h.beginCallback hrefl rfl hstep
  | callback i =>
    simp only at hstep
    split at hstep
    · cases hstep
    · rename_i f hf
      cases hstep
      exact h.stepCallback hf

/-! ## Safe calls -/

/-- The thread an action moves. -/
def thread (s : CallState) : CallAction → Option Frame
  | .js => some s.js
  | .callback i => s.callbacks[i]?
  | _ => none

/-- If the step is a call `m_engine->method`, the pointer is to an engine
that has not been released. -/
def CallOk (s : CallState) (a : CallAction) (_ : CallState) : Prop :=
  ∀ f, s.thread a = some f → f.calls = true →
    ∃ e g, s.sdk.mEngine = some e ∧ s.sdk.engines[e]? = some g ∧ g.released = 0

/-- If the step is a CALLBACK's call, the wrapper holds an engine and is
not between `m_engine->release()` and `m_engine = NULL`. -/
def InTime (s : CallState) (a : CallAction) (_ : CallState) : Prop :=
  ∀ i f, a = .callback i → s.callbacks[i]? = some f → f.calls = true →
    s.sdk.mEngine ≠ none ∧ s.js.inRelease = false

theorem Frame.calls_not_inRelease {f : Frame} (h : f.calls = true) : f.inRelease = false := by
  cases f <;> first | rfl | cases h

theorem Sound.callOk_iff {s s' : CallState} {a : CallAction} (h : s.Sound) :
    s.CallOk a s' ↔ s.InTime a s' := by
  constructor
  · intro hok i f ha hf hcalls
    subst ha
    obtain ⟨e, g, he, hg, hrel⟩ := hok f hf hcalls
    refine ⟨by simp [he], ?_⟩
    by_contra hin
    obtain ⟨e', he', hreleased⟩ := h.releasing (by simpa using hin)
    rw [he] at he'
    cases he'
    exact hreleased ⟨g, hg, hrel⟩
  · intro htime f hf hcalls
    have hheld : s.sdk.mEngine ≠ none ∧ s.js.inRelease = false := by
      cases a with
      | js =>
        cases hf
        exact ⟨h.tested hcalls, Frame.calls_not_inRelease hcalls⟩
      | callback i => exact htime i f rfl hf hcalls
      | _ => cases hf
    obtain ⟨e, he⟩ := Option.ne_none_iff_exists'.mp hheld.1
    obtain ⟨g, hg, hrel⟩ := h.pointer hheld.2 e he
    exact ⟨e, g, he, hg, hrel⟩

/-- The JavaScript thread's own calls are safe in every reachable state. -/
theorem js_callOk {s : CallState} (hs : machine.Reachable s) (s' : CallState) :
    s.CallOk .js s' := by
  have h : s.Sound := hs.induct sound_init (fun _ _ _ _ hi hstep => hi.step hstep)
  refine h.callOk_iff.mpr ?_
  intro i f ha
  cases ha

/-- **Every call of a run is safe exactly when every callback's call comes
in time.** -/
theorem calls_along_iff (as : List CallAction) :
    machine.Along CallOk machine.init as ↔ machine.Along InTime machine.init as :=
  Machine.along_iff_along (I := Sound)
    (fun _ _ _ h hstep _ => h.step hstep) (fun _ _ _ h _ => h.callOk_iff) sound_init

/-- An error raised while the engine is being created is a call on `NULL`. -/
theorem not_callOk_on_error_during_creation :
    ¬ ∀ as, machine.Along CallOk machine.init as := by
  intro h
  have hrun := h [.joinChannel [97] {} (.engine errOk), .js, .onError, .callback 0]
  have hlast := ((((hrun _ rfl).2 _ rfl).2 _ rfl).2 _ rfl).1
  obtain ⟨e, -, he, -⟩ := hlast .stoppedCall rfl rfl
  cases he

end CallState

end AgoraRecording.Native
