/-
AgoraRecording.Native.AgoraSdkTheorems — one spec lemma per method of
`AgoraSdk`, in terms of the engine `m_engine` points to.

`current` is that engine. Each method is described by what it does to
`current`, to `m_engine` and to `m_layout`; later modules cite these and
do not unfold the methods.
-/
import AgoraRecording.Native.AgoraSdk

namespace AgoraRecording.Native.AgoraSdk

/-- The engine `m_engine` points to. -/
def current (sdk : AgoraSdk) : Option Engine :=
  sdk.mEngine.bind (fun e => sdk.engines[e]?)

/-! ## Calls on an engine -/

@[simp] theorem onEngine_mEngine (sdk : AgoraSdk) (e : EngineId) (f : Engine → Engine) :
    (sdk.onEngine e f).mEngine = sdk.mEngine := rfl

@[simp] theorem onEngine_mLayout (sdk : AgoraSdk) (e : EngineId) (f : Engine → Engine) :
    (sdk.onEngine e f).mLayout = sdk.mLayout := rfl

@[simp] theorem onEngine_mCallbacks (sdk : AgoraSdk) (e : EngineId) (f : Engine → Engine) :
    (sdk.onEngine e f).mCallbacks = sdk.mCallbacks := rfl

@[simp] theorem onEngine_length (sdk : AgoraSdk) (e : EngineId) (f : Engine → Engine) :
    (sdk.onEngine e f).engines.length = sdk.engines.length :=
  List.length_modify f sdk.engines e

/-- A call changes the engine it is made on and no other. -/
theorem onEngine_getElem? (sdk : AgoraSdk) (e e' : EngineId) (f : Engine → Engine) :
    (sdk.onEngine e f).engines[e']? =
      if e = e' then sdk.engines[e']?.map f else sdk.engines[e']? := by
  rw [onEngine, List.getElem?_modify]
  by_cases he : e = e' <;> simp [he]

theorem current_onEngine {sdk : AgoraSdk} {e : EngineId} (h : sdk.mEngine = some e)
    (f : Engine → Engine) : (sdk.onEngine e f).current = sdk.current.map f := by
  rw [current, current, onEngine_mEngine, h]
  simp only [Option.bind_some]
  rw [onEngine_getElem?, if_pos rfl]

theorem current_of_mEngine_none {sdk : AgoraSdk} (h : sdk.mEngine = none) :
    sdk.current = none := by
  rw [current, h, Option.bind_none]

/-! ## Layout -/

@[simp] theorem setVideoMixingLayout_mEngine (sdk : AgoraSdk) (layout : VideoMixingLayout) :
    (sdk.setVideoMixingLayout layout).mEngine = sdk.mEngine := by
  unfold setVideoMixingLayout
  split <;> rfl

@[simp] theorem setVideoMixingLayout_mLayout (sdk : AgoraSdk) (layout : VideoMixingLayout) :
    (sdk.setVideoMixingLayout layout).mLayout = sdk.mLayout := by
  unfold setVideoMixingLayout
  split <;> rfl

@[simp] theorem setVideoMixingLayout_mCallbacks (sdk : AgoraSdk) (layout : VideoMixingLayout) :
    (sdk.setVideoMixingLayout layout).mCallbacks = sdk.mCallbacks := by
  unfold setVideoMixingLayout
  split <;> rfl

theorem current_setVideoMixingLayout (sdk : AgoraSdk) (layout : VideoMixingLayout) :
    (sdk.setVideoMixingLayout layout).current =
      sdk.current.map (fun g => g.setVideoMixingLayout layout) := by
  unfold setVideoMixingLayout
  cases h : sdk.mEngine with
  | none => rw [current_of_mEngine_none h]; rfl
  | some e => exact current_onEngine h _

@[simp] theorem setVideoMixLayout_mEngine (sdk : AgoraSdk) :
    sdk.setVideoMixLayout.mEngine = sdk.mEngine := by
  unfold setVideoMixLayout
  split <;> simp

@[simp] theorem setVideoMixLayout_mLayout (sdk : AgoraSdk) :
    sdk.setVideoMixLayout.mLayout = sdk.mLayout := by
  unfold setVideoMixLayout
  split <;> simp

@[simp] theorem setVideoMixLayout_mCallbacks (sdk : AgoraSdk) :
    sdk.setVideoMixLayout.mCallbacks = sdk.mCallbacks := by
  unfold setVideoMixLayout
  split <;> simp

/-- The guard: a layout without regions never reaches the engine. -/
theorem current_setVideoMixLayout (sdk : AgoraSdk) :
    sdk.setVideoMixLayout.current =
      if sdk.mLayout.regionCount = 0 then sdk.current
      else sdk.current.map (fun g => g.setVideoMixingLayout sdk.mLayout) := by
  unfold setVideoMixLayout
  by_cases h : sdk.mLayout.regionCount = 0
  · rw [if_pos h, if_pos h]
  · rw [if_neg h, if_neg h, current_setVideoMixingLayout]

@[simp] theorem updateMixLayout_mEngine (sdk : AgoraSdk) (layout : VideoMixingLayout) :
    (sdk.updateMixLayout layout).mEngine = sdk.mEngine :=
  setVideoMixLayout_mEngine _

@[simp] theorem updateMixLayout_mLayout (sdk : AgoraSdk) (layout : VideoMixingLayout) :
    (sdk.updateMixLayout layout).mLayout = layout :=
  setVideoMixLayout_mLayout _

@[simp] theorem updateMixLayout_mCallbacks (sdk : AgoraSdk) (layout : VideoMixingLayout) :
    (sdk.updateMixLayout layout).mCallbacks = sdk.mCallbacks :=
  setVideoMixLayout_mCallbacks _

/-! ## Lifecycle -/

theorem createChannel_snd (sdk : AgoraSdk) (appid : Bytes) (config : RecordingConfig)
    (out : CreateOutcome) : (sdk.createChannel appid config out).2 = out.ok := by
  cases out with
  | null => rfl
  | engine joinResult =>
    by_cases h : joinResult = errOk
    · simp [createChannel, CreateOutcome.ok, h]
    · simp [createChannel, CreateOutcome.ok, h, Ne.symm h]

@[simp] theorem createChannel_mLayout (sdk : AgoraSdk) (appid : Bytes) (config : RecordingConfig)
    (out : CreateOutcome) : (sdk.createChannel appid config out).1.mLayout = sdk.mLayout := by
  cases out with
  | null => rfl
  | engine joinResult =>
    simp only [createChannel]
    split <;> rfl

@[simp] theorem createChannel_mCallbacks (sdk : AgoraSdk) (appid : Bytes)
    (config : RecordingConfig) (out : CreateOutcome) :
    (sdk.createChannel appid config out).1.mCallbacks = sdk.mCallbacks := by
  cases out with
  | null => rfl
  | engine joinResult =>
    simp only [createChannel]
    split <;> rfl

/-- Whatever its `joinChannel` answers, the new engine is appended and
becomes the one `m_engine` points to. -/
theorem createChannel_engine (sdk : AgoraSdk) (appid : Bytes) (config : RecordingConfig)
    (joinResult : Int) :
    (sdk.createChannel appid config (.engine joinResult)).1.mEngine = some sdk.engines.length ∧
    (sdk.createChannel appid config (.engine joinResult)).1.engines =
      sdk.engines ++ [(Engine.new appid).joinChannel joinResult] := by
  simp only [createChannel]
  split <;> exact ⟨rfl, rfl⟩

theorem current_createChannel (sdk : AgoraSdk) (appid : Bytes) (config : RecordingConfig)
    (joinResult : Int) :
    (sdk.createChannel appid config (.engine joinResult)).1.current =
      some ((Engine.new appid).joinChannel joinResult) := by
  obtain ⟨hptr, hengines⟩ := createChannel_engine sdk appid config joinResult
  rw [current, hptr, Option.bind_some, hengines, List.getElem?_concat_length]

/-! ## Unreleased engines -/

/-- Engine `e` was created and not released. -/
def Unreleased (sdk : AgoraSdk) (e : EngineId) : Prop :=
  ∃ g, sdk.engines[e]? = some g ∧ g.released = 0

theorem unreleased_lt {sdk : AgoraSdk} {e : EngineId} (h : sdk.Unreleased e) :
    e < sdk.engines.length := by
  obtain ⟨g, hg, -⟩ := h
  exact (List.getElem?_eq_some_iff.mp hg).1

/-- A call that is not `release` releases nothing. -/
theorem unreleased_onEngine {sdk : AgoraSdk} {e : EngineId} (f : Engine → Engine)
    (hf : ∀ g, (f g).released = g.released) (e' : EngineId) :
    (sdk.onEngine e f).Unreleased e' ↔ sdk.Unreleased e' := by
  unfold Unreleased
  rw [onEngine_getElem?]
  by_cases he : e = e'
  · rw [if_pos he]
    constructor
    · rintro ⟨g, hg, hr⟩
      obtain ⟨g', hg', rfl⟩ := Option.map_eq_some_iff.mp hg
      exact ⟨g', hg', (hf g').symm.trans hr⟩
    · rintro ⟨g, hg, hr⟩
      exact ⟨f g, by rw [hg, Option.map_some], (hf g).trans hr⟩
  · rw [if_neg he]

/-- `release` on an unreleased engine takes exactly it off the list. -/
theorem unreleased_release (sdk : AgoraSdk) (e e' : EngineId) :
    (sdk.onEngine e Engine.release).Unreleased e' ↔ sdk.Unreleased e' ∧ e ≠ e' := by
  unfold Unreleased
  rw [onEngine_getElem?]
  by_cases he : e = e'
  · rw [if_pos he]
    constructor
    · rintro ⟨g, hg, hr⟩
      obtain ⟨g', -, rfl⟩ := Option.map_eq_some_iff.mp hg
      simp [Engine.release] at hr
    · rintro ⟨-, hne⟩
      exact absurd he hne
  · rw [if_neg he]
    exact ⟨fun h => ⟨h, he⟩, fun h => h.1⟩

/-- After `createChannel` has created an engine, the unreleased engines are
the old ones and the new one. -/
theorem unreleased_createChannel (sdk : AgoraSdk) (appid : Bytes) (config : RecordingConfig)
    (joinResult : Int) (e : EngineId) :
    (sdk.createChannel appid config (.engine joinResult)).1.Unreleased e ↔
      sdk.Unreleased e ∨ e = sdk.engines.length := by
  unfold Unreleased
  rw [(sdk.createChannel_engine appid config joinResult).2]
  rcases Nat.lt_trichotomy e sdk.engines.length with hlt | heq | hgt
  · rw [List.getElem?_append_left hlt]
    exact ⟨Or.inl, fun h => h.resolve_right (Nat.ne_of_lt hlt)⟩
  · subst heq
    rw [List.getElem?_concat_length]
    exact iff_of_true ⟨_, rfl, rfl⟩ (Or.inr rfl)
  · have hpast : sdk.engines.length + 1 ≤ e := hgt
    rw [List.getElem?_eq_none (by simpa using hpast),
      List.getElem?_eq_none (Nat.le_of_lt hgt)]
    exact iff_of_false (by simp) (by simpa using Nat.ne_of_gt hgt)

/-! ## One live engine

What a session that never leaves nor releases has: one engine, pointed
to. No call made on its behalf changes more than the layout, until the
engine itself reports. -/

/-- The one engine created, in use. -/
structure OneEngine (sdk : AgoraSdk) (joined inChannel : Bool) : Prop where
  ptr : sdk.mEngine = some 0
  engine : ∃ g, sdk.engines = [g] ∧ g.joined = joined ∧ g.inChannel = inChannel ∧
    g.left = false ∧ g.released = 0

theorem OneEngine.onEngine {sdk : AgoraSdk} {joined inChannel inChannel' : Bool}
    (h : sdk.OneEngine joined inChannel) {f : Engine → Engine}
    (hf : ∀ g : Engine, g.inChannel = inChannel → (f g).joined = g.joined ∧
      (f g).inChannel = inChannel' ∧ (f g).left = g.left ∧ (f g).released = g.released) :
    (sdk.onEngine 0 f).OneEngine joined inChannel' := by
  obtain ⟨g, hg, hjoined, hin, hleft, hreleased⟩ := h.engine
  obtain ⟨hj, hi, hl, hr⟩ := hf g hin
  refine ⟨h.ptr, f g, ?_, hj.trans hjoined, hi, hl.trans hleft, hr.trans hreleased⟩
  rw [AgoraSdk.onEngine, hg]
  rfl

theorem OneEngine.setVideoMixLayout {sdk : AgoraSdk} {joined inChannel : Bool}
    (h : sdk.OneEngine joined inChannel) : sdk.setVideoMixLayout.OneEngine joined inChannel := by
  unfold AgoraSdk.setVideoMixLayout AgoraSdk.setVideoMixingLayout
  split
  · exact h
  · rw [h.ptr]
    exact h.onEngine (fun g hg => ⟨rfl, hg, rfl, rfl⟩)

theorem OneEngine.updateMixLayout {sdk : AgoraSdk} {joined inChannel : Bool}
    (h : sdk.OneEngine joined inChannel) (layout : VideoMixingLayout) :
    (sdk.updateMixLayout layout).OneEngine joined inChannel := by
  have hset : AgoraSdk.OneEngine { sdk with mLayout := layout } joined inChannel :=
    ⟨h.ptr, h.engine⟩
  exact hset.setVideoMixLayout

/-- An event finds the engine, and changes what the engine itself reports. -/
theorem OneEngine.onEvent {sdk : AgoraSdk} {joined inChannel : Bool}
    (h : sdk.OneEngine joined inChannel) (ev : Event) (dir : Option String) {inChannel' : Bool}
    (hev : ∀ g : Engine, g.inChannel = inChannel → (g.raise ev).inChannel = inChannel') :
    ∃ sdk', sdk.onEvent 0 ev dir = some sdk' ∧ sdk'.OneEngine joined inChannel' ∧
      sdk'.mCallbacks = sdk.mCallbacks := by
  have hraised : (sdk.onEngine 0 (fun g => g.raise ev)).OneEngine joined inChannel' := by
    refine h.onEngine (fun g hg => ⟨?_, hev g hg, ?_, ?_⟩)
    all_goals cases ev <;> rfl
  cases ev with
  | joinchannel channel uid => exact ⟨_, rfl, hraised, rfl⟩
  | leavechannel => exact ⟨_, rfl, hraised, rfl⟩
  | error err stat =>
    have hstopped : AgoraSdk.OneEngine ((sdk.onEngine 0
        (fun g => g.raise (.error err stat))).onEngine 0 Engine.stoppedOnError)
        joined inChannel' := hraised.onEngine (fun g hg => ⟨rfl, hg, rfl, rfl⟩)
    refine ⟨_, ?_, hstopped, rfl⟩
    simp only [AgoraSdk.onEvent, AgoraSdk.onErrorImpl, onEngine_mEngine, h.ptr]
  | userjoin uid =>
    refine ⟨_, rfl, ?_, ?_⟩
    · cases dir with
      | none =>
        have hset : AgoraSdk.OneEngine { sdk.onEngine 0 (fun g => g.raise (.userjoin uid)) with
            mPeers := sdk.mPeers ++ [uid] } joined inChannel' := ⟨hraised.ptr, hraised.engine⟩
        exact hset.setVideoMixLayout
      | some path =>
        have hset : AgoraSdk.OneEngine { sdk.onEngine 0 (fun g => g.raise (.userjoin uid)) with
            mStorageDir := path, mLogdir := path, mPeers := sdk.mPeers ++ [uid] }
            joined inChannel' := ⟨hraised.ptr, hraised.engine⟩
        exact hset.setVideoMixLayout
    · cases dir <;> exact setVideoMixLayout_mCallbacks _
  | userleave uid =>
    refine ⟨_, rfl, ?_, setVideoMixLayout_mCallbacks _⟩
    have hset : AgoraSdk.OneEngine { sdk.onEngine 0 (fun g => g.raise (.userleave uid)) with
        mPeers := sdk.mPeers.filter (· ≠ uid) } joined inChannel' := ⟨hraised.ptr, hraised.engine⟩
    exact hset.setVideoMixLayout

end AgoraRecording.Native.AgoraSdk
