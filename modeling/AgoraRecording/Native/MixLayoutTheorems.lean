/-
AgoraRecording.Native.MixLayoutTheorems — when the engine mixes the layout
the application last set.

`AgoraSdk` keeps the application's layout in `m_layout` and forwards it to
the engine from `updateMixLayout` and again from the user callbacks
(`//When the user is offline, we can re-layout the canvas`). Two paths
break the agreement between the two:

* `setVideoMixLayout` returns early when `regionCount` is zero, so the
  layout that REMOVES the last region never reaches the engine and the
  departed user stays in the mix;
* `createChannel` forwards nothing, so a layout set before it is not in
  force until the next callback.

`agrees_along_iff` says these are the only two: a run keeps the agreement
in every state exactly when no step takes one of them.
-/
import AgoraRecording.Lib.Machine
import AgoraRecording.Native.AgoraSdkTheorems

namespace AgoraRecording.Native

open AgoraRecording.Lib

/-! ## The operations -/

/-- The operations that read or write `m_layout` or the engine's layout.
`createChannel` is the successful call. -/
inductive LayoutAction where
  | setMixLayout (l : MixLayout)
  | createChannel (appid : Bytes) (config : RecordingConfig)
  | userJoined (uid : Uid) (storageDir : Option String)
  | userOffline (uid : Uid)

def LayoutAction.apply (sdk : AgoraSdk) : LayoutAction → AgoraSdk
  | .setMixLayout l => sdk.updateMixLayout l.layout
  | .createChannel appid config => (sdk.createChannel appid config (.engine errOk)).1
  | .userJoined uid storageDir => sdk.onUserJoinedImpl uid storageDir
  | .userOffline uid => sdk.onUserOfflineImpl uid

def layoutMachine : Machine AgoraSdk LayoutAction where
  init := AgoraSdk.new
  step sdk a := some (a.apply sdk)

/-- The engine, if there is one, mixes the regions of `m_layout`. -/
def AgoraSdk.Agrees (sdk : AgoraSdk) : Prop :=
  ∀ g, sdk.current = some g → g.regionList = sdk.mLayout.regionList

/-- The step does not take a path that forwards nothing: an empty layout
over a non-empty one, or a new engine under a non-empty layout. -/
def LayoutAction.Forwards (sdk : AgoraSdk) : LayoutAction → Prop
  | .setMixLayout l =>
      sdk.current = none ∨ l.layout.regionList ≠ [] ∨ sdk.mLayout.regionList = []
  | .createChannel _ _ => sdk.mLayout.regionList = []
  | .userJoined _ _ | .userOffline _ => True

/-! ## One step -/

/-- `m_layout` is what a constructor or a `setMixLayout` left there. -/
def AgoraSdk.LayoutWf (sdk : AgoraSdk) : Prop :=
  sdk.mLayout.regionCount = sdk.mLayout.regions.length

theorem AgoraSdk.LayoutWf.count_eq_zero {sdk : AgoraSdk} (h : sdk.LayoutWf) :
    sdk.mLayout.regionCount = 0 ↔ sdk.mLayout.regionList = [] :=
  MixLayout.regionCount_eq_zero ⟨sdk.mLayout, h⟩

theorem onUserJoinedImpl_eq (sdk : AgoraSdk) (uid : Uid) (storageDir : Option String) :
    ∃ pre : AgoraSdk, pre.mLayout = sdk.mLayout ∧ pre.current = sdk.current ∧
      pre.mCallbacks = sdk.mCallbacks ∧ pre.mEngine = sdk.mEngine ∧
      sdk.onUserJoinedImpl uid storageDir = pre.setVideoMixLayout := by
  cases storageDir with
  | none => exact ⟨{ sdk with mPeers := sdk.mPeers ++ [uid] }, rfl, rfl, rfl, rfl, rfl⟩
  | some dir =>
    exact ⟨{ sdk with mStorageDir := dir, mLogdir := dir, mPeers := sdk.mPeers ++ [uid] },
      rfl, rfl, rfl, rfl, rfl⟩

/-- Forwarding `m_layout` establishes the agreement when it has regions and
leaves the engine alone when it has none. -/
theorem agrees_setVideoMixLayout_iff {sdk : AgoraSdk} (hwf : sdk.LayoutWf) :
    sdk.setVideoMixLayout.Agrees ↔
      (sdk.mLayout.regionList = [] → ∀ g, sdk.current = some g → g.regionList = []) := by
  rw [AgoraSdk.Agrees, AgoraSdk.setVideoMixLayout_mLayout, AgoraSdk.current_setVideoMixLayout]
  by_cases hc : sdk.mLayout.regionCount = 0
  · have hnil := hwf.count_eq_zero.mp hc
    rw [if_pos hc, hnil]
    exact ⟨fun h _ => h, fun h => h rfl⟩
  · have hne : sdk.mLayout.regionList ≠ [] := fun h => hc (hwf.count_eq_zero.mpr h)
    rw [if_neg hc]
    refine ⟨fun _ h => absurd h hne, fun _ g hg => ?_⟩
    obtain ⟨g', -, rfl⟩ := Option.map_eq_some_iff.mp hg
    rfl

theorem layoutWf_apply {sdk : AgoraSdk} (hwf : sdk.LayoutWf) (a : LayoutAction) :
    (a.apply sdk).LayoutWf := by
  cases a with
  | setMixLayout l =>
    rw [LayoutAction.apply, AgoraSdk.LayoutWf, AgoraSdk.updateMixLayout_mLayout]
    exact l.count_eq
  | createChannel appid config =>
    rw [LayoutAction.apply, AgoraSdk.LayoutWf, AgoraSdk.createChannel_mLayout]
    exact hwf
  | userJoined uid storageDir =>
    obtain ⟨pre, hlayout, -, -, -, heq⟩ := onUserJoinedImpl_eq sdk uid storageDir
    rw [LayoutAction.apply, heq, AgoraSdk.LayoutWf, AgoraSdk.setVideoMixLayout_mLayout, hlayout]
    exact hwf
  | userOffline uid =>
    rw [LayoutAction.apply, AgoraSdk.onUserOfflineImpl, AgoraSdk.LayoutWf,
      AgoraSdk.setVideoMixLayout_mLayout]
    exact hwf

/-- **The step lemma**: from an agreeing state, a step agrees again exactly
when it forwards. -/
theorem agrees_apply_iff {sdk : AgoraSdk} (hwf : sdk.LayoutWf) (h : sdk.Agrees)
    (a : LayoutAction) : (a.apply sdk).Agrees ↔ a.Forwards sdk := by
  cases a with
  | setMixLayout l =>
    have hstep := @agrees_setVideoMixLayout_iff { sdk with mLayout := l.layout }
      (show l.layout.regionCount = l.layout.regions.length from l.count_eq)
    have hcur : AgoraSdk.current { sdk with mLayout := l.layout } = sdk.current := rfl
    rw [hcur] at hstep
    refine hstep.trans ⟨fun hnil => ?_, fun hfwd hnew g hg => ?_⟩
    · cases hg : sdk.current with
      | none => exact Or.inl hg
      | some g =>
        refine Or.inr ?_
        by_cases hnew : l.layout.regionList = []
        · exact Or.inr ((h g hg).symm.trans (hnil hnew g hg))
        · exact Or.inl hnew
    · rcases hfwd with hnone | hne | hold
      · rw [hnone] at hg
        cases hg
      · exact absurd hnew hne
      · exact (h g hg).trans hold
  | createChannel appid config =>
    rw [LayoutAction.apply, AgoraSdk.Agrees, AgoraSdk.current_createChannel,
      AgoraSdk.createChannel_mLayout]
    constructor
    · intro hall
      exact (hall _ rfl).symm
    · intro hnil g hg
      cases hg
      exact hnil.symm
  | userJoined uid storageDir =>
    obtain ⟨pre, hlayout, hcur, -, -, heq⟩ := onUserJoinedImpl_eq sdk uid storageDir
    have hprewf : pre.LayoutWf := by rw [AgoraSdk.LayoutWf, hlayout]; exact hwf
    rw [LayoutAction.apply, heq]
    refine iff_of_true ((agrees_setVideoMixLayout_iff hprewf).mpr ?_) trivial
    intro hnil g hg
    rw [hcur] at hg
    rw [h g hg, ← hlayout, hnil]
  | userOffline uid =>
    refine iff_of_true ?_ trivial
    refine (@agrees_setVideoMixLayout_iff
      { sdk with mPeers := sdk.mPeers.filter (· ≠ uid) } hwf).mpr ?_
    intro hnil g hg
    exact (h g hg).trans hnil

/-! ## Whole runs -/

theorem agrees_new : AgoraSdk.new.Agrees := by
  intro g hg
  cases hg

/-- **Exactly the runs whose steps all forward keep the agreement** in every
state they reach. -/
theorem agrees_along_iff (as : List LayoutAction) :
    layoutMachine.Along (fun _ _ sdk' => sdk'.Agrees) layoutMachine.init as ↔
      layoutMachine.Along (fun sdk a _ => a.Forwards sdk) layoutMachine.init as := by
  refine Machine.along_iff_along (I := fun sdk => sdk.LayoutWf ∧ sdk.Agrees) ?_ ?_
    ⟨rfl, agrees_new⟩
  · intro sdk a sdk' hi hstep hagrees
    cases hstep
    exact ⟨layoutWf_apply hi.1 a, hagrees⟩
  · intro sdk a sdk' hi hstep
    cases hstep
    exact agrees_apply_iff hi.1 hi.2 a

/-- The layout with one region, as the `userjoin` handler sends it. -/
def oneRegion : MixLayout where
  layout := { canvasWidth := 640, canvasHeight := 480, regionCount := 1,
              regions := [{ uid := 7, width := 1, height := 1, renderMode := 0 }] }
  count_eq := rfl

/-- The layout the `userleave` handler sends when the last user is gone. -/
def noRegion : MixLayout where
  layout := { canvasWidth := 640, canvasHeight := 480 }
  count_eq := rfl

/-- The agreement does not hold in every reachable state: the last user
leaves, and the engine still holds a region for that user. -/
theorem not_agrees_after_last_leave :
    ¬ ∀ as sdk, layoutMachine.run as = some sdk → sdk.Agrees := by
  intro h
  have hagrees := h [.createChannel [97] {}, .setMixLayout oneRegion, .setMixLayout noRegion] _ rfl
  have heq := hagrees _ rfl
  exact absurd heq (by decide)

end AgoraRecording.Native
