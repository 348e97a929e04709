/-
AgoraRecording.Native.AgoraSdk — the `AgoraSdk` class of `AgoraSdk.cpp`,
one method at a time.

An `AgoraSdk` is given with the engines it has created, oldest first, so
that "the engine `m_engine` points to" is a position in that list and a
lost engine is one no pointer reaches. `m_engine->method` is `onEngine`
at that position; a method that dereferences without a test returns
`none` when `m_engine` is `NULL`, which is where the process dies.

What is left out: the `bool`/`int` results no caller reads, the console
output and `m_mixRes`, which nothing reads. The frame callbacks, which
write raw audio and video files, are in `FrameFiles`.
-/
import AgoraRecording.Native.Engine

namespace AgoraRecording.Native

/-- The position of an engine among those its `AgoraSdk` created. -/
abbrev EngineId := Nat

structure AgoraSdk where
  mStopped : Bool
  mPeers : List Uid
  mLogdir : String
  mStorageDir : String
  mConfig : RecordingConfig
  mEngine : Option EngineId
  /-- the keys of `m_callbacks`; a key's callback is the JavaScript
  function subscribed under that name -/
  mCallbacks : List String
  mLayout : VideoMixingLayout
  /-- every engine created so far -/
  engines : List Engine
  deriving DecidableEq, Repr

/-- What the library answers to `createChannel`: no engine, or an engine
and the result of its `joinChannel`. -/
inductive CreateOutcome where
  | null
  | engine (joinResult : Int)
  deriving DecidableEq, Repr

/-- The outcome in which the channel is created. -/
def CreateOutcome.ok : CreateOutcome → Bool
  | .null => false
  | .engine joinResult => decide (joinResult = errOk)

namespace AgoraSdk

/-- `AgoraSdk::AgoraSdk`. -/
def new : AgoraSdk :=
  { mStopped := false, mPeers := [], mLogdir := "", mStorageDir := "./", mConfig := {},
    mEngine := none, mCallbacks := [], mLayout := {}, engines := [] }

/-- A call on the engine at position `e`. -/
def onEngine (sdk : AgoraSdk) (e : EngineId) (f : Engine → Engine) : AgoraSdk :=
  { sdk with engines := sdk.engines.modify e f }

/-! ## Lifecycle -/

/-- `AgoraSdk::~AgoraSdk`. -/
def destruct (sdk : AgoraSdk) : AgoraSdk :=
  match sdk.mEngine with
  | some e => (sdk.onEngine e Engine.leaveChannel).onEngine e Engine.release
  | none => sdk

/-- `AgoraSdk::release`. -/
def release (sdk : AgoraSdk) : AgoraSdk :=
  match sdk.mEngine with
  | some e => { sdk.onEngine e Engine.release with mEngine := none }
  | none => sdk

/-- `AgoraSdk::createChannel`; the `Bool` is its result. The pointer is
assigned before either failure exit, whatever it held. -/
def createChannel (sdk : AgoraSdk) (appid : Bytes) (config : RecordingConfig) :
    CreateOutcome → AgoraSdk × Bool
  | .null => ({ sdk with mEngine := none }, false)
  | .engine joinResult =>
      let created := { sdk with
        mEngine := some sdk.engines.length
        engines := sdk.engines ++ [(Engine.new appid).joinChannel joinResult] }
      if errOk ≠ joinResult then (created, false)
      else ({ created with mConfig := config }, true)

/-- `AgoraSdk::leaveChannel`. -/
def leaveChannel (sdk : AgoraSdk) : AgoraSdk :=
  match sdk.mEngine with
  | some e => { sdk.onEngine e Engine.leaveChannel with mStopped := true }
  | none => sdk

/-! ## Layout -/

/-- `AgoraSdk::setVideoMixingLayout`. -/
def setVideoMixingLayout (sdk : AgoraSdk) (layout : VideoMixingLayout) : AgoraSdk :=
  match sdk.mEngine with
  | some e => sdk.onEngine e (fun g => g.setVideoMixingLayout layout)
  | none => sdk

/-- `AgoraSdk::setVideoMixLayout`. -/
def setVideoMixLayout (sdk : AgoraSdk) : AgoraSdk :=
  if sdk.mLayout.regionCount = 0 then sdk else sdk.setVideoMixingLayout sdk.mLayout

/-- `AgoraSdk::updateMixLayout`. -/
def updateMixLayout (sdk : AgoraSdk) (layout : VideoMixingLayout) : AgoraSdk :=
  setVideoMixLayout { sdk with mLayout := layout }

/-! ## Callbacks

What each of them posts to the shared queue is `Callback.post`, in
`EventHandler.lean`. -/

/-- `AgoraSdk::addEventHandler`: `emplace` keeps an existing entry. -/
def addEventHandler (sdk : AgoraSdk) (eventName : String) : AgoraSdk :=
  if eventName ∈ sdk.mCallbacks then sdk
  else { sdk with mCallbacks := sdk.mCallbacks ++ [eventName] }

/-- `AgoraSdk::onErrorImpl`. `m_engine` is dereferenced without a test. -/
def onErrorImpl (sdk : AgoraSdk) : Option AgoraSdk :=
  match sdk.mEngine with
  | some e => some (sdk.onEngine e Engine.stoppedOnError)
  | none => none

/-- `AgoraSdk::onUserJoinedImpl`. -/
def onUserJoinedImpl (sdk : AgoraSdk) (uid : Uid) (storageDir : Option String) : AgoraSdk :=
  let sdk := match storageDir with
    | some dir => { sdk with mStorageDir := dir, mLogdir := dir }
    | none => sdk
  setVideoMixLayout { sdk with mPeers := sdk.mPeers ++ [uid] }

/-- `AgoraSdk::onUserOfflineImpl`. -/
def onUserOfflineImpl (sdk : AgoraSdk) (uid : Uid) : AgoraSdk :=
  setVideoMixLayout { sdk with mPeers := sdk.mPeers.filter (· ≠ uid) }

/-- Engine `e` raises an event: its own change of state, then the
handler. The join and leave handlers only post. -/
def onEvent (sdk : AgoraSdk) (e : EngineId) (ev : Event) (storageDir : Option String) :
    Option AgoraSdk :=
  let raised := sdk.onEngine e (fun g => g.raise ev)
  match ev with
  | .joinchannel _ _ | .leavechannel => some raised
  | .error _ _ => raised.onErrorImpl
  | .userjoin uid => some (raised.onUserJoinedImpl uid storageDir)
  | .userleave uid => some (raised.onUserOfflineImpl uid)

end AgoraSdk

end AgoraRecording.Native
