/-
AgoraRecording.Native.EngineCalls — the methods of `AgoraSdk` as threads
that interleave.

`AgoraSdk.lean` gives each method as one step. Here the same bodies are
cut at every read of `m_engine`, every call on it and every write to it,
because the engine's own threads run the callbacks while the JavaScript
thread is inside a method. A `Frame` is where a thread stands; `Frame.step`
is its next atomic step, the same one whichever thread takes it, and
`none` when it calls a method on a `NULL` pointer.

`CallState.step` interleaves ONE JavaScript thread — the operations of
`NodeRecordingSdk`, which never overlap each other — with any number of
callbacks. A callback may begin from the moment
`createAgoraRecordingEngine` is entered until the engine's `release` has
returned; one that has begun may take its remaining steps at any later
time.

`Frame.run_*` in `EngineCallsTheorems` says a frame run without
interruption computes the method of `AgoraSdk.lean`.
-/
import AgoraRecording.Lib.Machine
import AgoraRecording.Native.AgoraSdk

namespace AgoraRecording.Native

open AgoraRecording.Lib

/-! ## Frames -/

/-- The next line of a thread inside `AgoraSdk`. -/
inductive Frame where
  | done
  /-- `if(m_layout.regionCount == 0) return 0;` -/
  | layoutTest
  /-- `if(m_engine)` of `setVideoMixingLayout` -/
  | mixingTest
  | mixingCall
  /-- `if (m_engine)` of `leaveChannel` -/
  | leaveTest
  | leaveCall
  /-- `if (m_engine)` of `release` -/
  | releaseTest
  | releaseCall
  /-- inside `m_engine->release()` -/
  | releasing
  /-- `m_engine = NULL;` -/
  | releaseClear
  | createEnter (appid : Bytes) (config : RecordingConfig) (out : CreateOutcome)
  /-- inside `createAgoraRecordingEngine` -/
  | creating (appid : Bytes) (config : RecordingConfig) (out : CreateOutcome)
  | joinCall (config : RecordingConfig) (joinResult : Int)
  /-- `m_engine->stoppedOnError();` of `onErrorImpl` -/
  | stoppedCall
  deriving DecidableEq, Repr

/-- The next step is a call `m_engine->method`. -/
def Frame.calls : Frame → Bool
  | .mixingCall | .leaveCall | .releaseCall | .joinCall _ _ | .stoppedCall => true
  | _ => false

/-- The thread has called `m_engine->release()` and not yet cleared the
pointer. -/
def Frame.inRelease : Frame → Bool
  | .releasing | .releaseClear => true
  | _ => false

/-- `m_engine->method`: `none` when `m_engine` is `NULL`. -/
def AgoraSdk.onCurrent (sdk : AgoraSdk) (f : Engine → Engine) : Option AgoraSdk :=
  sdk.mEngine.map (fun e => sdk.onEngine e f)

def Frame.step (sdk : AgoraSdk) : Frame → Option (AgoraSdk × Frame)
  | .done => some (sdk, .done)
  | .layoutTest => some (sdk, if sdk.mLayout.regionCount = 0 then .done else .mixingTest)
  | .mixingTest => some (sdk, if sdk.mEngine.isSome then .mixingCall else .done)
  | .mixingCall =>
      (sdk.onCurrent (fun g => g.setVideoMixingLayout sdk.mLayout)).map (fun t => (t, .done))
  | .leaveTest => some (sdk, if sdk.mEngine.isSome then .leaveCall else .done)
  | .leaveCall =>
      (sdk.onCurrent Engine.leaveChannel).map (fun t => ({ t with mStopped := true }, .done))
  | .releaseTest => some (sdk, if sdk.mEngine.isSome then .releaseCall else .done)
  | .releaseCall => (sdk.onCurrent Engine.release).map (fun t => (t, .releasing))
  | .releasing => some (sdk, .releaseClear)
  | .releaseClear => some ({ sdk with mEngine := none }, .done)
  | .createEnter appid config out => some (sdk, .creating appid config out)
  | .creating _ _ .null => some ({ sdk with mEngine := none }, .done)
  | .creating appid config (.engine joinResult) =>
      some ({ sdk with mEngine := some sdk.engines.length
                       engines := sdk.engines ++ [Engine.new appid] },
            .joinCall config joinResult)
  | .joinCall config joinResult =>
      (sdk.onCurrent (fun g => g.joinChannel joinResult)).map (fun t =>
        (if errOk ≠ joinResult then t else { t with mConfig := config }, .done))
  | .stoppedCall => (sdk.onCurrent Engine.stoppedOnError).map (fun t => (t, .done))

/-! ## Threads -/

/-- One `AgoraSdk`, the JavaScript thread, the callbacks begun so far, and
whether the wrapper was destroyed or the process died on a `NULL` call. -/
structure CallState where
  sdk : AgoraSdk
  js : Frame
  callbacks : List Frame
  destroyed : Bool
  crashed : Bool
  deriving DecidableEq, Repr

inductive CallAction where
  /-- `NodeRecordingSdk::joinChannel` reaching `createChannel` -/
  | joinChannel (appid : Bytes) (config : RecordingConfig) (out : CreateOutcome)
  | setMixLayout (layout : VideoMixingLayout)
  | leaveChannel
  | release
  /-- `~NodeRecordingSdk` -/
  | destroy
  /-- the JavaScript thread takes its next step -/
  | js
  | onError
  | onUserJoined (uid : Uid) (storageDir : Option String)
  | onUserOffline (uid : Uid)
  | onLeaveChannel
  /-- the `i`-th callback takes its next step -/
  | callback (i : Nat)
  deriving DecidableEq, Repr

namespace CallState

/-- Some engine may begin a callback. -/
def mayCallBack (s : CallState) : Bool :=
  (match s.js with
    | .creating _ _ _ | .releasing => true
    | _ => false) ||
  s.sdk.engines.any (fun g => g.released = 0)

/-- The JavaScript thread is free to call a method of the wrapper. -/
def jsIdle (s : CallState) : Bool := s.js == .done && !s.destroyed

/-- A callback begins: what it does before its first test, and where that
leaves it. -/
def beginCallback (s : CallState) (sdk : AgoraSdk) (f : Frame) : Option CallState :=
  if s.mayCallBack then some { s with sdk := sdk, callbacks := s.callbacks ++ [f] } else none

def enter (s : CallState) (sdk : AgoraSdk) (f : Frame) : Option CallState :=
  if s.jsIdle then some { s with sdk := sdk, js := f } else none

/-- The body of `onUserJoinedImpl` before `setVideoMixLayout`. -/
def recordJoin (sdk : AgoraSdk) (uid : Uid) (storageDir : Option String) : AgoraSdk :=
  let sdk := match storageDir with
    | some dir => { sdk with mStorageDir := dir, mLogdir := dir }
    | none => sdk
  { sdk with mPeers := sdk.mPeers ++ [uid] }

/-- The body of `onUserOfflineImpl` before `setVideoMixLayout`. -/
def recordOffline (sdk : AgoraSdk) (uid : Uid) : AgoraSdk :=
  { sdk with mPeers := sdk.mPeers.filter (· ≠ uid) }

def stepJs (s : CallState) : CallState :=
  match s.js.step s.sdk with
  | some (sdk, f) => { s with sdk := sdk, js := f }
  | none => { s with crashed := true }

def stepCallback (s : CallState) (i : Nat) (f : Frame) : CallState :=
  match f.step s.sdk with
  | some (sdk, f') => { s with sdk := sdk, callbacks := s.callbacks.set i f' }
  | none => { s with crashed := true }

def step (s : CallState) (a : CallAction) : Option CallState :=
  if s.crashed then none
  else match a with
    | .joinChannel appid config out => s.enter s.sdk (.createEnter appid config out)
    | .setMixLayout layout => s.enter { s.sdk with mLayout := layout } .layoutTest
    | .leaveChannel => s.enter s.sdk .leaveTest
    | .release => s.enter s.sdk .releaseTest
    | .destroy => (s.enter s.sdk .releaseTest).map (fun t => { t with destroyed := true })
    | .js => some s.stepJs
    | .onError => s.beginCallback s.sdk .stoppedCall
    | .onUserJoined uid storageDir =>
        s.beginCallback (recordJoin s.sdk uid storageDir) .layoutTest
    | .onUserOffline uid => s.beginCallback (recordOffline s.sdk uid) .layoutTest
    | .onLeaveChannel => s.beginCallback s.sdk .done
    | .callback i =>
        match s.callbacks[i]? with
        | none => none
        | some f => some (s.stepCallback i f)

/-- Every interleaving of the wrapper's operations with the callbacks. -/
def machine : Machine CallState CallAction where
  init := { sdk := .new, js := .done, callbacks := [], destroyed := false, crashed := false }
  step := step

end CallState

end AgoraRecording.Native
