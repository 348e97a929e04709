/-
AgoraRecording.Native.EventHandler — the callbacks of
`IRecordingEngineEventHandler` that `AgoraSdk.cpp` overrides, from the
engine's arguments to the arguments of the JavaScript call.

A callback captures what it reports in a task for the JavaScript thread,
which looks the event's name up in `m_callbacks` and calls what it finds
with V8 values made of the captured arguments: `post` is that call, or
`none` for the two callbacks that post nothing. What a callback does to
the `AgoraSdk` itself is `AgoraSdk.onEvent`; the frame callbacks post
nothing and write files.

`int` and enumerations are 32-bit and signed, and keep whatever value the
library passes. The statistics fields go through `napi_create_uint32_`, so
a negative one arrives as its residue, and the two CPU usages, which are
doubles, arrive truncated.
-/
import AgoraRecording.Native.NodeRecordingSdk
import Mathlib.Data.Rat.Floor

namespace AgoraRecording.Native

open AgoraRecording.Lib AgoraRecording.Js

/-! ## Arguments -/

/-- A `char*` that holds a text. The engine's strings are the channel name,
which reached it as one, and the account a user registered. -/
def CString : Type := { bytes : Bytes // ∃ cs, bytes = Utf.utf8 cs ∧ 0 ∉ Utf.utf16 cs }

/-- A `double` whose conversion to `uint32_t` is defined. -/
def Usage : Type := { value : Rat // 0 ≤ value ∧ value < 4294967296 }

structure AudioVolumeInfo where
  uid : Uid
  volume : UInt32
  deriving DecidableEq, Repr

structure RemoteVideoStats where
  delay : Int32
  width : Int32
  height : Int32
  receivedBitrate : Int32
  decoderOutputFrameRate : Int32
  rxStreamType : Int32
  deriving DecidableEq

structure RemoteAudioStats where
  quality : Int32
  networkTransportDelay : Int32
  jitterBufferDelay : Int32
  audioLossRate : Int32
  deriving DecidableEq

structure RecordingStats where
  duration : UInt32
  rxBytes : UInt32
  rxKBitRate : UInt32
  rxAudioKBitRate : UInt32
  rxVideoKBitRate : UInt32
  lastmileDelay : UInt32
  userCount : UInt32
  cpuAppUsage : Usage
  cpuTotalUsage : Usage

structure UserInfo where
  uid : Uid
  userAccount : CString

/-- The callbacks, and `emitError`, which `NodeRecordingSdk::joinChannel`
calls itself. -/
inductive Callback where
  | onError (error statCode : Int32)
  | onWarning (warn : Int32)
  | onJoinChannelSuccess (channelId : CString) (uid : Uid)
  | onLeaveChannel (code : Int32)
  | onUserJoined (uid : Uid) (storageDir : Option CString)
  | onUserOffline (uid : Uid) (reason : Int32)
  | onActiveSpeaker (uid : Uid)
  /-- the array `speakers` points to, if it is not `NULL` -/
  | onAudioVolumeIndication (speakers : Option (List AudioVolumeInfo))
  | onFirstRemoteVideoDecoded (uid : Uid) (width height elapsed : Int32)
  | onFirstRemoteAudioFrame (uid : Uid) (elapsed : Int32)
  | onReceivingStreamStatusChanged (receivingAudio receivingVideo : Bool)
  | onConnectionLost
  | onConnectionInterrupted
  | onRemoteVideoStreamStateChanged (uid : Uid) (state reason : Int32)
  | onRemoteAudioStreamStateChanged (uid : Uid) (state reason : Int32)
  | onRejoinChannelSuccess (channelId : CString) (uid : Uid)
  | onConnectionStateChanged (state reason : Int32)
  | onRemoteVideoStats (uid : Uid) (stats : RemoteVideoStats)
  | onRemoteAudioStats (uid : Uid) (stats : RemoteAudioStats)
  | onRecordingStats (stats : RecordingStats)
  | onLocalUserRegistered (uid : Uid) (userAccount : CString)
  | onUserInfoUpdated (uid : Uid) (info : UserInfo)
  | emitError (err statCode : Int32)

/-! ## V8 values -/

/-- `napi_create_uint32_`. -/
def napiCreateUint32 (value : UInt32) : Json := .number (.finite (value.toNat : Int))

/-- `napi_create_int32_`. -/
def napiCreateInt32 (value : Int32) : Json := .number (.finite value.toInt)

/-- `napi_create_bool_`. -/
def napiCreateBool (value : Bool) : Json := .bool value

/-- The value of a string the engine passed. -/
def napiCreateText (value : CString) : Json := .string (napiCreateString (some value.1))

/-- `napi_create_uid_`. -/
def napiCreateUid (uid : Uid) : Json := .number (.finite (uid.toNat : Int))

/-- The implicit conversion of a `double` argument to `uint32_t`. -/
def Usage.toUInt32 (usage : Usage) : UInt32 := UInt32.ofNat ⌊usage.1⌋.toNat

/-- The object of one speaker in `onAudioVolumeIndication_node`. -/
def AudioVolumeInfo.toObject (info : AudioVolumeInfo) : Json :=
  .object [(js "uid", napiCreateUid info.uid), (js "volume", napiCreateUint32 info.volume)]

/-! ## Tasks -/

/-- What a task calls: the handler of `event`, if `m_callbacks` has one. -/
structure JsCall where
  event : String
  argv : List Json

/-- The call in the task a callback posts. -/
def Callback.post : Callback → Option JsCall
  | .onError error statCode =>
      some ⟨"error", [napiCreateInt32 error, napiCreateInt32 statCode]⟩
  | .onWarning _ => none
  | .onJoinChannelSuccess channelId uid =>
      some ⟨"joinchannel", [napiCreateText channelId, napiCreateUid uid]⟩
  | .onLeaveChannel _ => some ⟨"leavechannel", []⟩
  | .onUserJoined uid _ => some ⟨"userjoin", [napiCreateUid uid]⟩
  | .onUserOffline uid _ => some ⟨"userleave", [napiCreateUid uid]⟩
  | .onActiveSpeaker uid => some ⟨"activespeaker", [napiCreateUid uid]⟩
  | .onAudioVolumeIndication none => none
  | .onAudioVolumeIndication (some speakers) =>
      some ⟨"audiovolumeindication",
        [.array (speakers.map AudioVolumeInfo.toObject),
         .number (.finite (speakers.length : Int))]⟩
  | .onFirstRemoteVideoDecoded uid width height elapsed =>
      some ⟨"firstremotevideodecoded",
        [napiCreateUid uid, napiCreateInt32 width, napiCreateInt32 height,
         napiCreateInt32 elapsed]⟩
  | .onFirstRemoteAudioFrame uid elapsed =>
      some ⟨"firstremoteaudioframe", [napiCreateUid uid, napiCreateInt32 elapsed]⟩
  | .onReceivingStreamStatusChanged receivingAudio receivingVideo =>
      some ⟨"receivingstreamstatuschanged",
        [napiCreateBool receivingAudio, napiCreateBool receivingVideo]⟩
  | .onConnectionLost => some ⟨"connectionlost", []⟩
  | .onConnectionInterrupted => some ⟨"connectioninterrupt", []⟩
  | .onRemoteVideoStreamStateChanged uid state reason =>
      some ⟨"remoteVideoStreamStateChanged",
        [napiCreateUid uid, napiCreateInt32 state, napiCreateInt32 reason]⟩
  | .onRemoteAudioStreamStateChanged uid state reason =>
      some ⟨"remoteAudioStreamStateChanged",
        [napiCreateUid uid, napiCreateInt32 state, napiCreateInt32 reason]⟩
  | .onRejoinChannelSuccess channelId uid =>
      some ⟨"rejoinChannelSuccess", [napiCreateText channelId, napiCreateUid uid]⟩
  | .onConnectionStateChanged state reason =>
      some ⟨"connectionStateChanged", [napiCreateInt32 state, napiCreateInt32 reason]⟩
  | .onRemoteVideoStats uid stats =>
      some ⟨"remoteVideoStats",
        [napiCreateUid uid,
         .object [(js "delay", napiCreateUint32 stats.delay.toUInt32),
                  (js "width", napiCreateUint32 stats.width.toUInt32),
                  (js "height", napiCreateUint32 stats.height.toUInt32),
                  (js "receivedBitrate", napiCreateUint32 stats.receivedBitrate.toUInt32),
                  (js "decoderOutputFrameRate",
                    napiCreateUint32 stats.decoderOutputFrameRate.toUInt32),
                  (js "rxStreamType", napiCreateUint32 stats.rxStreamType.toUInt32)]]⟩
  | .onRemoteAudioStats uid stats =>
      some ⟨"remoteAudioStats",
        [napiCreateUid uid,
         .object [(js "quality", napiCreateUint32 stats.quality.toUInt32),
                  (js "networkTransportDelay",
                    napiCreateUint32 stats.networkTransportDelay.toUInt32),
                  (js "jitterBufferDelay", napiCreateUint32 stats.jitterBufferDelay.toUInt32),
                  (js "audioLossRate", napiCreateUint32 stats.audioLossRate.toUInt32)]]⟩
  | .onRecordingStats stats =>
      some ⟨"recordingStats",
        [.object [(js "duration", napiCreateUint32 stats.duration),
                  (js "rxBytes", napiCreateUint32 stats.rxBytes),
                  (js "rxKBitRate", napiCreateUint32 stats.rxKBitRate),
                  (js "rxAudioKBitRate", napiCreateUint32 stats.rxAudioKBitRate),
                  (js "rxVideoKBitRate", napiCreateUint32 stats.rxVideoKBitRate),
                  (js "lastmileDelay", napiCreateUint32 stats.lastmileDelay),
                  (js "userCount", napiCreateUint32 stats.userCount),
                  (js "cpuAppUsage", napiCreateUint32 stats.cpuAppUsage.toUInt32),
                  (js "cpuTotalUsage", napiCreateUint32 stats.cpuTotalUsage.toUInt32)]]⟩
  | .onLocalUserRegistered uid userAccount =>
      some ⟨"localUserRegistered", [napiCreateUid uid, napiCreateText userAccount]⟩
  | .onUserInfoUpdated uid info =>
      some ⟨"userInfoUpdated",
        [napiCreateUid uid,
         .object [(js "uid", napiCreateUid info.uid),
                  (js "userAccount", .string (newFromUtf8 info.userAccount.1))]]⟩
  | .emitError err statCode =>
      some ⟨"error", [napiCreateInt32 err, napiCreateInt32 statCode]⟩

/-! ## The events the manager follows -/

/-- The callbacks that are an `Event`. -/
def Callback.event : Callback → Option Event
  | .onError error statCode => some (.error error.toInt statCode.toInt)
  | .onJoinChannelSuccess channelId uid => some (.joinchannel channelId.1 uid)
  | .onLeaveChannel _ => some .leavechannel
  | .onUserJoined uid _ => some (.userjoin uid)
  | .onUserOffline uid _ => some (.userleave uid)
  | _ => none

/-- The values an event arrives with. -/
def Event.argv : Event → List Json
  | .joinchannel channel uid => [.string (napiCreateString (some channel)), napiCreateUid uid]
  | .leavechannel => []
  | .error err stat => [.number (.finite err), .number (.finite stat)]
  | .userjoin uid | .userleave uid => [napiCreateUid uid]

/-- An `Event` is posted under its name, with its values. -/
theorem post_of_event {cb : Callback} {ev : Event} (h : cb.event = some ev) :
    cb.post = some ⟨ev.name, ev.argv⟩ := by
  cases cb with
  | onError | onJoinChannelSuccess | onLeaveChannel | onUserJoined | onUserOffline =>
    cases h
    rfl
  | _ => cases h

end AgoraRecording.Native
