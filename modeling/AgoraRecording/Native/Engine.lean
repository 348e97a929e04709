/-
AgoraRecording.Native.Engine — the data of the recording SDK's headers,
and what a run can see of one engine object.

`Region`, `VideoMixingLayout` and `RecordingConfig` are the structures of
`IAgoraLinuxSdkCommon.h` and `IAgoraRecordingEngine.h`, with the fields
this program sets. Coordinates are exact rationals. A layout keeps
`regionCount` and the buffer behind `regions` apart, as the C structure
does: only `regionList` reads them together.

The engine is library code outside the repository, so `Engine` records
the documented effect of each method and nothing of how it works: which
calls it has received, the layout it was last given (`setVideoMixingLayout`
replaces it and nothing else does), and whether it is in its channel.
-/
import Mathlib.Data.Rat.Defs
import Mathlib.Data.List.Basic

namespace AgoraRecording.Native

/-- `uid_t` of `IAgoraLinuxSdkCommon.h`. -/
abbrev Uid := UInt32

/-- The contents of a `char*` or a `std::string`. -/
abbrev Bytes := List UInt8

/-- `ERR_OK`. -/
def errOk : Int := 0

/-! ## Layouts -/

/-- `VideoMixingLayout::Region`, with the defaults of its constructor. -/
structure Region where
  uid : Uid := 0
  x : Rat := 0
  y : Rat := 0
  width : Rat := 0
  height : Rat := 0
  alpha : Rat := 1
  renderMode : Int := 1
  deriving DecidableEq, Repr

/-- `VideoMixingLayout`: `regions` is the buffer, `regionCount` the count
stored beside it. -/
structure VideoMixingLayout where
  canvasWidth : Int := 0
  canvasHeight : Int := 0
  backgroundColor : Option Bytes := none
  regionCount : Nat := 0
  regions : List Region := []
  deriving DecidableEq, Repr

/-- The regions a reader of the layout sees. -/
def VideoMixingLayout.regionList (layout : VideoMixingLayout) : List Region :=
  layout.regions.take layout.regionCount

/-- A layout whose count is the length of its buffer: what `setMixLayout`
builds from an array that nobody changes while it is read. -/
structure MixLayout where
  layout : VideoMixingLayout
  count_eq : layout.regionCount = layout.regions.length

theorem MixLayout.regionList_eq (l : MixLayout) : l.layout.regionList = l.layout.regions := by
  rw [VideoMixingLayout.regionList, l.count_eq, List.take_length]

/-- A `MixLayout` has no regions exactly when its count is zero. -/
theorem MixLayout.regionCount_eq_zero (l : MixLayout) :
    l.layout.regionCount = 0 ↔ l.layout.regionList = [] := by
  rw [l.regionList_eq, l.count_eq, List.length_eq_zero_iff]

/-! ## Configuration -/

inductive MixedAvCodecType where
  | default | codecV1 | codecV2
  deriving DecidableEq, Repr

inductive ChannelProfileType where
  | communication | liveBroadcasting
  deriving DecidableEq, Repr

inductive TriggerModeType where
  | automatically | manually
  deriving DecidableEq, Repr

/-- `RecordingConfig`, with the defaults of its constructor. -/
structure RecordingConfig where
  isMixingEnabled : Bool := false
  mixedVideoAudio : MixedAvCodecType := .default
  mixResolution : Option String := none
  appliteDir : Option Bytes := none
  cfgFilePath : Option Bytes := none
  idleLimitSec : Int := 300
  audioIndicationInterval : Int := 0
  channelProfile : ChannelProfileType := .communication
  triggerMode : TriggerModeType := .automatically
  deriving DecidableEq, Repr

/-! ## Events -/

/-- The callbacks of `IRecordingEngineEventHandler` this program acts on,
with the arguments `AgoraSdk` passes on. -/
inductive Event where
  | joinchannel (channel : Bytes) (uid : Uid)
  | leavechannel
  | error (err stat : Int)
  | userjoin (uid : Uid)
  | userleave (uid : Uid)
  deriving DecidableEq, Repr

/-- The `REC_EVENT_*` name the event is posted under. -/
def Event.name : Event → String
  | .joinchannel _ _ => "joinchannel"
  | .leavechannel => "leavechannel"
  | .error _ _ => "error"
  | .userjoin _ => "userjoin"
  | .userleave _ => "userleave"

/-! ## Engines -/

/-- What a run can see of one engine. -/
structure Engine where
  appId : Bytes
  /-- `joinChannel` returned `ERR_OK` -/
  joined : Bool
  /-- it has reported joining and not the end of its session since -/
  inChannel : Bool
  /-- `leaveChannel` was called -/
  left : Bool
  /-- `stoppedOnError` was called -/
  stopped : Bool
  /-- how often `release` was called -/
  released : Nat
  layout : Option VideoMixingLayout
  deriving DecidableEq, Repr

namespace Engine

def new (appId : Bytes) : Engine :=
  { appId := appId, joined := false, inChannel := false, left := false, stopped := false,
    released := 0, layout := none }

def joinChannel (g : Engine) (result : Int) : Engine :=
  { g with joined := decide (result = errOk) }

def leaveChannel (g : Engine) : Engine := { g with left := true, inChannel := false }

def release (g : Engine) : Engine :=
  { g with released := g.released + 1, inChannel := false }

def stoppedOnError (g : Engine) : Engine := { g with stopped := true }

def setVideoMixingLayout (g : Engine) (layout : VideoMixingLayout) : Engine :=
  { g with layout := some layout }

/-- The regions the engine mixes; one never given a layout has none. -/
def regionList (g : Engine) : List Region :=
  match g.layout with
  | none => []
  | some layout => layout.regionList

/-- The engine's own change of state when it raises an event: joining
puts it in the channel, an error or a leave ends its session. -/
def raise (g : Engine) : Event → Engine
  | .joinchannel _ _ => { g with inChannel := true }
  | .error _ _ | .leavechannel => { g with inChannel := false }
  | .userjoin _ | .userleave _ => g

end Engine

end AgoraRecording.Native
