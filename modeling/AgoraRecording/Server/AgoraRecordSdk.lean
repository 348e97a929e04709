/-
AgoraRecording.Server.AgoraRecordSdk — the JavaScript wrapper of
`AgoraRecordSdk.js`, and the layout object it passes down.

The manager builds every layout it sends itself, from numbers, a literal
colour and uids, so `JsLayout` is a record of such values and
`toNative` is what `NodeRecordingSdk::setMixLayout` makes of it: each
region normalised by the canvas, `zOrder` dropped, `renderMode` 0.
-/
import AgoraRecording.Native.NodeRecordingSdk

namespace AgoraRecording.Server

open AgoraRecording.Lib AgoraRecording.Js AgoraRecording.Native

/-! ## Layout objects -/

structure JsRegion where
  x : Int
  y : Int
  width : Int
  height : Int
  zOrder : Int
  alpha : Int
  uid : Uid
  deriving DecidableEq, Repr

structure JsLayout where
  canvasWidth : Int
  canvasHeight : Int
  backgroundColor : JsString
  regions : List JsRegion
  deriving DecidableEq, Repr

/-- One turn of the loop of `NodeRecordingSdk::setMixLayout`. -/
def JsRegion.toNative (r : JsRegion) (canvasWidth canvasHeight : Int) : Region :=
  { uid := r.uid
    x := (r.x : Rat) / canvasWidth
    y := (r.y : Rat) / canvasHeight
    width := (r.width : Rat) / canvasWidth
    height := (r.height : Rat) / canvasHeight
    alpha := r.alpha
    renderMode := 0 }

/-- The `VideoMixingLayout` that `NodeRecordingSdk::setMixLayout` hands to
`updateMixLayout`. -/
def JsLayout.toNative (l : JsLayout) : MixLayout where
  layout :=
    { canvasWidth := l.canvasWidth
      canvasHeight := l.canvasHeight
      backgroundColor := (napiGetValueNodestring (.string l.backgroundColor)).toStdString
      regionCount := l.regions.length
      regions := l.regions.map (fun r => r.toNative l.canvasWidth l.canvasHeight) }
  count_eq := (List.length_map _).symm

/-! ## The wrapper -/

/-- The names `initEventHandler` subscribes to, in its order. -/
def eventNames : List String :=
  ["joinchannel", "error", "userjoin", "userleave", "activespeaker", "connectionlost",
   "connectioninterrupt", "receivingstreamstatuschanged", "firstremotevideodecoded",
   "firstremoteaudioframe", "audiovolumeindication", "remoteVideoStreamStateChanged",
   "remoteAudioStreamStateChanged", "rejoinChannelSuccess", "connectionStateChanged",
   "remoteVideoStats", "remoteAudioStats", "recordingStats", "localUserRegistered",
   "userInfoUpdated"]

/-- `AgoraRecordSdk`'s constructor: a new native wrapper with every name
subscribed. -/
def newRecordSdk : AgoraSdk := eventNames.foldl AgoraSdk.addEventHandler AgoraSdk.new

/-- `AgoraRecordSdk.setMixLayout`. -/
def setMixLayout (sdk : AgoraSdk) (layout : JsLayout) : AgoraSdk :=
  sdk.updateMixLayout layout.toNative.layout

/-! ## Paths -/

/-- The directory the server runs from (`WORKDIR` of the Dockerfile). -/
def dirname : JsString := js "/opt/app"

/-- `path.resolve(__dirname, "./output/" + sid)`. -/
def storagePath (sid : JsString) : JsString := dirname ++ js "/output/" ++ sid

/-- `path.join(__dirname, "./src/sdk/bin/")` in `record/`. -/
def binPath : JsString := dirname ++ js "/record/src/sdk/bin/"

/-- `path.join(storeFolder, '/cfg.json')`. -/
def cfgPath (storeFolder : JsString) : JsString := storeFolder ++ js "/cfg.json"

theorem cfgPath_ne_nil (storeFolder : JsString) : cfgPath storeFolder ≠ [] := by
  rw [cfgPath]
  exact List.append_ne_nil_of_right_ne_nil _ (by decide)

/-- Different sessions write different files. -/
theorem cfgPath_storagePath_inj {sid sid' : JsString}
    (h : cfgPath (storagePath sid) = cfgPath (storagePath sid')) : sid = sid' := by
  unfold cfgPath storagePath at h
  exact List.append_cancel_left (List.append_cancel_right h)

/-! ## joinChannel -/

/-- The call of `this.recording.joinChannel` inside
`AgoraRecordSdk.joinChannel`, for the arguments
`RecordManager.start` gives. -/
def recordingJoinChannel (sdk : AgoraSdk) (key name : Json) (uid : Uid) (appid : Json)
    (storeFolder : JsString) : JoinCall :=
  nodeJoinChannel sdk (Json.orElse (some key) .null) name (.string binPath) appid uid
    (.string (cfgPath storeFolder))

/-- The layout `RecordManager.start` begins with. -/
def initialLayout : JsLayout :=
  { canvasWidth := 640, canvasHeight := 480, backgroundColor := js "#1e272e", regions := [] }

/-- The wrapper as `RecordManager.start` has it before the join. -/
def startedSdk : AgoraSdk := setMixLayout newRecordSdk initialLayout

/-- 640x480 is one of the supported resolutions, so the wrapper of a
started session never reports "unsupported resolution". -/
theorem nodeJoinChannel_ne_emitError {sdk : AgoraSdk} (hw : sdk.mLayout.canvasWidth = 640)
    (hh : sdk.mLayout.canvasHeight = 480) (key name appliteDir appid cfg : Json) (uid : Uid)
    (err statCode : Int) :
    nodeJoinChannel sdk key name appliteDir appid uid cfg ≠ .emitError err statCode := by
  have hlookup : mResolutionMap.lookup
      (toString (640 : Int) ++ "x" ++ toString (480 : Int)) = some "1000" := by decide
  unfold nodeJoinChannel
  split
  · simp only [hw, hh, hlookup]
    exact nofun
  · exact nofun

/-- The native join of a started session aborts unless `appid` and `name`
are non-empty strings. -/
theorem recordingJoinChannel_aborted_iff (sdk : AgoraSdk) (key name appid : Json) (uid : Uid)
    (storeFolder : JsString) :
    recordingJoinChannel sdk key name uid appid storeFolder = .aborted ↔
      ¬ ((∃ s, appid = .string s ∧ s ≠ []) ∧ ∃ s, name = .string s ∧ s ≠ []) :=
  nodeJoinChannel_aborted_iff (by decide) (cfgPath_ne_nil storeFolder)

end AgoraRecording.Server
