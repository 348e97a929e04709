/-
AgoraRecording.Native.NodeRecordingSdk — from JavaScript arguments to the
native call: `node_napi_api.cpp` and `NodeRecordingSdk::joinChannel`.

A `NodeString` is the buffer it owns, `none` for `nullptr`. The status of
`napi_get_value_nodestring_` is `napi_ok` on every path but a failed
allocation, which is not modelled, and `CHECK_NAPI_STATUS` only logs; so
what remains of a conversion is the buffer, unset for a value that is not
a string and for the empty string.

`std::string(nullptr)` aborts the process: `toStdString` has no result
there, and `joinChannel` answers `aborted`.
-/
import AgoraRecording.Js.Value
import AgoraRecording.Native.AgoraSdk

namespace AgoraRecording.Native

open AgoraRecording.Lib AgoraRecording.Js

/-! ## Strings -/

/-- The contents of `p_mem` up to the NUL that ends the buffer. -/
abbrev NodeString := Option Bytes

/-- `napi_get_value_string_utf8_` without a buffer. -/
def napiStringUtf8Length : Json → Nat
  | .string s => (Utf.utf8 (Utf.decodeUtf16 s)).length
  | _ => 0

/-- `napi_get_value_string_utf8_` with a buffer of `len` bytes: the bytes
written before `buffer[copied] = '\0'`. -/
def napiGetValueStringUtf8 (len : Nat) : Json → Bytes
  | .string s => Utf.writeUtf8 (len - 1) (Utf.decodeUtf16 s)
  | _ => []

/-- `napi_get_value_nodestring_`. -/
def napiGetValueNodestring (value : Json) : NodeString :=
  let len := napiStringUtf8Length value
  if len = 0 then none else some (napiGetValueStringUtf8 (len + 1) value)

/-- `(string)nodechar`. -/
def NodeString.toStdString (nodechar : NodeString) : Option Bytes :=
  nodechar.map Utf.cString

/-- `String::NewFromUtf8` of a `char*`. -/
def newFromUtf8 (value : Bytes) : JsString := Utf.utf16 (Utf.decodeUtf8 (Utf.cString value))

/-- `napi_create_string_`. -/
def napiCreateString (value : Option Bytes) : JsString := newFromUtf8 (value.getD [])

/-! ## The wrapper's constructor -/

/-- `m_resolutionMap`. -/
def mResolutionMap : List (String × String) :=
  [("3840x2160", "12000"), ("2560x1440", "6400"), ("1920x1080", "4000"), ("1280x720", "2400"),
   ("960x720", "1920"), ("848x480", "1200"), ("640x480", "1000"), ("480x480", "800"),
   ("640x360", "800"), ("360x360", "520"), ("424x240", "440"), ("320x240", "360"),
   ("240x240", "280"), ("320x180", "280"), ("240x180", "240"), ("180x180", "200"),
   ("160x120", "120"), ("120x120", "100")]

/-! ## joinChannel -/

/-- How a call of `joinChannel` goes on after its conversions. -/
inductive JoinCall where
  /-- a `std::string` was built from `nullptr` -/
  | aborted
  /-- `emitError(err, stat_code)`, and no channel -/
  | emitError (err statCode : Int)
  /-- `m_agorasdk->createChannel(appid, key, name, uid, config)` -/
  | createChannel (appid key name : Bytes) (uid : Uid) (config : RecordingConfig)
  deriving DecidableEq, Repr

/-- `NodeRecordingSdk::joinChannel` up to its call on `m_agorasdk`. -/
def nodeJoinChannel (sdk : AgoraSdk) (key name appliteDir appid : Json) (uid : Uid)
    (cfgPath : Json) : JoinCall :=
  match (napiGetValueNodestring appid).toStdString,
      (napiGetValueNodestring name).toStdString,
      (napiGetValueNodestring appliteDir).toStdString,
      (napiGetValueNodestring cfgPath).toStdString with
  | some strAppid, some strName, some strAppliteDir, some strCfgPath =>
      let strKey := match napiGetValueNodestring key with
        | none => []
        | some buf => Utf.cString buf
      let layout := sdk.mLayout
      let resolutionKey := toString layout.canvasWidth ++ "x" ++ toString layout.canvasHeight
      match mResolutionMap.lookup resolutionKey with
      | none => .emitError 2000 4
      | some resolutionValue =>
          .createChannel strAppid strKey strName uid
            { appliteDir := some strAppliteDir
              cfgFilePath := some strCfgPath
              isMixingEnabled := true
              mixedVideoAudio := .codecV2
              idleLimitSec := 10
              channelProfile := .liveBroadcasting
              triggerMode := .automatically
              mixResolution := some (toString layout.canvasWidth ++ "," ++
                toString layout.canvasHeight ++ ",15," ++ resolutionValue)
              audioIndicationInterval := 0 }
  | _, _, _, _ => .aborted

/-! ## What a conversion keeps -/

/-- The bytes are the UTF-8, and the code units the UTF-16, of one text. -/
def Denotes (bytes : Bytes) (value : Json) : Prop :=
  ∃ cs, bytes = Utf.utf8 cs ∧ value = .string (Utf.utf16 cs)

theorem napiGetValueNodestring_string {s : JsString} (h : s ≠ []) :
    napiGetValueNodestring (.string s) = some (Utf.utf8 (Utf.decodeUtf16 s)) := by
  have hpos : 0 < napiStringUtf8Length (.string s) :=
    Utf.utf8_length_pos (Utf.decodeUtf16_ne_nil h)
  rw [napiGetValueNodestring, if_neg (Nat.ne_of_gt hpos), napiGetValueStringUtf8,
    Nat.add_sub_cancel, napiStringUtf8Length, Utf.writeUtf8_eq (Nat.le_refl _)]

/-- The conversion has a result exactly for the non-empty strings. -/
theorem toStdString_eq_some_iff {value : Json} {bytes : Bytes} :
    (napiGetValueNodestring value).toStdString = some bytes ↔
      ∃ s, value = .string s ∧ s ≠ [] ∧ bytes = Utf.cString (Utf.utf8 (Utf.decodeUtf16 s)) := by
  constructor
  · intro h
    cases value with
    | string s =>
      by_cases hs : s = []
      · subst hs
        cases h
      · rw [napiGetValueNodestring_string hs] at h
        cases h
        exact ⟨s, rfl, hs, rfl⟩
    | _ => cases h
  · rintro ⟨s, rfl, hs, rfl⟩
    rw [napiGetValueNodestring_string hs]
    rfl

/-- The bytes built from a string denote it exactly when it is
well-formed UTF-16 without a NUL. -/
theorem denotes_cString_iff {s : JsString} :
    Denotes (Utf.cString (Utf.utf8 (Utf.decodeUtf16 s))) (.string s) ↔
      Json.Text (.string s) := by
  constructor
  · rintro ⟨cs, hbytes, hvalue⟩
    cases hvalue
    rw [Utf.decodeUtf16_utf16] at hbytes
    exact ⟨_, rfl, ⟨cs, rfl⟩, Utf.cString_utf8.mp hbytes⟩
  · rintro ⟨s', hs', ⟨cs, rfl⟩, hnul⟩
    cases hs'
    refine ⟨cs, ?_, rfl⟩
    rw [Utf.decodeUtf16_utf16, Utf.cString_utf8.mpr hnul]

/-- Only a wrong kind of `appid` or `name` can abort: the two paths are
strings the server made. -/
theorem nodeJoinChannel_aborted_iff {sdk : AgoraSdk} {key name appid : Json} {uid : Uid}
    {appliteDir cfgPath : JsString} (hdir : appliteDir ≠ []) (hcfg : cfgPath ≠ []) :
    nodeJoinChannel sdk key name (.string appliteDir) appid uid (.string cfgPath) = .aborted ↔
      ¬ ((∃ s, appid = .string s ∧ s ≠ []) ∧ ∃ s, name = .string s ∧ s ≠ []) := by
  have hdir' := toStdString_eq_some_iff.mpr ⟨appliteDir, rfl, hdir, rfl⟩
  have hcfg' := toStdString_eq_some_iff.mpr ⟨cfgPath, rfl, hcfg, rfl⟩
  unfold nodeJoinChannel
  rw [hdir', hcfg']
  cases happid : (napiGetValueNodestring appid).toStdString with
  | none =>
    refine iff_of_true rfl ?_
    rintro ⟨⟨s, rfl, hs⟩, -⟩
    rw [napiGetValueNodestring_string hs] at happid
    cases happid
  | some strAppid =>
    obtain ⟨sa, ha, hane, -⟩ := toStdString_eq_some_iff.mp happid
    cases hname : (napiGetValueNodestring name).toStdString with
    | none =>
      refine iff_of_true rfl ?_
      rintro ⟨-, s, rfl, hs⟩
      rw [napiGetValueNodestring_string hs] at hname
      cases hname
    | some strName =>
      obtain ⟨sn, hn, hnne, -⟩ := toStdString_eq_some_iff.mp hname
      refine iff_of_false ?_ (fun h => h ⟨⟨sa, ha, hane⟩, sn, hn, hnne⟩)
      simp only
      split <;> exact nofun

/-- A channel is created with the strings built from `appid` and `name`. -/
theorem nodeJoinChannel_createChannel {sdk : AgoraSdk}
    {key name appliteDir appid cfgPath : Json} {uid uid' : Uid} {strAppid strKey strName : Bytes}
    {config : RecordingConfig}
    (h : nodeJoinChannel sdk key name appliteDir appid uid cfgPath =
      .createChannel strAppid strKey strName uid' config) :
    (napiGetValueNodestring appid).toStdString = some strAppid ∧
      (napiGetValueNodestring name).toStdString = some strName := by
  unfold nodeJoinChannel at h
  split at h
  · rename_i a n d c ha hn hd hc
    simp only at h
    split at h
    · cases h
    · cases h
      exact ⟨ha, hn⟩
  · cases h

end AgoraRecording.Native
