/-
AgoraRecording.Native.ChannelNameTheorems — what becomes of a channel name
between JavaScript and the engine.

The name goes down as UTF-8 in a NUL-terminated buffer and comes back with
the `joinchannel` event. On the way each lone surrogate is replaced by
U+FFFD and everything from the first U+0000 on is cut off
(`roundTrip_eq`); both are what the calls ask for, the one with
`REPLACE_INVALID_UTF8`, the other by using `char*`. So a name comes back
as it went exactly when it is well-formed UTF-16 without a U+0000, and
names of that kind stay apart.
-/
import AgoraRecording.Native.NodeRecordingSdk
import Mathlib.Data.List.TakeWhile

namespace AgoraRecording.Native

open AgoraRecording.Lib AgoraRecording.Js

/-- `str_name` of `NodeRecordingSdk::joinChannel`, for a name that is a
string. -/
def strName (name : JsString) : Option Bytes :=
  (napiGetValueNodestring (.string name)).toStdString

/-- The name the `joinchannel` event reports. -/
def roundTrip (name : JsString) : Option JsString :=
  (strName name).map (fun bytes => napiCreateString (some bytes))

/-- The text of a name, up to its first U+0000. -/
def cut (name : JsString) : List Char :=
  (Utf.decodeUtf16 name).takeWhile (fun c => c.toNat ≠ 0)

/-- A channel is created under that name. -/
theorem nodeJoinChannel_strName {sdk : AgoraSdk} {key appliteDir appid cfgPath : Json}
    {name : JsString} {uid uid' : Uid} {strAppid strKey str : Bytes} {config : RecordingConfig}
    (h : nodeJoinChannel sdk key (.string name) appliteDir appid uid cfgPath =
      .createChannel strAppid strKey str uid' config) : strName name = some str :=
  (nodeJoinChannel_createChannel h).2

theorem strName_eq {name : JsString} (h : name ≠ []) :
    strName name = some (Utf.utf8 (cut name)) := by
  rw [strName, napiGetValueNodestring_string h, NodeString.toStdString, Option.map_some,
    Utf.cString_utf8_eq]
  rfl

/-- **What comes back**: the text up to its first U+0000. -/
theorem roundTrip_eq {name : JsString} (h : name ≠ []) :
    roundTrip name = some (Utf.utf16 (cut name)) := by
  have hcut : (cut name).takeWhile (fun c => c.toNat ≠ 0) = cut name :=
    List.takeWhile_idem
  rw [roundTrip, strName_eq h, Option.map_some, napiCreateString, Option.getD_some, newFromUtf8,
    Utf.cString_utf8_eq, hcut, Utf.decodeUtf8_utf8]

/-- A text without U+0000 is not cut. -/
theorem cut_utf16 {cs : List Char} (h : 0 ∉ Utf.utf16 cs) : cut (Utf.utf16 cs) = cs := by
  rw [cut, Utf.decodeUtf16_utf16, List.takeWhile_eq_self_iff]
  intro c hc
  rw [decide_eq_true_iff]
  intro hzero
  exact h (List.mem_flatMap.mpr ⟨c, hc, (Utf.zero_mem_utf16Char c).mpr hzero⟩)

theorem zero_not_mem_cut (name : JsString) : 0 ∉ Utf.utf16 (cut name) := by
  intro h
  obtain ⟨c, hc, hzero⟩ := List.mem_flatMap.mp h
  have hne := List.mem_takeWhile_imp hc
  rw [decide_eq_true_iff] at hne
  exact hne ((Utf.zero_mem_utf16Char c).mp hzero)

/-- A name of well-formed UTF-16 without U+0000. -/
def Plain (name : JsString) : Prop := Utf.WellFormed name ∧ 0 ∉ name

/-- **Plain names survive, and only they**: the name comes back as it went
if and only if it is plain, and no two plain names become one. -/
theorem roundTrip_eq_self_iff {name : JsString} (h : name ≠ []) :
    (roundTrip name = some name ↔ Plain name) ∧
      ∀ name', name' ≠ [] → Plain name → Plain name' → strName name = strName name' →
        name = name' := by
  have hself : ∀ {name : JsString}, name ≠ [] → (roundTrip name = some name ↔ Plain name) := by
    intro name h
    rw [roundTrip_eq h, Option.some.injEq]
    constructor
    · intro heq
      rw [← heq]
      exact ⟨⟨cut name, rfl⟩, zero_not_mem_cut name⟩
    · rintro ⟨⟨cs, rfl⟩, hzero⟩
      rw [cut_utf16 hzero]
  refine ⟨hself h, fun name' h' hplain hplain' heq => ?_⟩
  have hboth : roundTrip name = roundTrip name' := by rw [roundTrip, heq, roundTrip]
  rw [(hself h).mpr hplain, (hself h').mpr hplain'] at hboth
  exact Option.some.inj hboth

/-- A name with characters of one to four bytes. -/
theorem roundTrip_mixed :
    roundTrip (js "aé€😀") = some (js "aé€😀") :=
  (roundTrip_eq_self_iff (by decide)).1.mpr ⟨⟨"aé€😀".toList, rfl⟩, by decide⟩

/-- A lone surrogate comes back as U+FFFD. -/
theorem not_roundTrip_loneSurrogate :
    ¬ ∀ name : JsString, name ≠ [] → roundTrip name = some name := by
  intro h
  have hself := h [0xD800] (by decide)
  rw [roundTrip_eq (by decide)] at hself
  exact absurd hself (by decide)

end AgoraRecording.Native
