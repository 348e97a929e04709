/-
AgoraRecording.Server.StartArgs — the arguments of
`POST /recorder/v1/start`, from the body to `createChannel`.

Three layers handle them and none converts: `app.js` tests truthiness,
the manager and the wrapper pass them on (`key || null`, twice), and the
native `joinChannel` makes a `std::string` of `appid` and `channel`
whatever they are. A truthy value that is not a string therefore reaches
`std::string(nullptr)`: its conversion reports `napi_ok`, and the status
check would only log. `key` alone is compared with `nullptr` first.

`joinStarted_carries_iff` is the exact condition on the two values: they
are strings that are well-formed UTF-16 and contain no U+0000.
-/
import AgoraRecording.Server.AgoraRecordSdk

namespace AgoraRecording.Server

open AgoraRecording.Lib AgoraRecording.Js AgoraRecording.Native

/-! ## The request -/

/-- The arguments of `RecordManager.start`. -/
structure StartArgs where
  key : Option Json
  appid : Json
  channel : Json

/-- `POST /recorder/v1/start` up to its call of `RecordManager.start`; the
error is the message of the exception it throws. -/
def postStart (body : Json) : Except String StartArgs :=
  match body.field (js "appid") with
  | none => .error "appid is mandatory"
  | some appid =>
      if appid.truthy = false then .error "appid is mandatory"
      else match body.field (js "channel") with
        | none => .error "channel is mandatory"
        | some channel =>
            if channel.truthy = false then .error "channel is mandatory"
            else .ok { key := body.field (js "key"), appid := appid, channel := channel }

/-- The native join of a started session once its storage steps have
succeeded: `sdk.joinChannel(key || null, channel, 0, appid, storagePath)`. -/
def StartArgs.joinStarted (args : StartArgs) (sid : JsString) : JoinCall :=
  recordingJoinChannel startedSdk (Json.orElse args.key .null) args.channel 0 args.appid
    (storagePath sid)

/-- The call does not abort, and if it creates a channel then with the
`appid` and `channel` the client sent. -/
def StartArgs.Carries (args : StartArgs) (out : JoinCall) : Prop :=
  out ≠ .aborted ∧ ∀ appid key name uid config,
    out = .createChannel appid key name uid config →
      Denotes appid args.appid ∧ Denotes name args.channel

/-! ## What the checks leave -/

theorem postStart_truthy {body : Json} {args : StartArgs} (h : postStart body = .ok args) :
    args.appid.truthy = true ∧ args.channel.truthy = true := by
  unfold postStart at h
  split at h
  · cases h
  · rename_i appid happid
    split at h
    · cases h
    · rename_i ha
      split at h
      · cases h
      · rename_i channel hchannel
        split at h
        · cases h
        · rename_i hc
          cases h
          exact ⟨by simpa using ha, by simpa using hc⟩

/-! ## Down to the native call -/

/-- A started session's call creates a channel with the two strings built
from the arguments, or aborts. -/
theorem joinStarted_cases (args : StartArgs) (sid : JsString) :
    args.joinStarted sid = .aborted ∨
      ∃ appid key name uid config,
        args.joinStarted sid = .createChannel appid key name uid config := by
  cases hout : args.joinStarted sid with
  | aborted => exact Or.inl rfl
  | emitError err statCode =>
    have hne := @nodeJoinChannel_ne_emitError startedSdk rfl rfl
    exact absurd hout (hne _ _ _ _ _ _ _ _)
  | createChannel appid key name uid config => exact Or.inr ⟨_, _, _, _, _, rfl⟩

theorem joinStarted_createChannel {args : StartArgs} {sid : JsString} {appid key name : Bytes}
    {uid : Uid} {config : RecordingConfig}
    (h : args.joinStarted sid = .createChannel appid key name uid config) :
    (napiGetValueNodestring args.appid).toStdString = some appid ∧
      (napiGetValueNodestring args.channel).toStdString = some name := by
  unfold StartArgs.joinStarted recordingJoinChannel at h
  exact nodeJoinChannel_createChannel h

/-- **The exact condition**: a started request neither aborts the server
nor joins a channel the client did not name, precisely when both values
are texts. -/
theorem joinStarted_carries_iff {body : Json} {args : StartArgs}
    (h : postStart body = .ok args) (sid : JsString) :
    args.Carries (args.joinStarted sid) ↔ args.appid.Text ∧ args.channel.Text := by
  obtain ⟨hta, htc⟩ := postStart_truthy h
  constructor
  · rintro ⟨hrun, hdenotes⟩
    rcases joinStarted_cases args sid with habort | ⟨appid, key, name, uid, config, heq⟩
    · exact absurd habort hrun
    · obtain ⟨hda, hdn⟩ := hdenotes _ _ _ _ _ heq
      obtain ⟨ha, hn⟩ := joinStarted_createChannel heq
      obtain ⟨sa, hsa, -, rfl⟩ := toStdString_eq_some_iff.mp ha
      obtain ⟨sn, hsn, -, rfl⟩ := toStdString_eq_some_iff.mp hn
      rw [hsa] at hda ⊢
      rw [hsn] at hdn ⊢
      exact ⟨denotes_cString_iff.mp hda, denotes_cString_iff.mp hdn⟩
  · rintro ⟨hTa, hTn⟩
    obtain ⟨sa, hsa, -, -⟩ := id hTa
    obtain ⟨sn, hsn, -, -⟩ := id hTn
    have hsane : sa ≠ [] := Json.truthy_string.mp (hsa ▸ hta)
    have hsnne : sn ≠ [] := Json.truthy_string.mp (hsn ▸ htc)
    constructor
    · intro habort
      have hnot := (recordingJoinChannel_aborted_iff _ _ _ _ _ _).mp habort
      exact hnot ⟨⟨sa, hsa, hsane⟩, sn, hsn, hsnne⟩
    · intro appid key name uid config heq
      obtain ⟨ha, hn⟩ := joinStarted_createChannel heq
      obtain ⟨sa', hsa', -, rfl⟩ := toStdString_eq_some_iff.mp ha
      obtain ⟨sn', hsn', -, rfl⟩ := toStdString_eq_some_iff.mp hn
      rw [hsa'] at hTa ⊢
      rw [hsn'] at hTn ⊢
      exact ⟨denotes_cString_iff.mpr hTa, denotes_cString_iff.mpr hTn⟩

/-- A body both of whose values are texts. -/
def textBody : Json :=
  .object [(js "appid", .string (js "a")), (js "channel", .string (js "c"))]

theorem joinStarted_carries_textBody :
    postStart textBody =
        .ok { key := none, appid := .string (js "a"), channel := .string (js "c") } ∧
      StartArgs.Carries { key := none, appid := .string (js "a"), channel := .string (js "c") }
        (StartArgs.joinStarted
          { key := none, appid := .string (js "a"), channel := .string (js "c") } []) := by
  have hok : postStart textBody =
      .ok { key := none, appid := .string (js "a"), channel := .string (js "c") } := rfl
  refine ⟨hok, (joinStarted_carries_iff hok []).mpr ⟨?_, ?_⟩⟩
  · exact ⟨js "a", rfl, ⟨['a'], rfl⟩, by decide⟩
  · exact ⟨js "c", rfl, ⟨['c'], rfl⟩, by decide⟩

/-- A body whose `appid` is a number passes the checks and aborts the
server. -/
theorem not_carries_number :
    ¬ ∀ body args, postStart body = .ok args → ∀ sid, args.Carries (args.joinStarted sid) := by
  intro h
  have hcarries := h
    (.object [(js "appid", .number (.finite 5)), (js "channel", .string (js "c"))])
    { key := none, appid := .number (.finite 5), channel := .string (js "c") } rfl []
  exact hcarries.1 rfl

end AgoraRecording.Server
