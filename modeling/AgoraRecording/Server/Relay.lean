/-
AgoraRecording.Server.Relay — the twenty listeners of `initEventHandler`,
and what is left of an engine's report once they have passed it on.

Every listener has the shape `(p₁, …, pₙ) => fire(name, p₁, …, pₙ)`: it
takes as many of the native call's arguments as it names, `undefined` where
the call has fewer, and `fire` emits them in an immediate. `emission` is the
whole path from an engine's callback to `this.emit`.

`read_emission` says what comes out: reading the emitted values back gives
what was reported, less what `heard` drops. So `emission_eq_iff`: two
reports are the same to an application exactly when they agree in all but
the reason a user went offline, the directory that came with a join, and the
fraction of a CPU usage; warnings, leaving the channel and an empty pointer
to the speakers are not reported at all.
-/
import AgoraRecording.Native.EventHandler

namespace AgoraRecording.Server

open AgoraRecording.Lib AgoraRecording.Js AgoraRecording.Native

/-! ## Listeners -/

/-- A listener of `n` parameters, subscribed under `event`. -/
structure Relay where
  event : String
  emits : String
  arity : Nat
  deriving DecidableEq, Repr

/-- The listeners `initEventHandler` subscribes, in its order. -/
def initEventHandler : List Relay :=
  [⟨"joinchannel", "joinchannel", 2⟩,
   ⟨"error", "error", 2⟩,
   ⟨"userjoin", "userjoin", 2⟩,
   ⟨"userleave", "userleave", 2⟩,
   ⟨"activespeaker", "activespeaker", 1⟩,
   ⟨"connectionlost", "connectionlost", 0⟩,
   ⟨"connectioninterrupt", "connectioninterrupt", 0⟩,
   ⟨"receivingstreamstatuschanged", "receivingstreamstatuschanged", 2⟩,
   ⟨"firstremotevideodecoded", "firstremotevideodecoded", 4⟩,
   ⟨"firstremoteaudioframe", "firstremoteaudioframe", 2⟩,
   ⟨"audiovolumeindication", "audiovolumeindication", 2⟩,
   ⟨"remoteVideoStreamStateChanged", "remoteVideoStreamStateChanged", 3⟩,
   ⟨"remoteAudioStreamStateChanged", "remoteAudioStreamStateChanged", 3⟩,
   ⟨"rejoinChannelSuccess", "rejoinChannelSuccess", 2⟩,
   ⟨"connectionStateChanged", "connectionStateChanged", 2⟩,
   ⟨"remoteVideoStats", "remoteVideoStats", 2⟩,
   ⟨"remoteAudioStats", "remoteAudioStats", 2⟩,
   ⟨"recordingStats", "recordingStats", 1⟩,
   ⟨"localUserRegistered", "localUserRegistered", 2⟩,
   ⟨"userInfoUpdated", "userInfoUpdated", 2⟩]

/-- The arguments of one `this.emit`; `none` is `undefined`. -/
structure Emission where
  name : String
  args : List (Option Json)

/-- The body of a listener that is called with `argv`. -/
def Relay.fire (r : Relay) (argv : List Json) : Emission :=
  { name := r.emits, args := (List.range r.arity).map (fun n => argv[n]?) }

/-- The listener of an event. -/
def relayOf (event : String) : Option Relay :=
  initEventHandler.find? (fun r => r.event == event)

/-- What the wrapper emits for a task's call. -/
def relayed (call : JsCall) : Option Emission :=
  (relayOf call.event).map (fun r => r.fire call.argv)

/-- From a callback of the engine to `this.emit`. -/
def emission (cb : Callback) : Option Emission := cb.post.bind relayed

/-! ## What an application hears -/

theorem Usage.floor_bounds (usage : Usage) :
    0 ≤ ((⌊usage.1⌋ : Int) : Rat) ∧ ((⌊usage.1⌋ : Int) : Rat) < 4294967296 :=
  ⟨by exact_mod_cast Int.floor_nonneg.mpr usage.2.1,
    lt_of_le_of_lt (Int.floor_le usage.1) usage.2.2⟩

/-- A usage without its fraction. -/
def floor (usage : Usage) : Usage := ⟨⌊usage.1⌋, Usage.floor_bounds usage⟩

/-- A report as an application hears it. An error the wrapper found itself
is told like the engine's. -/
def heard : Callback → Option Callback
  | .onWarning _ | .onLeaveChannel _ | .onAudioVolumeIndication none => none
  | .onUserJoined uid _ => some (.onUserJoined uid none)
  | .onUserOffline uid _ => some (.onUserOffline uid 0)
  | .onRecordingStats stats => some (.onRecordingStats
      { stats with cpuAppUsage := floor stats.cpuAppUsage
                   cpuTotalUsage := floor stats.cpuTotalUsage })
  | .emitError err statCode => some (.onError err statCode)
  | cb => some cb

/-! ## Reading the values back -/

def readUInt32 : Json → Option UInt32
  | .number (.finite value) => some (UInt32.ofNat value.num.toNat)
  | _ => none

def readInt32 : Json → Option Int32
  | .number (.finite value) => some (Int32.ofInt value.num)
  | _ => none

def readBool : Json → Option Bool
  | .bool b => some b
  | _ => none

def readString : Json → Option CString
  | .string s =>
      if h : 0 ∉ Utf.utf16 (Utf.decodeUtf16 s) then
        some ⟨Utf.utf8 (Utf.decodeUtf16 s), Utf.decodeUtf16 s, rfl, h⟩
      else none
  | _ => none

/-- A member of an object, by its place. -/
def readMember (n : Nat) : Json → Option Json
  | .object members => members[n]?.map Prod.snd
  | _ => none

def readField (n : Nat) (object : Json) : Option UInt32 :=
  (readMember n object).bind readUInt32

theorem usage_bounds (value : UInt32) :
    0 ≤ ((value.toNat : Int) : Rat) ∧ ((value.toNat : Int) : Rat) < 4294967296 := by
  have hlt : value.toNat < 4294967296 := value.toNat_lt
  exact ⟨by positivity, by exact_mod_cast hlt⟩

def readUsage (value : Json) : Option Usage :=
  (readUInt32 value).map (fun n => ⟨((n.toNat : Int) : Rat), usage_bounds n⟩)

def readSpeaker (speaker : Json) : Option AudioVolumeInfo := do
  return { uid := ← readUInt32 (← readMember 0 speaker)
           volume := ← readUInt32 (← readMember 1 speaker) }

def readSpeakers : Json → Option (List AudioVolumeInfo)
  | .array elements => elements.mapM readSpeaker
  | _ => none

@[simp] theorem readUInt32_napiCreateUint32 (value : UInt32) :
    readUInt32 (napiCreateUint32 value) = some value := by
  simp [readUInt32, napiCreateUint32]

@[simp] theorem readUInt32_napiCreateUid (uid : Uid) :
    readUInt32 (napiCreateUid uid) = some uid := by
  simp [readUInt32, napiCreateUid]

@[simp] theorem readInt32_napiCreateInt32 (value : Int32) :
    readInt32 (napiCreateInt32 value) = some value := by
  simp [readInt32, napiCreateInt32]

@[simp] theorem readBool_napiCreateBool (value : Bool) :
    readBool (napiCreateBool value) = some value :=
  rfl

@[simp] theorem readString_newFromUtf8 (value : CString) :
    readString (.string (newFromUtf8 value.1)) = some value := by
  obtain ⟨bytes, cs, rfl, hzero⟩ := value
  simp [readString, newFromUtf8, Utf.cString_utf8.mpr hzero, Utf.decodeUtf8_utf8,
    Utf.decodeUtf16_utf16, hzero]

@[simp] theorem readString_napiCreateText (value : CString) :
    readString (napiCreateText value) = some value :=
  readString_newFromUtf8 value

theorem readUsage_napiCreateUint32 (usage : Usage) :
    readUsage (napiCreateUint32 usage.toUInt32) = some (floor usage) := by
  obtain ⟨hnonneg, hlt⟩ := Usage.floor_bounds usage
  have hnonneg : 0 ≤ ⌊usage.1⌋ := by exact_mod_cast hnonneg
  have hlt : ⌊usage.1⌋ < 4294967296 := by exact_mod_cast hlt
  have hnat : (UInt32.ofNat ⌊usage.1⌋.toNat).toNat = ⌊usage.1⌋.toNat :=
    UInt32.toNat_ofNat_of_lt' (by simp only [UInt32.size]; omega)
  have hint : ((UInt32.ofNat ⌊usage.1⌋.toNat).toNat : Int) = ⌊usage.1⌋ := by
    rw [hnat, Int.toNat_of_nonneg hnonneg]
  rw [readUsage, readUInt32_napiCreateUint32, Usage.toUInt32]
  exact congrArg some (Subtype.ext (by simp only [floor, hint]))

theorem readSpeakers_array (speakers : List AudioVolumeInfo) :
    readSpeakers (.array (speakers.map AudioVolumeInfo.toObject)) = some speakers := by
  have hspeaker : ∀ info : AudioVolumeInfo, readSpeaker info.toObject = some info := by
    intro info
    simp [readSpeaker, AudioVolumeInfo.toObject, readMember]
  induction speakers with
  | nil => rfl
  | cons info speakers ih =>
    simp only [readSpeakers] at ih
    simp [readSpeakers, hspeaker, ih]

def readRemoteVideoStats (stats : Json) : Option RemoteVideoStats := do
  return { delay := ⟨← readField 0 stats⟩
           width := ⟨← readField 1 stats⟩
           height := ⟨← readField 2 stats⟩
           receivedBitrate := ⟨← readField 3 stats⟩
           decoderOutputFrameRate := ⟨← readField 4 stats⟩
           rxStreamType := ⟨← readField 5 stats⟩ }

def readRemoteAudioStats (stats : Json) : Option RemoteAudioStats := do
  return { quality := ⟨← readField 0 stats⟩
           networkTransportDelay := ⟨← readField 1 stats⟩
           jitterBufferDelay := ⟨← readField 2 stats⟩
           audioLossRate := ⟨← readField 3 stats⟩ }

def readRecordingStats (stats : Json) : Option RecordingStats := do
  return { duration := ← readField 0 stats
           rxBytes := ← readField 1 stats
           rxKBitRate := ← readField 2 stats
           rxAudioKBitRate := ← readField 3 stats
           rxVideoKBitRate := ← readField 4 stats
           lastmileDelay := ← readField 5 stats
           userCount := ← readField 6 stats
           cpuAppUsage := ← (readMember 7 stats).bind readUsage
           cpuTotalUsage := ← (readMember 8 stats).bind readUsage }

def readUserInfo (info : Json) : Option UserInfo := do
  return { uid := ← readField 0 info
           userAccount := ← (readMember 1 info).bind readString }

section

variable {α β γ δ : Type}

def read1 (f : α → Callback) (ra : Json → Option α) : List (Option Json) → Option Callback
  | some a :: _ => (ra a).map f
  | _ => none

def read2 (f : α → β → Callback) (ra : Json → Option α) (rb : Json → Option β) :
    List (Option Json) → Option Callback
  | some a :: rest => (ra a).bind (fun a => read1 (f a) rb rest)
  | _ => none

def read3 (f : α → β → γ → Callback) (ra : Json → Option α) (rb : Json → Option β)
    (rc : Json → Option γ) : List (Option Json) → Option Callback
  | some a :: rest => (ra a).bind (fun a => read2 (f a) rb rc rest)
  | _ => none

def read4 (f : α → β → γ → δ → Callback) (ra : Json → Option α) (rb : Json → Option β)
    (rc : Json → Option γ) (rd : Json → Option δ) : List (Option Json) → Option Callback
  | some a :: rest => (ra a).bind (fun a => read3 (f a) rb rc rd rest)
  | _ => none

end

/-- How the arguments of each event are read. -/
def readers : List (String × (List (Option Json) → Option Callback)) :=
  [("joinchannel", read2 .onJoinChannelSuccess readString readUInt32),
   ("error", read2 .onError readInt32 readInt32),
   ("userjoin", read1 (.onUserJoined · none) readUInt32),
   ("userleave", read1 (.onUserOffline · 0) readUInt32),
   ("activespeaker", read1 .onActiveSpeaker readUInt32),
   ("connectionlost", fun _ => some .onConnectionLost),
   ("connectioninterrupt", fun _ => some .onConnectionInterrupted),
   ("receivingstreamstatuschanged",
    read2 .onReceivingStreamStatusChanged readBool readBool),
   ("firstremotevideodecoded",
    read4 .onFirstRemoteVideoDecoded readUInt32 readInt32 readInt32 readInt32),
   ("firstremoteaudioframe", read2 .onFirstRemoteAudioFrame readUInt32 readInt32),
   ("audiovolumeindication", read1 (fun s => .onAudioVolumeIndication (some s)) readSpeakers),
   ("remoteVideoStreamStateChanged",
    read3 .onRemoteVideoStreamStateChanged readUInt32 readInt32 readInt32),
   ("remoteAudioStreamStateChanged",
    read3 .onRemoteAudioStreamStateChanged readUInt32 readInt32 readInt32),
   ("rejoinChannelSuccess", read2 .onRejoinChannelSuccess readString readUInt32),
   ("connectionStateChanged", read2 .onConnectionStateChanged readInt32 readInt32),
   ("remoteVideoStats", read2 .onRemoteVideoStats readUInt32 readRemoteVideoStats),
   ("remoteAudioStats", read2 .onRemoteAudioStats readUInt32 readRemoteAudioStats),
   ("recordingStats", read1 .onRecordingStats readRecordingStats),
   ("localUserRegistered", read2 .onLocalUserRegistered readUInt32 readString),
   ("userInfoUpdated", read2 .onUserInfoUpdated readUInt32 readUserInfo)]

/-- The report behind the values a listener is given. -/
def read (m : Emission) : Option Callback := (readers.lookup m.name).bind (fun f => f m.args)

/-- **What is emitted can be read back**, as far as it is heard. -/
theorem read_emission (cb : Callback) : (emission cb).bind read = heard cb := by
  cases cb with
  | onAudioVolumeIndication speakers =>
    cases speakers with
    | none => rfl
    | some speakers =>
      simp [emission, Callback.post, relayed, relayOf, initEventHandler, Relay.fire, List.range,
        List.range.loop, read, readers, List.lookup_cons, read1, heard, readSpeakers_array]
  | _ =>
    simp [emission, Callback.post, relayed, relayOf, initEventHandler, Relay.fire, List.range,
      List.range.loop, read, readers, List.lookup_cons, read1, read2, read3, read4, heard,
      readField, readMember, readUsage_napiCreateUint32, readRemoteVideoStats,
      readRemoteAudioStats, readRecordingStats, readUserInfo]

/-! ## What is lost -/

theorem floor_toUInt32 (usage : Usage) : (floor usage).toUInt32 = usage.toUInt32 := by
  simp [Usage.toUInt32, floor]

/-- What is dropped makes no difference. -/
theorem emission_heard (cb : Callback) : (heard cb).bind emission = emission cb := by
  cases cb with
  | onAudioVolumeIndication speakers => cases speakers <;> rfl
  | onRecordingStats stats =>
    simp [heard, emission, Callback.post, floor_toUInt32]
  | _ => rfl

/-- **Exactly what is lost** between an engine's report and `this.emit`. -/
theorem emission_eq_iff (cb cb' : Callback) :
    emission cb = emission cb' ↔ heard cb = heard cb' := by
  constructor
  · intro h
    rw [← read_emission cb, ← read_emission cb', h]
  · intro h
    rw [← emission_heard cb, ← emission_heard cb', h]

end AgoraRecording.Server
