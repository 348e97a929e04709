/-
AgoraRecording.Native.FrameFiles — the raw audio and video files of
`audioFrameReceivedImpl` and `videoFrameReceivedImpl`.

A frame goes to the file `m_storage_dir`, uid and suffix spell, with
nothing between the directory and the number. Raw streams are appended;
a JPG snapshot replaces the last one. H.264 and H.265 frames share a file:
the branch for `VIDEO_FRAME_H264` is the last `else`.

`m_storage_dir` belongs to the wrapper, not to the user: a join that names
a directory redirects the frames of everyone after it. The file system is
one for all wrappers. `fopen` may fail, and the frame is then dropped.

`received` is a history: every frame that was stored, with the directory
at that moment.
-/
import AgoraRecording.Lib.Machine
import AgoraRecording.Native.AgoraSdk
import Mathlib.Logic.Function.Basic

namespace AgoraRecording.Native

open AgoraRecording.Lib

/-! ## Frames -/

/-- `AudioFrame`, with the buffer its type's union member holds. -/
inductive AudioFrame where
  | pcm (pcmBuf : Bytes)
  | aac (aacBuf : Bytes)
  deriving DecidableEq, Repr

/-- `VideoFrame`, likewise. -/
inductive VideoFrame where
  | yuv (buf : Bytes)
  | h264 (buf : Bytes)
  | jpg (buf : Bytes)
  | h265 (buf : Bytes)
  deriving DecidableEq, Repr

/-- What the frame callbacks receive. -/
inductive MediaFrame where
  | audio (f : AudioFrame)
  | video (f : VideoFrame)
  deriving DecidableEq, Repr

/-! ## Files -/

/-- What each file holds; `none` is no file. -/
abbrev Files := String → Option Bytes

/-- `fopen(name, "a+b")` and `fwrite`. -/
def Files.append (files : Files) (name : String) (data : Bytes) : Files :=
  Function.update files name (some ((files name).getD [] ++ data))

/-- `fopen(name, "w")` and `fwrite`. -/
def Files.replace (files : Files) (name : String) (data : Bytes) : Files :=
  Function.update files name (some data)

namespace AgoraSdk

/-- `AgoraSdk::audioFrameReceivedImpl`. -/
def audioFrameReceivedImpl (sdk : AgoraSdk) (files : Files) (uid : Uid) (frame : AudioFrame) :
    Files :=
  let infoName := sdk.mStorageDir ++ toString uid.toNat
  match frame with
  | .pcm pcmBuf => files.append (infoName ++ ".pcm") pcmBuf
  | .aac aacBuf => files.append (infoName ++ ".aac") aacBuf

/-- `AgoraSdk::videoFrameReceivedImpl`. -/
def videoFrameReceivedImpl (sdk : AgoraSdk) (files : Files) (uid : Uid) (frame : VideoFrame) :
    Files :=
  let infoName := sdk.mStorageDir ++ toString uid.toNat
  match frame with
  | .yuv buf => files.append (infoName ++ ".yuv") buf
  | .jpg buf => files.replace (infoName ++ "_video" ++ ".jpg") buf
  | .h264 buf | .h265 buf => files.append (infoName ++ ".h264") buf

/-- The frame callbacks; they are `const`. -/
def frameReceived (sdk : AgoraSdk) (files : Files) (uid : Uid) : MediaFrame → Files
  | .audio f => sdk.audioFrameReceivedImpl files uid f
  | .video f => sdk.videoFrameReceivedImpl files uid f

end AgoraSdk

/-! ## Runs -/

/-- A frame that was stored. -/
structure Received where
  dir : String
  uid : Uid
  frame : MediaFrame
  deriving DecidableEq, Repr

structure Recordings where
  sdks : List AgoraSdk
  files : Files
  received : List Received

inductive RecordingAction where
  | create
  /-- wrapper `k` is told that a user joined, and where its files go -/
  | userJoined (k : Nat) (uid : Uid) (storageDir : Option String)
  /-- wrapper `k` receives a frame; `opened` is whether `fopen` succeeds -/
  | frame (k : Nat) (uid : Uid) (f : MediaFrame) (opened : Bool)
  deriving DecidableEq, Repr

namespace Recordings

def step (s : Recordings) : RecordingAction → Option Recordings
  | .create => some { s with sdks := s.sdks ++ [AgoraSdk.new] }
  | .userJoined k uid storageDir =>
      if k < s.sdks.length then
        some { s with sdks := s.sdks.modify k (fun sdk => sdk.onUserJoinedImpl uid storageDir) }
      else none
  | .frame k uid f opened =>
      s.sdks[k]?.map (fun sdk =>
        if opened then
          { s with files := sdk.frameReceived s.files uid f
                   received := s.received ++ [{ dir := sdk.mStorageDir, uid := uid, frame := f }] }
        else s)

/-- Every run of any number of wrappers, on a disk that holds `files`. -/
def machine (files : Files) : Machine Recordings RecordingAction where
  init := { sdks := [], files := files, received := [] }
  step := step

end Recordings

end AgoraRecording.Native
