import AgoraRecording.Lib.Machine
import AgoraRecording.Native.MixLayoutTheorems
import AgoraRecording.Native.OwnershipTheorems
import AgoraRecording.Native.BoundedQueueTheorems
import AgoraRecording.Native.EngineCallsTheorems
import AgoraRecording.Native.ChannelNameTheorems
import AgoraRecording.Native.SetMixLayoutTheorems
import AgoraRecording.Native.LayoutBuffersTheorems
import AgoraRecording.Server.StartArgs
import AgoraRecording.Server.StopTheorems
import AgoraRecording.Server.StopRequest
import AgoraRecording.Server.PresenceTheorems
import AgoraRecording.Server.RegistryTheorems
import AgoraRecording.Server.StartTheorems
import AgoraRecording.Server.IsolationTheorems
import AgoraRecording.Server.LayoutTheorems
import AgoraRecording.Server.LayoutObject
import AgoraRecording.Server.Videos
import AgoraRecording.Native.QueueLossTheorems
import AgoraRecording.Native.CallOrderTheorems
import AgoraRecording.Native.FrameFilesTheorems
import AgoraRecording.Server.PictureTheorems
import AgoraRecording.Server.AppProgress
import AgoraRecording.Server.PipelineProgress
import AgoraRecording.Server.ThreadsProgress
import AgoraRecording.Server.StorageTheorems
import AgoraRecording.Server.ServiceTheorems
