import AudioMeet.Theorems.Loudness
import AudioMeet.Theorems.RtpGrammar
import AudioMeet.Theorems.RtpBuffer
import AudioMeet.Theorems.PortHistory
import AudioMeet.Theorems.MsLog.Ending
import AudioMeet.Theorems.Participant.PacketLaw
import AudioMeet.Theorems.Participant.Reassembly
import AudioMeet.Theorems.Participant.Closing
import AudioMeet.Theorems.Participant.ReceiveBuffer
import AudioMeet.Theorems.Participant.LossyTransport
import AudioMeet.Theorems.Participant.Malformed
import AudioMeet.Theorems.Participant.StopReturns
import AudioMeet.Theorems.Participant.Draining
import AudioMeet.Theorems.Participant.Staleness
import AudioMeet.Theorems.Json
import AudioMeet.Lib.Utf8
import AudioMeet.Theorems.Server.Leaks
import AudioMeet.Theorems.Server.Stopped
import AudioMeet.Theorems.Live.Answered
import AudioMeet.Lib.Unwinding
import AudioMeet.Theorems.Room.Relay
import AudioMeet.Theorems.Process.Overtaken
import AudioMeet.Theorems.Process.HalfBuilt
import AudioMeet.Theorems.Process.AddCodes
import AudioMeet.Theorems.Process.PortNumbers
import AudioMeet.Theorems.Process.RemotePort
import AudioMeet.Theorems.Blocking
import AudioMeet.Theorems.Lifetime.Sessions
import AudioMeet.Theorems.Process.FailedAdds
import AudioMeet.Theorems.Process.Snapshots
import AudioMeet.Theorems.Process.Observed
import AudioMeet.Directory
