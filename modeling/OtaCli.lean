import OtaCli.Proofs.PacketCodec
import OtaCli.Proofs.FlashShape
import OtaCli.Proofs.PacketLockstep
import OtaCli.Proofs.FieldTruncation
import OtaCli.Proofs.LastWrite
import OtaCli.Proofs.Progress
import OtaCli.Proofs.InitReport
import OtaCli.Proofs.Release
import OtaCli.Proofs.FlashReading
import OtaCli.Proofs.FlashSharing
import OtaCli.Soundness.SlotHistory
import OtaCli.Soundness.WireTranscript
import OtaCli.Soundness.FlashDelivery
import OtaCli.Soundness.Correspondence
import OtaCli.Soundness.ResponseCapture
import OtaCli.Soundness.FailedWrites
import OtaCli.Soundness.ForeignFrames
import OtaCli.Soundness.ReaderLifetime
import OtaCli.Soundness.ProcessFlash
import OtaCli.Soundness.ChannelUse
import OtaCli.Soundness.ErrorReports
import OtaCli.Soundness.ChannelList
import OtaCli.Soundness.Shutdown
import OtaCli.Soundness.CallProgress
import OtaCli.Soundness.Deadlock
import OtaCli.Soundness.Termination
