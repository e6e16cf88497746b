import OtaCli.Proofs.FlashTranscript
import OtaCli.Proofs.PacketSharing

/-! # The packets of a flash on the heap

`Update` gives one array, with the length of the file, to its first packet and to its last, and a new array to each
packet in between. All packets are commands, which copy what they are given.
-/

namespace OtaCli.Proofs.FlashSharing

open Model Model.FileUpdater LabeledMachine FlashTranscript PacketSharing

variable {v : PacketValues} (targetDeviceId : UInt8)

end OtaCli.Proofs.FlashSharing
