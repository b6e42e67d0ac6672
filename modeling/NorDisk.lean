import NorDisk.Firmware.Device
import NorDisk.Main
import NorDisk.Proofs.BlinkPace
import NorDisk.Proofs.BlockAddresses
import NorDisk.Proofs.BoundedWait
import NorDisk.Proofs.BusFailure
import NorDisk.Proofs.CheckedScan
import NorDisk.Proofs.ChipTransactions
import NorDisk.Proofs.CommandStream
import NorDisk.Proofs.DeviceRefinement
import NorDisk.Proofs.Discipline
import NorDisk.Proofs.EraseFirst
import NorDisk.Proofs.FlashFailure
import NorDisk.Proofs.ImagePlayback
import NorDisk.Proofs.Isolation
import NorDisk.Proofs.LastWrite
import NorDisk.Proofs.NestedCalls
import NorDisk.Proofs.NorRules
import NorDisk.Proofs.NumberText
import NorDisk.Proofs.PolicyAgreement
import NorDisk.Proofs.RecordCalls
import NorDisk.Proofs.RecordFormat
import NorDisk.Proofs.RequestChecks
import NorDisk.Proofs.ResetDeadline
import NorDisk.Proofs.Retry
import NorDisk.Proofs.SectorStartWrite
import NorDisk.Proofs.SplitWrite
import NorDisk.Proofs.StalledWrite
import NorDisk.Proofs.TransferHistory
import NorDisk.Proofs.TrapFreedom
import NorDisk.Proofs.UpdateCompletion
import NorDisk.Proofs.VectorAddresses
import NorDisk.Proofs.VectorPlayback
import NorDisk.Proofs.Waveform
import NorDisk.ScriptedSpi
import NorDisk.Tool.Folder
import NorDisk.Proofs.SectorRuns
