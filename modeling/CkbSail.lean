import CkbSail.CkbRunner.Elf
import CkbSail.CkbRunner.Injection
import CkbSail.CkbRunner.Proofs.ElfRun
import CkbSail.CkbRunner.Proofs.Injection
import CkbSail.CkbRunner.Proofs.InjectionTrace
import CkbSail.Core.ArchMachine
import CkbSail.Core.Compare
import CkbSail.Core.Event
import CkbSail.Core.Program
import CkbSail.Core.Proofs.Comparator
import CkbSail.Core.Proofs.Screening
import CkbSail.Core.Serde
import CkbSail.DiffTest.Artifact
import CkbSail.DiffTest.Corpus
import CkbSail.DiffTest.Encode
import CkbSail.DiffTest.Main
import CkbSail.DiffTest.Mutation
import CkbSail.DiffTest.Proofs.Classification
import CkbSail.DiffTest.Proofs.CleanEvidence
import CkbSail.DiffTest.Proofs.Corpus
import CkbSail.DiffTest.Proofs.CorpusCases
import CkbSail.DiffTest.Proofs.Description
import CkbSail.DiffTest.Proofs.Encode
import CkbSail.DiffTest.Proofs.HexCodecs
import CkbSail.DiffTest.Proofs.HonestReplay
import CkbSail.DiffTest.Proofs.MalformedPackets
import CkbSail.DiffTest.Proofs.Materialize
import CkbSail.DiffTest.Proofs.MatrixAgreement
import CkbSail.DiffTest.Proofs.MatrixTotals
import CkbSail.DiffTest.Proofs.Mutated
import CkbSail.DiffTest.Proofs.MutationDetection
import CkbSail.DiffTest.Proofs.MutationMatrix
import CkbSail.DiffTest.Proofs.NoFalseAlarm
import CkbSail.DiffTest.Proofs.PassAccepted
import CkbSail.DiffTest.Proofs.PassSoundness
import CkbSail.DiffTest.Proofs.ProcessExit
import CkbSail.DiffTest.Proofs.RawPackets
import CkbSail.DiffTest.Proofs.Replay
import CkbSail.DiffTest.Proofs.Storage
import CkbSail.DiffTest.Replay
import CkbSail.DiffTest.Run
import CkbSail.ProofSupport.Dictionary
import CkbSail.ProofSupport.Enclosure
import CkbSail.ProofSupport.EnumerateLoop
import CkbSail.ProofSupport.ExactRun
import CkbSail.ProofSupport.FaultyProgram
import CkbSail.ProofSupport.FirstDifference
import CkbSail.ProofSupport.Placement
import CkbSail.ProofSupport.Records
import CkbSail.ProofSupport.RegisterObservers
import CkbSail.ProofSupport.Rv64gc
import CkbSail.ProofSupport.Rv64i
import CkbSail.ProofSupport.SplitOn
import CkbSail.PythonStd.Combinations
import CkbSail.PythonStd.Dict
import CkbSail.PythonStd.FileSystem
import CkbSail.PythonStd.FileTree
import CkbSail.PythonStd.Files
import CkbSail.PythonStd.Json
import CkbSail.PythonStd.LinkWalk
import CkbSail.PythonStd.Ops
import CkbSail.PythonStd.ParentSteps
import CkbSail.PythonStd.PathOrder
import CkbSail.PythonStd.PosixPath
import CkbSail.PythonStd.PurePath
import CkbSail.PythonStd.Regex
import CkbSail.PythonStd.Text
import CkbSail.PythonStd.Transaction
import CkbSail.PythonStd.WorkTree
import CkbSail.RustStd.Checked
import CkbSail.RustStd.Format
import CkbSail.RustStd.Fs
import CkbSail.RustStd.FsGrowth
import CkbSail.RustStd.Number
import CkbSail.RustStd.Text
import CkbSail.SailRunner.Dii
import CkbSail.SailRunner.Elf
import CkbSail.SailRunner.PacketHex
import CkbSail.SailRunner.Proofs.Dii
import CkbSail.SailRunner.Proofs.DiiStream
import CkbSail.SailRunner.Proofs.PacketHex
import CkbSail.SailRunner.Proofs.ParseNumber
import CkbSail.SailRunner.Proofs.RvfiRecords
import CkbSail.SailRunner.Proofs.RvfiRender
import CkbSail.SailRunner.Proofs.RvfiText
import CkbSail.SailRunner.Proofs.TextAgreement
import CkbSail.SailRunner.RvfiText
import CkbSail.Scripts.CkbSourceBaseline
import CkbSail.Scripts.DecoderModelIdentity
import CkbSail.Scripts.EphemeralVm
import CkbSail.Scripts.EvidenceBundle
import CkbSail.Scripts.FixedInputs
import CkbSail.Scripts.GenerateRebuiltRust
import CkbSail.Scripts.GitCheckout
import CkbSail.Scripts.GuestEvidence
import CkbSail.Scripts.MinimizeMismatch
import CkbSail.Scripts.Proofs.Acceptance
import CkbSail.Scripts.Proofs.Archive
import CkbSail.Scripts.Proofs.ArchiveRoundTrip
import CkbSail.Scripts.Proofs.BundleRoundTrip
import CkbSail.Scripts.Proofs.CapsuleInspection
import CkbSail.Scripts.Proofs.CapsuleRoundTrip
import CkbSail.Scripts.Proofs.CkbSourceBaseline
import CkbSail.Scripts.Proofs.DecoderModelIdentity
import CkbSail.Scripts.Proofs.EphemeralVm
import CkbSail.Scripts.Proofs.EvidenceBundle
import CkbSail.Scripts.Proofs.Extraction
import CkbSail.Scripts.Proofs.FirstDifference
import CkbSail.Scripts.Proofs.FixedInputs
import CkbSail.Scripts.Proofs.GenerateRebuiltRust
import CkbSail.Scripts.Proofs.GenerationEvidence
import CkbSail.Scripts.Proofs.GuestEvidence
import CkbSail.Scripts.Proofs.GuestNames
import CkbSail.Scripts.Proofs.InventoryRows
import CkbSail.Scripts.Proofs.Matrix
import CkbSail.Scripts.Proofs.MinimizeMismatch
import CkbSail.Scripts.Proofs.PublicClaims
import CkbSail.Scripts.Proofs.RocqContext
import CkbSail.Scripts.Proofs.SafeName
import CkbSail.Scripts.Proofs.SailModelTransaction
import CkbSail.Scripts.Proofs.Snapshot
import CkbSail.Scripts.Proofs.SnapshotCapture
import CkbSail.Scripts.Proofs.SnapshotClone
import CkbSail.Scripts.Proofs.SnapshotFiles
import CkbSail.Scripts.Proofs.SnapshotLayout
import CkbSail.Scripts.Proofs.SnapshotOverlay
import CkbSail.Scripts.Proofs.SnapshotProgress
import CkbSail.Scripts.Proofs.SnapshotRecapture
import CkbSail.Scripts.Proofs.SnapshotRestore
import CkbSail.Scripts.Proofs.SnapshotRoundTrip
import CkbSail.Scripts.Proofs.SourceCapsule
import CkbSail.Scripts.Proofs.StagedTree
import CkbSail.Scripts.Proofs.Staging
import CkbSail.Scripts.Proofs.StagingExact
import CkbSail.Scripts.Proofs.StagingOrder
import CkbSail.Scripts.Proofs.TestLog
import CkbSail.Scripts.Proofs.WritePass
import CkbSail.Scripts.PublicClaims
import CkbSail.Scripts.ReleaseCommon
import CkbSail.Scripts.RocqContext
import CkbSail.Scripts.RuntimeEvidence
import CkbSail.Scripts.SailModelTransaction
import CkbSail.Scripts.SourceCapsule
import CkbSail.Scripts.SourceSnapshot
import CkbSail.Scripts.TestLog
import CkbSail.Scripts.WritePass
