import ExeCell.Lib.Machine
import ExeCell.Lib.WaitStatus
import ExeCell.Lib.LexicalPath
import ExeCell.Lib.DescriptorLog
import ExeCell.Lib.Search
import ExeCell.Lib.Tickets
import ExeCell.Lib.Uri
import ExeCell.Core.Text
import ExeCell.Core.Event
import ExeCell.Trace.Stop
import ExeCell.Trace.FdTable
import ExeCell.Trace.Memory
import ExeCell.Trace.Endpoint
import ExeCell.Trace.Syscall
import ExeCell.Trace.Decoder
import ExeCell.Report.Reporter
import ExeCell.Report.Json
import ExeCell.Trace.TaskRegistry
import ExeCell.Trace.Tracer
import ExeCell.Trace.Phase
import ExeCell.Trace.Launch
import ExeCell.Sandbox.Config
import ExeCell.Sandbox.Setup
import ExeCell.Sandbox.FailClosed
import ExeCell.Sandbox.Capture
import ExeCell.Sandbox.Inheritance
import ExeCell.Sandbox.StderrTrace
import ExeCell.Sandbox.Outcome
import ExeCell.Package.Observation
import ExeCell.Package.Scheduler
import ExeCell.Risk.Engine
import ExeCell.Package.ScanRisk
import ExeCell.Package.Network
import ExeCell.Policy.Engine
import ExeCell.Policy.PathRules
import ExeCell.Analyze.Run
import ExeCell.Analyze.ExitContract
import ExeCell.Package.TraceEvidence
import ExeCell.Package.Archive
import ExeCell.Package.ArchivePaths
import ExeCell.Package.ArchiveWalk
import ExeCell.Package.ArchiveLinks
import ExeCell.Package.ArchiveBudget
import ExeCell.Package.Unpack
import ExeCell.Package.Inspect
import ExeCell.Lib.Words
import ExeCell.Package.Aur
import ExeCell.Package.Build
import ExeCell.Package.Coverage
import ExeCell.Package.Confidence
import ExeCell.Lib.Gate
import ExeCell.Package.Rootfs
import ExeCell.Package.Scan
import ExeCell.Trace.Effect
import ExeCell.Policy.Enforcement
import ExeCell.Trace.Registration
import ExeCell.Lib.Interleaving
import ExeCell.Trace.Interleaving
import ExeCell.Trace.Stream
import ExeCell.Trace.Lifetime
import ExeCell.Trace.Signals
import ExeCell.Lib.Bindings
import ExeCell.Trace.Descriptors
import ExeCell.Trace.Reuse
import ExeCell.Trace.Threads
import ExeCell.Policy.Transducer
import ExeCell.Policy.Resources
import ExeCell.Lib.Bpf
import ExeCell.Sandbox.Seccomp
import ExeCell.Lib.Json
import ExeCell.Lib.JsonPieces
import ExeCell.Report.JsonText
import ExeCell.Report.Framing
import ExeCell.Lib.Quoted
import ExeCell.Report.Lossless
import ExeCell.Lib.JsonAppend
import ExeCell.Package.Records
import ExeCell.Package.Entries
import ExeCell.Package.Artifacts
import ExeCell.Trace.Recorder
import ExeCell.Analyze.Reported
import ExeCell.Analyze.Report
import ExeCell.Analyze.Verdict
import ExeCell.Trace.CloseRange
import ExeCell.Package.PkgInfo
import ExeCell.Lib.RowidTable
import ExeCell.Lib.WriteLock
import ExeCell.Package.Storage
import ExeCell.Package.StorageFailures
import ExeCell.Package.StorageWriters
import ExeCell.Package.StorageCompare
import ExeCell.Package.StorageHistory
import ExeCell.Package.StorageEvents
import ExeCell.Lib.FileTree
import ExeCell.Package.RootfsFiles
import ExeCell.Package.ScanEvents
import ExeCell.Lib.PathWalk
import ExeCell.Trace.Readable
import ExeCell.Trace.Renames
import ExeCell.Trace.Spellings
import ExeCell.Trace.RelativePaths
import ExeCell.Policy.EndpointRules
import ExeCell.Analyze.Findings
import ExeCell.Sandbox.Output
import ExeCell.Lib.SteadyClock
import ExeCell.Package.Timeouts
import ExeCell.Lib.GapText
import ExeCell.Trace.AddressText
import ExeCell.Trace.Accept
import ExeCell.Lib.BlockRead
import ExeCell.Package.ArchiveNul
import ExeCell.Package.Fingerprint
import ExeCell.Risk.Calls
import ExeCell.Lib.Listing
import ExeCell.Package.Cleanup
import ExeCell.Lib.OrderedMap
import ExeCell.Package.BuildRun
import ExeCell.Lib.LinkWalk
import ExeCell.Package.FilesystemDiff
import ExeCell.Sandbox.Completion
import ExeCell.Sandbox.ParentDeath
import ExeCell.Package.Guardian
import ExeCell.Cli.PackageOptions
import ExeCell.Cli.SandboxOptions
import ExeCell.Analyze.VerdictTable
import ExeCell.Cli.PackageBuild
import ExeCell.Cli.Targets
import ExeCell.Package.Confinement
import ExeCell.Package.SandboxLimits
import ExeCell.Package.StorageSerial
import ExeCell.Sandbox.OwnFilter
import ExeCell.Sandbox.Outliving
