import Qcow2.Reader
import Qcow2.StdIo.FlatDisk
import Qcow2.Guest
import Qcow2.ReaderRefines
import Qcow2.FlatRuns
import Qcow2.Seeking
import Qcow2.Source
import Qcow2.EndOfStream
import Qcow2.Compressed
import Qcow2.Descriptors
import Qcow2.Coverage
import Qcow2.Chunking
import Qcow2.OpenPosition
import Qcow2.Targets
import Qcow2.Checked
import Qcow2.CheckedRefines
import Qcow2.Extensions
import Qcow2.HeaderAddressing
import Qcow2.Snapshots
import Qcow2.SnapshotRefines
import Qcow2.SnapshotTable
import Qcow2.SnapshotEncoding
import Qcow2.VmState
import Qcow2.Refcount
import Qcow2.RefcountRefines
import Qcow2.RefcountWidths
import Qcow2.RefcountAddressing
import Qcow2.OffsetFields
import Qcow2.ScanCap
import Qcow2.Audit
import Qcow2.ShortReads
import Qcow2.HeaderAgreement
import Qcow2.Truncation
import Qcow2.Findings
import Qcow2.ForeignTables
import Qcow2.Allocation
import Qcow2.Threads
import Qcow2.CheckedProbes
import Qcow2.CheckedSource
import Qcow2.WorkBounds
import Qcow2.Pieces
import Qcow2.TruncatedReads
import Qcow2.Footprint
import Qcow2.Observation
import Qcow2.TruncatedAudit
import Qcow2.PlainImages
import Qcow2.Testutil
import Qcow2.PlainDisk
import Qcow2.ProbeTargets
