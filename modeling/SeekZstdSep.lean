import SeekZstdSep.Proofs.AsRead
import SeekZstdSep.Proofs.Verified
import SeekZstdSep.Proofs.FailedEdits
import SeekZstdSep.Proofs.Written
import SeekZstdSep.Proofs.FileUpdate
import SeekZstdSep.Proofs.Inspect
import SeekZstdSep.Proofs.Msgpack
import SeekZstdSep.Proofs.ShortRead
import SeekZstdSep.Proofs.Restore
import SeekZstdSep.Proofs.Buffering
import SeekZstdSep.Proofs.Retry
import SeekZstdSep.Proofs.OldCompress
import SeekZstdSep.Proofs.Front
import SeekZstdSep.Proofs.Broken
import SeekZstdSep.Proofs.Streaming
import SeekZstdSep.Proofs.Grouping
import SeekZstdSep.Proofs.PluginRecords
import SeekZstdSep.Proofs.Request
import SeekZstdSep.Proofs.OpenFiles
import SeekZstdSep.Proofs.Handles
import SeekZstdSep.Proofs.Deliver
import SeekZstdSep.Proofs.EditTotal
import SeekZstdSep.Proofs.Separators
import SeekZstdSep.Proofs.Reopen
import SeekZstdSep.Proofs.Store
import SeekZstdSep.Proofs.Concurrent
import SeekZstdSep.Proofs.Session
import SeekZstdSep.Proofs.Values
import SeekZstdSep.Proofs.Cli
import SeekZstdSep.Proofs.System
import SeekZstdSep.Proofs.SharedFile
