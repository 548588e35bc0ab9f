import Jio.Library.LinkedOrder
import Jio.Library.Recency
import Jio.Library.ByteOrder
import Jio.Library.TerminatedString
import Jio.Library.ReadBack
import Jio.Library.Rounding
import Jio.Library.FaultingRuns
import Jio.Library.ReadProgram
import Jio.Library.Interleaving
import Jio.Library.FirstFailure
import Jio.Library.BlockStream
import Jio.Library.ChainedTable
import Jio.JournalDef
import Jio.IdReaders
import Jio.BufferCache
import Jio.BufferCacheProofs
import Jio.CachedReads
import Jio.InFlightReads
import Jio.LruRecency
import Jio.ObjectIteration
import Jio.IterationTermination
import Jio.UsageReport
import Jio.KernelReads
import Jio.ObjectDecode
import Jio.ObjectLoads
import Jio.HashTableIteration
import Jio.ReclaimTailWaste
import Jio.JournalImage
import Jio.LoadedTables
import Jio.ReportTailWaste
import Jio.TailWasteShares
import Jio.LayoutReport
import Jio.HumaneBytes
import Jio.TallyBounds
import Jio.HashTableTermination
import Jio.PayloadHash
import Jio.HashStreams
import Jio.HashPaths
import Jio.HashedObjects
import Jio.ReusedBuffers
import Jio.VerifyWalk
import Jio.EntryArrays
import Jio.EntryArrayStats
import Jio.JournalsOpen
import Jio.RegisteredReads
import Jio.OpenFailures
import Jio.Reports
import Jio.ReportTotals
import Jio.UsageRuns
import Jio.CommandResults
import Jio.ReclaimedJournals
import Jio.LayoutFiles
import Jio.VerifyJournals
import Jio.Commands
