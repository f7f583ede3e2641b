import FioSsd.Seg2bitsmap.Word
import FioSsd.Generator.ReadBack
import FioSsd.Verify.Area
import FioSsd.Verify.Offset
import FioSsd.Backend.Requeue
import FioSsd.Backend.ShortRead
import FioSsd.Backend.VerifyBacklog
import FioSsd.Generator.Sequential
import FioSsd.Generator.Coverage
import FioSsd.Backend.BusyEngine
import FioSsd.Backend.InFlight
import FioSsd.Engines.Vsync
import FioSsd.Engines.Mmap
import FioSsd.Setup.OpenFile
import FioSsd.Backend.Accounting
import FioSsd.Backend.FileLock
import FioSsd.Backend.ThreadMain
import FioSsd.Generator.Logged
import FioSsd.Net.Jobline
import FioSsd.Net.EtaRequests
import FioSsd.Net.Summary
import FioSsd.Iolog.RoundTrip
import FioSsd.Backend.Flow
import FioSsd.Iolog.TraceSummary
import FioSsd.Stat.Report
import FioSsd.Backend.BufferArea
import FioSsd.Backend.Refill
import FioSsd.Engines.LibaioSync
import FioSsd.Iolog.FileSlots
import FioSsd.Smalloc.Search
import FioSsd.History.TrimQueue
import FioSsd.Setup.VerifyPattern
import FioSsd.Verify.Data
import FioSsd.Backend.BypassFlag
import FioSsd.Backend.Gettime
import FioSsd.Setup.FileSizes
import FioSsd.Stat.SampleLog
import FioSsd.Stat.Percentile
import FioSsd.Backend.Mutex
import FioSsd.Backend.RoundRobin
import FioSsd.Setup.Substitute
import FioSsd.Stat.Eta
import FioSsd.Setup.Decimal
import FioSsd.Setup.Posval
import FioSsd.Iolog.Fifo
import FioSsd.Setup.Keyword
import FioSsd.Setup.FileNames
import FioSsd.Generator.Rand
import FioSsd.Setup.Distance
import FioSsd.Stat.Num2str
