import RouterKernel.Replay.Legacy
import RouterKernel.Replay.Esn
import RouterKernel.SocketFilter.Soundness
import RouterKernel.SocketFilter.Refinement
import RouterKernel.Reassembly.Accounting
import RouterKernel.Translation.Packet
import RouterKernel.Bonding.Credits
import RouterKernel.RecordLocks.Waiters
import RouterKernel.Strings.Kstrtox
import RouterKernel.Resources.Sequences
import RouterKernel.Division.Wide
import RouterKernel.Queues.Kfifo
import RouterKernel.Acl.Modes
import RouterKernel.Calendar.Conversion
import RouterKernel.Ecc.Correction
import RouterKernel.Bonding.Ratio
import RouterKernel.Replay.Safety
import RouterKernel.SocketFilter.Attributes
import RouterKernel.Tracking.EspSlots
import RouterKernel.Snooping.Headers
import RouterKernel.Tracking.TcpOptions
import RouterKernel.Translation.SegmentSum
import RouterKernel.Peers.RateLimit
import RouterKernel.RecordLocks.UserRange
import RouterKernel.Ids.Walk
import RouterKernel.Semaphores.Adjustments
import RouterKernel.Ranges.CleanSort
import RouterKernel.Fractions.Approximation
import RouterKernel.TextSearch.BoyerMoore
import RouterKernel.MemoryBlocks.Allocation
import RouterKernel.MemoryBlocks.Queries
import RouterKernel.Bitmaps.ListRoundTrip
import RouterKernel.Resources.Adjustment
import RouterKernel.Bitmaps.Areas
import RouterKernel.Resources.Reservation
import RouterKernel.Timers.Exact
import RouterKernel.Timers.Slack
import RouterKernel.Timers.Timeval
