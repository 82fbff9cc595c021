import Brtos.Allocation
import Brtos.Arguments
import Brtos.Atob
import Brtos.Balance
import Brtos.Blocking
import Brtos.Bounds
import Brtos.Calendar
import Brtos.Ceiling
import Brtos.Cells
import Brtos.Commands
import Brtos.Config
import Brtos.Contract
import Brtos.Conversion
import Brtos.Custody
import Brtos.DelayList
import Brtos.Delayed
import Brtos.Deletion
import Brtos.Delivery
import Brtos.Devices
import Brtos.Dynamic
import Brtos.DynamicTasks
import Brtos.Event
import Brtos.Exclusion
import Brtos.Filing
import Brtos.Frame
import Brtos.Hal
import Brtos.History
import Brtos.Index
import Brtos.Invariant
import Brtos.Kernel
import Brtos.Latches
import Brtos.Library.Answer
import Brtos.Library.Bisection
import Brtos.Library.Bitmap
import Brtos.Library.Chain
import Brtos.Library.Civil
import Brtos.Library.Counter
import Brtos.Library.Decimal
import Brtos.Library.Gregorian
import Brtos.Library.Heap
import Brtos.Library.Linked
import Brtos.Library.Ring
import Brtos.Library.Run
import Brtos.Library.Sections
import Brtos.Library.Words
import Brtos.LineEditing
import Brtos.Locality
import Brtos.LongDelay
import Brtos.Mailbox
import Brtos.MakeTime
import Brtos.Mapping
import Brtos.Mbox
import Brtos.Mutex
import Brtos.Nesting
import Brtos.Ownership
import Brtos.Posting
import Brtos.Preemption
import Brtos.Queue
import Brtos.QueueStack
import Brtos.Reachable
import Brtos.Records
import Brtos.Recycling
import Brtos.Reentry
import Brtos.Refine
import Brtos.Remaining
import Brtos.Removal
import Brtos.Reports
import Brtos.Reservation
import Brtos.RingQueues
import Brtos.Roster
import Brtos.Semaphore
import Brtos.Sentinel
import Brtos.Services
import Brtos.Sound
import Brtos.Stacks
import Brtos.Starting
import Brtos.Stopping
import Brtos.Strftime
import Brtos.Switching
import Brtos.SysArch
import Brtos.System
import Brtos.TaskMemory
import Brtos.TaskStacks
import Brtos.Tasks
import Brtos.Terminal
import Brtos.Tickless
import Brtos.TimeLib
import Brtos.TimeText
import Brtos.TimerBlocks
import Brtos.TimerLists
import Brtos.TimerRuns
import Brtos.TimerServices
import Brtos.TimerTask
import Brtos.Timers
import Brtos.Timing
import Brtos.Tokens
import Brtos.Umm
import Brtos.UmmGaps
import Brtos.UmmLayout
import Brtos.UmmQueues
import Brtos.UmmRuns
import Brtos.UmmSearch
import Brtos.UmmSteps
import Brtos.Uncontended
import Brtos.Uninstall
import Brtos.View
import Brtos.Waiting
import Brtos.WideQueue
import Brtos.Woken
