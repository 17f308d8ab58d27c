import Jixia.Overdue
import Jixia.ReceiverWakes
import Jixia.Joins
import Jixia.DelayQueues
import Jixia.PageAccounting
import Jixia.StackMapping
import Jixia.Sv39Range
import Jixia.PnorBoot
import Jixia.FdtScan
import Jixia.TraceSoundness
import Jixia.TraceLog
import Jixia.FormatFields
import Jixia.LibMemory
