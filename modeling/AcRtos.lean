import AcRtos.DeletedTasks
import AcRtos.StalePriority
import AcRtos.StrictPriority
import AcRtos.DelayMs
import AcRtos.Resume
import AcRtos.Refusals
import AcRtos.Tokens
import AcRtos.Fifo
import AcRtos.Guards
import AcRtos.Matches
import AcRtos.Stacks
import AcRtos.SingleList
import AcRtos.ParkedPath
import AcRtos.FailedWaits
import AcRtos.Resumption
import AcRtos.Faults
import AcRtos.OrderedLocks
import AcRtos.TimedWaits
