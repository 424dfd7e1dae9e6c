import StackQueue.TransitionSystem
import StackQueue.QueueOverflow
import StackQueue.Bookkeeping
import StackQueue.BatchDelivery
import StackQueue.Cancellation
import StackQueue.TaskCompletion
import StackQueue.TaskReceivers
import StackQueue.TaskLedger
import StackQueue.RegionWord
import StackQueue.AssignmentPanics
import StackQueue.CompletionReceipts
import StackQueue.QueueCapacity
import StackQueue.OccupancyCheck
import StackQueue.TaskStrikes
import StackQueue.TaskApplied
import StackQueue.CircularRegions
import StackQueue.QueueRegions
import StackQueue.QueueEpisodes
import StackQueue.NarrowOccupancy
import StackQueue.RangeAccounts
import StackQueue.BatchReduction
import StackQueue.BackgroundTasks
import StackQueue.IteratorAnswers
import StackQueue.NarrowAdmission
import StackQueue.ThreadAnswers
import StackQueue.LinearPushes
import StackQueue.Settling
import StackQueue.TaskProgress
import StackQueue.TaskSettled
import StackQueue.TaskDelivery
