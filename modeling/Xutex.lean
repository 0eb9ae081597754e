import Xutex.Barrier.Exact
import Xutex.Barrier.Model
import Xutex.Barrier.Rounds
import Xutex.Barrier.Settling
import Xutex.Barrier.Sleepers
import Xutex.Barrier.Standstill
import Xutex.Barrier.Steps
import Xutex.Barrier.Stranded
import Xutex.Barrier.Waiting
import Xutex.Concurrency.Admission
import Xutex.Concurrency.Atomic
import Xutex.Concurrency.Handoff
import Xutex.Concurrency.Line
import Xutex.Concurrency.Linked
import Xutex.Concurrency.Observers
import Xutex.Concurrency.Parties
import Xutex.Concurrency.Ranking
import Xutex.Concurrency.Runs
import Xutex.Core.Account
import Xutex.Core.DynamicWaker
import Xutex.Core.Passage
import Xutex.Core.Pointer
import Xutex.Core.PoppedChain
import Xutex.Core.Rearm
import Xutex.Core.Settling
import Xutex.Core.Signal
import Xutex.Core.SignalQueue
import Xutex.Core.Sleepers
import Xutex.Core.Standstill
import Xutex.Core.WaitQueue
import Xutex.Core.Waiters
import Xutex.Lifetimes
import Xutex.Mutex.Fifo
import Xutex.Mutex.Model
import Xutex.Mutex.Ownership
import Xutex.Mutex.Settling
import Xutex.Mutex.Sleepers
import Xutex.Mutex.Standstill
import Xutex.Mutex.Waiting
import Xutex.Mutex.Word
import Xutex.Notify.Delivery
import Xutex.Notify.Frames
import Xutex.Notify.Generations
import Xutex.Notify.Model
import Xutex.Notify.Notifications
import Xutex.Notify.Rest
import Xutex.Notify.Waiting
import Xutex.Notify.Word
import Xutex.OnceCell.Agreement
import Xutex.OnceCell.Frames
import Xutex.OnceCell.Model
import Xutex.OnceCell.Running
import Xutex.OnceCell.Takeover
import Xutex.OnceCell.Waiting
import Xutex.Recycling.Exclusive
import Xutex.Recycling.Links
import Xutex.Recycling.Loom
import Xutex.Recycling.Model
import Xutex.Recycling.Places
import Xutex.Recycling.Queue
import Xutex.Recycling.Tagging
import Xutex.RwLock.Exclusion
import Xutex.RwLock.Model
import Xutex.RwLock.Standstill
import Xutex.Semaphore.Cancel
import Xutex.Semaphore.Closing
import Xutex.Semaphore.Conservation
import Xutex.Semaphore.Frames
import Xutex.Semaphore.Greedy
import Xutex.Semaphore.Ledger
import Xutex.Semaphore.Limit
import Xutex.Semaphore.Linked
import Xutex.Semaphore.Model
import Xutex.Semaphore.Order
import Xutex.Semaphore.Permits
import Xutex.Semaphore.Pool
import Xutex.Semaphore.Refunds
import Xutex.Semaphore.Refusal
import Xutex.Semaphore.Sequential
import Xutex.Semaphore.Service
import Xutex.Semaphore.Settling
import Xutex.Semaphore.Sleepers
import Xutex.Semaphore.Standstill
import Xutex.Semaphore.Stranded
import Xutex.Semaphore.Waiting
