import Threads.SizeT
import Threads.Checked
import Threads.Rounding
import Threads.Loop
import Threads.Custody
import Threads.Concurrency.Total
import Threads.Concurrency.Program
import Threads.Concurrency.Run
import Threads.Concurrency.Progress
import Threads.Concurrency.Projection
import Threads.Concurrency.Ledger
import Threads.Concurrency.Locking
import Threads.Concurrency.Discipline
import Threads.Concurrency.Deadlock
import Threads.Manager.Queue
import Threads.Manager.Impl
import Threads.Manager.Worker
import Threads.Manager.Calls
import Threads.Manager.System
import Threads.Manager.Counting
import Threads.Manager.History
import Threads.Manager.Accounting
import Threads.Manager.Rank
import Threads.Manager.Rest
import Threads.Manager.Returning
import Threads.Manager.Roster
import Threads.Manager.Expiry
import Threads.Manager.Withdrawal
import Threads.Manager.Exceptions
import Threads.Manager.Unlocked
import Threads.Manager.Pool
import Threads.Manager.Wakeups
import Threads.Manager.TaskCount
import Threads.Manager.Producers
import Threads.Manager.Halfway
import Threads.Manager.Removal
import Threads.Manager.Shutdown
import Threads.Manager.Identity
import Threads.Manager.Bound
import Threads.Manager.Timeouts
import Threads.Manager.Stopping
import Threads.Manager.Growing
import Threads.Manager.Creation
import Threads.Manager.Draining
import Threads.Splitter.Scheduler
import Threads.Splitter.Pending
import Threads.Splitter.Waiting
import Threads.Splitter.Jobs
import Threads.Splitter.Places
import Threads.Splitter.Observers
import Threads.Splitter.Teardown
import Threads.Splitter.Completion
import Threads.Splitter.ObserverList
import Threads.Splitter.Submission
import Threads.Splitter.Strategy
import Threads.Splitter.Rank
import Threads.Splitter.Rest
import Threads.Factory.SimpleThread
import Threads.Factory.Lifetime
import Threads.Locks.Operations
import Threads.Locks.Ownership
import Threads.Locks.Deadlock
import Threads.Locks.NoStarve
import Threads.Locks.Exclusion
import Threads.Time.TimeUtil
import Threads.Time.Conversion
import Threads.Time.Deadlines
import Threads.Net.Socket
import Threads.Net.Read
import Threads.Net.Open
import Threads.Net.Descriptors
