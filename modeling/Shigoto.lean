import Shigoto.BudgetTrace
import Shigoto.Cohort
import Shigoto.DagSets
import Shigoto.Digest
import Shigoto.Fsm
import Shigoto.Persist
import Shigoto.Plan
import Shigoto.Rank
import Shigoto.Scheduler.Audit
import Shigoto.Scheduler.Backoff
import Shigoto.Scheduler.Bounds
import Shigoto.Scheduler.Capture
import Shigoto.Scheduler.Cleanup
import Shigoto.Scheduler.Completion
import Shigoto.Scheduler.Convergence
import Shigoto.Scheduler.Drain
import Shigoto.Scheduler.Drivers
import Shigoto.Scheduler.Durable
import Shigoto.Scheduler.GateVerdict
import Shigoto.Scheduler.Operators
import Shigoto.Scheduler.Panics
import Shigoto.Scheduler.Persistence
import Shigoto.Scheduler.Progress
import Shigoto.Scheduler.Rearm
import Shigoto.Scheduler.RestartCaps
import Shigoto.Scheduler.Resume
import Shigoto.Scheduler.Retries
import Shigoto.Scheduler.Serial
import Shigoto.Scheduler.WaveOrder
import Shigoto.Signature
import Shigoto.Sink
import Shigoto.Store
import Shigoto.Summary
import Shigoto.Validate
import Shigoto.Watch
