import Coppice.Agent.Blind
import Coppice.Agent.FailedAppend
import Coppice.Agent.Lifetime
import Coppice.Consensus.EventTap
import Coppice.Coordinator.Enroll
import Coppice.Coordinator.Fanout
import Coppice.Coordinator.Liveness
import Coppice.Coordinator.Gateway
import Coppice.Coordinator.Housekeeping
import Coppice.Coordinator.Resumption
import Coppice.Coordinator.Verdicts
import Coppice.Coordinator.Isolation
import Coppice.Coordinator.Resync
import Coppice.Proto.Entry
import Coppice.Scheduler.Exact
import Coppice.Scheduler.Simulate
import Coppice.State.AccrualLimit
import Coppice.State.Confine
import Coppice.State.Custody
import Coppice.State.Emptying
import Coppice.State.Index
import Coppice.State.Resubmit
import Coppice.State.Solvency
import Coppice.State.Terminations
import Coppice.Storage.Entries
