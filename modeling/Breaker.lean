import Breaker.Foundation.Runs
import Breaker.Foundation.Simulation
import Breaker.Foundation.Lists
import Breaker.Foundation.Streaks
import Breaker.Foundation.Pool
import Breaker.Foundation.Deferred
import Breaker.Foundation.Overwriting
import Breaker.Foundation.Circuit
import Breaker.Foundation.Formats
import Breaker.Foundation.Rounding
import Breaker.Foundation.FloatValue
import Breaker.Foundation.Xorshift
import Breaker.Config.Backoff
import Breaker.Config.Rates
import Breaker.Config.Builder
import Breaker.Config.Exact
import Breaker.Config.Jitter
import Breaker.Config.Setters
import Breaker.Config.Doubles
import Breaker.State.Window
import Breaker.State.Machine
import Breaker.State.Reachable
import Breaker.State.Standing
import Breaker.State.Tripping
import Breaker.State.TripCheck
import Breaker.State.SinglePrecision
import Breaker.State.StreakRule
import Breaker.State.Counters
import Breaker.State.TripBudget
import Breaker.State.Overflow
import Breaker.State.Ring
import Breaker.State.Outage
import Breaker.State.Unwinding
import Breaker.State.Tightening
import Breaker.State.Progression
import Breaker.State.Waits
import Breaker.State.SuccessCheck
import Breaker.State.Eager
import Breaker.State.CleanSlate
import Breaker.State.Refinement
import Breaker.State.RateRule
import Breaker.Call.CircuitBreaker
import Breaker.Call.Announcements
import Breaker.Call.Histogram
import Breaker.Call.Metrics
import Breaker.Call.Tower
import Breaker.Tasks.System
import Breaker.Tasks.Permits
import Breaker.Tasks.Lock
import Breaker.Tasks.FailFast
import Breaker.Tasks.Episode
import Breaker.Tasks.Budget
import Breaker.Tasks.Verdict
import Breaker.Tasks.Lockout
import Breaker.Tasks.Accounting
import Breaker.Tasks.Reports
import Breaker.Tasks.Clients
import Breaker.Tasks.Admission
import Breaker.Tasks.Liveness
import Breaker.Tasks.Serial
import Breaker.Tasks.Harnesses
import Breaker.Tasks.Delivery
import Breaker.Tasks.Snapshots
import Breaker.Tasks.Availability
import Breaker.Tasks.Silence
import Breaker.Tasks.Metered
