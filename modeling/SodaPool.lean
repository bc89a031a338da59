import SodaPool.Outage
import SodaPool.Uniqueness
import SodaPool.ReportBroken
import SodaPool.Exclusion
import SodaPool.Conservation
import SodaPool.Interference
import SodaPool.ForcedRecheck
import SodaPool.LostUpdate
import SodaPool.Provenance
import SodaPool.Wakeup
import SodaPool.Withdrawal
import SodaPool.Retry
import SodaPool.Exhaustion
import SodaPool.Deadlock
import SodaPool.TonicFile
import SodaPool.Clientless
import SodaPool.SecondPass
import SodaPool.Attempts
import SodaPool.RoundRobin
import SodaPool.Reconcile
import SodaPool.RawNames
import SodaPool.Services
import SodaPool.TemplateBuild
import SodaPool.Linearization
import SodaPool.Waiters
import SodaPool.Starvation
import SodaPool.Recovery
import SodaPool.Schedule
import SodaPool.Blame
import SodaPool.Crowd
import SodaPool.Atomicity
import SodaPool.Hygiene
import SodaPool.Lifetime
import SodaPool.Pace
import SodaPool.Limit
import SodaPool.Patience
import SodaPool.Stability
import SodaPool.PartialBuild
import SodaPool.Settings
