import RefPool.Proofs.SingleFlight
import RefPool.Proofs.References
import RefPool.Proofs.Conservation
import RefPool.Proofs.UseAfterDispose
import RefPool.Proofs.Ceiling
import RefPool.Proofs.Wakeup
import RefPool.Proofs.Breaker
import RefPool.Proofs.DrainComplete
import RefPool.Proofs.Shutdown
import RefPool.Proofs.Deadline
import RefPool.Proofs.Fairness
import RefPool.Proofs.RequestScope
import RefPool.Proofs.Diagram
import RefPool.Proofs.Probes
import RefPool.Proofs.Connections
import RefPool.Proofs.Traces
import RefPool.Proofs.Upkeep
import RefPool.Proofs.Exporters
import RefPool.Proofs.DisposedOnce
import RefPool.Proofs.Unwedged
import RefPool.Proofs.Exclusive
import RefPool.Proofs.Settlements
import RefPool.Proofs.Eviction
import RefPool.Proofs.Tally
import RefPool.Proofs.Reports
import RefPool.Proofs.Protection
import RefPool.Proofs.Rejection
import RefPool.Proofs.IdleCalls
import RefPool.Proofs.Lookups
import RefPool.Proofs.WarmUp
import RefPool.Proofs.Sequential
import RefPool.Proofs.ProtectedRuns
import RefPool.Proofs.Delivery
import RefPool.Proofs.Bindings
import RefPool.Proofs.Turns
import RefPool.Proofs.Progress
import RefPool.Proofs.Lending
import RefPool.Proofs.Clients
import RefPool.Proofs.Retired
import RefPool.Proofs.Connected
import RefPool.Proofs.Budget
