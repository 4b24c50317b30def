import ReleaseGate.Adapter.Failure
import ReleaseGate.Enforcement
import ReleaseGate.Execution.Run
import ReleaseGate.Logging.Setup
import ReleaseGate.Plan.Gate
import ReleaseGate.Policy.File
import ReleaseGate.Proofs.Audit.Uses
import ReleaseGate.Proofs.Execution.Calls
import ReleaseGate.Proofs.Execution.Sharing
import ReleaseGate.Proofs.Execution.FailStop
import ReleaseGate.Proofs.Execution.Markers
import ReleaseGate.Proofs.Condition.Mentions
import ReleaseGate.Proofs.Policy.Identifiers
import ReleaseGate.Proofs.Policy.Admission
import ReleaseGate.Proofs.Policy.Meaning
import ReleaseGate.Proofs.Number.Bounds
import ReleaseGate.Proofs.Verdict.Scores
import ReleaseGate.Proofs.Verdict.Reasons
import ReleaseGate.Proofs.Verdict.Built
import ReleaseGate.Proofs.Condition.Grammar
import ReleaseGate.Proofs.Condition.Joining
import ReleaseGate.Proofs.Audit.Verification
import ReleaseGate.Proofs.Audit.History
import ReleaseGate.Proofs.Audit.Tail
import ReleaseGate.Proofs.Audit.Replacement
import ReleaseGate.Proofs.Plan.Caution
import ReleaseGate.Proofs.Plan.Pipeline
import ReleaseGate.Proofs.Plan.RequestId
import ReleaseGate.Proofs.Plan.Lifecycle
import ReleaseGate.Proofs.Policy.Dependence
import ReleaseGate.Proofs.Contract.Enforcement
import ReleaseGate.Proofs.Contract.Restored
import ReleaseGate.Proofs.Contract.Independence
import ReleaseGate.Proofs.Verdict.Accord
import ReleaseGate.Proofs.Verdict.Canary
import ReleaseGate.Proofs.Condition.Thresholds
import ReleaseGate.Proofs.Condition.Partition
