import ReleaseGate.Adapter.Basic
import ReleaseGate.Audit.Entry

/-!
The outcome of an execution, and the record of it that goes to the audit log.
-/

namespace ReleaseGate.Execution

structure Outcome where
  plan : Plan
  results : List AdapterResult
  entryHash : Text
  deriving DecidableEq

namespace Outcome

def succeeded (o : Outcome) : Bool := o.plan.status = .verified

def toValue (o : Outcome) : Value :=
  .object [
    ("plan", o.plan.toValue),
    ("adapter_results", .list (o.results.map AdapterResult.toValue)),
    ("audit_entry_hash", .str o.entryHash)]

end Outcome

def auditRecord (plan : Plan) (verdictHash : String) (results : List AdapterResult)
    (dryRun : Value) (timestamp : Text) : Value :=
  .object (([
    ("schema_version", .str Contract.auditSchema),
    ("timestamp", .str timestamp),
    ("verdict_hash", .str verdictHash),
    ("dry_run", dryRun),
    ("adapter_results", .list (results.map AdapterResult.toValue))] : List (Text × Value)) ++
    plan.members)

end ReleaseGate.Execution
