import ReleaseGate.Error

/-!
Action plans: the proposed and the final action of a verdict, and the history of the plan's status.
Only `transitionTo` changes the status, and it appends to the history. What a plan does not
interpret is carried as it came; the contract says what it should be.
-/

namespace ReleaseGate

structure Transition where
  old : PlanStatus
  new : PlanStatus
  timestamp : Value
  reason : Value
  deriving DecidableEq

structure Plan where
  requestId : Value
  runId : Value
  proposedAction : Value
  finalAction : Value
  confidence : Value
  learningMode : Value
  approved : Value
  status : PlanStatus
  history : List Transition
  deriving DecidableEq

namespace Transition

def toValue (t : Transition) : Value :=
  .object [("from", .str t.old.name), ("to", .str t.new.name), ("timestamp", t.timestamp),
    ("reason", t.reason)]

def ofValue (v : Value) : Except Misfit Transition := do
  let old ← PlanStatus.ofValue (← v.need "from")
  let new ← PlanStatus.ofValue (← v.need "to")
  let timestamp ← v.need "timestamp"
  let reason ← v.need "reason"
  return ⟨old, new, timestamp, reason⟩

end Transition

namespace Plan

def transitionTo (p : Plan) (status : PlanStatus) (timestamp reason : Value) :
    Except Error Plan :=
  if p.status.mayBecome status then
    .ok { p with status, history := p.history ++ [⟨p.status, status, timestamp, reason⟩] }
  else .error (.invalidTransition p.status status)

/-- The members of a plan's document apart from its schema. -/
def members (p : Plan) : List (Text × Value) :=
  [("action_request_id", p.requestId), ("run_id", p.runId), ("proposed_action", p.proposedAction),
   ("final_action", p.finalAction), ("confidence", p.confidence),
   ("learning_mode", p.learningMode), ("approved_for_execution", p.approved),
   ("status", .str p.status.name), ("status_transitions", .list (p.history.map Transition.toValue))]

def toValue (p : Plan) : Value :=
  .object (("schema_version", .str Contract.planSchema) :: p.members)

/-- Builds a plan from a document that need not be as its contract says. -/
def ofValue (v : Value) : Except Misfit Plan := do
  let requestId ← v.need "action_request_id"
  let runId ← v.need "run_id"
  let proposedAction ← v.need "proposed_action"
  let finalAction ← v.need "final_action"
  let confidence ← v.need "confidence"
  let learningMode ← v.need "learning_mode"
  let approved ← v.need "approved_for_execution"
  let status ← PlanStatus.ofValue (← v.need "status")
  let history ← (← ((← v.find "status_transitions").getD (.list [])).walk).mapM Transition.ofValue
  return ⟨requestId, runId, proposedAction, finalAction, confidence, learningMode, approved, status,
    history⟩

def check (p : Plan) : Except Error Unit :=
  match Contract.planIssues p.toValue with
  | [] => .ok ()
  | issues => .error (.contractViolation "plan" issues)

end Plan

end ReleaseGate
