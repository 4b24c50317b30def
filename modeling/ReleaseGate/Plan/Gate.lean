import ReleaseGate.Plan.Basic
import ReleaseGate.Verdict.Build
import ReleaseGate.Clock

/-!
The gate between a verdict and its execution. A deployment is approved outside learning mode when
the confidence reaches the threshold, a rollback outside learning mode, and everything else is held.
The id of a plan identifies its run, verdict and final action.
-/

namespace ReleaseGate

namespace Plan

structure Decision where
  finalAction : Value
  approved : Bool
  reason : Text
  deriving DecidableEq

def holdAction : Value := .str FactoryAction.holdForHuman.name

/-- The decision on a proposal; the confidence is compared only where it can matter. -/
def decide (proposed confidence threshold : Value) (learning : Bool) : Except Misfit Decision := do
  if proposed = .str FactoryAction.approveAutomergeDeploy.name then
    if learning then return ⟨holdAction, false, "learning mode: auto-execution disabled"⟩
    else if ← threshold.notAfter confidence then
      return ⟨proposed, true, "confidence meets auto-execute threshold"⟩
    else return ⟨holdAction, false, "confidence below auto-execute threshold"⟩
  else if proposed = .str FactoryAction.killAndRollback.name then
    if learning then return ⟨proposed, false, "learning mode: auto-execution disabled"⟩
    else return ⟨proposed, true, "rollback approved for automatic execution"⟩
  else return ⟨proposed, false, "held for human review"⟩

def requestIdFor (run verdictHash finalAction : Value) : Except Misfit String :=
  let text := run.display ++ "|" ++ verdictHash.display ++ "|" ++ finalAction.display
  text.encoded.map fun s => "AR-" ++ String.ofList ((Digest.sha256 s).toList.take 16)

def checkThreshold (threshold : Value) : Except Error Unit := do
  let fromZero ← Misfit.lift ((Value.float (.zero false)).notAfter threshold)
  if !fromZero then throw (.thresholdOutside threshold)
  let toOne ← Misfit.lift (threshold.notAfter (.float .one))
  if !toOne then throw (.thresholdOutside threshold)

/-- A plan for a verdict before its first transition, and the decision behind it. -/
def propose (verdict threshold : Value) : Except Misfit (Plan × Decision) := do
  let proposal ← verdict.need "verdict"
  let proposed ← proposal.need "proposed_action"
  let confidence ← proposal.need "confidence"
  let learningMode ← (← verdict.need "inputs").need "learning_mode"
  let runId ← (← verdict.need "run").need "run_id"
  let d ← decide proposed confidence threshold learningMode.truthy
  let requestId ← requestIdFor runId (.str (← Verdict.contentHash verdict)) d.finalAction
  return ({
    requestId := .str requestId
    runId
    proposedAction := proposed
    finalAction := d.finalAction
    confidence
    learningMode
    approved := .bool d.approved
    status := .proposed
    history := [] }, d)

/-- The plan for a verdict under a threshold, opened at the time that the clock gives. -/
def ofVerdict (verdict threshold : Value) : ExceptT Error (StateM Clock) Plan := do
  Verdict.accept verdict
  checkThreshold threshold
  let (p, d) ← Misfit.lift (propose verdict threshold)
  let timestamp ← now
  let p ← p.transitionTo (if d.approved then .approved else .proposed) (.str timestamp)
    (.str d.reason)
  p.check
  return p

end Plan

end ReleaseGate
